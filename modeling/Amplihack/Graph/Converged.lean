import Amplihack.Graph.Spread

/-
  Where every created node names an id of its own, nodes are
  kept, generated ids are new and two gossip rounds are enough.
-/

-- Nodes That Are Found

namespace Graph

open Base

namespace Sharded

variable {H : Hashing}
variable {w : Sharded H}

/- All shards have the same nodes. -/
def Converged (w : Sharded H) : Prop :=
  ∀ a b sa sb, w.shards.get? a = some sa →
    w.shards.get? b = some sb →
      ∀ t i, sa.store.getNode t i = sb.store.getNode t i

/-
  Created nodes are found, new ids are new, and two rounds
  without false answers leave the same nodes everywhere.
-/
structure Meets (w : Sharded H) : Prop where
  kept : ∀ c ∈ w.created, c.holders ≠ [] →
    w.getNode c.table c.id = some c.properties
  fresh : ∀ table properties id, properties.text "id" = none →
    Named w (.createNode table properties) →
    (w.createNode table properties).2 = .ok id →
      ∀ a, w.nodeAt a table id = none
  converged : w.ExactRound → w.gossipRound.ExactRound →
    w.gossipRound.gossipRound.Converged

theorem nodeAt_of_mem_values
    {shard : Shard H} (hMem : shard ∈ w.shards.values) :
    ∃ a, ∀ t i, w.nodeAt a t i = shard.store.getNode t i := by
  obtain ⟨⟨a, s⟩, hEntry, rfl⟩ := List.mem_map.mp hMem
  refine ⟨a, ?_⟩
  intro t i
  unfold nodeAt
  rw [OrderedMap.get?_of_mem_entries hEntry]
  rfl

theorem getNode_of_nodeAt
    {a t i : String} {p : Props} (hInv : Inv w)
    (hSome : w.nodeAt a t i = some p) :
    w.getNode t i = some p := by
  have hFound : ∀ (f : Shard H → Option Props) q,
      (∀ shard r, f shard = some r → shard.store.getNode t i = some r) →
      w.shards.values.findSome? f = some q → q = p := by
    intro f q hF hQ
    obtain ⟨shard, hMem, hHere⟩ :=
      List.exists_of_findSome?_eq_some hQ
    obtain ⟨b, hB⟩ := nodeAt_of_mem_values hMem
    have hNode := hB t i
    rw [hF shard q hHere] at hNode
    exact (hInv.unique b a t t i q p hNode hSome).2
  unfold getNode
  dsimp only
  cases hLikely : w.shards.values.findSome? fun shard =>
      if shard.bloom.mightContain i then
        shard.store.getNode t i
      else none with
  | some q =>
    rw [Option.some_or, hFound _ q ?_ hLikely]
    intro shard r hIf
    split at hIf
    · exact hIf
    · cases hIf
  | none =>
    rw [Option.none_or]
    cases hScan : w.shards.values.findSome?
        (·.store.getNode t i) with
    | some q => rw [hFound _ q (fun _ _ hHere => hHere) hScan]
    | none =>
      obtain ⟨shard, hShard, hNode⟩ :=
        Option.bind_eq_some_iff.mp hSome
      have hMem : shard ∈ w.shards.values :=
        List.mem_map.mpr ⟨_, OrderedMap.mem_entries_of_get? hShard, rfl⟩
      have hNone := List.findSome?_eq_none_iff.mp hScan shard hMem
      rw [hNode] at hNone
      cases hNone

/- The id that is returned is that of no present node. -/
theorem createNode_fresh
    {table id : String} {properties : Props} (hInv : Inv w)
    (hNamed : NamedNode w properties)
    (hOk : (w.createNode table properties).2 = .ok id) (a t : String) :
    w.nodeAt a t id = none := by
  unfold createNode at hOk
  split at hOk
  · cases hOk
  next content hContent =>
    obtain ⟨given, hId, hNew, -⟩ := prepare_named hInv hNamed
    have hPlaced := placed_of_text table
      (w.prepare properties).1.shards hId
      ((w.prepare properties).1.ring.getAgents H.hashKey content
        (w.prepare properties).1.replicationFactor)
    dsimp only at hOk
    split at hOk
    · cases hOk
    next owner first rest hFirst =>
      have hSame : first = given := by
        apply hPlaced.ids (owner, first)
        change _ ∈ ((w.prepare properties).1.place table content
          (w.prepare properties).2).2
        rw [hFirst]
        exact List.mem_cons_self
      cases hOk
      rw [hSame]
      exact hNew a t

theorem converged_of_exact
    (hInv : Inv w) (hFirst : w.ExactRound)
    (hSecond : w.gossipRound.ExactRound) :
    w.gossipRound.gossipRound.Converged := by
  intro a b sa sb hA hB t i
  have hSpreads := spreads_gossipRound w
  have hMid := hSpreads.inv hInv
  have hEnd := (spreads_gossipRound w.gossipRound).inv hMid
  have hRings : w.gossipRound.gossipRound.ring = w.ring :=
    (spreads_gossipRound w.gossipRound).ring.trans hSpreads.ring
  have hMemA : a ∈ w.ring.agents := by
    rw [← hRings, hEnd.members, hA]
    rfl
  have hMemB : b ∈ w.ring.agents := by
    rw [← hRings, hEnd.members, hB]
    rfl
  have hNodeA : w.gossipRound.gossipRound.nodeAt a t i =
      sa.store.getNode t i := by
    unfold nodeAt
    rw [hA]
    rfl
  have hNodeB : w.gossipRound.gossipRound.nodeAt b t i =
      sb.store.getNode t i := by
    unfold nodeAt
    rw [hB]
    rfl
  rw [← hNodeA, ← hNodeB]
  by_cases hMany : w.ring.agents.length < 2
  · have hOne : w.ring.agents.length = 1 := by
      have hPos := List.length_pos_of_mem hMemA
      omega
    obtain ⟨c, hC⟩ := List.length_eq_one_iff.mp hOne
    rw [hC] at hMemA hMemB
    rw [List.mem_singleton.mp hMemA, List.mem_singleton.mp hMemB]
  · have hRing : w.gossipRound.ring = w.ring := hSpreads.ring
    have hHas : w.gossipRound.gossipRound.has =
        pullAll (ringPairs w.ring.agents)
          (pullAll (ringPairs w.ring.agents) w.has) := by
      rw [has_gossip hMid hSecond (by rw [hRing]; exact hMany),
        has_gossip hInv hFirst hMany, hRing]
    -- what any shard ends with, some shard started with
    have hEvery : ∀ c d, c ∈ w.ring.agents →
        d ∈ w.ring.agents →
          w.gossipRound.gossipRound.has c ⊆
            w.gossipRound.gossipRound.has d := by
      intro c d hC hD
      rintro ⟨⟨u, j⟩, p⟩ hMem
      obtain ⟨m, hM⟩ := (spreads_gossipRound _).new c u j p hMem
      obtain ⟨e, hE⟩ := hSpreads.new m u j p hM
      have hMemE : e ∈ w.ring.agents := by
        rw [hInv.members]
        obtain ⟨s, hS, -⟩ := Option.bind_eq_some_iff.mp hE
        rw [hS]
        rfl
      have hStart : ((u, j), p) ∈ w.has e := hE
      rw [hHas]
      exact subset_pullAll_twice hMemE hD hStart
    apply Option.ext
    intro p
    constructor
    · intro hP
      have hHere : ((t, i), p) ∈ w.gossipRound.gossipRound.has a := hP
      exact hEvery a b hMemA hMemB hHere
    · intro hP
      have hHere : ((t, i), p) ∈ w.gossipRound.gossipRound.has b := hP
      exact hEvery b a hMemB hMemA hHere

theorem Inv.meets (hInv : Inv w) : Meets w where
  kept := by
    intro c hC hHolders
    obtain ⟨a, rest, hA⟩ := List.exists_cons_of_ne_nil hHolders
    have hKept := hInv.kept c hC a (by rw [hA]; exact List.mem_cons_self)
    exact getNode_of_nodeAt hInv hKept
  fresh := by
    intro table properties id _ hNamed hOk a
    exact createNode_fresh hInv hNamed hOk a table
  converged := converged_of_exact hInv

/- What a history may do: no false answers, and new ids. -/
def Allowed (w : Sharded H) (action : Action) : Prop :=
  Exact w action ∧ Named w action

theorem meets_of_named
    (replicationFactor : ℕ)
    (hRun : Reaches step Allowed (new replicationFactor) w) :
    Meets w := by
  have hInv := hRun.invariant Inv
    (fun v action hInv hAllowed =>
      step_inv v action hInv hAllowed.2)
    (new_inv replicationFactor)
  exact hInv.meets

-- One And Two Agents

def sample : Hashing where
  hashKey key :=
    key.toList.foldl (fun h c => h * 31 + c.toNat) 7
  positions id :=
    [id.toList.foldl (fun h c => h * 31 + c.toNat) 11]

def noted (content : String) : Props :=
  Dict.empty.insert "content" (.str content)

def exactlyMissing
    (w : Sharded H) (pair : String × String) :
    Bool :=
  (w.shards.get? pair.2).all fun s =>
    (w.shardNodeIds pair.1).all fun i =>
      !s.bloom.mightContain i || s.bloom.items.contains i

theorem exactPair_of_all
    {pair : String × String} (hAll : w.exactlyMissing pair = true) :
    w.ExactPair pair := by
  intro shard hShard i hMem hAnswer
  unfold exactlyMissing at hAll
  rw [hShard, Option.all_some, List.all_eq_true] at hAll
  have hItem := hAll i hMem
  rw [hAnswer, Bool.not_true, Bool.false_or] at hItem
  exact List.contains_iff_mem.mp hItem

/- A node on one of two agents. -/
def storedRun : Sharded sample :=
  (((new 1).step (.addAgent "a")).step (.addAgent "b")).step
    (.createNode "notes" (noted "x"))

/- A round of gossip brings it to the other. -/
theorem allowed_storedRun :
    Allowed storedRun .gossipRound := by
  have hRound : ringPairs storedRun.ring.agents =
        [("a", "b"), ("b", "a")] ∧
      storedRun.exactlyMissing ("a", "b") ∧
      (storedRun.syncPair ("a", "b")).exactlyMissing ("b", "a") := by
    decide +kernel
  obtain ⟨hPairs, hLeft, hRight⟩ := hRound
  refine ⟨?_, trivial⟩
  unfold Exact ExactRound
  rw [hPairs]
  exact ⟨exactPair_of_all hLeft, exactPair_of_all hRight,
    trivial⟩

theorem meets_of_storedRun :
    Meets (storedRun.step .gossipRound) := by
  apply meets_of_named 1
  have hFirst : Reaches step Allowed (new 1 : Sharded sample)
      ((new 1).step (.addAgent "a")) :=
    (Reaches.refl _).tail _ ⟨trivial, trivial⟩
  have hSecond := hFirst.tail (.addAgent "b") ⟨trivial, trivial⟩
  have hThird : Reaches step Allowed (new 1) storedRun :=
    hSecond.tail (.createNode "notes" (noted "x")) ⟨trivial, Or.inl rfl⟩
  exact hThird.tail .gossipRound allowed_storedRun

/- A node with the id that the counter makes first. -/
def namedRun : Sharded sample :=
  ((new 3).step (.addAgent "a")).step
    (.createNode "notes" (InMemory.withId (noted "x") (distId 1)))

/-
  The next node gets the id of the first and is stored in its
  place.
-/
theorem generated_id_is_taken :
    Reaches step Exact (new 3) namedRun ∧
      (namedRun.nodeAt "a" "notes" "dist-1").isSome ∧
      (namedRun.createNode "notes" (noted "y")).2 = .ok "dist-1" ∧
      ∃ c ∈ (namedRun.createNode "notes" (noted "y")).1.created,
        c.holders ≠ [] ∧
          (namedRun.createNode "notes" (noted "y")).1.getNode
            c.table c.id ≠ some c.properties := by
  have hCreated : (namedRun.nodeAt "a" "notes" "dist-1").isSome ∧
      (namedRun.createNode "notes" (noted "y")).2 = .ok "dist-1" ∧
      ((namedRun.createNode "notes"
        (noted "y")).1.created.any fun c =>
          !c.holders.isEmpty &&
            ((namedRun.createNode "notes" (noted "y")).1.getNode
              c.table c.id).bind (·.text "content") !=
                c.properties.text "content") = true := by decide +kernel
  obtain ⟨hThere, hId, hAny⟩ := hCreated
  refine ⟨?_, hThere, hId, ?_⟩
  · have hFirst : Reaches step Exact (new 3 : Sharded sample)
        ((new 3).step (.addAgent "a")) :=
      (Reaches.refl _).tail _ trivial
    exact hFirst.tail _ trivial
  · obtain ⟨c, hMem, hC⟩ := List.any_eq_true.mp hAny
    rw [Bool.and_eq_true, bne_iff_ne, Bool.not_eq_true',
      List.isEmpty_eq_false_iff] at hC
    refine ⟨c, hMem, hC.1, ?_⟩
    intro hSame
    apply hC.2
    rw [hSame]
    rfl

end Sharded

end Graph
