import Amplihack.Graph.Sharded

/-
  Where ids are new, every shard that has a node of some id
  has the same one, and the filters have exactly the ids.
-/

-- Ids

namespace Graph

open Base

namespace Sharded

variable {H : Hashing}
variable {w v : Sharded H}

theorem distId_inj {m n : ℕ} :
    distId m = distId n ↔ m = n := by
  refine ⟨?_, congrArg distId⟩
  intro hEq
  have hChars := congrArg String.toList hEq
  unfold distId at hChars
  rw [String.toList_append, String.toList_append,
    List.append_cancel_left_eq] at hChars
  have hDigits : Nat.toDigits 10 m = Nat.toDigits 10 n := by
    simpa [toString, Nat.repr] using hChars
  have hM := Nat.ofDigitChars_ten_toDigits (n := m)
  rw [hDigits, Nat.ofDigitChars_ten_toDigits] at hM
  exact hM.symm

/-
  The node has no id, or names one that no present node has
  and that the store will not generate later.
-/
def NamedNode (w : Sharded H) (properties : Props) : Prop :=
  properties.get? "id" = none ∨
    ∃ id, properties.text "id" = some id ∧
      (∀ a t, w.nodeAt a t id = none) ∧ ∀ n, w.nextId < n → id ≠ distId n

def Named (w : Sharded H) : Action → Prop
| .createNode _ properties => NamedNode w properties
| _ => True

structure Inv (w : Sharded H) : Prop where
  members : ∀ a, a ∈ w.ring.agents ↔ (w.shards.get? a).isSome
  filled : ∀ a s, w.shards.get? a = some s → s.Filled
  unique : ∀ a b t u i p q,
    w.nodeAt a t i = some p → w.nodeAt b u i = some q → t = u ∧ p = q
  bounded : ∀ a t n p, w.nodeAt a t (distId n) = some p → n ≤ w.nextId
  kept : ∀ c ∈ w.created, ∀ a ∈ c.holders,
    w.nodeAt a c.table c.id = some c.properties

theorem new_inv (replicationFactor : ℕ) :
    Inv (new replicationFactor : Sharded H) where
  members := by
    intro a
    refine iff_of_false List.not_mem_nil ?_
    change ¬ (OrderedMap.empty.get? a).isSome
    rw [OrderedMap.get?_empty]
    exact Bool.false_ne_true
  filled := by
    intro a s hGet
    change OrderedMap.empty.get? a = some s at hGet
    rw [OrderedMap.get?_empty] at hGet
    cases hGet
  unique := by
    intro a b t u i p q hSome
    change (OrderedMap.empty.get? a).bind _ = _ at hSome
    rw [OrderedMap.get?_empty] at hSome
    cases hSome
  bounded := by
    intro a t n p hSome
    change (OrderedMap.empty.get? a).bind _ = _ at hSome
    rw [OrderedMap.get?_empty] at hSome
    cases hSome
  kept := fun _ hMem => (List.not_mem_nil hMem).elim

-- Agents

theorem nodeAt_addAgent (agentId a t i : String) :
    (w.addAgent agentId).nodeAt a t i = w.nodeAt a t i := by
  unfold nodeAt addAgent
  dsimp only
  rw [OrderedMap.get?_upsert]
  split
  next hSelf =>
    rw [hSelf]
    cases w.shards.get? agentId with
    | none => exact InMemory.getNode_new t i
    | some shard => rfl
  next => rfl

theorem nodeAt_removeAgent (agentId a t i : String) :
    (w.removeAgent agentId).nodeAt a t i =
      if a = agentId then none else w.nodeAt a t i := by
  unfold nodeAt removeAgent
  dsimp only
  rw [OrderedMap.get?_restrict]
  by_cases hSelf : a = agentId
  · simp [hSelf]
  · simp [hSelf]

theorem addAgent_inv
    (hInv : Inv w) (agentId : String) :
    Inv (w.addAgent agentId) where
  members := by
    intro a
    change a ∈ (w.ring.addAgent H.hashKey agentId).agents ↔
      ((w.shards.upsert agentId _).get? a).isSome
    rw [HashRing.mem_agents_addAgent, OrderedMap.get?_upsert, hInv.members]
    split
    next hSelf => simp [hSelf]
    next hOther => simp [hOther]
  filled := by
    intro a s hGet
    change (w.shards.upsert agentId _).get? a = _ at hGet
    rw [OrderedMap.get?_upsert] at hGet
    split at hGet
    · cases hOld : w.shards.get? agentId with
      | none =>
        rw [hOld] at hGet
        cases hGet
        exact Shard.filled_new
      | some shard =>
        rw [hOld] at hGet
        cases hGet
        exact hInv.filled agentId shard hOld
    · exact hInv.filled a s hGet
  unique := by
    intro a b t u i p q hA hB
    rw [nodeAt_addAgent] at hA hB
    exact hInv.unique a b t u i p q hA hB
  bounded := by
    intro a t n p hSome
    rw [nodeAt_addAgent] at hSome
    exact hInv.bounded a t n p hSome
  kept := by
    intro c hC a hA
    rw [nodeAt_addAgent]
    exact hInv.kept c hC a hA

theorem removeAgent_inv
    (hInv : Inv w) (agentId : String) :
    Inv (w.removeAgent agentId) where
  members := by
    intro a
    change a ∈ (w.ring.removeAgent agentId).agents ↔
      ((w.shards.restrict (· != agentId)).get? a).isSome
    rw [HashRing.mem_agents_removeAgent,
      OrderedMap.get?_restrict, hInv.members]
    by_cases hSelf : a = agentId
    · simp [hSelf]
    · simp [hSelf]
  filled := by
    intro a s hGet
    change (w.shards.restrict (· != agentId)).get? a = _ at hGet
    rw [OrderedMap.get?_restrict] at hGet
    split at hGet
    · exact hInv.filled a s hGet
    · cases hGet
  unique := by
    intro a b t u i p q hA hB
    rw [nodeAt_removeAgent] at hA hB
    split at hA
    · cases hA
    · split at hB
      · cases hB
      · exact hInv.unique a b t u i p q hA hB
  bounded := by
    intro a t n p hSome
    rw [nodeAt_removeAgent] at hSome
    split at hSome
    · cases hSome
    · exact hInv.bounded a t n p hSome
  kept := by
    intro c hC a hA
    obtain ⟨d, hD, rfl⟩ := List.mem_map.mp hC
    obtain ⟨hHolder, hNe⟩ := List.mem_filter.mp hA
    rw [bne_iff_ne] at hNe
    rw [nodeAt_removeAgent, if_neg hNe]
    exact hInv.kept d hD a hHolder

-- Creating Nodes

variable {properties : Props}

theorem text_withId (properties : Props) (id : String) :
    (InMemory.withId properties id).text "id" = some id := by
  unfold Props.text InMemory.withId
  rw [Dict.get?_insert, if_pos rfl]
  rfl

theorem nodeAt_prepare (a t i : String) :
    (w.prepare properties).1.nodeAt a t i = w.nodeAt a t i := by
  unfold prepare
  split <;> rfl

/- What is stored names an id that no present node has. -/
theorem prepare_named
    (hInv : Inv w) (hNamed : NamedNode w properties) :
    ∃ id, (w.prepare properties).2.text "id" = some id ∧
      (∀ a t, w.nodeAt a t id = none) ∧
        ∀ n, id = distId n → n ≤ (w.prepare properties).1.nextId := by
  unfold prepare
  rcases hNamed with hNone | ⟨id, hId, hNew, hLater⟩
  · rw [hNone]
    refine ⟨_, text_withId _ _, ?_, ?_⟩
    · intro a t
      rw [Option.eq_none_iff_forall_not_mem]
      intro p hSome
      have hBound := hInv.bounded a t _ p hSome
      omega
    · intro n hEq
      rw [distId_inj] at hEq
      exact hEq.ge
  · have hThere : (properties.get? "id").isSome = true := by
      unfold Props.text at hId
      obtain ⟨j, hJ, -⟩ := Option.bind_eq_some_iff.mp hId
      rw [hJ]
      rfl
    rw [if_pos hThere]
    refine ⟨id, hId, hNew, ?_⟩
    intro n hEq
    by_contra hMore
    exact hLater n (Nat.lt_of_not_le hMore) hEq

/- The shards with a new node on some of them. -/
theorem placed_inv
    {table id : String} {value : Props} {owners : List String}
    {placing : Placing H} {created : List StoredNode} (hInv : Inv w)
    (hPlaced : Placed w.shards table id value owners placing)
    (hNew : ∀ a t, w.nodeAt a t id = none)
    (hBound : ∀ n, id = distId n → n ≤ w.nextId)
    (hCreated : ∀ c ∈ created, c ∈ w.created ∨
      c.table = table ∧ c.id = id ∧
        c.properties = InMemory.withId value id ∧
        ∀ a ∈ c.holders, a ∈ placing.2.map Prod.fst) :
    Inv { w with
      shards := placing.1
      created := created } := by
  have hNode : ∀ a t i p, nodeIn placing.1 a t i = some p →
      t = table ∧ i = id ∧ p = InMemory.withId value id ∨
        w.nodeAt a t i = some p ∧ i ≠ id := by
    intro a t i p hSome
    by_cases hBoth : a ∈ owners ∧ (t, i) = (table, id)
    · obtain ⟨hMem, hKey⟩ := hBoth
      rw [Prod.mk.injEq] at hKey
      by_cases hShard : (w.shards.get? a).isSome
      · rw [hKey.1, hKey.2, hPlaced.new a hMem hShard] at hSome
        exact Or.inl ⟨hKey.1, hKey.2, (Option.some.inj hSome).symm⟩
      · rw [← hPlaced.present, Option.not_isSome_iff_eq_none]
          at hShard
        unfold nodeIn at hSome
        rw [hShard] at hSome
        cases hSome
    · rw [hPlaced.old a t i hBoth] at hSome
      right
      refine ⟨hSome, ?_⟩
      rintro rfl
      have hNone := hNew a t
      rw [show w.nodeAt a t i = some p from hSome] at hNone
      cases hNone
  constructor
  case members =>
    intro a
    rw [hPlaced.present]
    exact hInv.members a
  case filled => exact hPlaced.filled hInv.filled
  case unique =>
    intro a b t u i p q hA hB
    rcases hNode a t i p hA with ⟨hT, hI, hP⟩ | ⟨hA', hNe⟩
    · rcases hNode b u i q hB with ⟨hU, -, hQ⟩ | ⟨-, hNe⟩
      · exact ⟨hT.trans hU.symm, hP.trans hQ.symm⟩
      · exact absurd hI hNe
    · rcases hNode b u i q hB with ⟨-, hI, -⟩ | ⟨hB', -⟩
      · exact absurd hI hNe
      · exact hInv.unique a b t u i p q hA' hB'
  case bounded =>
    intro a t n p hSome
    rcases hNode a t (distId n) p hSome with ⟨-, hId, -⟩ | ⟨hOld, -⟩
    · exact hBound n hId.symm
    · exact hInv.bounded a t n p hOld
  case kept =>
    intro c hC a hA
    change nodeIn placing.1 a c.table c.id = _
    rcases hCreated c hC with hOld | ⟨hT, hI, hP, hHolders⟩
    · have hKept := hInv.kept c hOld a hA
      rw [hPlaced.old]
      · exact hKept
      · rintro ⟨-, hKey⟩
        rw [Prod.mk.injEq] at hKey
        rw [hKey.2, hNew] at hKept
        cases hKept
    · have hOwner := (hPlaced.holders a).mp (hHolders a hA)
      rw [hT, hI, hP]
      exact hPlaced.new a hOwner.1 hOwner.2

theorem created_prepare (properties : Props) :
    (w.prepare properties).1.created = w.created := by
  unfold prepare
  split <;> rfl

theorem prepare_inv
    (hInv : Inv w) (properties : Props) :
    Inv (w.prepare properties).1 := by
  unfold prepare
  split
  · exact hInv
  · exact
      { members := hInv.members
        filled := hInv.filled
        unique := hInv.unique
        bounded := fun a t n p hSome =>
          (hInv.bounded a t n p hSome).trans (Nat.le_succ _)
        kept := hInv.kept }

theorem createNode_inv
    (hInv : Inv w) (hNamed : NamedNode w properties) (table : String) :
    Inv (w.createNode table properties).1 := by
  unfold createNode
  split
  · exact hInv
  next content hContent =>
    obtain ⟨id, hId, hNew, hBound⟩ := prepare_named hInv hNamed
    have hPrepared := prepare_inv hInv properties
    have hPlaced := placed_of_text table
      (w.prepare properties).1.shards hId
      ((w.prepare properties).1.ring.getAgents H.hashKey content
        (w.prepare properties).1.replicationFactor)
    have hNone : ∀ a t, (w.prepare properties).1.nodeAt a t id = none := by
      intro a t
      rw [nodeAt_prepare]
      exact hNew a t
    dsimp only
    split
    next hEmpty =>
      exact placed_inv hPrepared hPlaced hNone hBound fun c hC => Or.inl hC
    next owner first rest hFirst =>
      refine placed_inv hPrepared hPlaced hNone hBound ?_
      intro c hC
      rcases List.mem_cons.mp hC with rfl | hOld
      · have hSame : first = id := by
          apply hPlaced.ids (owner, first)
          change _ ∈ ((w.prepare properties).1.place table content
            (w.prepare properties).2).2
          rw [hFirst]
          exact List.mem_cons_self
        right
        rw [hSame]
        exact ⟨rfl, rfl, rfl, fun a hA => hA⟩
      · left
        rw [created_prepare]
        exact hOld

end Sharded

end Graph
