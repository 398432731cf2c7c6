import Amplihack.Graph.Histories

/-
  Gossip and rebuilding bring nodes to more shards and change
  none; without false answers a pair's second shard ends with
  all that both had.
-/

-- Spreading

namespace Graph

open Base

namespace Sharded

variable {H : Hashing}
variable {w v u : Sharded H}

/- Shards get nodes of other shards, and nothing else. -/
structure Spreads (w v : Sharded H) : Prop where
  ring : v.ring = w.ring
  nextId : v.nextId = w.nextId
  created : v.created = w.created
  present : ∀ a, (v.shards.get? a).isSome = (w.shards.get? a).isSome
  old : ∀ a t i p, w.nodeAt a t i = some p → v.nodeAt a t i = some p
  new : ∀ a t i p, v.nodeAt a t i = some p → ∃ b, w.nodeAt b t i = some p
  filled : (∀ a s, w.shards.get? a = some s → s.Filled) →
    ∀ a s, v.shards.get? a = some s → s.Filled

namespace Spreads

theorem refl (w : Sharded H) : Spreads w w where
  ring := rfl
  nextId := rfl
  created := rfl
  present := fun _ => rfl
  old := fun _ _ _ _ hSome => hSome
  new := fun a _ _ _ hSome => ⟨a, hSome⟩
  filled := fun hFilled => hFilled

theorem trans
    (hLeft : Spreads w v) (hRight : Spreads v u) :
    Spreads w u where
  ring := hRight.ring.trans hLeft.ring
  nextId := hRight.nextId.trans hLeft.nextId
  created := hRight.created.trans hLeft.created
  present := fun a =>
    (hRight.present a).trans (hLeft.present a)
  old := fun a t i p hSome =>
    hRight.old a t i p (hLeft.old a t i p hSome)
  new := by
    intro a t i p hSome
    obtain ⟨b, hB⟩ := hRight.new a t i p hSome
    exact hLeft.new b t i p hB
  filled := fun hFilled => hRight.filled (hLeft.filled hFilled)

theorem inv
    (hSpreads : Spreads w v) (hInv : Inv w) :
    Inv v where
  members := by
    intro a
    rw [hSpreads.ring, hSpreads.present]
    exact hInv.members a
  filled := hSpreads.filled hInv.filled
  unique := by
    intro a b t u i p q hA hB
    obtain ⟨c, hC⟩ := hSpreads.new a t i p hA
    obtain ⟨d, hD⟩ := hSpreads.new b u i q hB
    exact hInv.unique c d t u i p q hC hD
  bounded := by
    intro a t n p hSome
    obtain ⟨b, hB⟩ := hSpreads.new a t _ p hSome
    rw [hSpreads.nextId]
    exact hInv.bounded b t n p hB
  kept := by
    intro c hC a hA
    rw [hSpreads.created] at hC
    exact hSpreads.old a _ _ _ (hInv.kept c hC a hA)

end Spreads

theorem nodeAt_importInto
    {agentId : String} {shard : Shard H}
    (hShard : w.shards.get? agentId = some shard)
    (nodes : List (NodeKey × Props)) (edges : List Edge) (a t i : String) :
    (w.importInto agentId nodes edges).nodeAt a t i =
      if a = agentId then
        (shard.store.importNodes nodes).getNode t i
      else w.nodeAt a t i := by
  unfold importInto nodeAt
  rw [hShard]
  dsimp only
  rw [OrderedMap.get?_upsert]
  split
  · exact Shard.getNode_take shard nodes edges t i
  · rfl

/- An import of nodes that some shards have. -/
theorem spreads_importInto
    {nodes : List (NodeKey × Props)} (agentId : String)
    (hNodes : ∀ t i p, ((t, i), p) ∈ nodes → ∃ b, w.nodeAt b t i = some p)
    (edges : List Edge) :
    Spreads w (w.importInto agentId nodes edges) := by
  cases hShard : w.shards.get? agentId with
  | none =>
    have hSame : w.importInto agentId nodes edges = w := by
      unfold importInto
      rw [hShard]
    rw [hSame]
    exact Spreads.refl w
  | some shard =>
    have hImport : w.importInto agentId nodes edges =
        { w with
          shards := w.shards.upsert agentId
            fun _ => shard.take nodes edges } := by
      unfold importInto
      rw [hShard]
    have hNode := nodeAt_importInto hShard nodes edges
    have hOwn : ∀ t i, w.nodeAt agentId t i = shard.store.getNode t i := by
      intro t i
      unfold nodeAt
      rw [hShard]
      rfl
    constructor
    case ring => rw [hImport]
    case nextId => rw [hImport]
    case created => rw [hImport]
    case present =>
      intro a
      rw [hImport]
      dsimp only
      rw [OrderedMap.get?_upsert]
      split
      next hSelf =>
        rw [hSelf, hShard]
        rfl
      next => rfl
    case old =>
      intro a t i p hSome
      rw [hNode]
      split
      next hSelf =>
        rw [hSelf, hOwn] at hSome
        exact InMemory.getNode_importNodes_of_some nodes hSome
      next => exact hSome
    case new =>
      intro a t i p hSome
      rw [hNode] at hSome
      split at hSome
      · rcases InMemory.getNode_importNodes hSome with
          hThere | hMem
        · rw [← hOwn] at hThere
          exact ⟨agentId, hThere⟩
        · exact hNodes t i p hMem
      · exact ⟨a, hSome⟩
    case filled =>
      intro hFilled a s hGet
      rw [hImport] at hGet
      dsimp only at hGet
      rw [OrderedMap.get?_upsert] at hGet
      split at hGet
      · cases hGet
        exact Shard.filled_take (hFilled agentId shard hShard) nodes edges
      · exact hFilled a s hGet

theorem mem_exportNodesOf
    {agentId t i : String} {ids : Option (List String)} {p : Props} :
    ((t, i), p) ∈ w.exportNodesOf agentId ids ↔
      w.nodeAt agentId t i = some p ∧ ∀ l ∈ ids, i ∈ l := by
  unfold exportNodesOf nodeAt
  cases w.shards.get? agentId with
  | none => simp
  | some shard => exact InMemory.mem_exportNodes

theorem spreads_syncPair
    (w : Sharded H) (pair : String × String) :
    Spreads w (w.syncPair pair) := by
  unfold syncPair
  dsimp only
  split
  · exact Spreads.refl w
  · apply spreads_importInto
    intro t i p hMem
    exact ⟨pair.1, (mem_exportNodesOf.mp hMem).1⟩

theorem spreads_pairs
    (pairs : List (String × String)) (w : Sharded H) :
    Spreads w (pairs.foldl syncPair w) := by
  induction pairs generalizing w with
  | nil => exact Spreads.refl w
  | cons pair pairs ih => exact (spreads_syncPair w pair).trans (ih _)

theorem spreads_gossipRound (w : Sharded H) :
    Spreads w w.gossipRound := by
  unfold gossipRound
  split
  · exact Spreads.refl w
  · exact spreads_pairs _ w

theorem spreads_rebuildShard
    (w : Sharded H) (agentId : String) :
    Spreads w (w.rebuildShard agentId).1 := by
  unfold rebuildShard
  dsimp only
  split
  · apply spreads_importInto
    intro t i p hMem
    obtain ⟨b, -, hB⟩ := List.mem_flatMap.mp hMem
    exact ⟨b, (mem_exportNodesOf.mp hB).1⟩
  · exact Spreads.refl w

theorem step_inv
    (w : Sharded H) (action : Action) (hInv : Inv w)
    (hNamed : Named w action) :
    Inv (w.step action) := by
  cases action with
  | addAgent agentId => exact addAgent_inv hInv agentId
  | removeAgent agentId => exact removeAgent_inv hInv agentId
  | createNode table properties => exact createNode_inv hInv hNamed table
  | gossipRound => exact (spreads_gossipRound w).inv hInv
  | rebuildShard agentId => exact (spreads_rebuildShard w agentId).inv hInv

-- Exact Rounds

/- The nodes of an agent's shard. -/
def has (w : Sharded H) (agentId : String) :
    Set (NodeKey × Props) :=
  { node | w.nodeAt agentId node.1.1 node.1.2 = some node.2 }

theorem mem_shardNodeIds
    {agentId i : String} :
    i ∈ w.shardNodeIds agentId ↔ ∃ t p, w.nodeAt agentId t i = some p := by
  unfold shardNodeIds nodeAt
  cases w.shards.get? agentId with
  | none => simp
  | some shard => exact InMemory.mem_nodeIds

theorem nodeAt_syncPair
    {a b : String} {shard : Shard H}
    (hShard : w.shards.get? b = some shard) (c t i : String) :
    (w.syncPair (a, b)).nodeAt c t i =
      if c = b then
        (shard.store.importNodes (w.exportNodesOf a
          (some (shard.bloom.missingFrom (w.shardNodeIds a))))).getNode t i
      else w.nodeAt c t i := by
  have hMissing : w.findMissing b (w.shardNodeIds a) =
      shard.bloom.missingFrom (w.shardNodeIds a) := by
    unfold findMissing
    rw [hShard]
    rfl
  unfold syncPair
  dsimp only
  rw [hMissing]
  split
  next hEmpty =>
    rw [List.isEmpty_iff] at hEmpty
    rw [hEmpty]
    split
    next hSelf =>
      have hNodes : w.exportNodesOf a (some []) = [] := by
        rw [List.eq_nil_iff_forall_not_mem]
        rintro ⟨⟨u, j⟩, p⟩ hMem
        have hIds := (mem_exportNodesOf.mp hMem).2 [] rfl
        exact List.not_mem_nil hIds
      rw [hNodes, hSelf]
      unfold nodeAt
      rw [hShard]
      rfl
    next => rfl
  next => exact nodeAt_importInto hShard _ _ c t i

/- The second shard has what both had, the others as before. -/
theorem has_syncPair
    {a b : String} (hInv : Inv w) (hExact : w.ExactPair (a, b))
    (hShard : (w.shards.get? b).isSome) :
    (w.syncPair (a, b)).has = pull w.has (a, b) := by
  obtain ⟨shard, hGet⟩ := Option.isSome_iff_exists.mp hShard
  funext c
  unfold pull
  by_cases hSelf : c = b
  · subst hSelf
    have hSpreads := spreads_syncPair w (a, c)
    have hNode := nodeAt_syncPair (a := a) hGet c
    rw [Function.update_self]
    ext ⟨⟨t, i⟩, p⟩
    change _ = _ ↔ (_ = _ ∨ _ = _)
    dsimp only
    constructor
    · intro hSome
      rw [hNode, if_pos rfl] at hSome
      rcases InMemory.getNode_importNodes hSome with hOld | hMem
      · left
        unfold nodeAt
        rw [hGet]
        exact hOld
      · exact Or.inr (mem_exportNodesOf.mp hMem).1
    · rintro (hOld | hOther)
      · exact hSpreads.old c t i p hOld
      · have hThere : ∃ q, (w.syncPair (a, c)).nodeAt c t i = some q := by
          have hId : i ∈ w.shardNodeIds a :=
            mem_shardNodeIds.mpr ⟨t, p, hOther⟩
          by_cases hAdded : i ∈ shard.bloom.items
          · rw [hInv.filled c shard hGet, InMemory.mem_nodeIds] at hAdded
            obtain ⟨u, q, hQ⟩ := hAdded
            have hHere : w.nodeAt c u i = some q := by
              unfold nodeAt
              rw [hGet]
              exact hQ
            have hSame := hInv.unique c a u t i q p hHere hOther
            rw [hSame.1] at hHere
            exact ⟨q, hSpreads.old c t i q hHere⟩
          · have hMissing := (Bloom.mem_missingFrom
              (hExact shard hGet)).mpr ⟨hId, hAdded⟩
            have hExport : ((t, i), p) ∈ w.exportNodesOf a
                (some (shard.bloom.missingFrom (w.shardNodeIds a))) := by
              rw [mem_exportNodesOf]
              refine ⟨hOther, ?_⟩
              rintro l ⟨⟩
              exact hMissing
            rw [hNode, if_pos rfl]
            exact InMemory.isSome_getNode_importNodes _ hExport
        obtain ⟨q, hQ⟩ := hThere
        obtain ⟨d, hD⟩ := hSpreads.new c t i q hQ
        have hEq := hInv.unique d a t t i q p hD hOther
        rw [hQ, hEq.2]
  · rw [Function.update_of_ne hSelf]
    ext ⟨⟨t, i⟩, p⟩
    change _ = _ ↔ _ = _
    rw [nodeAt_syncPair hGet, if_neg hSelf]

theorem has_pairs
    {pairs : List (String × String)} (hInv : Inv w)
    (hExact : Admits syncPair ExactPair w pairs)
    (hShards : ∀ pair ∈ pairs, (w.shards.get? pair.2).isSome) :
    (pairs.foldl syncPair w).has = pullAll pairs w.has := by
  induction pairs generalizing w with
  | nil => rfl
  | cons pair pairs ih =>
    have hSpreads := spreads_syncPair w pair
    have hFirst := has_syncPair hInv hExact.1
      (hShards pair List.mem_cons_self)
    have hRest := ih (hSpreads.inv hInv) hExact.2 (by
      intro other hMem
      rw [hSpreads.present]
      exact hShards other (List.mem_cons_of_mem _ hMem))
    change (pairs.foldl syncPair (w.syncPair pair)).has = _
    rw [hRest, hFirst]
    rfl

theorem has_gossip
    (hInv : Inv w) (hExact : w.ExactRound)
    (hMany : ¬ w.ring.agents.length < 2) :
    w.gossipRound.has = pullAll (ringPairs w.ring.agents) w.has := by
  unfold gossipRound
  rw [if_neg hMany]
  apply has_pairs hInv hExact
  intro pair hMem
  rw [← hInv.members]
  have hSecond := (List.of_mem_zip hMem).2
  rw [List.mem_rotate] at hSecond
  exact hSecond

end Sharded

end Graph
