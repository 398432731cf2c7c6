import Mathlib.Data.String.Basic
import Amplihack.Base.Gossip
import Amplihack.Base.Runs
import Amplihack.Graph.HashRing
import Amplihack.Graph.InMemory

/-
  The graph store that is spread over the shards of agents.

  What storing a node on its owners does to the shards.
-/

-- Shards

namespace Graph

open Base

/- The hash of the ring, the positions of the filters. -/
structure Hashing where
  hashKey : String → ℕ
  positions : String → List ℕ

structure Shard (H : Hashing) where
  store : InMemory
  bloom : Bloom H.positions

namespace Shard

variable {H : Hashing}

def new : Shard H where
  store := .new
  bloom := .empty

def create
    (shard : Shard H) (table : String) (properties : Props) :
    Shard H × String :=
  let created := shard.store.createNode table properties
  (⟨created.1, shard.bloom.add created.2⟩, created.2)

/- The nodes that are not there, and the ids of all. -/
def take
    (shard : Shard H) (nodes : List (NodeKey × Props)) (edges : List Edge) :
    Shard H where
  store := (shard.store.importNodes nodes).importEdges edges
  bloom := shard.bloom.addAll (nodes.map fun e => e.1.2)

end Shard

-- The Store

/-
  A node as it was created, and the agents it was stored on
  that are still present.
-/
structure StoredNode where
  table : String
  id : String
  properties : Props
  holders : List String

/- What was created is kept for reference, the latest first. -/
structure Sharded (H : Hashing) where
  ring : HashRing
  shards : OrderedMap String (Shard H)
  replicationFactor : ℕ
  nextId : ℕ
  created : List StoredNode

namespace Sharded

variable {H : Hashing}

def new (replicationFactor : ℕ) : Sharded H where
  ring := .default
  shards := .empty
  replicationFactor := replicationFactor
  nextId := 0
  created := []

def addAgent (w : Sharded H) (agentId : String) : Sharded H :=
  { w with
    ring := w.ring.addAgent H.hashKey agentId
    shards := w.shards.upsert agentId (·.getD .new) }

/- The agent no longer holds what was stored on it. -/
def forget (agentId : String) (c : StoredNode) : StoredNode :=
  { c with holders := c.holders.filter (· != agentId) }

def removeAgent (w : Sharded H) (agentId : String) :
    Sharded H :=
  { w with
    ring := w.ring.removeAgent agentId
    shards := w.shards.restrict (· != agentId)
    created := w.created.map (forget agentId) }

-- Creating Nodes

def distId (n : ℕ) : String := "dist-" ++ toString n

/- The shards, and each owner with the id its shard gave. -/
abbrev Placing (H : Hashing) :=
  OrderedMap String (Shard H) × List (String × String)

def storeOn
    (table : String) (properties : Props) (placing : Placing H)
    (owner : String) :
    Placing H :=
  match placing.1.get? owner with
  | none => placing
  | some shard =>
    let created := shard.create table properties
    (placing.1.upsert owner fun _ => created.1,
      placing.2 ++ [(owner, created.2)])

inductive StoreError where
| missingContent
| noShards
| agentNotFound (agentId : String)
deriving DecidableEq

/- The properties to store, with an id of their own or new. -/
def prepare (w : Sharded H) (properties : Props) :
    Sharded H × Props :=
  if (properties.get? "id").isSome then (w, properties)
  else
    ({ w with nextId := w.nextId + 1 },
      InMemory.withId properties (distId (w.nextId + 1)))

def place
    (w : Sharded H) (table content : String) (properties : Props) :
    Placing H :=
  (w.ring.getAgents H.hashKey content w.replicationFactor).foldl
    (storeOn table properties) (w.shards, [])

def createNode
    (w : Sharded H) (table : String) (properties : Props) :
    Sharded H × Except StoreError String :=
  match properties.text "content" with
  | none => (w, .error .missingContent)
  | some content =>
    let prepared := w.prepare properties
    let placing := prepared.1.place table content prepared.2
    match placing.2 with
    | [] =>
      ({ prepared.1 with shards := placing.1 }, .error .noShards)
    | (_, id) :: _ =>
      ({ prepared.1 with
          shards := placing.1
          created :=
            { table := table
              id := id
              properties := InMemory.withId prepared.2 id
              holders := placing.2.map Prod.fst } ::
              w.created },
        .ok id)

/- The shards whose filter may have the id come first. -/
def getNode (w : Sharded H) (table id : String) :
    Option Props :=
  let likely := w.shards.values.findSome? fun shard =>
    if shard.bloom.mightContain id then
      shard.store.getNode table id
    else none
  likely.or (w.shards.values.findSome? (·.store.getNode table id))

-- Gossip

def shardNodeIds (w : Sharded H) (agentId : String) :
    List String :=
  ((w.shards.get? agentId).map (·.store.nodeIds)).getD []

def findMissing
    (w : Sharded H) (target : String) (candidates : List String) :
    List String :=
  ((w.shards.get? target).map (·.bloom.missingFrom candidates)).getD []

def importInto
    (w : Sharded H) (agentId : String)
    (nodes : List (NodeKey × Props)) (edges : List Edge) :
    Sharded H :=
  match w.shards.get? agentId with
  | none => w
  | some shard =>
    { w with
      shards := w.shards.upsert agentId
        fun _ => shard.take nodes edges }

def exportNodesOf
    (w : Sharded H) (agentId : String) (ids : Option (List String)) :
    List (NodeKey × Props) :=
  ((w.shards.get? agentId).map (·.store.exportNodes ids)).getD []

def exportEdgesOf
    (w : Sharded H) (agentId : String) (ids : Option (List String)) :
    List Edge :=
  ((w.shards.get? agentId).map (·.store.exportEdges ids)).getD []

/- What is missing in the second shard, from the first. -/
def syncPair (w : Sharded H) (pair : String × String) :
    Sharded H :=
  let missing := w.findMissing pair.2 (w.shardNodeIds pair.1)
  if missing.isEmpty then w
  else
    w.importInto pair.2 (w.exportNodesOf pair.1 (some missing))
      (w.exportEdgesOf pair.1 (some missing))

def gossipRound (w : Sharded H) : Sharded H :=
  if w.ring.agents.length < 2 then w
  else (ringPairs w.ring.agents).foldl syncPair w

/- Everything that the other shards have. -/
def rebuildShard (w : Sharded H) (agentId : String) :
    Sharded H × Except StoreError Unit :=
  let others := (w.shards.entries.map Prod.fst).filter
    (· != agentId)
  if (w.shards.get? agentId).isSome then
    (w.importInto agentId
        (others.flatMap (w.exportNodesOf · none))
        (others.flatMap (w.exportEdgesOf · none)),
      .ok ())
  else (w, .error (.agentNotFound agentId))

-- Histories

inductive Action where
| addAgent (agentId : String)
| removeAgent (agentId : String)
| createNode (table : String) (properties : Props)
| gossipRound
| rebuildShard (agentId : String)

def step (w : Sharded H) : Action → Sharded H
| .addAgent agentId => w.addAgent agentId
| .removeAgent agentId => w.removeAgent agentId
| .createNode table properties =>
  (w.createNode table properties).1
| .gossipRound => w.gossipRound
| .rebuildShard agentId => (w.rebuildShard agentId).1

/- No id gets a false answer from the filter of the target. -/
def ExactPair (w : Sharded H) (pair : String × String) : Prop :=
  ∀ shard, w.shards.get? pair.2 = some shard →
    shard.bloom.ExactOn (w.shardNodeIds pair.1)

/- None does in the whole round. -/
def ExactRound (w : Sharded H) : Prop :=
  Admits syncPair ExactPair w (ringPairs w.ring.agents)

def Exact (w : Sharded H) : Action → Prop
| .gossipRound => ExactRound w
| _ => True

def nodeAt (w : Sharded H) (agentId table id : String) :
    Option Props :=
  (w.shards.get? agentId).bind (·.store.getNode table id)

end Sharded

end Graph

-- Filled Filters

namespace Graph

open Base

variable {H : Hashing}

namespace Shard

variable {shard : Shard H}
variable {table id : String}
variable {properties : Props}

/- The filter has the ids of the shard's nodes. -/
def Filled (shard : Shard H) : Prop :=
  ∀ i, i ∈ shard.bloom.items ↔ i ∈ shard.store.nodeIds

theorem filled_new : (new : Shard H).Filled := by
  intro i
  rw [InMemory.mem_nodeIds]
  constructor
  · intro hMem
    exact (List.not_mem_nil hMem).elim
  · rintro ⟨t, p, hSome⟩
    rw [show (new : Shard H).store = .new from rfl,
      InMemory.getNode_new] at hSome
    cases hSome

theorem create_of_text
    (shard : Shard H) (table : String)
    (hId : properties.text "id" = some id) :
    shard.create table properties =
      (⟨shard.store.setNode table id
          (InMemory.withId properties id),
        shard.bloom.add id⟩, id) := by
  unfold create
  rw [InMemory.createNode_of_text _ _ hId]

theorem filled_create
    (hFilled : shard.Filled) (hId : properties.text "id" = some id) :
    (shard.create table properties).1.Filled := by
  rw [create_of_text shard table hId]
  intro i
  have hOld := hFilled i
  rw [InMemory.mem_nodeIds] at hOld ⊢
  change i ∈ id :: shard.bloom.items ↔ _
  rw [List.mem_cons, hOld]
  constructor
  · rintro (rfl | ⟨t, p, hSome⟩)
    · exact ⟨table, _, by
        rw [InMemory.getNode_setNode, if_pos rfl]⟩
    · refine ⟨t, ?_⟩
      rw [InMemory.getNode_setNode]
      split
      · exact ⟨_, rfl⟩
      · exact ⟨p, hSome⟩
  · rintro ⟨t, p, hSome⟩
    rw [InMemory.getNode_setNode] at hSome
    split at hSome
    next hKey => exact Or.inl (congrArg Prod.snd hKey)
    next => exact Or.inr ⟨t, p, hSome⟩

theorem getNode_take
    (shard : Shard H) (nodes : List (NodeKey × Props))
    (edges : List Edge) (t i : String) :
    (shard.take nodes edges).store.getNode t i =
      (shard.store.importNodes nodes).getNode t i :=
  InMemory.getNode_importEdges _ _ _ _

theorem filled_take
    (hFilled : shard.Filled) (nodes : List (NodeKey × Props))
    (edges : List Edge) :
    (shard.take nodes edges).Filled := by
  intro i
  have hOld := hFilled i
  rw [InMemory.mem_nodeIds] at hOld ⊢
  change i ∈ (shard.bloom.addAll (nodes.map fun e => e.1.2)).items ↔ _
  rw [Bloom.mem_items_addAll, hOld]
  constructor
  · rintro (hNew | ⟨t, p, hSome⟩)
    · obtain ⟨⟨⟨t, j⟩, p⟩, hMem, rfl⟩ := List.mem_map.mp hNew
      obtain ⟨found, hFound⟩ :=
        InMemory.isSome_getNode_importNodes shard.store hMem
      exact ⟨t, found, by rw [getNode_take]; exact hFound⟩
    · refine ⟨t, p, ?_⟩
      rw [getNode_take]
      exact InMemory.getNode_importNodes_of_some nodes hSome
  · rintro ⟨t, p, hSome⟩
    rw [getNode_take] at hSome
    rcases InMemory.getNode_importNodes hSome with hThere | hMem
    · exact Or.inr ⟨t, p, hThere⟩
    · exact Or.inl (List.mem_map.mpr ⟨_, hMem, rfl⟩)

end Shard

-- Placing A Node

namespace Sharded

variable {table id : String}
variable {properties : Props}
variable {shards : OrderedMap String (Shard H)}
variable {owners : List String}

/- The node of an agent's shard, among the shards. -/
def nodeIn
    (shards : OrderedMap String (Shard H)) (agentId t i : String) :
    Option Props :=
  (shards.get? agentId).bind (·.store.getNode t i)

/- The owners that have a shard have the node. -/
structure Placed
    (shards : OrderedMap String (Shard H)) (table id : String)
    (properties : Props) (owners : List String) (placing : Placing H) :
    Prop where
  present : ∀ a, (placing.1.get? a).isSome = (shards.get? a).isSome
  new : ∀ a ∈ owners, (shards.get? a).isSome →
    nodeIn placing.1 a table id = some (InMemory.withId properties id)
  old : ∀ a t i, ¬ (a ∈ owners ∧ (t, i) = (table, id)) →
    nodeIn placing.1 a t i = nodeIn shards a t i
  filled : (∀ a s, shards.get? a = some s → s.Filled) →
    ∀ a s, placing.1.get? a = some s → s.Filled
  ids : ∀ e ∈ placing.2, e.2 = id
  holders : ∀ a, a ∈ placing.2.map Prod.fst ↔
    a ∈ owners ∧ (shards.get? a).isSome

theorem placed_nil :
    Placed shards table id properties [] (shards, []) where
  present := fun _ => rfl
  new := fun _ hMem => (List.not_mem_nil hMem).elim
  old := fun _ _ _ _ => rfl
  filled := fun hFilled => hFilled
  ids := fun _ hMem => (List.not_mem_nil hMem).elim
  holders := by simp

variable {placing : Placing H} {owner : String}

/- An owner without a shard gets nothing. -/
theorem Placed.missing
    (hPlaced : Placed shards table id properties owners placing)
    (hMissing : placing.1.get? owner = none) :
    Placed shards table id properties (owners ++ [owner])
      placing := by
  have hPresent := hPlaced.present owner
  rw [hMissing] at hPresent
  have hMember : ∀ a ∈ owners ++ [owner],
      (shards.get? a).isSome → a ∈ owners := by
    intro a hMem hSome
    rcases List.mem_append.mp hMem with hOld | hLast
    · exact hOld
    · rw [List.mem_singleton.mp hLast, ← hPresent] at hSome
      cases hSome
  constructor
  case present => exact hPlaced.present
  case new =>
    intro a hMem hSome
    exact hPlaced.new a (hMember a hMem hSome) hSome
  case old =>
    intro a t i hNot
    apply hPlaced.old
    rintro ⟨hMem, hKey⟩
    exact hNot ⟨List.mem_append_left _ hMem, hKey⟩
  case filled => exact hPlaced.filled
  case ids => exact hPlaced.ids
  case holders =>
    intro a
    rw [hPlaced.holders]
    constructor
    · rintro ⟨hMem, hSome⟩
      exact ⟨List.mem_append_left _ hMem, hSome⟩
    · rintro ⟨hMem, hSome⟩
      exact ⟨hMember a hMem hSome, hSome⟩

/- An owner's shard gets the node. -/
theorem Placed.created
    (hPlaced : Placed shards table id properties owners placing)
    (hId : properties.text "id" = some id) {shard : Shard H}
    (hShard : placing.1.get? owner = some shard) :
    Placed shards table id properties (owners ++ [owner])
      (placing.1.upsert owner fun _ =>
          (shard.create table properties).1,
        placing.2 ++ [(owner, id)]) := by
  have hPresent := hPlaced.present owner
  rw [hShard] at hPresent
  have hCreated := Shard.create_of_text shard table hId
  constructor
  case present =>
    intro a
    rw [OrderedMap.get?_upsert]
    split
    next hSelf =>
      rw [hSelf, ← hPresent]
      rfl
    next => exact hPlaced.present a
  case new =>
    intro a hMem hSome
    unfold nodeIn
    rw [OrderedMap.get?_upsert]
    split
    next hSelf =>
      rw [hCreated]
      change (shard.store.setNode table id _).getNode table id = _
      rw [InMemory.getNode_setNode, if_pos rfl]
    next hOther =>
      rcases List.mem_append.mp hMem with hOld | hLast
      · exact hPlaced.new a hOld hSome
      · exact absurd (List.mem_singleton.mp hLast) hOther
  case old =>
    intro a t i hNot
    have hOld := hPlaced.old a t i fun hBoth =>
      hNot ⟨List.mem_append_left _ hBoth.1, hBoth.2⟩
    unfold nodeIn at hOld ⊢
    rw [OrderedMap.get?_upsert]
    split
    next hSelf =>
      rw [hSelf, hShard] at hOld
      rw [hCreated, hSelf, ← hOld]
      change (shard.store.setNode table id _).getNode t i = _
      rw [InMemory.getNode_setNode, if_neg]
      · rfl
      · intro hKey
        apply hNot
        rw [hSelf]
        exact ⟨List.mem_append_right _ (List.mem_singleton_self _), hKey⟩
    next => exact hOld
  case filled =>
    intro hFilled a s hGet
    have hOld := hPlaced.filled hFilled
    rw [OrderedMap.get?_upsert] at hGet
    split at hGet
    · cases hGet
      exact Shard.filled_create (hOld owner shard hShard) hId
    · exact hOld a s hGet
  case ids =>
    intro e hMem
    rcases List.mem_append.mp hMem with hOld | hLast
    · exact hPlaced.ids e hOld
    · rw [List.mem_singleton.mp hLast]
  case holders =>
    intro a
    rw [List.map_append, List.mem_append, hPlaced.holders, List.map_singleton,
      List.mem_singleton, List.mem_append, List.mem_singleton]
    constructor
    · rintro (⟨hMem, hSome⟩ | rfl)
      · exact ⟨Or.inl hMem, hSome⟩
      · exact ⟨Or.inr rfl, hPresent.symm⟩
    · rintro ⟨hMem | hSelf, hSome⟩
      · exact Or.inl ⟨hMem, hSome⟩
      · exact Or.inr hSelf

theorem Placed.storeOn
    (hPlaced : Placed shards table id properties owners placing)
    (hId : properties.text "id" = some id) (owner : String) :
    Placed shards table id properties (owners ++ [owner])
      (storeOn table properties placing owner) := by
  cases hShard : placing.1.get? owner with
  | none =>
    have hSame : Sharded.storeOn table properties placing
        owner = placing := by
      unfold Sharded.storeOn
      rw [hShard]
    rw [hSame]
    exact hPlaced.missing hShard
  | some shard =>
    have hNew : Sharded.storeOn table properties placing owner =
      (placing.1.upsert owner fun _ =>
          (shard.create table properties).1,
        placing.2 ++ [(owner, id)]) := by
      unfold Sharded.storeOn
      rw [hShard]
      dsimp only
      rw [Shard.create_of_text shard table hId]
    rw [hNew]
    exact hPlaced.created hId hShard

/- A node that names its id, stored on all its owners. -/
theorem placed_of_text
    (table : String) (shards : OrderedMap String (Shard H))
    (hId : properties.text "id" = some id) (owners : List String) :
    Placed shards table id properties owners
      (owners.foldl (Sharded.storeOn table properties) (shards, [])) := by
  induction owners using List.reverseRecOn with
  | nil => exact placed_nil
  | append_singleton owners owner ih =>
    rw [List.foldl_append]
    exact ih.storeOn hId owner

end Sharded

end Graph
