import Mathlib.Logic.Function.Basic
import Amplihack.Base.Dict
import Amplihack.Base.Json.Text
import Amplihack.Base.Runs

/-
  The in-memory graph store.

  Stores that publish their writes to one another.

  The transport gives every event to every other store once,
  and the events of one store in the order they were
  published; the events of several may come in any order.
-/

-- The Store

namespace Graph

open Base

abbrev Props := Dict String Json

/- The text stored under a key. -/
def Props.text (properties : Props) (key : String) :
    Option String :=
  (properties.get? key).bind Json.toStr?

structure Edge where
  relType : String
  fromId : String
  toId : String
  properties : Props

/- A node's table and id. -/
abbrev NodeKey := String × String

structure InMemory where
  nodes : Dict NodeKey Props
  edges : List Edge
  nextId : ℕ

namespace InMemory

def new : InMemory where
  nodes := .empty
  edges := []
  nextId := 0

/- The id after the last one made here. -/
def genId (s : InMemory) : String :=
  "mem-" ++ toString (s.nextId + 1)

def setNode
    (s : InMemory) (table id : String) (properties : Props) :
    InMemory :=
  { s with nodes := s.nodes.insert (table, id) properties }

/- The properties of a node, its id among them. -/
def withId (properties : Props) (id : String) : Props :=
  properties.insert "id" (.str id)

/- The id is the one given, or a new one of this store. -/
def createNode
    (table : String) (properties : Props) (s : InMemory) :
    InMemory × String :=
  match properties.text "id" with
  | some id => (s.setNode table id (withId properties id), id)
  | none =>
    ({ s with nextId := s.nextId + 1 }.setNode table s.genId
      (withId properties s.genId), s.genId)

def getNode (s : InMemory) (table id : String) : Option Props :=
  s.nodes.get? (table, id)

/- The tables of the nodes are not kept. -/
def createEdge
    (relType _fromTable fromId _toTable toId : String)
    (properties : Props) (s : InMemory) :
    InMemory :=
  { s with
    edges := s.edges ++ [⟨relType, fromId, toId, properties⟩] }

/- The ids of the nodes of all tables. -/
def nodeIds (s : InMemory) : List String :=
  s.nodes.entries.map fun e => e.1.2

/- The nodes whose id is listed, all without a list. -/
def exportNodes (s : InMemory) (ids : Option (List String)) :
    List (NodeKey × Props) :=
  s.nodes.entries.filter fun e => ids.all (·.contains e.1.2)

/- The edges one of whose ends is listed. -/
def exportEdges (s : InMemory) (ids : Option (List String)) :
    List Edge :=
  s.edges.filter fun e =>
    ids.all fun l => l.contains e.fromId || l.contains e.toId

/- A node that is there already stays as it is. -/
def importNode (s : InMemory) (node : NodeKey × Props) :
    InMemory :=
  if (s.nodes.get? node.1).isSome then s
  else { s with nodes := s.nodes.insert node.1 node.2 }

def importNodes (s : InMemory) (nodes : List (NodeKey × Props)) :
    InMemory :=
  nodes.foldl importNode s

def importEdge (s : InMemory) (edge : Edge) : InMemory :=
  if s.edges.any fun e => e.relType == edge.relType &&
      e.fromId == edge.fromId && e.toId == edge.toId then s
  else { s with edges := s.edges ++ [edge] }

def importEdges (s : InMemory) (edges : List Edge) : InMemory :=
  edges.foldl importEdge s

-- Nodes

@[simp]
theorem getNode_new (table id : String) :
    new.getNode table id = none :=
  Dict.get?_empty _

@[simp]
theorem getNode_setNode
    (s : InMemory) (table id : String) (properties : Props) (t i : String) :
    (s.setNode table id properties).getNode t i =
      if (t, i) = (table, id) then some properties
      else s.getNode t i := by
  unfold getNode setNode
  rw [Dict.get?_insert]

variable {properties : Props}

/- A node that names its own id. -/
theorem createNode_of_text
    {id : String} (s : InMemory) (table : String)
    (hId : properties.text "id" = some id) :
    s.createNode table properties =
      (s.setNode table id (withId properties id), id) := by
  unfold createNode
  rw [hId]

-- Import

theorem getNode_importNode
    (s : InMemory) (node : NodeKey × Props) (t i : String) :
    (s.importNode node).getNode t i =
      (s.getNode t i).or (if (t, i) = node.1 then some node.2 else none) := by
  unfold importNode getNode
  split
  next hThere =>
    split
    next hKey =>
      rw [← hKey] at hThere
      obtain ⟨v, hV⟩ := Option.isSome_iff_exists.mp hThere
      rw [hV]
      rfl
    next => rw [Option.or_none]
  next hAbsent =>
    change (s.nodes.insert node.1 node.2).get? (t, i) = _
    rw [Dict.get?_insert]
    split
    next hKey =>
      rw [hKey, Option.not_isSome_iff_eq_none.mp hAbsent]
      rfl
    next => rw [Option.or_none]

variable {s : InMemory} {nodes : List (NodeKey × Props)}
variable {t i : String}

/- A node that is there after an import was, or was imported. -/
theorem getNode_importNodes
    (hSome : (s.importNodes nodes).getNode t i = some properties) :
    s.getNode t i = some properties ∨ ((t, i), properties) ∈ nodes := by
  unfold importNodes at hSome
  induction nodes generalizing s with
  | nil => exact Or.inl hSome
  | cons node nodes ih =>
    rcases ih hSome with hThere | hMem
    · rw [getNode_importNode, Option.or_eq_some_iff] at hThere
      rcases hThere with hOld | ⟨-, hNew⟩
      · exact Or.inl hOld
      · split at hNew
        next hKey =>
          right
          rw [hKey, ← Option.some.inj hNew]
          exact List.mem_cons_self
        · cases hNew
    · exact Or.inr (List.mem_cons_of_mem _ hMem)

/- A node that was there stays. -/
theorem getNode_importNodes_of_some
    (nodes : List (NodeKey × Props))
    (hSome : s.getNode t i = some properties) :
    (s.importNodes nodes).getNode t i = some properties := by
  unfold importNodes
  induction nodes generalizing s with
  | nil => exact hSome
  | cons node nodes ih =>
    apply ih
    rw [getNode_importNode, hSome]
    rfl

/- What is imported is there afterwards, as it is or was. -/
theorem isSome_getNode_importNodes
    (s : InMemory) (hMem : ((t, i), properties) ∈ nodes) :
    ∃ found, (s.importNodes nodes).getNode t i = some found := by
  unfold importNodes
  induction nodes generalizing s with
  | nil => exact (List.not_mem_nil hMem).elim
  | cons node nodes ih =>
    rcases List.mem_cons.mp hMem with hHead | hTail
    · have hNow : ∃ found, (s.importNode node).getNode t i = some found := by
        rw [getNode_importNode, ← hHead, if_pos rfl]
        cases s.getNode t i <;> exact ⟨_, rfl⟩
      obtain ⟨found, hFound⟩ := hNow
      exact ⟨found, getNode_importNodes_of_some nodes hFound⟩
    · exact ih (s.importNode node) hTail

@[simp]
theorem getNode_importEdges
    (s : InMemory) (edges : List Edge) (t i : String) :
    (s.importEdges edges).getNode t i = s.getNode t i := by
  unfold importEdges
  induction edges generalizing s with
  | nil => rfl
  | cons edge edges ih =>
    rw [List.foldl_cons, ih]
    unfold importEdge
    split <;> rfl

theorem mem_nodeIds
    {id : String} :
    id ∈ s.nodeIds ↔ ∃ t properties, s.getNode t id = some properties := by
  unfold nodeIds getNode
  constructor
  · intro hMem
    obtain ⟨⟨⟨t, i⟩, properties⟩, hEntry, rfl⟩ :=
      List.mem_map.mp hMem
    exact ⟨t, properties, Dict.get?_of_mem_entries hEntry⟩
  · rintro ⟨t, properties, hGet⟩
    have hEntry := Dict.mem_entries_of_get? hGet
    exact List.mem_map.mpr ⟨_, hEntry, rfl⟩

theorem mem_exportNodes
    {ids : Option (List String)} {properties : Props} :
    ((t, i), properties) ∈ s.exportNodes ids ↔
      s.getNode t i = some properties ∧ ∀ l ∈ ids, i ∈ l := by
  unfold exportNodes getNode
  rw [List.mem_filter, Dict.get?_eq_some_iff]
  refine and_congr_right fun _ => ?_
  cases ids <;> simp

end InMemory

end Graph

-- Events

namespace Graph

open Base

inductive Payload where
| createNode (table nodeId : String) (properties : Props)
| createEdge (relType fromTable fromId toTable toId : String)
    (properties : Props)

/- The node that the properties name is there. -/
def isKnown
    (s : InMemory) (table : String) (properties : Props) :
    Bool :=
  let nodeId := (properties.text "node_id").getD ""
  !nodeId.isEmpty && (s.getNode table nodeId).isSome

def handleEvent (s : InMemory) : Payload → InMemory
| .createNode table _ properties =>
  if table.isEmpty then s
  else if isKnown s table properties then s
  else (s.createNode table properties).1
| .createEdge relType fromTable fromId toTable toId properties =>
  s.createEdge relType fromTable fromId toTable toId properties

-- The Network

/- A node that a store returned to its caller. -/
structure CreatedNode (ι : Type) where
  agent : ι
  table : String
  id : String
  properties : Props

structure CreatedEdge (ι : Type) where
  agent : ι
  relType : String
  fromTable : String
  fromId : String
  toTable : String
  toId : String
  properties : Props

/-
  `queue a b` holds what `a` published and `b` has yet to
  process; what was created is kept for reference, the
  latest first.
-/
structure Network (ι : Type) where
  store : ι → InMemory
  queue : ι → ι → List Payload
  nodes : List (CreatedNode ι)
  edges : List (CreatedEdge ι)

namespace Network

variable {ι : Type} [DecidableEq ι]

def start : Network ι where
  store := fun _ => .new
  queue := fun _ _ => []
  nodes := []
  edges := []

def setStore (w : Network ι) (agent : ι) (s : InMemory) :
    Network ι :=
  { w with store := Function.update w.store agent s }

def publish (w : Network ι) (agent : ι) (payload : Payload) :
    Network ι :=
  { w with
    queue := fun a b =>
      if a = agent ∧ b ≠ agent then w.queue a b ++ [payload]
      else w.queue a b }

def createNode
    (w : Network ι) (agent : ι) (table : String) (properties : Props) :
    Network ι :=
  let created := (w.store agent).createNode table properties
  let after := (w.setStore agent created.1).publish agent
    (.createNode table created.2 properties)
  { after with
    nodes := ⟨agent, table, created.2, properties⟩ :: w.nodes }

def createEdge
    (w : Network ι) (agent : ι)
    (relType fromTable fromId toTable toId : String) (properties : Props) :
    Network ι :=
  let after := (w.setStore agent ((w.store agent).createEdge
    relType fromTable fromId toTable toId properties)).publish
      agent (.createEdge relType fromTable fromId toTable toId properties)
  { after with
    edges := ⟨agent, relType, fromTable, fromId, toTable, toId,
      properties⟩ :: w.edges }

/- The next event of one sender, if there is one. -/
def receive (agent : ι) (w : Network ι) (sender : ι) :
    Network ι :=
  match w.queue sender agent with
  | [] => w
  | payload :: rest =>
    { w.setStore agent (handleEvent (w.store agent) payload)
      with
      queue := fun a b =>
        if a = sender ∧ b = agent then rest
        else w.queue a b }

/- The senders of the events polled, in the order received. -/
def processEvents
    (w : Network ι) (agent : ι) (senders : List ι) :
    Network ι :=
  senders.foldl (receive agent) w

inductive Action (ι : Type) where
| createNode (agent : ι) (table : String) (properties : Props)
| createEdge (agent : ι)
    (relType fromTable fromId toTable toId : String)
    (properties : Props)
| processEvents (agent : ι) (senders : List ι)

def step (w : Network ι) : Action ι → Network ι
| .createNode agent table properties =>
  w.createNode agent table properties
| .createEdge agent relType fromTable fromId toTable toId
    properties =>
    w.createEdge agent relType fromTable fromId toTable toId properties
| .processEvents agent senders => w.processEvents agent senders

/- Edges are made between existing nodes. -/
def Possible (w : Network ι) : Action ι → Prop
| .createEdge agent _ fromTable fromId toTable toId _ =>
  ((w.store agent).getNode fromTable fromId).isSome ∧
    ((w.store agent).getNode toTable toId).isSome
| _ => True

-- What Is Claimed

/- Every event has been processed. -/
def Settled (w : Network ι) : Prop :=
  ∀ a b, w.queue a b = []

/- The properties last given to a node, and its id. -/
def lastGiven
    (w : Network ι) (table id : String) :
    Option Props :=
  (w.nodes.find? fun c => c.table == table && c.id == id).map
    fun c => InMemory.withId c.properties c.id

/- Nodes and edges are the same on every store. -/
structure Replicated (w : Network ι) : Prop where
  node : ∀ c ∈ w.nodes, ∀ peer,
    (w.store peer).getNode c.table c.id = w.lastGiven c.table c.id
  edge : ∀ e ∈ w.edges, ∀ peer,
    ⟨e.relType, e.fromId, e.toId, e.properties⟩ ∈
        (w.store peer).edges ∧
      (∃ v, (w.store e.agent).getNode e.fromTable e.fromId = some v ∧
        (w.store peer).getNode e.fromTable e.fromId = some v) ∧
      ∃ v, (w.store e.agent).getNode e.toTable e.toId = some v ∧
        (w.store peer).getNode e.toTable e.toId = some v

/- What the agent created itself is as it was. -/
def Untouched (w v : Network ι) (agent : ι) : Prop :=
  ∀ c ∈ w.nodes, c.agent = agent →
    (v.store agent).getNode c.table c.id =
      (w.store agent).getNode c.table c.id

end Network

end Graph
