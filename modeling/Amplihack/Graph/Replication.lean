import Amplihack.Graph.InMemory

/-
  The invariant of the network: the events pending from the
  store that created a node bring every other store's copy
  of it up to date.
-/

-- What Pending Events Do

namespace Graph

open Base

/- The node of a key after the event. -/
def Payload.apply
    (table id : String) (v : Option Props) :
    Payload → Option Props
| .createNode t i properties =>
  if (table, id) = (t, i) then
    some (InMemory.withId properties i)
  else v
| .createEdge .. => v

/- An event changes the node that it creates only. -/
theorem Payload.apply_eq_or
    (payload : Payload) (table id : String) (v : Option Props) :
    payload.apply table id v = v ∨
      ∃ properties, payload = .createNode table id properties := by
  cases payload with
  | createEdge => exact Or.inl rfl
  | createNode t i properties =>
    by_cases hKey : (table, id) = (t, i)
    · right
      rw [Prod.mk.injEq] at hKey
      rw [hKey.1, hKey.2]
      exact ⟨properties, rfl⟩
    · exact Or.inl (if_neg hKey)

/- The node of a key after all the events. -/
def replay
    (events : List Payload) (table id : String) (v : Option Props) :
    Option Props :=
  events.foldl (Payload.apply table id) v

@[simp]
theorem replay_nil (table id : String) (v : Option Props) :
    replay [] table id v = v :=
  rfl

theorem replay_cons
    (payload : Payload) (events : List Payload)
    (table id : String) (v : Option Props) :
    replay (payload :: events) table id v =
      replay events table id (payload.apply table id v) :=
  rfl

theorem replay_append
    (events : List Payload) (payload : Payload)
    (table id : String) (v : Option Props) :
    replay (events ++ [payload]) table id v =
      payload.apply table id (replay events table id v) := by
  unfold replay
  rw [List.foldl_append]
  rfl

/- An event that creates a node names its id and table. -/
def Payload.IsNamed : Payload → Prop
| .createNode table id properties =>
  table ≠ "" ∧ properties.text "id" = some id
| .createEdge .. => True

/- The event is not taken for one that is known. -/
def Payload.IsNew (s : InMemory) : Payload → Prop
| .createNode table _ properties =>
  isKnown s table properties = false
| .createEdge .. => True

theorem getNode_handleEvent
    {s : InMemory} {payload : Payload}
    (hNamed : payload.IsNamed) (hNew : payload.IsNew s) (table id : String) :
    (handleEvent s payload).getNode table id =
      payload.apply table id (s.getNode table id) := by
  cases payload with
  | createEdge => rfl
  | createNode t i properties =>
    have hTable : t.isEmpty = false := by
      rw [String.isEmpty_eq_false_iff]
      exact hNamed.1
    have hKnown : isKnown s t properties = false := hNew
    unfold handleEvent
    simp only [hTable, hKnown, Bool.false_eq_true, if_false,
      InMemory.createNode_of_text s t hNamed.2, InMemory.getNode_setNode]
    rfl

/- Edges are only added. -/
theorem mem_edges_handleEvent
    {s : InMemory} {e : Edge} (payload : Payload) (hMem : e ∈ s.edges) :
    e ∈ (handleEvent s payload).edges := by
  cases payload with
  | createEdge => exact List.mem_append_left _ hMem
  | createNode t i properties =>
    unfold handleEvent
    dsimp only
    split
    · exact hMem
    · split
      · exact hMem
      · unfold InMemory.createNode
        split <;> exact hMem

-- The Invariant

def CreatedNode.HasKey
    {ι : Type} (c : CreatedNode ι) (table id : String) :
    Prop :=
  c.table = table ∧ c.id = id

def CreatedEdge.edge {ι : Type} (e : CreatedEdge ι) : Edge :=
  ⟨e.relType, e.fromId, e.toId, e.properties⟩

def CreatedEdge.payload {ι : Type} (e : CreatedEdge ι) :
    Payload :=
  .createEdge e.relType e.fromTable e.fromId e.toTable e.toId e.properties

namespace Network

variable {ι : Type} [DecidableEq ι]

/-
  The events pending from the store that created a node
  bring every other store's copy up to date.
-/
structure Inv (w : Network ι) : Prop where
  owner : ∀ c ∈ w.nodes, ∀ d ∈ w.nodes,
    c.HasKey d.table d.id → c.agent = d.agent
  self : ∀ a, w.queue a a = []
  sent : ∀ a b, ∀ payload ∈ w.queue a b, payload.IsNamed ∧
    ∀ t i p, payload = .createNode t i p →
      ∃ c ∈ w.nodes, c.agent = a ∧ c.HasKey t i
  given : ∀ c ∈ w.nodes,
    (w.store c.agent).getNode c.table c.id = w.lastGiven c.table c.id
  pending : ∀ c ∈ w.nodes, ∀ b, b ≠ c.agent →
    replay (w.queue c.agent b) c.table c.id
        ((w.store b).getNode c.table c.id) =
      (w.store c.agent).getNode c.table c.id
  created : ∀ b table id v,
    (w.store b).getNode table id = some v → ∃ c ∈ w.nodes, c.HasKey table id
  edge : ∀ e ∈ w.edges, ∀ b, e.edge ∈ (w.store b).edges ∨
    e.payload ∈ w.queue e.agent b
  ends : ∀ e ∈ w.edges,
    (∃ c ∈ w.nodes, c.HasKey e.fromTable e.fromId) ∧
      ∃ c ∈ w.nodes, c.HasKey e.toTable e.toId

omit [DecidableEq ι] in
theorem start_inv : Inv (start : Network ι) where
  owner := fun c hC => (List.not_mem_nil hC).elim
  self := fun a => rfl
  sent := fun a b p hP => (List.not_mem_nil hP).elim
  given := fun c hC => (List.not_mem_nil hC).elim
  pending := fun c hC => (List.not_mem_nil hC).elim
  created := by
    intro b table id v hSome
    rw [show (start : Network ι).store b = .new from rfl,
      InMemory.getNode_new] at hSome
    cases hSome
  edge := fun e hE => (List.not_mem_nil hE).elim
  ends := fun e hE => (List.not_mem_nil hE).elim

/- Without pending events the stores agree. -/
theorem Inv.replicated
    {w : Network ι} (hInv : Inv w) (hSettled : Settled w) :
    Replicated w := by
  have hNode : ∀ c ∈ w.nodes, ∀ peer,
      (w.store peer).getNode c.table c.id = w.lastGiven c.table c.id := by
    intro c hC peer
    by_cases hOwn : peer = c.agent
    · rw [hOwn]
      exact hInv.given c hC
    · have hPending := hInv.pending c hC peer hOwn
      rw [hSettled, replay_nil, hInv.given c hC] at hPending
      exact hPending
  have hThere : ∀ c ∈ w.nodes, ∃ v, w.lastGiven c.table c.id = some v := by
    intro c hC
    have hFind : (w.nodes.find? fun d =>
        d.table == c.table && d.id == c.id).isSome = true := by
      rw [List.find?_isSome]
      exact ⟨c, hC, by simp⟩
    obtain ⟨d, hD⟩ := Option.isSome_iff_exists.mp hFind
    exact ⟨_, by rw [lastGiven, hD]; rfl⟩
  have hEnd : ∀ table id agent peer,
      (∃ c ∈ w.nodes, c.HasKey table id) →
        ∃ v, (w.store agent).getNode table id = some v ∧
          (w.store peer).getNode table id = some v := by
    rintro table id agent peer ⟨c, hC, rfl, rfl⟩
    obtain ⟨v, hV⟩ := hThere c hC
    rw [hNode c hC, hNode c hC]
    exact ⟨v, hV, hV⟩
  refine ⟨hNode, ?_⟩
  intro e hE peer
  have hEnds := hInv.ends e hE
  refine ⟨?_, hEnd _ _ _ _ hEnds.1, hEnd _ _ _ _ hEnds.2⟩
  rcases hInv.edge e hE peer with hMem | hQueued
  · exact hMem
  · rw [hSettled] at hQueued
    exact (List.not_mem_nil hQueued).elim

-- Receiving

variable {w : Network ι}
variable {agent sender : ι}
variable {payload : Payload}
variable {rest : List Payload}

/- An event changes no node that another store created. -/
omit [DecidableEq ι] in
theorem Inv.apply_eq
    (hInv : Inv w) (hSent : payload ∈ w.queue sender agent)
    {c : CreatedNode ι} (hC : c ∈ w.nodes)
    (hAgent : c.agent ≠ sender) (v : Option Props) :
    payload.apply c.table c.id v = v := by
  rcases payload.apply_eq_or c.table c.id v with
    hSame | ⟨properties, hPayload⟩
  · exact hSame
  · obtain ⟨d, hD, hSender, hTable, hId⟩ :=
      (hInv.sent sender agent payload hSent).2 c.table c.id
        properties hPayload
    have hOwner := hInv.owner c hC d hD ⟨hTable.symm, hId.symm⟩
    rw [hSender] at hOwner
    exact absurd hOwner hAgent

theorem receive_of_queue
    (hQueue : w.queue sender agent = payload :: rest) :
    receive agent w sender =
      { w.setStore agent (handleEvent (w.store agent) payload)
        with
        queue := fun a b =>
          if a = sender ∧ b = agent then rest
          else w.queue a b } := by
  unfold receive
  rw [hQueue]

theorem receive_nil
    (hQueue : w.queue sender agent = []) :
    receive agent w sender = w := by
  unfold receive
  rw [hQueue]

section Receive

variable (hInv : Inv w)
variable (hQueue : w.queue sender agent = payload :: rest)

include hInv hQueue

omit [DecidableEq ι] in
theorem sender_ne : sender ≠ agent := by
  rintro rfl
  rw [hInv.self] at hQueue
  cases hQueue

/- The nodes of the stores after an event. -/
theorem getNode_receive
    (hNew : payload.IsNew (w.store agent)) (b : ι) (table id : String) :
    ((receive agent w sender).store b).getNode table id =
      if b = agent then
        payload.apply table id ((w.store b).getNode table id)
      else (w.store b).getNode table id := by
  have hSent : payload ∈ w.queue sender agent := by
    rw [hQueue]
    exact List.mem_cons_self
  have hNamed := (hInv.sent sender agent payload hSent).1
  rw [receive_of_queue hQueue]
  change (Function.update w.store agent _ b).getNode table id = _
  split
  next hSelf =>
    rw [hSelf, Function.update_self, getNode_handleEvent hNamed hNew]
  next hOther => rw [Function.update_of_ne hOther]

omit hInv in
theorem queue_receive (a b : ι) :
    (receive agent w sender).queue a b =
      if a = sender ∧ b = agent then rest
      else w.queue a b := by
  rw [receive_of_queue hQueue]

omit hInv in
theorem mem_queue_of_receive
    {a b : ι} {p : Payload} (hMem : p ∈ (receive agent w sender).queue a b) :
    p ∈ w.queue a b := by
  rw [queue_receive hQueue] at hMem
  split at hMem
  next hBoth =>
    rw [hBoth.1, hBoth.2, hQueue]
    exact List.mem_cons_of_mem _ hMem
  next => exact hMem

omit hInv in
theorem edges_receive
    {b : ι} {e : Edge} (hMem : e ∈ (w.store b).edges) :
    e ∈ ((receive agent w sender).store b).edges := by
  rw [receive_of_queue hQueue]
  change e ∈ (Function.update w.store agent _ b).edges
  by_cases hSelf : b = agent
  · rw [hSelf, Function.update_self]
    rw [hSelf] at hMem
    exact mem_edges_handleEvent payload hMem
  · rw [Function.update_of_ne hSelf]
    exact hMem

/- What the receiver created stays as it was. -/
theorem untouched_receive
    (hNew : payload.IsNew (w.store agent)) :
    Untouched w (receive agent w sender) agent := by
  intro c hC hAgent
  have hSent : payload ∈ w.queue sender agent := by
    rw [hQueue]
    exact List.mem_cons_self
  have hOther : c.agent ≠ sender := by
    rw [hAgent]
    exact (sender_ne hInv hQueue).symm
  rw [getNode_receive hInv hQueue hNew, if_pos rfl,
    hInv.apply_eq hSent hC hOther]

theorem receive_inv
    (hNew : payload.IsNew (w.store agent)) :
    Inv (receive agent w sender) := by
  have hSent : payload ∈ w.queue sender agent := by
    rw [hQueue]
    exact List.mem_cons_self
  have hNe := sender_ne hInv hQueue
  have hNode := getNode_receive hInv hQueue hNew
  have hNodes : (receive agent w sender).nodes = w.nodes := by
    rw [receive_of_queue hQueue]
    rfl
  have hEdges : (receive agent w sender).edges = w.edges := by
    rw [receive_of_queue hQueue]
    rfl
  have hStays : ∀ c ∈ w.nodes,
      ((receive agent w sender).store c.agent).getNode c.table c.id =
        (w.store c.agent).getNode c.table c.id := by
    intro c hC
    rw [hNode]
    split
    next hAgent =>
      apply hInv.apply_eq hSent hC
      rw [hAgent]
      exact hNe.symm
    next => rfl
  constructor
  case owner =>
    rw [hNodes]
    exact hInv.owner
  case self =>
    intro a
    rw [queue_receive hQueue, if_neg, hInv.self]
    rintro ⟨hSender, hAgent⟩
    exact hNe (hSender.symm.trans hAgent)
  case sent =>
    intro a b p hP
    rw [hNodes]
    exact hInv.sent a b p (mem_queue_of_receive hQueue hP)
  case given =>
    rw [hNodes]
    intro c hC
    rw [hStays c hC, hInv.given c hC, lastGiven, lastGiven, hNodes]
  case pending =>
    rw [hNodes]
    intro c hC b hB
    rw [hStays c hC, ← hInv.pending c hC b hB, hNode, queue_receive hQueue]
    by_cases hAgent : b = agent
    · rw [if_pos hAgent]
      by_cases hSender : c.agent = sender
      · rw [if_pos ⟨hSender, hAgent⟩, hSender, hAgent, hQueue, replay_cons]
      · rw [if_neg fun hBoth => hSender hBoth.1,
          hInv.apply_eq hSent hC hSender]
    · rw [if_neg hAgent, if_neg fun hBoth => hAgent hBoth.2]
  case created =>
    rw [hNodes]
    intro b table id v hSome
    rw [hNode] at hSome
    split at hSome
    · rcases payload.apply_eq_or table id
          ((w.store b).getNode table id) with
        hSame | ⟨properties, hPayload⟩
      · rw [hSame] at hSome
        exact hInv.created b table id v hSome
      · obtain ⟨d, hD, -, hHas⟩ :=
          (hInv.sent sender agent payload hSent).2 table id
            properties hPayload
        exact ⟨d, hD, hHas⟩
    · exact hInv.created b table id v hSome
  case edge =>
    rw [hEdges]
    intro e hE b
    rcases hInv.edge e hE b with hMem | hQueued
    · exact Or.inl (edges_receive hQueue hMem)
    · rw [queue_receive hQueue]
      split
      next hBoth =>
        rw [hBoth.1, hBoth.2, hQueue] at hQueued
        rcases List.mem_cons.mp hQueued with hHead | hTail
        · left
          rw [receive_of_queue hQueue, hBoth.2]
          change _ ∈ (Function.update w.store agent _ agent).edges
          rw [Function.update_self, ← hHead]
          exact List.mem_append_right _ (List.mem_singleton_self _)
        · exact Or.inr hTail
      next => exact Or.inr hQueued
  case ends =>
    rw [hNodes, hEdges]
    exact hInv.ends

end Receive

end Network

end Graph
