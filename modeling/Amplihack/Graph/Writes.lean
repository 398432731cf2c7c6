import Amplihack.Graph.Replication

/-
  Where every node names its own id, no two stores create
  the same node and no event is taken for known, the stores
  agree once every event has been processed.
-/

-- Creating Nodes

namespace Graph

open Base

namespace Network

variable {ι : Type} [DecidableEq ι]
variable {w : Network ι}
variable {agent : ι}

/-
  The node names its id, and no other store created a node
  of this id in the table.
-/
def NamedNode
    (w : Network ι) (agent : ι) (table : String)
    (properties : Props) (id : String) :
    Prop :=
  table ≠ "" ∧ properties.text "id" = some id ∧
    ∀ c ∈ w.nodes, c.HasKey table id → c.agent = agent

section CreateNode

variable {table id : String}
variable {properties : Props}
variable (hInv : Inv w)
variable (hNamed : NamedNode w agent table properties id)

omit [DecidableEq ι] in
theorem apply_createNode_self (v : Option Props) :
    (Payload.createNode table id properties).apply table id v =
      some (InMemory.withId properties id) :=
  if_pos rfl

include hNamed

omit [DecidableEq ι] in
theorem apply_createNode_eq
    {c : CreatedNode ι} (hC : c ∈ w.nodes)
    (hAgent : c.agent ≠ agent) (v : Option Props) :
    (Payload.createNode table id properties).apply c.table c.id v = v := by
  unfold Payload.apply
  dsimp only
  split
  next hKey =>
    rw [Prod.mk.injEq] at hKey
    exact absurd (hNamed.2.2 c hC hKey) hAgent
  · rfl

theorem getNode_createNode
    (b : ι) (t i : String) :
    ((w.createNode agent table properties).store b).getNode t i =
      if b = agent then
        (Payload.createNode table id properties).apply t i
          ((w.store b).getNode t i)
      else (w.store b).getNode t i := by
  unfold createNode
  rw [InMemory.createNode_of_text _ _ hNamed.2.1]
  change (Function.update w.store agent _ b).getNode t i = _
  split
  next hSelf =>
    rw [hSelf, Function.update_self, InMemory.getNode_setNode]
    rfl
  next hOther => rw [Function.update_of_ne hOther]

theorem queue_createNode (a b : ι) :
    (w.createNode agent table properties).queue a b =
      if a = agent ∧ b ≠ agent then
        w.queue a b ++ [.createNode table id properties]
      else w.queue a b := by
  unfold createNode
  rw [InMemory.createNode_of_text _ _ hNamed.2.1]
  rfl

theorem nodes_createNode :
    (w.createNode agent table properties).nodes =
      ⟨agent, table, id, properties⟩ :: w.nodes := by
  unfold createNode
  rw [InMemory.createNode_of_text _ _ hNamed.2.1]

theorem lastGiven_createNode (t i : String) :
    (w.createNode agent table properties).lastGiven t i =
      (Payload.createNode table id properties).apply t i
        (w.lastGiven t i) := by
  unfold lastGiven Payload.apply
  rw [nodes_createNode hNamed, List.find?_cons]
  by_cases hKey : (t, i) = (table, id)
  · rw [Prod.mk.injEq] at hKey
    simp [hKey.1, hKey.2]
  · have hNe : (table == t && id == i) = false := by
      rw [Bool.and_eq_false_iff, beq_eq_false_iff_ne,
        beq_eq_false_iff_ne, ← not_and_or]
      rintro ⟨hTable, hId⟩
      exact hKey (by rw [hTable, hId])
    dsimp only
    rw [hNe, if_neg hKey]

theorem edges_createNode
    {b : ι} :
    ((w.createNode agent table properties).store b).edges =
      (w.store b).edges := by
  unfold createNode
  rw [InMemory.createNode_of_text _ _ hNamed.2.1]
  change (Function.update w.store agent _ b).edges = _
  by_cases hSelf : b = agent
  · rw [hSelf, Function.update_self]
    rfl
  · rw [Function.update_of_ne hSelf]

include hInv

theorem createNode_inv :
    Inv (w.createNode agent table properties) := by
  have hNodes := nodes_createNode (w := w) hNamed
  have hQueue := queue_createNode (w := w) hNamed
  have hNode := getNode_createNode (w := w) hNamed
  have hOther : ∀ c ∈ w.nodes, c.agent ≠ agent → ∀ v,
      (Payload.createNode table id properties).apply c.table c.id v = v :=
    fun c hC hAgent v => apply_createNode_eq hNamed hC hAgent v
  have hSub : ∀ a b p, p ∈ w.queue a b →
      p ∈ (w.createNode agent table properties).queue a b := by
    intro a b p hMem
    rw [hQueue]
    split
    · exact List.mem_append_left _ hMem
    · exact hMem
  have hMore : ∀ t i, (∃ c ∈ w.nodes, c.HasKey t i) →
      ∃ c ∈ (w.createNode agent table properties).nodes, c.HasKey t i := by
    rintro t i ⟨c, hC, hHas⟩
    rw [hNodes]
    exact ⟨c, List.mem_cons_of_mem _ hC, hHas⟩
  constructor
  case owner =>
    rw [hNodes]
    intro c hC d hD hHas
    rcases List.mem_cons.mp hC with rfl | hOldC
    · rcases List.mem_cons.mp hD with rfl | hOldD
      · rfl
      · exact (hNamed.2.2 d hOldD ⟨hHas.1.symm, hHas.2.symm⟩).symm
    · rcases List.mem_cons.mp hD with rfl | hOldD
      · exact hNamed.2.2 c hOldC hHas
      · exact hInv.owner c hOldC d hOldD hHas
  case self =>
    intro a
    rw [hQueue, if_neg, hInv.self]
    rintro ⟨hSelf, hNot⟩
    exact hNot hSelf
  case sent =>
    intro a b p hP
    rw [hQueue] at hP
    have hOld : p ∈ w.queue a b →
        p.IsNamed ∧ ∀ t i q, p = .createNode t i q →
          ∃ c ∈ (w.createNode agent table properties).nodes,
            c.agent = a ∧ c.HasKey t i := by
      intro hMem
      refine ⟨(hInv.sent a b p hMem).1, ?_⟩
      intro t i q hEq
      obtain ⟨c, hC, hHas⟩ := (hInv.sent a b p hMem).2 t i q hEq
      rw [hNodes]
      exact ⟨c, List.mem_cons_of_mem _ hC, hHas⟩
    split at hP
    next hBoth =>
      rcases List.mem_append.mp hP with hMem | hNew
      · exact hOld hMem
      · rw [List.mem_singleton.mp hNew]
        refine ⟨⟨hNamed.1, hNamed.2.1⟩, ?_⟩
        intro t i q hEq
        cases hEq
        rw [hNodes]
        exact ⟨_, List.mem_cons_self, hBoth.1.symm, rfl, rfl⟩
    next => exact hOld hP
  case given =>
    rw [hNodes]
    intro c hC
    rw [lastGiven_createNode hNamed, hNode]
    rcases List.mem_cons.mp hC with rfl | hOld
    · rw [if_pos rfl, apply_createNode_self, apply_createNode_self]
    · rw [hInv.given c hOld]
      split
      · rfl
      next hAgent => rw [hOther c hOld hAgent]
  case pending =>
    rw [hNodes]
    intro c hC b hB
    rw [hNode, hNode, hQueue]
    rcases List.mem_cons.mp hC with rfl | hOld
    · rw [if_pos ⟨rfl, hB⟩, if_pos rfl, replay_append,
        apply_createNode_self, apply_createNode_self]
    · by_cases hAgent : c.agent = agent
      · rw [hAgent] at hB
        rw [if_pos ⟨hAgent, hB⟩, if_neg hB, if_pos hAgent,
          replay_append, hInv.pending c hOld b]
        rw [hAgent]
        exact hB
      · rw [if_neg fun hBoth => hAgent hBoth.1, if_neg hAgent,
          hOther c hOld hAgent, ite_self, hInv.pending c hOld b hB]
  case created =>
    intro b t i v hSome
    rw [hNode] at hSome
    split at hSome
    · rcases (Payload.createNode table id properties).apply_eq_or
          t i ((w.store b).getNode t i) with
        hSame | ⟨q, hPayload⟩
      · rw [hSame] at hSome
        exact hMore t i (hInv.created b t i v hSome)
      · cases hPayload
        rw [hNodes]
        exact ⟨_, List.mem_cons_self, rfl, rfl⟩
    · exact hMore t i (hInv.created b t i v hSome)
  case edge =>
    intro e hE b
    rw [edges_createNode hNamed]
    rcases hInv.edge e hE b with hMem | hQueued
    · exact Or.inl hMem
    · exact Or.inr (hSub _ _ _ hQueued)
  case ends =>
    intro e hE
    have hEnds := hInv.ends e hE
    exact ⟨hMore _ _ hEnds.1, hMore _ _ hEnds.2⟩

end CreateNode

-- Creating Edges

section CreateEdge

variable {relType fromTable fromId toTable toId : String}
variable {properties : Props}

theorem getNode_createEdge
    (b : ι) (t i : String) :
    ((w.createEdge agent relType fromTable fromId toTable toId
        properties).store b).getNode t i =
      (w.store b).getNode t i := by
  change (Function.update w.store agent _ b).getNode t i = _
  by_cases hSelf : b = agent
  · rw [hSelf, Function.update_self]
    rfl
  · rw [Function.update_of_ne hSelf]

theorem queue_createEdge (a b : ι) :
    (w.createEdge agent relType fromTable fromId toTable toId
        properties).queue a b =
      if a = agent ∧ b ≠ agent then
        w.queue a b ++ [.createEdge relType fromTable fromId
          toTable toId properties]
      else w.queue a b :=
  rfl

theorem edges_createEdge
    {b : ι} {e : Edge} (hMem : e ∈ (w.store b).edges) :
    e ∈ ((w.createEdge agent relType fromTable fromId toTable
      toId properties).store b).edges := by
  change e ∈ (Function.update w.store agent _ b).edges
  by_cases hSelf : b = agent
  · rw [hSelf, Function.update_self]
    rw [hSelf] at hMem
    exact List.mem_append_left _ hMem
  · rw [Function.update_of_ne hSelf]
    exact hMem

theorem createEdge_inv
    (hInv : Inv w)
    (hPossible : Possible w (.createEdge agent relType fromTable
      fromId toTable toId properties)) :
    Inv (w.createEdge agent relType fromTable fromId toTable
      toId properties) := by
  have hHas : ∀ t i, ((w.store agent).getNode t i).isSome →
      ∃ c ∈ w.nodes, c.HasKey t i := by
    intro t i hSome
    obtain ⟨v, hV⟩ := Option.isSome_iff_exists.mp hSome
    exact hInv.created agent t i v hV
  constructor
  case owner => exact hInv.owner
  case self =>
    intro a
    rw [queue_createEdge, if_neg, hInv.self]
    rintro ⟨hSelf, hNot⟩
    exact hNot hSelf
  case sent =>
    intro a b p hP
    rw [queue_createEdge] at hP
    split at hP
    · rcases List.mem_append.mp hP with hOld | hNew
      · exact hInv.sent a b p hOld
      · rw [List.mem_singleton.mp hNew]
        refine ⟨trivial, ?_⟩
        intro t i q hEq
        cases hEq
    · exact hInv.sent a b p hP
  case given =>
    intro c hC
    rw [getNode_createEdge]
    exact hInv.given c hC
  case pending =>
    intro c hC b hB
    rw [getNode_createEdge, getNode_createEdge, queue_createEdge]
    split
    · rw [replay_append]
      exact hInv.pending c hC b hB
    · exact hInv.pending c hC b hB
  case created =>
    intro b t i v hSome
    rw [getNode_createEdge] at hSome
    exact hInv.created b t i v hSome
  case edge =>
    intro e hE b
    rcases List.mem_cons.mp hE with rfl | hOld
    · by_cases hSelf : b = agent
      · left
        change _ ∈ (Function.update w.store agent _ b).edges
        rw [hSelf, Function.update_self]
        exact List.mem_append_right _ (List.mem_singleton_self _)
      · right
        rw [queue_createEdge, if_pos ⟨rfl, hSelf⟩]
        exact List.mem_append_right _ (List.mem_singleton_self _)
    · rcases hInv.edge e hOld b with hMem | hQueued
      · exact Or.inl (edges_createEdge hMem)
      · right
        rw [queue_createEdge]
        split
        · exact List.mem_append_left _ hQueued
        · exact hQueued
  case ends =>
    intro e hE
    rcases List.mem_cons.mp hE with rfl | hOld
    · exact ⟨hHas _ _ hPossible.1, hHas _ _ hPossible.2⟩
    · exact hInv.ends e hOld

end CreateEdge

-- Whole Runs

/- The next event of the sender is not taken for known. -/
def NextIsNew (agent : ι) (w : Network ι) (sender : ι) : Prop :=
  ∀ payload ∈ (w.queue sender agent).head?, payload.IsNew (w.store agent)

/-
  A node names its id and belongs to one store; no event that
  is processed is taken for one that is known.
-/
def Named (w : Network ι) : Action ι → Prop
| .createNode agent table properties =>
  ∃ id, NamedNode w agent table properties id
| .createEdge .. => True
| .processEvents agent senders =>
  Admits (receive agent) (NextIsNew agent) w senders

def Allowed (w : Network ι) (action : Action ι) : Prop :=
  Possible w action ∧ Named w action

theorem receive_step
    {sender : ι} (hInv : Inv w) (hNew : NextIsNew agent w sender) :
    Inv (receive agent w sender) ∧
      Untouched w (receive agent w sender) agent := by
  cases hQueue : w.queue sender agent with
  | nil =>
    rw [receive_nil hQueue]
    exact ⟨hInv, fun _ _ _ => rfl⟩
  | cons payload rest =>
    have hFirst := hNew payload (by rw [hQueue]; rfl)
    exact ⟨receive_inv hInv hQueue hFirst,
      untouched_receive hInv hQueue hFirst⟩

theorem nodes_receive (sender : ι) :
    (receive agent w sender).nodes = w.nodes := by
  unfold receive
  split <;> rfl

theorem processEvents_step
    {senders : List ι} (hInv : Inv w)
    (hNew : Admits (receive agent) (NextIsNew agent) w senders) :
    Inv (w.processEvents agent senders) ∧
      Untouched w (w.processEvents agent senders) agent := by
  induction senders generalizing w with
  | nil => exact ⟨hInv, fun _ _ _ => rfl⟩
  | cons sender senders ih =>
    have hFirst := receive_step hInv hNew.1
    have hRest := ih hFirst.1 hNew.2
    refine ⟨hRest.1, ?_⟩
    intro c hC hAgent
    rw [processEvents, List.foldl_cons]
    rw [← hFirst.2 c hC hAgent]
    apply hRest.2 c _ hAgent
    rw [nodes_receive]
    exact hC

theorem step_inv
    (w : Network ι) (action : Action ι) (hInv : Inv w)
    (hAllowed : Allowed w action) :
    Inv (w.step action) := by
  cases action with
  | createNode agent table properties =>
    obtain ⟨id, hNamed⟩ := hAllowed.2
    exact createNode_inv hInv hNamed
  | createEdge agent relType fromTable fromId toTable toId
      properties =>
      exact createEdge_inv hInv hAllowed.1
  | processEvents agent senders =>
    exact (processEvents_step hInv hAllowed.2).1

/-
  Once every event is processed the stores have the same
  nodes and edges, and no event changes what its receiver
  created.
-/
theorem replicated_of_named
    (w : Network ι) (hRun : Reaches step Allowed start w) :
    (Settled w → Replicated w) ∧
      ∀ agent senders,
        Allowed w (.processEvents agent senders) →
          Untouched w (w.processEvents agent senders) agent := by
  have hInv := hRun.invariant Inv step_inv start_inv
  refine ⟨hInv.replicated, ?_⟩
  intro agent senders hAllowed
  exact (processEvents_step hInv hAllowed.2).2

-- Two Stores

def noted (content : String) : Props :=
  Dict.empty.insert "content" (.str content)

/- A node with an id and an edge from it to itself. -/
def namedRun : List (Action Bool) :=
  [.createNode true "notes" (InMemory.withId (noted "a") "n"),
    .createEdge true "self" "notes" "n" "notes" "n" .empty,
    .processEvents false [true, true]]

theorem replicated_of_namedRun :
    Replicated (namedRun.foldl step start) := by
  refine (replicated_of_named _ ?_).1 ?_
  · have hFirst : Reaches step Allowed start
        ((start : Network Bool).step (.createNode true "notes"
          (InMemory.withId (noted "a") "n"))) :=
      (Reaches.refl _).tail _ ⟨trivial, "n", by decide, rfl, nofun⟩
    have hSecond := hFirst.tail (.createEdge true "self" "notes"
      "n" "notes" "n" .empty) ⟨⟨rfl, rfl⟩, trivial⟩
    refine hSecond.tail (.processEvents false [true, true])
      ⟨trivial, ?_, ?_, trivial⟩
    · rintro payload ⟨⟩
      exact rfl
    · rintro payload ⟨⟩
      exact trivial
  · intro a b
    cases a <;> cases b <;> rfl

/- Each store makes a node without an id, then reads. -/
def unnamedRun : List (Action Bool) :=
  [.createNode false "facts" (noted "b"),
    .createNode true "notes" (noted "a"),
    .processEvents true [false],
    .processEvents false [true]]

/-
  The node ("notes", "mem-1") of one store is at ("notes",
  "mem-2") in the other.
-/
theorem generated_id_differs :
    Reaches step Possible start (unnamedRun.foldl step start) ∧
      Settled (unnamedRun.foldl step start) ∧
      ¬ Replicated (unnamedRun.foldl step start) := by
  refine ⟨?_, ?_, ?_⟩
  · apply Reaches.foldl
    intro w action hMem
    simp only [unnamedRun, List.mem_cons, List.not_mem_nil, or_false] at hMem
    rcases hMem with rfl | rfl | rfl | rfl <;> exact trivial
  · intro a b
    cases a <;> cases b <;> rfl
  · intro hReplicated
    have hNode := hReplicated.node ⟨true, "notes", "mem-1", noted "a"⟩
      List.mem_cons_self false
    have hSome := congrArg Option.isSome hNode
    exact absurd hSome (by decide)

end Network

end Graph
