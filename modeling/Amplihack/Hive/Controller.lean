import Amplihack.Base.Runs
import Amplihack.Hive.EventBus

/-
  The controller of a hive: the agents it says are running,
  those that have an orchestrator, and those on the bus.
-/

-- Manifests And States

namespace Hive

open Base

structure AgentSpec where
  name : String
  role : String
  replicas : ℕ
  memoryConfig : Option String
  domain : String

structure GatewayConfig where
  trustThreshold : Float := 0.0
  contradictionOverlap : Float := 0.4

structure HiveManifest where
  agents : List AgentSpec
  gateway : GatewayConfig

structure HiveState where
  runningAgents : List AgentSpec
  graphStatus : String
  busStatus : String
  hiveStoreConnected : Bool
  eventBusConnected : Bool

def names (agents : List AgentSpec) : List String :=
  agents.map (·.name)

/- The gateway is that of the manifest it is built from. -/
structure HiveController where
  desired : Option HiveManifest
  current : HiveState
  orchestrators : Dict String HiveMindOrchestrator
  bus : LocalEventBus
  gateway : GatewayConfig

def idle (connected : Bool) : HiveState where
  runningAgents := []
  graphStatus := "idle"
  busStatus := "idle"
  hiveStoreConnected := connected
  eventBusConnected := connected

def agentNotFound (name : String) : HiveError :=
  .controller ("agent not found: " ++ name)

namespace HiveController

def new : HiveController where
  desired := none
  current := idle false
  orchestrators := .empty
  bus := .new
  gateway := {}

def fromManifest (manifest : HiveManifest) : HiveController where
  desired := some manifest
  current := idle true
  orchestrators := .empty
  bus := .new
  gateway := manifest.gateway

-- Declarative Operations

def createAgent
    (currentNames : List String)
    (acc : HiveController × List String) (agent : AgentSpec) :
    HiveController × List String :=
  if currentNames.contains agent.name then acc
  else
    ({ acc.1 with
       orchestrators :=
         acc.1.orchestrators.insert agent.name (.withAgentId agent.name)
       bus := acc.1.bus.subscribe agent.name none },
      acc.2 ++ ["create " ++ agent.name])

def dropAgent
    (acc : HiveController × List String) (name : String) :
    HiveController × List String :=
  ({ acc.1 with
     orchestrators := acc.1.orchestrators.remove name
     bus := acc.1.bus.unsubscribe name },
    acc.2 ++ ["remove " ++ name])

def applyManifest (c : HiveController) (manifest : HiveManifest) :
    HiveController × List String :=
  let desiredNames := names manifest.agents
  let currentNames := c.orchestrators.keys
  let created :=
    manifest.agents.foldl (createAgent currentNames) (c, [])
  let removed :=
    (currentNames.filter fun name =>
      !desiredNames.contains name).foldl dropAgent created
  ({ removed.1 with
     desired := some manifest
     current :=
       { removed.1.current with
         runningAgents := manifest.agents
         hiveStoreConnected := true
         eventBusConnected := true } },
    removed.2)

def apply (c : HiveController) (manifest : HiveManifest) :
    HiveController :=
  { c with desired := some manifest }

def scaleAction (agent : AgentSpec) : String :=
  "scale " ++ agent.name ++ " to " ++ toString agent.replicas

/- Only what is running is set; nothing is created or removed. -/
def reconcile (c : HiveController) :
    HiveController × List String :=
  match c.desired with
  | none => (c, [])
  | some desired =>
    let currentMap := Dict.ofList
      (c.current.runningAgents.map fun a =>
        (a.name, a.replicas))
    let scaled := desired.agents.filter fun agent =>
      currentMap.get? agent.name != some agent.replicas
    let removed := c.current.runningAgents.filter fun agent =>
      !(names desired.agents).contains agent.name
    ({ c with
       current :=
         { c.current with runningAgents := desired.agents } },
      scaled.map scaleAction ++
        removed.map fun agent => "remove " ++ agent.name)

-- Imperative Operations

def scaleFirst (name : String) (replicas : ℕ) :
    List AgentSpec → List AgentSpec
| [] => []
| agent :: rest =>
  if agent.name = name then
    { agent with replicas := replicas } :: rest
  else agent :: scaleFirst name replicas rest

def inDesired (c : HiveController) (name : String) : Bool :=
  c.desired.any fun manifest =>
    (names manifest.agents).contains name

def scaleAgent
    (c : HiveController) (name : String) (replicas : ℕ) :
    HiveController × Except HiveError Unit :=
  let found :=
    c.inDesired name || (names c.current.runningAgents).contains name
  ({ c with
     desired := c.desired.map fun manifest =>
       { manifest with
         agents := scaleFirst name replicas manifest.agents }
     current :=
       { c.current with
         runningAgents :=
           scaleFirst name replicas c.current.runningAgents } },
    if found then .ok () else .error (agentNotFound name))

def without (name : String) (agents : List AgentSpec) :
    List AgentSpec :=
  agents.filter fun agent => agent.name != name

def removeAgent (c : HiveController) (name : String) :
    HiveController × Bool :=
  ({ c with
     desired := c.desired.map fun manifest =>
       { manifest with agents := without name manifest.agents }
     current :=
       { c.current with
         runningAgents := without name c.current.runningAgents } },
    c.inDesired name || (names c.current.runningAgents).contains name)

def learn
    (c : HiveController) (stamp : Stamp)
    (agentName concept content : String) (confidence : Float) :
    HiveController × Except HiveError PromotionResult :=
  match c.orchestrators.get? agentName with
  | none => (c, .error (agentNotFound agentName))
  | some orch =>
    match orch.storeAndPromote stamp concept content confidence
      agentName with
    | .error e => (c, .error e)
    | .ok (result, stored) =>
      ({ c with
         orchestrators :=
           c.orchestrators.insert agentName stored },
        .ok result)

def queryAgent
    (toLowercase : String → String) (c : HiveController)
    (agentName concept : String) :
    Except HiveError (List HiveFact) :=
  match c.orchestrators.get? agentName with
  | none => .error (agentNotFound agentName)
  | some orch => .ok (orch.query toLowercase concept)

/- An agent takes all its events, one after the other. -/
def pollAgent
    (stamps : String → BusEvent → Stamp) (c : HiveController)
    (name : String) :
    HiveController :=
  let polled := c.bus.poll name
  { c with
    bus := polled.2
    orchestrators := c.orchestrators.modify name fun orch =>
      polled.1.foldl
        (fun orch event =>
          orch.processEvent (stamps name event) event)
        orch }

/- JSON has no number for an infinite or undefined confidence. -/
def factPayload (concept content : String) (confidence : Float) :
    Payload where
  concept := some concept
  content := some content
  confidence :=
    if confidence.isFinite then some confidence else none

def propagate
    (c : HiveController) (stamp : Stamp) (stamps : String → BusEvent → Stamp)
    (sourceAgent concept content : String) (confidence : Float) :
    HiveController :=
  if c.gateway.trustThreshold ≤ confidence then
    let event := makeEvent stamp "fact.propagate" sourceAgent
      (factPayload concept content confidence)
    let published := { c with bus := c.bus.publish event }
    published.orchestrators.keys.foldl (pollAgent stamps) published
  else c

def shutdown (c : HiveController) : HiveController :=
  { c with
    orchestrators := .empty
    bus := c.bus.close
    current :=
      { runningAgents := []
        graphStatus := "stopped"
        busStatus := "stopped"
        hiveStoreConnected := false
        eventBusConnected := false } }

inductive Operation where
| applyManifest (manifest : HiveManifest)
| apply (manifest : HiveManifest)
| reconcile
| scaleAgent (name : String) (replicas : ℕ)
| removeAgent (name : String)
| learn (stamp : Stamp) (agentName concept content : String)
    (confidence : Float)
| propagate (stamp : Stamp) (stamps : String → BusEvent → Stamp)
    (sourceAgent concept content : String) (confidence : Float)
| shutdown

def step (c : HiveController) : Operation → HiveController
| .applyManifest manifest => (c.applyManifest manifest).1
| .apply manifest => c.apply manifest
| .reconcile => c.reconcile.1
| .scaleAgent name replicas => (c.scaleAgent name replicas).1
| .removeAgent name => (c.removeAgent name).1
| .learn stamp agentName concept content confidence =>
  (c.learn stamp agentName concept content confidence).1
| .propagate stamp stamps sourceAgent concept content confidence =>
  c.propagate stamp stamps sourceAgent concept content confidence
| .shutdown => c.shutdown

-- The Three Views

def Running (c : HiveController) (name : String) : Prop :=
  name ∈ names c.current.runningAgents

def Hosts (c : HiveController) (name : String) : Prop :=
  (c.orchestrators.get? name).isSome

/- What waits in the mailbox, and what was taken from it. -/
def receivedEvents (c : HiveController) (name : String) :
    List BusEvent :=
  c.bus.pendingEvents name ++
    ((c.orchestrators.get? name).map (·.pendingEvents)).getD []

def Operation.Brings (name : String) : Operation → Prop
| .applyManifest manifest => name ∈ names manifest.agents
| _ => False

/-
  Running agents are those with an orchestrator and those
  subscribed; learning and answering succeed for them alone;
  another receives nothing until a manifest brings it.
-/
structure ViewsAgree
    (toLowercase : String → String) (c : HiveController) :
    Prop where
  hosted : ∀ name, c.Running name ↔ c.Hosts name
  subscribed : ∀ name, c.Running name ↔ c.bus.Subscribed name
  learns : ∀ stamp name concept content confidence,
    (c.learn stamp name concept content confidence).2.isOk ↔
      c.Running name ∧ ValidConfidence confidence
  answers : ∀ name concept,
    (c.queryAgent toLowercase name concept).isOk ↔ c.Running name
  deaf : ∀ name, ¬ c.Running name →
    ∀ later : List Operation,
      (∀ op ∈ later, ¬ op.Brings name) →
        (later.foldl step c).receivedEvents name = []

/- The operations after which the views are compared. -/
def Operation.Settles : Operation → Prop
| .applyManifest _ | .reconcile | .removeAgent _ | .shutdown => True
| _ => False

/-
  Reconciling towards the agents that run anyway, and removing
  one that does not run.
-/
def KeepsViews (c : HiveController) : Operation → Prop
| .reconcile => ∀ manifest, c.desired = some manifest →
    ∀ name, name ∈ names manifest.agents ↔ c.Running name
| .removeAgent name => ¬ c.Running name
| _ => True

/- Orchestrators and subscriptions go together always. -/
structure Wired (c : HiveController) : Prop where
  subscribed : ∀ name, c.Hosts name ↔ c.bus.Subscribed name
  boxed : c.bus.Boxed

def Agrees (c : HiveController) : Prop :=
  ∀ name, c.Running name ↔ c.Hosts name

-- What Each Operation Does To The Views

variable {c : HiveController}

/- A controller that has just been built. -/
def Fresh (c : HiveController) : Prop :=
  c.current.runningAgents = [] ∧ c.orchestrators = .empty ∧ c.bus = .new

theorem Fresh.wired (hFresh : c.Fresh) : c.Wired where
  subscribed := by
    intro name
    simp [Hosts, LocalEventBus.Subscribed, hFresh.2.1,
      hFresh.2.2, LocalEventBus.new]
  boxed := by
    intro name hBox
    simp [hFresh.2.2, LocalEventBus.new] at hBox

theorem Fresh.agrees (hFresh : c.Fresh) : c.Agrees := by
  intro name
  simp [Running, Hosts, names, hFresh.1, hFresh.2.1]

/- One agent gets an orchestrator and a subscription, or none. -/
theorem createAgent_wired
    (currentNames : List String)
    (acc : HiveController × List String) (agent : AgentSpec)
    (hWired : acc.1.Wired) :
    (createAgent currentNames acc agent).1.Wired := by
  unfold createAgent
  split
  · exact hWired
  · refine ⟨?_, hWired.boxed.subscribe agent.name none⟩
    intro name
    unfold Hosts LocalEventBus.Subscribed LocalEventBus.subscribe
    dsimp only
    rw [Dict.get?_insert, Dict.get?_insert]
    by_cases hSame : name = agent.name
    · simp [hSame]
    · rw [if_neg hSame, if_neg hSame]
      exact hWired.subscribed name

theorem createAgent_hosts
    (currentNames : List String)
    (acc : HiveController × List String) (agent : AgentSpec) (name : String) :
    (createAgent currentNames acc agent).1.Hosts name ↔
      acc.1.Hosts name ∨ (name = agent.name ∧ name ∉ currentNames) := by
  unfold createAgent
  by_cases hKnown : agent.name ∈ currentNames
  · rw [if_pos (by simpa using hKnown)]
    constructor
    · exact Or.inl
    · rintro (hHosts | ⟨rfl, hNot⟩)
      · exact hHosts
      · exact absurd hKnown hNot
  · rw [if_neg (by simpa using hKnown)]
    unfold Hosts
    dsimp only
    rw [Dict.get?_insert]
    by_cases hSame : name = agent.name
    · subst hSame
      simp [hKnown]
    · simp [hSame]

theorem dropAgent_wired
    (acc : HiveController × List String) (name : String)
    (hWired : acc.1.Wired) :
    (dropAgent acc name).1.Wired := by
  refine ⟨?_, hWired.boxed.unsubscribe name⟩
  intro other
  unfold dropAgent Hosts LocalEventBus.Subscribed LocalEventBus.unsubscribe
  dsimp only
  rw [Dict.get?_remove, Dict.get?_remove]
  by_cases hSame : other = name
  · simp [hSame]
  · rw [if_neg hSame, if_neg hSame]
    exact hWired.subscribed other

theorem dropAgent_hosts
    (acc : HiveController × List String) (name other : String) :
    (dropAgent acc name).1.Hosts other ↔
      acc.1.Hosts other ∧ other ≠ name := by
  unfold dropAgent Hosts
  dsimp only
  rw [Dict.get?_remove]
  by_cases hSame : other = name
  · simp [hSame]
  · simp [hSame]

theorem created_hosts
    (currentNames : List String) (agents : List AgentSpec)
    (acc : HiveController × List String) (name : String) :
    (agents.foldl (createAgent currentNames) acc).1.Hosts name ↔
      acc.1.Hosts name ∨ (name ∈ names agents ∧ name ∉ currentNames) := by
  induction agents generalizing acc with
  | nil => simp [names]
  | cons agent rest ih =>
    rw [List.foldl_cons, ih, createAgent_hosts]
    simp only [names, List.map_cons, List.mem_cons]
    tauto

theorem dropped_hosts
    (removed : List String) (acc : HiveController × List String)
    (name : String) :
    (removed.foldl dropAgent acc).1.Hosts name ↔
      acc.1.Hosts name ∧ name ∉ removed := by
  induction removed generalizing acc with
  | nil => simp
  | cons first rest ih =>
    rw [List.foldl_cons, ih, dropAgent_hosts]
    simp only [List.mem_cons]
    tauto

theorem created_wired
    (currentNames : List String) (agents : List AgentSpec)
    (acc : HiveController × List String) (hWired : acc.1.Wired) :
    (agents.foldl (createAgent currentNames) acc).1.Wired := by
  induction agents generalizing acc with
  | nil => exact hWired
  | cons agent rest ih =>
    exact ih _ (createAgent_wired currentNames acc agent hWired)

theorem dropped_wired
    (removed : List String) (acc : HiveController × List String)
    (hWired : acc.1.Wired) :
    (removed.foldl dropAgent acc).1.Wired := by
  induction removed generalizing acc with
  | nil => exact hWired
  | cons first rest ih => exact ih _ (dropAgent_wired acc first hWired)

theorem hosts_iff_mem_keys {name : String} :
    c.Hosts name ↔ name ∈ c.orchestrators.keys := by
  unfold Hosts
  rw [Option.isSome_iff_ne_none, ne_eq, Dict.get?_eq_none_iff, not_not]

/- The agents of the manifest, and no others. -/
theorem applyManifest_hosts
    (c : HiveController) (manifest : HiveManifest) (name : String) :
    (c.applyManifest manifest).1.Hosts name ↔
      name ∈ names manifest.agents := by
  have hSame : (c.applyManifest manifest).1.Hosts name ↔
      (((c.orchestrators.keys.filter fun name =>
        !(names manifest.agents).contains name).foldl dropAgent
          (manifest.agents.foldl
            (createAgent c.orchestrators.keys)
            (c, []))).1.Hosts name) := Iff.rfl
  rw [hSame, dropped_hosts, created_hosts, hosts_iff_mem_keys]
  simp only [List.mem_filter, List.contains_eq_mem,
    Bool.not_eq_true', decide_eq_false_iff_not]
  tauto

theorem applyManifest_wired
    (hWired : c.Wired) (manifest : HiveManifest) :
    (c.applyManifest manifest).1.Wired := by
  have hDropped := dropped_wired
    (c.orchestrators.keys.filter fun name =>
      !(names manifest.agents).contains name)
    (manifest.agents.foldl (createAgent c.orchestrators.keys) (c, []))
    (created_wired _ _ _ hWired)
  exact ⟨hDropped.subscribed, hDropped.boxed⟩

theorem scaleFirst_names
    (name : String) (replicas : ℕ) (agents : List AgentSpec) :
    names (scaleFirst name replicas agents) = names agents := by
  induction agents with
  | nil => rfl
  | cons agent rest ih =>
    unfold scaleFirst
    split
    · rfl
    · simpa [names] using ih

/- Taking events changes no orchestrator for another. -/
theorem pollAgent_hosts
    (stamps : String → BusEvent → Stamp) (c : HiveController)
    (agent name : String) :
    (c.pollAgent stamps agent).Hosts name ↔ c.Hosts name := by
  unfold pollAgent Hosts
  dsimp only
  rw [Dict.get?_modify]
  split
  · simp
  · rfl

theorem pollAgent_wired
    (stamps : String → BusEvent → Stamp) (hWired : c.Wired) (agent : String) :
    (c.pollAgent stamps agent).Wired where
  subscribed := by
    intro name
    rw [pollAgent_hosts]
    exact hWired.subscribed name
  boxed := hWired.boxed.poll agent

theorem polled_hosts
    (stamps : String → BusEvent → Stamp) (agents : List String)
    (c : HiveController) (name : String) :
    (agents.foldl (pollAgent stamps) c).Hosts name ↔ c.Hosts name := by
  induction agents generalizing c with
  | nil => rfl
  | cons agent rest ih => rw [List.foldl_cons, ih, pollAgent_hosts]

theorem polled_wired
    (stamps : String → BusEvent → Stamp) (agents : List String)
    (hWired : c.Wired) :
    (agents.foldl (pollAgent stamps) c).Wired := by
  induction agents generalizing c with
  | nil => exact hWired
  | cons agent rest ih => exact ih (pollAgent_wired stamps hWired agent)

theorem polled_current
    (stamps : String → BusEvent → Stamp) (agents : List String)
    (c : HiveController) :
    (agents.foldl (pollAgent stamps) c).current = c.current := by
  induction agents generalizing c with
  | nil => rfl
  | cons agent rest ih =>
    rw [List.foldl_cons, ih]
    rfl

/- A published event changes who has a mailbox, at most. -/
theorem Wired.publish
    (hWired : c.Wired) (event : BusEvent) :
    ({ c with bus := c.bus.publish event } :
      HiveController).Wired where
  subscribed := by
    intro name
    unfold LocalEventBus.Subscribed
    rw [LocalEventBus.publish_subscriptions]
    exact hWired.subscribed name
  boxed := hWired.boxed.publish event

/- An agent that learns keeps its orchestrator. -/
theorem learn_hosts
    (c : HiveController) (stamp : Stamp)
    (agentName concept content : String) (confidence : Float)
    (name : String) :
    (c.learn stamp agentName concept content
      confidence).1.Hosts name ↔ c.Hosts name := by
  unfold learn
  split
  · rfl
  next orch hOrch =>
    split
    · rfl
    next =>
      unfold Hosts
      dsimp only
      rw [Dict.get?_insert]
      by_cases hSame : name = agentName
      · subst hSame
        simp [hOrch]
      · rw [if_neg hSame]

theorem learn_bus
    (c : HiveController) (stamp : Stamp)
    (agentName concept content : String) (confidence : Float) :
    (c.learn stamp agentName concept content confidence).1.bus = c.bus := by
  unfold learn
  split
  · rfl
  · split
    · rfl
    · rfl

theorem learn_current
    (c : HiveController) (stamp : Stamp)
    (agentName concept content : String) (confidence : Float) :
    (c.learn stamp agentName concept content
      confidence).1.current = c.current := by
  unfold learn
  split
  · rfl
  · split
    · rfl
    · rfl

/- Who has an orchestrator after an operation. -/
theorem step_hosts
    (c : HiveController) (op : Operation) (name : String) :
    (c.step op).Hosts name ↔
      match op with
      | .applyManifest manifest => name ∈ names manifest.agents
      | .shutdown => False
      | _ => c.Hosts name := by
  cases op with
  | applyManifest manifest => exact applyManifest_hosts c manifest name
  | apply manifest => rfl
  | reconcile =>
    unfold step reconcile
    dsimp only
    split
    · rfl
    · rfl
  | scaleAgent _ _ | removeAgent _ => rfl
  | learn stamp agentName concept content confidence =>
    exact learn_hosts c stamp agentName concept content confidence name
  | propagate stamp stamps sourceAgent concept content confidence =>
    unfold step propagate
    dsimp only
    split
    · rw [polled_hosts]
      rfl
    · rfl
  | shutdown => simp [step, shutdown, Hosts]

/- Which agents run after an operation. -/
theorem step_running
    (c : HiveController) (op : Operation) (name : String) :
    (c.step op).Running name ↔
      match op with
      | .applyManifest manifest => name ∈ names manifest.agents
      | .reconcile =>
        match c.desired with
        | some manifest => name ∈ names manifest.agents
        | none => c.Running name
      | .removeAgent other => c.Running name ∧ name ≠ other
      | .shutdown => False
      | _ => c.Running name := by
  cases op with
  | applyManifest _ | apply _ => rfl
  | reconcile =>
    unfold step reconcile
    dsimp only
    cases c.desired with
    | none => rfl
    | some manifest => rfl
  | scaleAgent other replicas =>
    simp only [step, scaleAgent, Running, scaleFirst_names]
  | removeAgent other =>
    simp only [step, removeAgent, Running, names, without,
      List.mem_map, List.mem_filter, bne_iff_ne]
    constructor
    · rintro ⟨agent, ⟨hMem, hNe⟩, rfl⟩
      exact ⟨⟨agent, hMem, rfl⟩, hNe⟩
    · rintro ⟨⟨agent, hMem, rfl⟩, hNe⟩
      exact ⟨agent, ⟨hMem, hNe⟩, rfl⟩
  | learn stamp agentName concept content confidence =>
    simp only [step, Running, learn_current]
  | propagate stamp stamps sourceAgent concept content confidence =>
    unfold step propagate Running
    dsimp only
    split
    · rw [polled_current]
    · rfl
  | shutdown => simp [step, shutdown, Running, names]

/- No operation separates orchestrators from subscriptions. -/
theorem step_wired
    (hWired : c.Wired) (op : Operation) :
    (c.step op).Wired := by
  cases op with
  | applyManifest manifest => exact applyManifest_wired hWired manifest
  | apply manifest => exact ⟨hWired.subscribed, hWired.boxed⟩
  | reconcile =>
    unfold step reconcile
    dsimp only
    split
    · exact hWired
    · exact ⟨hWired.subscribed, hWired.boxed⟩
  | scaleAgent name replicas => exact ⟨hWired.subscribed, hWired.boxed⟩
  | removeAgent name => exact ⟨hWired.subscribed, hWired.boxed⟩
  | learn stamp agentName concept content confidence =>
    refine ⟨?_, ?_⟩
    · intro name
      unfold step
      dsimp only
      rw [learn_hosts, learn_bus]
      exact hWired.subscribed name
    · unfold step
      dsimp only
      rw [learn_bus]
      exact hWired.boxed
  | propagate stamp stamps sourceAgent concept content confidence =>
    unfold step propagate
    dsimp only
    split
    · exact polled_wired stamps _ (hWired.publish _)
    · exact hWired
  | shutdown =>
    refine ⟨?_, ?_⟩
    · intro name
      simp [step, shutdown, Hosts, LocalEventBus.Subscribed,
        LocalEventBus.close]
    · intro name hBox
      simp [step, shutdown, LocalEventBus.close] at hBox

-- When The Views Agree

/- From agreeing views, the condition is exact for one step. -/
theorem step_agrees_iff
    (hAgrees : c.Agrees) (op : Operation) :
    (c.step op).Agrees ↔ c.KeepsViews op := by
  unfold Agrees
  simp only [step_running, step_hosts]
  cases op with
  | applyManifest manifest => simp [KeepsViews]
  | apply manifest => exact ⟨fun _ => trivial, fun _ => hAgrees⟩
  | reconcile =>
    unfold KeepsViews
    dsimp only
    cases hDesired : c.desired with
    | none =>
      refine ⟨?_, fun _ => hAgrees⟩
      intro _ manifest hSome
      cases hSome
    | some manifest =>
      dsimp only
      constructor
      · intro hNew other hOther name
        rw [Option.some.inj hOther] at hNew
        rw [hNew name, hAgrees name]
      · intro hKeeps name
        rw [hKeeps manifest rfl name, hAgrees name]
  | scaleAgent name replicas => exact ⟨fun _ => trivial, fun _ => hAgrees⟩
  | removeAgent name =>
    unfold KeepsViews
    dsimp only
    constructor
    · intro hNew hRunning
      exact ((hNew name).mpr ((hAgrees name).mp hRunning)).2 rfl
    · intro hNot other
      rw [← hAgrees other]
      refine ⟨And.left, ?_⟩
      intro hRunning
      refine ⟨hRunning, ?_⟩
      rintro rfl
      exact hNot hRunning
  | learn _ _ _ _ _ | propagate _ _ _ _ _ _ =>
    exact ⟨fun _ => trivial, fun _ => hAgrees⟩
  | shutdown => simp [KeepsViews]

/- Without an orchestrator or a mailbox nothing is received. -/
theorem receivedEvents_eq_nil
    (hWired : c.Wired) {name : String} (hNot : ¬ c.Hosts name) :
    c.receivedEvents name = [] := by
  have hUnsubscribed : ¬ c.bus.Subscribed name := by
    rw [← hWired.subscribed name]
    exact hNot
  unfold receivedEvents
  rw [hWired.boxed.pendingEvents_eq_nil hUnsubscribed]
  cases hGet : c.orchestrators.get? name with
  | none => rfl
  | some orch => exact absurd (by simp [Hosts, hGet]) hNot

/- An agent nobody brings back stays without an orchestrator. -/
theorem not_hosts_foldl
    (later : List Operation) {name : String} (hWired : c.Wired)
    (hNot : ¬ c.Hosts name) (hNobody : ∀ op ∈ later, ¬ op.Brings name) :
    (later.foldl step c).receivedEvents name = [] := by
  induction later generalizing c with
  | nil => exact receivedEvents_eq_nil hWired hNot
  | cons op later ih =>
    apply ih (step_wired hWired op)
    · rw [step_hosts]
      have hThis := hNobody op List.mem_cons_self
      cases op with
      | applyManifest manifest => exact hThis
      | shutdown => exact id
      | _ => exact hNot
    · intro other hMem
      exact hNobody other (List.mem_cons_of_mem op hMem)

theorem learn_isOk_iff
    (c : HiveController) (stamp : Stamp)
    (name concept content : String) (confidence : Float) :
    (c.learn stamp name concept content confidence).2.isOk ↔
      c.Hosts name ∧ ValidConfidence confidence := by
  unfold learn Hosts
  cases hGet : c.orchestrators.get? name with
  | none => simp [Except.isOk, Except.toBool]
  | some orch =>
    have hOk := orch.storeAndPromote_isOk_iff stamp concept
      content confidence name
    simp only [Option.isSome_some, true_and]
    rw [← hOk]
    cases orch.storeAndPromote stamp concept content confidence
      name with
    | error e => rfl
    | ok result => rfl

theorem queryAgent_isOk_iff
    (toLowercase : String → String) (c : HiveController)
    (name concept : String) :
    (c.queryAgent toLowercase name concept).isOk ↔ c.Hosts name := by
  unfold queryAgent Hosts
  cases c.orchestrators.get? name with
  | none | some _ => simp [Except.isOk, Except.toBool]

/- Orchestrators and subscriptions agree; the rest follows. -/
theorem viewsAgree_iff
    (toLowercase : String → String) (hWired : c.Wired) :
    c.ViewsAgree toLowercase ↔ c.Agrees := by
  refine ⟨fun hViews => hViews.hosted, ?_⟩
  intro hAgrees
  refine ⟨hAgrees, ?_, ?_, ?_, ?_⟩
  · intro name
    rw [hAgrees name]
    exact hWired.subscribed name
  · intro stamp name concept content confidence
    rw [hAgrees name]
    exact learn_isOk_iff c stamp name concept content confidence
  · intro name concept
    rw [hAgrees name]
    exact queryAgent_isOk_iff toLowercase c name concept
  · intro name hNot later hNobody
    rw [hAgrees name] at hNot
    exact not_hosts_foldl later hWired hNot hNobody

/- Only the operations that settle the views can break them. -/
theorem keepsViews_of_not_settles
    {op : Operation} (hNot : ¬ op.Settles) :
    c.KeepsViews op := by
  cases op with
  | reconcile | removeAgent _ => exact absurd trivial hNot
  | _ => trivial

/- After an operation that settles them, the views agree. -/
def SettledViewsAgree
    (toLowercase : String → String) (c : HiveController) (op : Operation) :
    Prop :=
  op.Settles → (c.step op).ViewsAgree toLowercase

theorem settled_iff_keepsViews
    (toLowercase : String → String) (history : List Operation)
    (hWired : c.Wired) (hAgrees : c.Agrees) :
    Admits step (SettledViewsAgree toLowercase) c history ↔
      Admits step KeepsViews c history := by
  induction history generalizing c with
  | nil => rfl
  | cons op history ih =>
    have hNext := step_wired hWired op
    have hStep : c.SettledViewsAgree toLowercase op ↔ c.KeepsViews op := by
      unfold SettledViewsAgree
      rw [viewsAgree_iff toLowercase hNext, step_agrees_iff hAgrees op]
      refine ⟨?_, fun hKeeps _ => hKeeps⟩
      intro hSettled
      by_cases hSettles : op.Settles
      · exact hSettled hSettles
      · exact keepsViews_of_not_settles hSettles
    unfold Admits
    rw [hStep]
    apply and_congr_right
    intro hKeeps
    exact ih hNext ((step_agrees_iff hAgrees op).mpr hKeeps)

theorem fresh_new : (new).Fresh := ⟨rfl, rfl, rfl⟩

theorem fresh_fromManifest (manifest : HiveManifest) :
    (fromManifest manifest).Fresh := ⟨rfl, rfl, rfl⟩

/-
  The views agree after each operation that settles them if
  and only if reconciling finds running what it wants, and
  no running agent is removed by name; then they agree after
  every operation.
-/
theorem views_agree_exactly
    (toLowercase : String → String)
    (start : Option HiveManifest) (history : List Operation) :
    let c := start.elim new fromManifest
    (Admits step (SettledViewsAgree toLowercase) c history ↔
      Admits step KeepsViews c history) ∧
    (Admits step KeepsViews c history →
      (history.foldl step c).ViewsAgree toLowercase) := by
  intro c
  have hFresh : c.Fresh := by
    cases start with
    | none => exact fresh_new
    | some manifest => exact fresh_fromManifest manifest
  refine ⟨settled_iff_keepsViews toLowercase history
    hFresh.wired hFresh.agrees, ?_⟩
  intro hKeeps
  have hEnd := hKeeps.invariant
    (fun d => d.Wired ∧ d.Agrees)
    (fun d op hInv hAllowed =>
      ⟨step_wired hInv.1 op, (step_agrees_iff hInv.2 op).mpr hAllowed⟩)
    ⟨hFresh.wired, hFresh.agrees⟩
  exact (viewsAgree_iff toLowercase hEnd.1).mpr hEnd.2

/- A manifest with one agent, which a controller is to run. -/
def oneLearner : HiveManifest where
  agents :=
    [{ name := "learner"
       role := "learn"
       replicas := 2
       memoryConfig := none
       domain := "" }]
  gateway := {}

/- A reconciled agent runs, and can neither learn nor answer. -/
theorem reconciled_agent_is_not_found :
    ¬ Admits step (SettledViewsAgree id) new
        [.apply oneLearner, .reconcile] ∧
      ([.apply oneLearner, .reconcile].foldl step new).Running "learner" ∧
      ([.apply oneLearner, .reconcile].foldl step
        new).queryAgent id "learner" "rust" =
          .error (agentNotFound "learner") := by
  have hRunning :
      ([.apply oneLearner, .reconcile].foldl step new).Running
        "learner" := List.mem_cons_self
  refine ⟨?_, hRunning, rfl⟩
  intro hSettled
  have hHosts := ((hSettled.2.1 trivial).hosted "learner").mp hRunning
  cases hHosts

end HiveController

end Hive
