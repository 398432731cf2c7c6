import Mathlib.Data.List.Basic
import Mathlib.Data.List.Sort
import Amplihack.Base.FirstBy
import Amplihack.Base.Dict

/-
  The machines of the fleet and the sessions observed on them.

  Fleet tasks and the queue that keeps them.

  How a cycle of the admiral decides what to do.
-/

-- Observations

namespace Admiral

inductive AgentStatus where
| unknown
| thinking
| running
| idle
| shell
| noSession
| unreachable
| completed
| stuck
| error
| waitingInput
deriving DecidableEq

/-
  A session as it was observed. `corroborated` is what
  `is_authoritative_completion` says of its URL and output.
-/
structure TmuxSessionInfo where
  sessionName : String
  agentStatus : AgentStatus
  lastOutput : String
  corroborated : Bool

structure VmInfo where
  name : String
  status : String
  tmuxSessions : List TmuxSessionInfo

namespace VmInfo

/- `status.to_ascii_lowercase().contains("run")` -/
def isRunning (vm : VmInfo) : Bool :=
  (vm.status.toList.map Char.toLower).tails.any
    fun tail => "run".toList.isPrefixOf tail

def activeAgents (vm : VmInfo) : ℕ :=
  vm.tmuxSessions.countP fun session =>
    session.agentStatus == .thinking || session.agentStatus == .running ||
      session.agentStatus == .waitingInput

end VmInfo

structure FleetState where
  vms : List VmInfo
  excludeVms : List String

namespace FleetState

def managedVms (fleet : FleetState) : List VmInfo :=
  fleet.vms.filter fun vm => !fleet.excludeVms.contains vm.name

def idleVms (fleet : FleetState) : List VmInfo :=
  fleet.managedVms.filter fun vm =>
    vm.isRunning && vm.activeAgents == 0

def getVm (fleet : FleetState) (vmName : String) :
    Option VmInfo :=
  fleet.vms.find? fun vm => vm.name == vmName

end FleetState

end Admiral

-- Tasks

namespace Admiral

open Base

inductive TaskPriority where
| critical
| high
| medium
| low
deriving DecidableEq

def TaskPriority.asName : TaskPriority → String
| critical => "CRITICAL"
| high => "HIGH"
| medium => "MEDIUM"
| low => "LOW"

def TaskPriority.rank : TaskPriority → ℕ
| critical => 0
| high => 1
| medium => 2
| low => 3

inductive TaskStatus where
| queued
| assigned
| running
| completed
| failed
| cancelled
deriving DecidableEq

/- Instants are texts, as the source keeps them. -/
structure FleetTask where
  id : String
  prompt : String
  priority : TaskPriority
  status : TaskStatus
  agentCommand : String
  agentMode : String
  maxTurns : ℕ
  protected? : Bool
  assignedVm : Option String
  assignedSession : Option String
  assignedAt : Option String
  createdAt : String
  startedAt : Option String
  completedAt : Option String
  result : Option String
  prUrl : Option String
  error : Option String

namespace FleetTask

def rank (t : FleetTask) : ℕ := t.priority.rank

def isActive (t : FleetTask) : Bool :=
  t.status == .assigned || t.status == .running

def assign
    (now vmName sessionName : String) (t : FleetTask) :
    FleetTask :=
  { t with
    assignedVm := some vmName
    assignedSession := some sessionName
    assignedAt := some now
    status := .assigned }

def start (now : String) (t : FleetTask) : FleetTask :=
  { t with startedAt := some now, status := .running }

def complete
    (now result : String) (prUrl : Option String) (t : FleetTask) :
    FleetTask :=
  { t with
    completedAt := some now
    status := .completed
    result := some result
    prUrl := prUrl }

def fail (now error : String) (t : FleetTask) : FleetTask :=
  { t with
    completedAt := some now
    status := .failed
    error := some error }

def requeue (t : FleetTask) : FleetTask :=
  { t with
    status := .queued
    assignedVm := none
    assignedSession := none
    assignedAt := none }

/- The tasks of the queue are looked up by their id. -/
def hasId (id : String) (t : FleetTask) : Bool :=
  t.id == id

end FleetTask

-- The queue

abbrev TaskQueue := List FleetTask

/- The first task of that id is changed, when there is one. -/
def updateById
    (id : String) (f : FleetTask → FleetTask) (tasks : TaskQueue) :
    TaskQueue :=
  updateFirst (FleetTask.hasId id) f tasks

def markTaskRunning
    (now id vmName sessionName : String) (tasks : TaskQueue) :
    TaskQueue :=
  updateById id (fun t => (t.assign now vmName sessionName).start now) tasks

def markTaskComplete
    (now id result : String) (tasks : TaskQueue) :
    TaskQueue :=
  updateById id (FleetTask.complete now result none) tasks

def markTaskFailed
    (now id reason : String) (tasks : TaskQueue) :
    TaskQueue :=
  updateById id (FleetTask.fail now reason) tasks

def requeueTask (id : String) (tasks : TaskQueue) :
    TaskQueue :=
  updateById id FleetTask.requeue tasks

def activeTasks (tasks : TaskQueue) : List FleetTask :=
  tasks.filter FleetTask.isActive

/- An update of another id leaves the task that is found. -/
theorem find?_updateById_other
    {id id' : String} {f : FleetTask → FleetTask}
    (hKeeps : ∀ t, (f t).id = t.id) (hNe : id' ≠ id) (tasks : TaskQueue) :
    (updateById id f tasks).find? (FleetTask.hasId id') =
      tasks.find? (FleetTask.hasId id') := by
  refine find?_updateFirst_other ?_ ?_ tasks
  · intro t hHere
    simp only [FleetTask.hasId, beq_iff_eq] at hHere
    simpa [FleetTask.hasId, hHere] using Ne.symm hNe
  · intro t hHere
    simp only [FleetTask.hasId, beq_iff_eq] at hHere
    simpa [FleetTask.hasId, hKeeps, hHere] using Ne.symm hNe

end Admiral

-- Actions

namespace Admiral

open Base

inductive ActionType where
| startAgent
| stopAgent
| reassignTask
| markComplete
| markFailed
| report
| propagateAuth
deriving DecidableEq

structure DirectorAction where
  actionType : ActionType
  task : Option FleetTask
  vmName : Option String
  sessionName : Option String
  reason : String

def DirectorAction.taskId (a : DirectorAction) :
    Option String :=
  a.task.map FleetTask.id

/- What a cycle reads and writes. -/
structure FleetAdmiral where
  tasks : TaskQueue
  fleet : FleetState
  maxAgentsPerVm : ℕ
  missingSessionCounts : Dict String ℕ

-- Lifecycle

def truncateChars (value : String) (limit : ℕ) : String :=
  let total := value.toList.length
  if total ≤ limit then value
  else
    String.ofList (value.toList.take limit) ++
      "\n[truncated: discarded " ++ toString (total - limit) ++
      " chars]"

def sessionKey (vmName sessionName : String) : String :=
  vmName ++ ":" ++ sessionName

def completionReason (session : TmuxSessionInfo) : String :=
  if session.corroborated then
    "Agent completed successfully (corroborated by " ++ "structured signal)"
  else
    "Agent completed on advisory textual evidence only " ++
      "(no structured corroboration)"

/- What the status of a session that is there calls for. -/
def sightedVerdict
    (session : TmuxSessionInfo) (task : FleetTask) :
    Option (ActionType × String) :=
  match session.agentStatus with
  | .completed =>
    some (.markComplete, completionReason session)
  | .error | .shell | .noSession =>
    some (.markFailed,
      "Agent error: " ++ truncateChars session.lastOutput 200)
  | .stuck =>
    if task.protected? then none
    else some (.reassignTask, "Agent appears stuck")
  | _ => none

def lifecycleAction
    (task : FleetTask) (vmName sessionName : String)
    (verdict : ActionType × String) :
    DirectorAction where
  actionType := verdict.1
  task := some task
  vmName := some vmName
  sessionName := some sessionName
  reason := verdict.2

abbrev MissingCounts := Dict String ℕ

/- One active task: the counts after it, and its action. -/
def lifecycleStep
    (fleet : FleetState) (missing : MissingCounts) (task : FleetTask) :
    MissingCounts × Option DirectorAction :=
  match task.assignedVm, task.assignedSession with
  | some vmName, some sessionName =>
    match fleet.getVm vmName with
    | none => (missing, none)
    | some vm =>
      let key := sessionKey vmName sessionName
      match vm.tmuxSessions.find? fun candidate =>
          candidate.sessionName == sessionName with
      | some session =>
        (missing.remove key,
          (sightedVerdict session task).map
            (lifecycleAction task vmName sessionName))
      | none =>
        let nextCount := (missing.get? key).getD 0 + 1
        if 2 ≤ nextCount then
          (missing.remove key,
            some (lifecycleAction task vmName sessionName
              (.markFailed, "Session no longer exists " ++
                "(missing 2+ cycles)")))
        else
          (missing.insert key nextCount, none)
  | _, _ => (missing, none)

def lifecycleLoop (fleet : FleetState) :
    MissingCounts → List FleetTask → MissingCounts × List DirectorAction
| missing, [] => (missing, [])
| missing, task :: rest =>
  let here := lifecycleStep fleet missing task
  let later := lifecycleLoop fleet here.1 rest
  (later.1, here.2.toList ++ later.2)

def activeKeys (tasks : List FleetTask) : List String :=
  tasks.filterMap fun task => do
    pure (sessionKey (← task.assignedVm) (← task.assignedSession))

/- The counts after the pass, and its actions. -/
def lifecycleActions (a : FleetAdmiral) :
    MissingCounts × List DirectorAction :=
  let active := activeTasks a.tasks
  lifecycleLoop a.fleet
    (a.missingSessionCounts.retain fun key _ =>
      (activeKeys active).contains key)
    active

-- Preemption

def criticalQueued (tasks : TaskQueue) : List FleetTask :=
  tasks.filter fun t =>
    t.status == .queued && t.priority == .critical

/- The active tasks, the least urgent first. -/
def byReverseRank (tasks : List FleetTask) : List FleetTask :=
  tasks.insertionSort fun s t => t.rank ≤ s.rank

/-
  Each critical task takes the next running task as its
  victim. A protected one is passed over, and the critical
  task with it.
-/
def pickVictims :
    List FleetTask → List FleetTask → List (FleetTask × FleetTask)
| [], _ => []
| _ :: _, [] => []
| critical :: later, victim :: running =>
  if victim.rank ≤ critical.rank then []
  else if victim.protected? then pickVictims later running
  else (victim, critical) :: pickVictims later running

def preemption (pair : FleetTask × FleetTask) :
    DirectorAction where
  actionType := .reassignTask
  task := some pair.1
  vmName := pair.1.assignedVm
  sessionName := pair.1.assignedSession
  reason := "Preempted for CRITICAL task " ++ pair.2.id

def preemptionPairs (a : FleetAdmiral) :
    List (FleetTask × FleetTask) :=
  let queued := criticalQueued a.tasks
  if queued = [] ∨ a.fleet.idleVms ≠ [] then []
  else
    pickVictims queued (byReverseRank (activeTasks a.tasks))

def preemptionActions (a : FleetAdmiral) :
    List DirectorAction :=
  (preemptionPairs a).map preemption

-- Assignment

def queuedByUrgency (tasks : TaskQueue) : List FleetTask :=
  (tasks.filter fun t => t.status == .queued).insertionSort
    fun s t => s.rank < t.rank ∨ (s.rank = t.rank ∧ s.createdAt ≤ t.createdAt)

/- Agents that may still be started on each running machine. -/
def vmCapacity
    (a : FleetAdmiral) (prior : List DirectorAction) :
    Dict String ℕ :=
  a.fleet.managedVms.foldl
    (fun capacity vm =>
      let used := vm.activeAgents +
        prior.countP fun action =>
          action.actionType == .startAgent && action.vmName == some vm.name
      if vm.isRunning ∧ used < a.maxAgentsPerVm then
        capacity.insert vm.name (a.maxAgentsPerVm - used)
      else capacity)
    Dict.empty

/- The entry with the most room, then the smaller name. -/
def bestVm (capacity : Dict String ℕ) : Option (String × ℕ) :=
  capacity.entries.foldl
    (fun best entry =>
      match best with
      | none => some entry
      | some held =>
        if held.2 < entry.2 ∨
            (held.2 = entry.2 ∧ entry.1 < held.1) then
          some entry
        else best)
    none

def startAction (task : FleetTask) (vmName : String) :
    DirectorAction where
  actionType := .startAgent
  task := some task
  vmName := some vmName
  sessionName := some ("fleet-" ++ task.id)
  reason := "Batch assign: " ++ task.priority.asName ++ " task"

def assignBatch :
    List FleetTask → Dict String ℕ → List DirectorAction
| [], _ => []
| task :: rest, capacity =>
  match bestVm capacity with
  | none => []
  | some (vmName, remaining) =>
    startAction task vmName ::
      assignBatch rest
        (if remaining ≤ 1 then capacity.remove vmName
        else capacity.insert vmName (remaining - 1))

def batchAssignActions
    (a : FleetAdmiral) (prior : List DirectorAction) :
    List DirectorAction :=
  assignBatch (queuedByUrgency a.tasks) (vmCapacity a prior)

-- One decision

/- Whether the coordination files and the queue are saved. -/
structure ReasonAnswers where
  coordinated : Bool
  saved : Bool

/- The three reasoners look at one and the same snapshot. -/
def decided (a : FleetAdmiral) : List DirectorAction :=
  let lifecycle := (lifecycleActions a).2
  let prior := lifecycle ++ preemptionActions a
  prior ++ batchAssignActions a prior

/- The admiral afterwards, and the actions when all was saved. -/
def reason (ans : ReasonAnswers) (a : FleetAdmiral) :
    FleetAdmiral × Option (List DirectorAction) :=
  if ans.coordinated then
    ({ a with missingSessionCounts := (lifecycleActions a).1 },
      if ans.saved then some (decided a) else none)
  else
    (a, none)

theorem reason_eq_some_iff
    {ans : ReasonAnswers} {a : FleetAdmiral} {actions : List DirectorAction} :
    (reason ans a).2 = some actions ↔
      ans.coordinated = true ∧ ans.saved = true ∧ actions = decided a := by
  rw [reason]
  by_cases hFiles : ans.coordinated = true
  · by_cases hSaved : ans.saved = true
    · simp only [hFiles, hSaved, if_true, Option.some.injEq, true_and]
      exact eq_comm
    · simp [hFiles, hSaved]
  · simp [hFiles]

theorem assignBatch_starts
    (tasks : List FleetTask) (capacity : Dict String ℕ) :
    ∀ action ∈ assignBatch tasks capacity,
      action.actionType = .startAgent := by
  induction tasks generalizing capacity with
  | nil => simp [assignBatch]
  | cons task rest ih =>
    intro action hMem
    rw [assignBatch] at hMem
    split at hMem
    · simp at hMem
    · rcases List.mem_cons.mp hMem with rfl | hMem
      · rfl
      · exact ih _ action hMem

end Admiral
