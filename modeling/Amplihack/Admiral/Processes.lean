import Amplihack.Admiral.Reason
import Amplihack.Base.Json.Text
import Amplihack.Admiral.Due
import Amplihack.Base.Runs

/-
  The file of the task queue and how its entries are read.

  Processes that share the file of the task queue: admirals
  and commands, each with the queue as it once loaded it.
-/

-- Names Of Priorities And Statuses

namespace Admiral

open Base

namespace TaskPriority

def fromName : String → TaskPriority
| "CRITICAL" => critical
| "HIGH" => high
| "LOW" => low
| _ => medium

theorem fromName_asName (p : TaskPriority) :
    fromName p.asName = p := by
  cases p <;> rfl

end TaskPriority

namespace TaskStatus

def asStr : TaskStatus → String
| queued => "queued"
| assigned => "assigned"
| running => "running"
| completed => "completed"
| failed => "failed"
| cancelled => "cancelled"

def fromValue : String → TaskStatus
| "assigned" => assigned
| "running" => running
| "completed" => completed
| "failed" => failed
| "cancelled" => cancelled
| _ => queued

theorem fromValue_asStr (s : TaskStatus) :
    fromValue s.asStr = s := by
  cases s <;> rfl

end TaskStatus

-- Entries

/- A task with what only its entry in the file carries. -/
structure StoredTask where
  task : FleetTask
  repoUrl : String
  branch : String

def optionalText : Option String → Json
| none => .null
| some text => .str text

def StoredTask.toJsonValue (s : StoredTask) : Json :=
  .obj
    [("id", .str s.task.id),
      ("prompt", .str s.task.prompt),
      ("repo_url", .str s.repoUrl),
      ("branch", .str s.branch),
      ("priority", .str s.task.priority.asName),
      ("status", .str s.task.status.asStr),
      ("agent_command", .str s.task.agentCommand),
      ("agent_mode", .str s.task.agentMode),
      ("max_turns", .ofNat s.task.maxTurns),
      ("protected", .bool s.task.protected?),
      ("assigned_vm", optionalText s.task.assignedVm),
      ("assigned_session", optionalText s.task.assignedSession),
      ("assigned_at", optionalText s.task.assignedAt),
      ("created_at", .str s.task.createdAt),
      ("started_at", optionalText s.task.startedAt),
      ("completed_at", optionalText s.task.completedAt),
      ("result", optionalText s.task.result),
      ("pr_url", optionalText s.task.prUrl),
      ("error", optionalText s.task.error)]

/- The members of an object as it is parsed: a name once. -/
def text? (members : List (String × Json)) (key : String) :
    Option String :=
  (Json.member? members key).bind Json.toStr?

def flag? (members : List (String × Json)) (key : String) :
    Option Bool :=
  match Json.member? members key with
  | some (.bool b) => some b
  | _ => none

/- A natural number of 64 bits, cut to 32. -/
def turnsOf : Option ℕ → ℕ
| none => 20
| some n =>
  if n < 18446744073709551616 then n % 4294967296 else 20

theorem turnsOf_turnsOf (n : Option ℕ) :
    turnsOf (some (turnsOf n)) = turnsOf n := by
  have hSmall : turnsOf n < 4294967296 := by
    unfold turnsOf
    split
    · decide
    · split
      · exact Nat.mod_lt _ (by decide)
      · decide
  change (if turnsOf n < 18446744073709551616 then
    turnsOf n % 4294967296 else 20) = turnsOf n
  rw [if_pos (by omega), Nat.mod_eq_of_lt hSmall]

def fromJsonValue : Json → Option StoredTask
| .obj members => do
    let id ← text? members "id"
    let prompt ← text? members "prompt"
    pure
      { task :=
          { id := id
            prompt := prompt
            priority := .fromName
              ((text? members "priority").getD "MEDIUM")
            status := .fromValue
              ((text? members "status").getD "queued")
            agentCommand :=
              (text? members "agent_command").getD "claude"
            agentMode := (text? members "agent_mode").getD "auto"
            maxTurns := turnsOf
              ((Json.member? members "max_turns").bind Json.toNat?)
            protected? := (flag? members "protected").getD false
            assignedVm := text? members "assigned_vm"
            assignedSession := text? members "assigned_session"
            assignedAt := text? members "assigned_at"
            createdAt := (text? members "created_at").getD ""
            startedAt := text? members "started_at"
            completedAt := text? members "completed_at"
            result := text? members "result"
            prUrl := text? members "pr_url"
            error := text? members "error" }
        repoUrl := (text? members "repo_url").getD ""
        branch := (text? members "branch").getD "" }
| _ => none

/- A task as it is read again: its turns fit. -/
def StoredTask.readBack (s : StoredTask) : StoredTask :=
  { s with
    task := { s.task with
      maxTurns := turnsOf (some s.task.maxTurns) } }

theorem toStr?_optionalText (text : Option String) :
    (optionalText text).toStr? = text := by
  cases text <;> rfl

theorem toStr?_str (text : String) :
    (Json.str text).toStr? = some text := rfl

theorem fromJsonValue_toJsonValue (s : StoredTask) :
    fromJsonValue s.toJsonValue = some s.readBack := by
  have hPriority := TaskPriority.fromName_asName s.task.priority
  have hStatus := TaskStatus.fromValue_asStr s.task.status
  simp [fromJsonValue, StoredTask.toJsonValue, text?, flag?, Json.member?,
    toStr?_str, toStr?_optionalText, hPriority, hStatus, StoredTask.readBack]

/- What was read is the same when it is read again. -/
theorem readBack_of_fromJsonValue
    {j : Json} {s : StoredTask} (hRead : fromJsonValue j = some s) :
    s.readBack = s := by
  cases j with
  | obj members =>
    unfold fromJsonValue at hRead
    rw [Option.bind_eq_bind, Option.bind_eq_some_iff] at hRead
    obtain ⟨id, -, hRead⟩ := hRead
    obtain ⟨prompt, -, hRead⟩ := Option.bind_eq_some_iff.mp hRead
    cases hRead
    unfold StoredTask.readBack
    rw [turnsOf_turnsOf]
  | _ => cases hRead

-- The File

/- A file is missing, a list, other JSON, or no JSON. -/
inductive QueueFile where
| absent
| entries (items : List Json)
| other
| corrupt

/- What does not read as a task is passed over. -/
def load : QueueFile → Option (List StoredTask)
| .absent => some []
| .entries items => some (items.filterMap fromJsonValue)
| .other => some []
| .corrupt => none

def written (queue : List StoredTask) : QueueFile :=
  .entries (queue.map StoredTask.toJsonValue)

theorem load_written (queue : List StoredTask) :
    load (written queue) =
      some (queue.map StoredTask.readBack) := by
  change some ((queue.map StoredTask.toJsonValue).filterMap
    fromJsonValue) = _
  congr 1
  induction queue with
  | nil => rfl
  | cons s queue ih =>
    rw [List.map_cons, List.filterMap_cons, fromJsonValue_toJsonValue, ih]
    rfl

/- An entry of the file is this one, or the same task. -/
def Stays : QueueFile → Json → Prop
| .entries items, e =>
  ∃ kept ∈ items, kept = e ∨
    (fromJsonValue e).isSome ∧ fromJsonValue kept = fromJsonValue e
| _, _ => False

/- A load and a save keep a list of tasks, and no other. -/
theorem keeps_iff_readable
    {items : List Json} {queue : List StoredTask}
    (hLoad : load (.entries items) = some queue) :
    (∀ e ∈ items, Stays (written queue) e) ↔
      ∀ e ∈ items, (fromJsonValue e).isSome := by
  cases hLoad
  constructor
  · intro hAll e hMem
    obtain ⟨kept, hKept, rfl | hSame⟩ := hAll e hMem
    · obtain ⟨s, -, rfl⟩ := List.mem_map.mp hKept
      rw [fromJsonValue_toJsonValue]
      rfl
    · exact hSame.1
  · intro hAll e hMem
    have hSome := hAll e hMem
    obtain ⟨s, hS⟩ := Option.isSome_iff_exists.mp hSome
    refine ⟨s.toJsonValue, List.mem_map.mpr ⟨s, ?_, rfl⟩,
      Or.inr ⟨hSome, ?_⟩⟩
    · exact List.mem_filterMap.mpr ⟨e, hMem, hS⟩
    · rw [fromJsonValue_toJsonValue, readBack_of_fromJsonValue hS, hS]

end Admiral

-- New Tasks

namespace Admiral

open Base

structure TaskRequest where
  prompt : String
  repoUrl : String
  priority : TaskPriority
  agentCommand : String
  agentMode : String
  maxTurns : ℕ

def StoredTask.new (id now : String) (r : TaskRequest) :
    StoredTask where
  task :=
    { id := id
      prompt := r.prompt
      priority := r.priority
      status := .queued
      agentCommand := r.agentCommand
      agentMode := r.agentMode
      maxTurns := r.maxTurns
      protected? := false
      assignedVm := none
      assignedSession := none
      assignedAt := none
      createdAt := now
      startedAt := none
      completedAt := none
      result := none
      prUrl := none
      error := none }
  repoUrl := r.repoUrl
  branch := ""

def tasksIn (queue : List StoredTask) : TaskQueue :=
  queue.map StoredTask.task

/- The changed tasks, with what their entries carry. -/
def carry (queue : List StoredTask) (tasks : TaskQueue) :
    List StoredTask :=
  List.zipWith (fun s t => { s with task := t }) queue tasks

-- Processes

/-
  An admiral, or a command. For reference, a process keeps the
  file it last loaded or saved and the ids of the tasks it has
  put back since then.
-/
structure Process where
  queue : List StoredTask
  missing : MissingCounts
  pending : List DirectorAction
  adopting : Option String
  seen : QueueFile
  requeued : List String

def Process.opened (queue : List StoredTask) (file : QueueFile) :
    Process where
  queue := queue
  missing := .empty
  pending := []
  adopting := none
  seen := file
  requeued := []

/-
  `adopt` is what follows when the task of an adopted session
  has been added, `cycle` observes and decides, and `act`
  carries the next action out.
-/
inductive Operation where
| addTask (id now : String) (request : TaskRequest)
    (saved : Bool)
| adopt (now vmName sessionName : String) (saved : Bool)
| cycle (fleet : FleetState) (maxAgentsPerVm : ℕ)
    (ans : ReasonAnswers)
| act (ans : StepAnswers)

/- The action gets as far as saving the queue. -/
def reachesSave (ans : StepAnswers) (action : DirectorAction) :
    Bool :=
  match action.actionType with
  | .startAgent =>
    match action.task, action.vmName with
    | some task, some vmName =>
      validateVmName vmName &&
        validateSessionName (action.sessionName.getD "fleet-session") &&
        startable task && ans.started
    | _, _ => false
  | .markComplete | .markFailed => action.task.isSome
  | .reassignTask => action.requeued?.isSome
  | _ => false

/- The process afterwards, and whether it saves its queue. -/
def Process.apply (p : Process) : Operation → Process × Bool
| .addTask id now request saved =>
  ({ p with
      queue := p.queue ++ [StoredTask.new id now request]
      adopting := if saved then some id else none },
    saved)
| .adopt now vmName sessionName saved =>
  match p.adopting with
  | none => (p, false)
  | some id =>
    ({ p with
        queue := carry p.queue (markTaskRunning now id vmName
          sessionName (tasksIn p.queue))
        adopting := none },
      saved)
| .cycle fleet maxAgentsPerVm ans =>
  let decided := reason ans
    { tasks := tasksIn p.queue
      fleet := fleet
      maxAgentsPerVm := maxAgentsPerVm
      missingSessionCounts := p.missing }
  ({ p with
      missing := decided.1.missingSessionCounts
      pending := decided.2.getD []
      adopting := none },
    ans.coordinated && ans.saved)
| .act ans =>
  match p.pending with
  | [] => (p, false)
  | action :: rest =>
    ({ p with
        queue := carry p.queue (executeAction ans action
          (tasksIn p.queue)).2
        pending := if ans.logged then rest else []
        adopting := none
        requeued :=
          action.requeued?.toList ++ p.requeued },
      reachesSave ans action && ans.saved)

-- The World

/- `added` are the ids and prompts of the tasks added so far. -/
structure World where
  file : QueueFile
  processes : Dict ℕ Process
  added : List (String × String)

def World.initial (file : QueueFile) : World where
  file := file
  processes := .empty
  added := []

inductive Action where
| start (pid : ℕ)
| run (pid : ℕ) (op : Operation)
| finish (pid : ℕ)

def Operation.added : Operation → List (String × String)
| .addTask id _ request true => [(id, request.prompt)]
| _ => []

def Operation.newIds : Operation → List String
| .addTask id _ _ _ => [id]
| _ => []

namespace World

def save (w : World) (pid : ℕ) (p : Process) (saved : Bool) :
    World :=
  if saved then
    { w with
      file := written p.queue
      processes := w.processes.insert pid
        { p with seen := written p.queue, requeued := [] } }
  else { w with processes := w.processes.insert pid p }

def step (w : World) : Action → World
| .start pid =>
  match load w.file with
  | none => w
  | some queue =>
    { w with
      processes := w.processes.insert pid
        (.opened queue w.file) }
| .run pid op =>
  match w.processes.get? pid with
  | none => w
  | some p =>
    { w.save pid (p.apply op).1 (p.apply op).2 with
      added := op.added ++ w.added }
| .finish pid => { w with processes := w.processes.remove pid }

end World

end Admiral
