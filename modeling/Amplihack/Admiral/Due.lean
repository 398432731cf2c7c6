import Amplihack.Admiral.Reason

/-
  How a cycle of the admiral carries its actions out.

  Which tasks a cycle has reason to act on: the active tasks
  whose session shows it, and the victims of preemption.
-/

-- Names

namespace Admiral

open Base

def isAsciiAlphanumeric (c : Char) : Bool :=
  ('a' ≤ c && c ≤ 'z') || ('A' ≤ c && c ≤ 'Z') || ('0' ≤ c && c ≤ '9')

/- Both name checks: a first character, a length, the rest. -/
def validName
    (limit : ℕ) (extra : List Char) (name : String) :
    Bool :=
  match name.toList with
  | [] => false
  | first :: rest =>
    isAsciiAlphanumeric first && name.utf8ByteSize ≤ limit &&
      rest.all fun ch =>
        isAsciiAlphanumeric ch || extra.contains ch

def validateVmName (name : String) : Bool :=
  validName 64 ['_', '-'] name

def validateSessionName (name : String) : Bool :=
  validName 128 ['_', '.', ':', '-'] name

-- One action

/-
  What carrying out one action sees: the clock, whether the
  queue is saved, whether both stages of a start succeed with
  a usable prompt path, and whether the log is written.
-/
structure StepAnswers where
  now : String
  saved : Bool
  started : Bool
  logged : Bool

inductive Outcome where
| done (text : String)
| failed
deriving DecidableEq

def saveOutcome (ans : StepAnswers) (text : String) : Outcome :=
  if ans.saved then .done text else .failed

/- Checks of `start_agent` before anything is sent. -/
def startable (task : FleetTask) : Bool :=
  ["claude", "amplifier", "copilot"].contains task.agentCommand &&
    task.agentMode == "auto" &&
    task.maxTurns != 0 && task.maxTurns ≤ 1000

/- `start_agent`; the text of its failures is left out. -/
def startAgent
    (ans : StepAnswers) (action : DirectorAction) (tasks : TaskQueue) :
    Outcome × TaskQueue :=
  match action.task, action.vmName with
  | some task, some vmName =>
    let sessionName :=
      action.sessionName.getD "fleet-session"
    if validateVmName vmName ∧
        validateSessionName sessionName ∧ startable task ∧
        ans.started then
      (saveOutcome ans ("Agent started: " ++ sessionName ++
          " on " ++ vmName),
        markTaskRunning ans.now task.id vmName sessionName tasks)
    else (.failed, tasks)
  | none, _ => (.done "ERROR: No task provided", tasks)
  | _, none => (.done "ERROR: No VM name provided", tasks)

def markComplete
    (ans : StepAnswers) (action : DirectorAction) (tasks : TaskQueue) :
    Outcome × TaskQueue :=
  match action.task with
  | none => (.done "Task marked complete", tasks)
  | some task =>
    (saveOutcome ans "Task marked complete",
      markTaskComplete ans.now task.id
        "Detected as completed by observer" tasks)

def markFailed
    (ans : StepAnswers) (action : DirectorAction) (tasks : TaskQueue) :
    Outcome × TaskQueue :=
  match action.task with
  | none =>
    (.done ("Task marked failed: " ++ action.reason), tasks)
  | some task =>
    (saveOutcome ans
        ("Task marked failed: " ++ action.reason),
      markTaskFailed ans.now task.id action.reason tasks)

/- The old session is killed, whether that works or not. -/
def reassignTask
    (ans : StepAnswers) (action : DirectorAction) (tasks : TaskQueue) :
    Outcome × TaskQueue :=
  match action.task, action.vmName, action.sessionName with
  | some task, some vmName, some sessionName =>
    if validateVmName vmName ∧
        validateSessionName sessionName then
      (saveOutcome ans "Stuck agent killed, task requeued",
        requeueTask task.id tasks)
    else (.failed, tasks)
  | _, _, _ =>
    (.done "ERROR: Missing task/vm/session for reassignment", tasks)

/-
  The queue keeps the change when its save fails. A cycle
  decides none of the last three actions.
-/
def executeAction
    (ans : StepAnswers) (action : DirectorAction) (tasks : TaskQueue) :
    Outcome × TaskQueue :=
  match action.actionType with
  | .startAgent => startAgent ans action tasks
  | .markComplete => markComplete ans action tasks
  | .markFailed => markFailed ans action tasks
  | .reassignTask => reassignTask ans action tasks
  | .propagateAuth => (.done "Auth propagated", tasks)
  | .stopAgent => (.done "Unknown action: stop_agent", tasks)
  | .report => (.done "Unknown action: report", tasks)

-- A list of actions

/- An action that was carried out, on the queue it found. -/
structure Executed where
  found : TaskQueue
  action : DirectorAction
  outcome : Outcome

/-
  The queue after the actions and the record of those that
  were carried out. A log that is not written ends the loop.
-/
def act :
    (ℕ → StepAnswers) → TaskQueue → List DirectorAction →
      TaskQueue × List Executed
| _, tasks, [] => (tasks, [])
| answers, tasks, action :: rest =>
  let here := executeAction (answers 0) action tasks
  let record := ⟨tasks, action, here.1⟩
  if (answers 0).logged then
    let later := act (fun n => answers (n + 1)) here.2 rest
    (later.1, record :: later.2)
  else (here.2, [record])

/- The id of the task that the action puts back. -/
def DirectorAction.requeued? (action : DirectorAction) :
    Option String :=
  match action.actionType, action.task, action.vmName,
      action.sessionName with
  | .reassignTask, some task, some vmName, some sessionName =>
    if validateVmName vmName ∧
        validateSessionName sessionName then
      some task.id
    else none
  | _, _, _, _ => none

/- The id of the task that the action completes or fails. -/
def DirectorAction.marked? (action : DirectorAction) :
    Option String :=
  match action.actionType with
  | .markComplete | .markFailed => action.taskId
  | _ => none

/- An action changes the task of its own id only. -/
theorem find?_executeAction
    (ans : StepAnswers) {action : DirectorAction} {id : String}
    (hOther : action.taskId ≠ some id) (tasks : TaskQueue) :
    (executeAction ans action tasks).2.find?
        (FleetTask.hasId id) =
      tasks.find? (FleetTask.hasId id) := by
  have hNe : ∀ task, action.task = some task → id ≠ task.id := by
    rintro task hTask rfl
    simp [DirectorAction.taskId, hTask] at hOther
  rw [executeAction]
  cases hType : action.actionType with
  | startAgent =>
    simp only [startAgent]
    split
    · next task vmName hTask hVm =>
        split_ifs
        · refine find?_updateById_other ?_ (hNe task hTask) tasks
          exact fun t => rfl
        · rfl
    · rfl
    · rfl
  | markComplete =>
    simp only [markComplete]
    split
    · rfl
    · next task hTask =>
        refine find?_updateById_other ?_ (hNe task hTask) tasks
        exact fun t => rfl
  | markFailed =>
    simp only [markFailed]
    split
    · rfl
    · next task hTask =>
        refine find?_updateById_other ?_ (hNe task hTask) tasks
        exact fun t => rfl
  | reassignTask =>
    simp only [reassignTask]
    split
    · next task vmName sessionName hTask hVm hSession =>
        split_ifs
        · refine find?_updateById_other ?_ (hNe task hTask) tasks
          exact fun t => rfl
        · rfl
    · rfl
  | stopAgent | report | propagateAuth => rfl

end Admiral

-- Sightings

namespace Admiral

open Base

/- What the snapshot shows of the session of a task. -/
inductive Sighting where
| unknown
| missing
| seen (session : TmuxSessionInfo)

def sighting (fleet : FleetState) (task : FleetTask) :
    Sighting :=
  match task.assignedVm, task.assignedSession with
  | some vmName, some sessionName =>
    match fleet.getVm vmName with
    | none => .unknown
    | some vm =>
      match vm.tmuxSessions.find? fun candidate =>
          candidate.sessionName == sessionName with
      | some session => .seen session
      | none => .missing
  | _, _ => .unknown

def taskKey (task : FleetTask) : String :=
  sessionKey (task.assignedVm.getD "") (task.assignedSession.getD "")

/- How often in a row each session was missing so far. -/
abbrev Misses := String → ℕ

/- A second miss is acted on and starts the count again. -/
def missesAfter
    (fleet : FleetState) (misses : Misses) (task : FleetTask) :
    Misses :=
  match sighting fleet task with
  | .unknown => misses
  | .seen _ => Function.update misses (taskKey task) 0
  | .missing =>
    Function.update misses (taskKey task)
      (if misses (taskKey task) = 0 then 1 else 0)

/- What a task calls for after so many misses. -/
def dueVerdict
    (fleet : FleetState) (misses : Misses) (task : FleetTask) :
    Option (ActionType × String) :=
  match sighting fleet task with
  | .unknown => none
  | .seen session => sightedVerdict session task
  | .missing =>
    if misses (taskKey task) = 0 then none
    else
      some (.markFailed, "Session no longer exists (missing 2+ cycles)")

def dueFrom (fleet : FleetState) :
    Misses → List FleetTask → List (FleetTask × (ActionType × String))
| _, [] => []
| misses, task :: rest =>
  ((dueVerdict fleet misses task).map
      fun verdict => (task, verdict)).toList ++
    dueFrom fleet (missesAfter fleet misses task) rest

def missesOf (counts : MissingCounts) : Misses :=
  fun key => (counts.get? key).getD 0

/- The active tasks that are due, with what they call for. -/
def due (a : FleetAdmiral) :
    List (FleetTask × (ActionType × String)) :=
  dueFrom a.fleet (missesOf a.missingSessionCounts) (activeTasks a.tasks)

def dueTasks (a : FleetAdmiral) : List FleetTask :=
  (due a).map Prod.fst

/- The session of the task is stuck and may be restarted. -/
def isStuck (fleet : FleetState) (task : FleetTask) : Bool :=
  match sighting fleet task with
  | .seen session =>
    session.agentStatus == .stuck && !task.protected?
  | _ => false

variable {task : FleetTask} {verdict : ActionType × String}

theorem sightedVerdict_reassign_iff
    {session : TmuxSessionInfo}
    (hVerdict : sightedVerdict session task = some verdict) :
    verdict.1 = .reassignTask ↔
      (session.agentStatus == .stuck && !task.protected?) =
        true := by
  rw [sightedVerdict.eq_def] at hVerdict
  cases hStatus : session.agentStatus <;>
    simp only [hStatus, reduceCtorEq, Option.some.injEq]
      at hVerdict
  case stuck =>
    split_ifs at hVerdict with hProtected
    simp only [Option.some.injEq] at hVerdict
    simp [← hVerdict, hProtected]
  all_goals
    simp [← hVerdict]

variable {fleet : FleetState} {misses : Misses}

/- A verdict is to put back exactly the stuck tasks. -/
theorem reassign_iff_isStuck
    (hVerdict : dueVerdict fleet misses task = some verdict) :
    verdict.1 = .reassignTask ↔ isStuck fleet task = true := by
  rw [dueVerdict] at hVerdict
  rw [isStuck]
  split at hVerdict
  · simp at hVerdict
  · next session hSeen =>
      rw [hSeen]
      exact sightedVerdict_reassign_iff hVerdict
  · next hMissing =>
      split_ifs at hVerdict
      rw [hMissing, ← Option.some.inj hVerdict]
      simp

variable {tasks : List FleetTask}

theorem mem_dueFrom
    {pair : FleetTask × (ActionType × String)}
    (hMem : pair ∈ dueFrom fleet misses tasks) :
    pair.1 ∈ tasks ∧
      ∃ misses', dueVerdict fleet misses' pair.1 = some pair.2 := by
  induction tasks generalizing misses with
  | nil => simp [dueFrom] at hMem
  | cons task rest ih =>
    rw [dueFrom, List.mem_append] at hMem
    rcases hMem with hMem | hMem
    · rw [Option.mem_toList, Option.map_eq_some_iff] at hMem
      rcases hMem with ⟨verdict, hVerdict, rfl⟩
      exact ⟨List.mem_cons_self, misses, hVerdict⟩
    · rcases ih hMem with ⟨hIn, hVerdict⟩
      exact ⟨List.mem_cons_of_mem task hIn, hVerdict⟩

/- Only the counts of the tasks' own keys matter. -/
theorem dueFrom_congr
    (fleet : FleetState) {misses misses' : Misses}
    (hSame : ∀ t ∈ tasks, sighting fleet t ≠ .unknown →
      misses (taskKey t) = misses' (taskKey t)) :
    dueFrom fleet misses tasks = dueFrom fleet misses' tasks := by
  induction tasks generalizing misses misses' with
  | nil => rfl
  | cons task rest ih =>
    have hHere := hSame task List.mem_cons_self
    have hVerdict :
        dueVerdict fleet misses task = dueVerdict fleet misses' task := by
      rw [dueVerdict, dueVerdict]
      cases hSight : sighting fleet task with
      | unknown => rfl
      | seen session => rfl
      | missing => simp only [hHere (by simp [hSight])]
    rw [dueFrom, dueFrom, hVerdict]
    congr 1
    apply ih
    intro t hMem hKnown
    have hOld := hSame t (List.mem_cons_of_mem task hMem) hKnown
    rw [missesAfter, missesAfter]
    cases hSight : sighting fleet task with
    | unknown => exact hOld
    | seen session => simp only [Function.update_apply, hOld]
    | missing =>
      simp only [Function.update_apply, hOld, hHere (by simp [hSight])]

-- The lifecycle actions

def verdictAction
    (pair : FleetTask × (ActionType × String)) :
    DirectorAction where
  actionType := pair.2.1
  task := some pair.1
  vmName := pair.1.assignedVm
  sessionName := pair.1.assignedSession
  reason := pair.2.2

theorem missesOf_remove
    (counts : MissingCounts) (key : String) :
    missesOf (counts.remove key) =
      Function.update (missesOf counts) key 0 := by
  funext k
  simp only [missesOf, Dict.get?_remove, Function.update_apply]
  split <;> rfl

theorem missesOf_insert
    (counts : MissingCounts) (key : String) (n : ℕ) :
    missesOf (counts.insert key n) =
      Function.update (missesOf counts) key n := by
  funext k
  simp only [missesOf, Dict.get?_insert, Function.update_apply]
  split <;> rfl

theorem lifecycleStep_eq
    (fleet : FleetState) (counts : MissingCounts) (task : FleetTask) :
    missesOf (lifecycleStep fleet counts task).1 =
        missesAfter fleet (missesOf counts) task ∧
      (lifecycleStep fleet counts task).2 =
        (dueVerdict fleet (missesOf counts) task).map
          fun verdict => verdictAction (task, verdict) := by
  rw [lifecycleStep.eq_def, missesAfter.eq_def, dueVerdict.eq_def]
  cases hVm : task.assignedVm with
  | none => simp [sighting, hVm]
  | some vmName =>
    cases hSession : task.assignedSession with
    | none => simp [sighting, hVm, hSession]
    | some sessionName =>
      have hKey : taskKey task = sessionKey vmName sessionName := by
        simp [taskKey, hVm, hSession]
      cases hGet : fleet.getVm vmName with
      | none => simp [sighting, hVm, hSession, hGet]
      | some vm =>
        cases hFind : vm.tmuxSessions.find?
            fun candidate =>
              candidate.sessionName == sessionName with
        | some session =>
          simp only [sighting, hVm, hSession, hGet,
            hFind, hKey, missesOf_remove, true_and]
          congr 1
          funext verdict
          simp [lifecycleAction, verdictAction, hVm, hSession]
        | none =>
          simp only [sighting, hVm, hSession, hGet, hFind, hKey]
          have hCount :
              (counts.get? (sessionKey vmName sessionName)).getD 0 =
                missesOf counts (sessionKey vmName sessionName) := rfl
          rw [hCount]
          by_cases hZero : missesOf counts (sessionKey vmName sessionName) = 0
          · simp [hZero, missesOf_insert]
          · have hTwo : 2 ≤ missesOf counts
                (sessionKey vmName sessionName) + 1 := by
              omega
            simp [hZero, hTwo, missesOf_remove, lifecycleAction,
              verdictAction, hVm, hSession]

theorem lifecycleLoop_eq
    (fleet : FleetState) (counts : MissingCounts) (tasks : List FleetTask) :
    (lifecycleLoop fleet counts tasks).2 =
      (dueFrom fleet (missesOf counts) tasks).map
        verdictAction := by
  induction tasks generalizing counts with
  | nil => rfl
  | cons task rest ih =>
    rcases lifecycleStep_eq fleet counts task with ⟨hCounts, hAction⟩
    simp only [lifecycleLoop]
    rw [ih, hCounts, hAction, dueFrom, List.map_append]
    congr 1
    cases dueVerdict fleet (missesOf counts) task <;> rfl

theorem taskKey_mem_activeKeys
    (hMem : task ∈ tasks) (hKnown : sighting fleet task ≠ .unknown) :
    taskKey task ∈ activeKeys tasks := by
  rw [activeKeys, List.mem_filterMap]
  refine ⟨task, hMem, ?_⟩
  cases hVm : task.assignedVm with
  | none => simp [sighting, hVm] at hKnown
  | some vmName =>
    cases hSession : task.assignedSession with
    | none => simp [sighting, hVm, hSession] at hKnown
    | some sessionName => simp [taskKey, hVm, hSession]

/- The lifecycle reasoner acts on the tasks that are due. -/
theorem lifecycleActions_eq (a : FleetAdmiral) :
    (lifecycleActions a).2 = (due a).map verdictAction := by
  simp only [lifecycleActions]
  rw [lifecycleLoop_eq, due]
  congr 1
  apply dueFrom_congr
  intro t hMem hKnown
  have hKey := taskKey_mem_activeKeys hMem hKnown
  have hKeep :
      (activeKeys (activeTasks a.tasks)).contains (taskKey t) = true := by
    simpa using hKey
  simp only [missesOf]
  congr 1
  apply Option.ext
  intro v
  rw [Dict.get?_retain_eq_some_iff]
  exact and_iff_left hKeep

-- The victims

/-
  As many of the least urgent active tasks as there are queued
  critical ones, less the critical and the protected.
-/
def victims (a : FleetAdmiral) : List FleetTask :=
  if criticalQueued a.tasks = [] ∨ a.fleet.idleVms ≠ [] then []
  else
    ((byReverseRank (activeTasks a.tasks)).take
        (criticalQueued a.tasks).length).filter
      fun t => 0 < t.rank && !t.protected?

theorem pairwise_byReverseRank (tasks : List FleetTask) :
    (byReverseRank tasks).Pairwise fun s t => t.rank ≤ s.rank := by
  have : Std.Total fun s t : FleetTask => t.rank ≤ s.rank :=
    ⟨fun s t => Nat.le_total t.rank s.rank⟩
  have : IsTrans FleetTask fun s t => t.rank ≤ s.rank :=
    ⟨fun _ _ _ hLeft hRight => hRight.trans hLeft⟩
  exact List.pairwise_insertionSort _ tasks

theorem pickVictims_fst
    {queued running : List FleetTask} (hCritical : ∀ c ∈ queued, c.rank = 0)
    (hSorted : running.Pairwise fun s t => t.rank ≤ s.rank) :
    (pickVictims queued running).map Prod.fst =
      (running.take queued.length).filter
        fun t => 0 < t.rank && !t.protected? := by
  induction queued generalizing running with
  | nil => simp [pickVictims]
  | cons critical later ih =>
    cases running with
    | nil => simp [pickVictims]
    | cons victim running =>
      rw [List.pairwise_cons] at hSorted
      rcases hSorted with ⟨hFirst, hRest⟩
      have hZero := hCritical critical List.mem_cons_self
      have hLater : ∀ c ∈ later, c.rank = 0 := by
        intro c hMem
        exact hCritical c (List.mem_cons_of_mem _ hMem)
      have hNext := ih hLater hRest
      rw [pickVictims, List.length_cons, List.take_succ_cons]
      by_cases hUrgent : victim.rank ≤ critical.rank
      · rw [if_pos hUrgent, List.map_nil, eq_comm, List.filter_eq_nil_iff]
        intro t hMem
        have hRank : t.rank = 0 := by
          rcases List.mem_cons.mp hMem with rfl | hMem
          · omega
          · have hLess := hFirst t (List.mem_of_mem_take hMem)
            omega
        simp [hRank]
      · rw [if_neg hUrgent]
        have hPos : 0 < victim.rank := by omega
        by_cases hProtected : victim.protected? = true
        · rw [if_pos hProtected, hNext,
            List.filter_cons_of_neg (by simp [hProtected])]
        · rw [if_neg hProtected, List.map_cons, hNext,
            List.filter_cons_of_pos (by
              simp [hPos, hProtected])]

theorem pickVictims_sound
    (queued running : List FleetTask) :
    ((pickVictims queued running).map Prod.fst).Sublist running ∧
      ((pickVictims queued running).map Prod.snd).Sublist queued ∧
      ∀ pair ∈ pickVictims queued running,
        pair.2.rank < pair.1.rank ∧ pair.1.protected? = false := by
  induction queued generalizing running with
  | nil => simp [pickVictims]
  | cons critical later ih =>
    cases running with
    | nil => simp [pickVictims]
    | cons victim running =>
      rcases ih running with ⟨hFirst, hSecond, hAll⟩
      rw [pickVictims]
      by_cases hUrgent : victim.rank ≤ critical.rank
      · simp [hUrgent]
      · rw [if_neg hUrgent]
        by_cases hProtected : victim.protected? = true
        · rw [if_pos hProtected]
          exact ⟨hFirst.cons _, hSecond.cons _, hAll⟩
        · rw [if_neg hProtected]
          refine ⟨hFirst.cons_cons _, hSecond.cons_cons _, ?_⟩
          intro pair hMem
          rcases List.mem_cons.mp hMem with rfl | hMem
          · exact ⟨Nat.lt_of_not_le hUrgent,
              by simpa using hProtected⟩
          · exact hAll pair hMem

theorem preemptionPairs_fst (a : FleetAdmiral) :
    (preemptionPairs a).map Prod.fst = victims a := by
  rw [preemptionPairs, victims]
  split_ifs
  · rfl
  · refine pickVictims_fst ?_ (pairwise_byReverseRank _)
    intro c hMem
    have hCritical : c.priority = .critical := by
      simp only [criticalQueued, List.mem_filter,
        Bool.and_eq_true, beq_iff_eq] at hMem
      exact hMem.2.2
    simp [FleetTask.rank, hCritical, TaskPriority.rank]

/-
  Each victim is a different active task, makes room for a
  different queued critical task, and is less urgent than it
  and not protected.
-/
theorem preemptionPairs_sound (a : FleetAdmiral) :
    ((preemptionPairs a).map Prod.fst).Subperm
        (activeTasks a.tasks) ∧
      ((preemptionPairs a).map Prod.snd).Sublist (criticalQueued a.tasks) ∧
      ∀ pair ∈ preemptionPairs a,
        pair.2.rank < pair.1.rank ∧ pair.1.protected? = false := by
  rw [preemptionPairs]
  split_ifs
  · simp
  · rcases pickVictims_sound (criticalQueued a.tasks)
      (byReverseRank (activeTasks a.tasks)) with
      ⟨hFirst, hSecond, hAll⟩
    refine ⟨?_, hSecond, hAll⟩
    exact hFirst.subperm.trans (List.perm_insertionSort _ _).subperm

end Admiral
