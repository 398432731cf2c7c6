import Amplihack.Admiral.Due

/-
  When the actions of a cycle are consistent with each other.
-/

-- Consistent cycles

namespace Admiral

open Base

/- Completing, failing or putting a task back. -/
def DirectorAction.settles (action : DirectorAction) : Bool :=
  action.actionType == .markComplete || action.actionType == .markFailed ||
    action.actionType == .reassignTask

/- The task that a queue finds under an id is active. -/
def ActiveIn (tasks : TaskQueue) (id : String) : Prop :=
  (tasks.find? (FleetTask.hasId id)).any FleetTask.isActive = true

/-
  What one cycle does, whatever its saves, machines and logs
  answer: a task is settled once, one that was completed or
  failed is not put back later, only active tasks are put
  back, and the preempted ones are as they should be.
-/
def Consistent (a : FleetAdmiral) : Prop :=
  ∀ ans actions, (reason ans a).2 = some actions →
    ((actions.filter DirectorAction.settles).map
      DirectorAction.taskId).Nodup ∧
    (∀ answers,
      (act answers a.tasks actions).2.Pairwise
        (fun r r' => ∀ id, r.action.marked? = some id →
          r'.action.requeued? ≠ some id) ∧
      ∀ r ∈ (act answers a.tasks actions).2, ∀ id,
        r.action.requeued? = some id →
        ActiveIn r.found id) ∧
    (∃ handled started,
      actions = handled ++ (preemptionPairs a).map preemption ++ started) ∧
    ((preemptionPairs a).map Prod.fst).Subperm (activeTasks a.tasks) ∧
    ((preemptionPairs a).map Prod.snd).Sublist (criticalQueued a.tasks) ∧
    ∀ pair ∈ preemptionPairs a,
      pair.2.rank < pair.1.rank ∧ pair.1.protected? = false

/- The names that a restart checks are all right. -/
def movable (task : FleetTask) : Bool :=
  match task.assignedVm, task.assignedSession with
  | some vmName, some sessionName =>
    validateVmName vmName && validateSessionName sessionName
  | _, _ => false

/-
  The tasks that the two reasoners have cause to act on have
  different ids, and a task that is to be put back is the
  first of its id, or the first one is active as well.
-/
structure Separate (a : FleetAdmiral) : Prop where
  distinct : ((dueTasks a ++ victims a).map FleetTask.id).Nodup
  active : ∀ t, t ∈ (dueTasks a).filter (isStuck a.fleet) ++ victims a →
    movable t = true → ActiveIn a.tasks t.id

-- Carrying actions out

variable {answers : ℕ → StepAnswers} {r : Executed}

/- A task looks as it did when no earlier action had its id. -/
theorem act_found
    {tasks : TaskQueue} {actions : List DirectorAction}
    (hMem : r ∈ (act answers tasks actions).2) :
    ∃ pre post, actions = pre ++ r.action :: post ∧
      ∀ id, (∀ x ∈ pre, x.taskId ≠ some id) →
        r.found.find? (FleetTask.hasId id) =
          tasks.find? (FleetTask.hasId id) := by
  induction actions generalizing answers tasks with
  | nil => simp [act] at hMem
  | cons action rest ih =>
    have hCases :
        r = ⟨tasks, action,
            (executeAction (answers 0) action tasks).1⟩ ∨
          r ∈ (act (fun n => answers (n + 1))
            (executeAction (answers 0) action tasks).2
            rest).2 := by
      simp only [act] at hMem
      split_ifs at hMem
      · exact List.mem_cons.mp hMem
      · exact Or.inl (List.mem_singleton.mp hMem)
    rcases hCases with rfl | hLater
    · exact ⟨[], rest, rfl, fun _ _ => rfl⟩
    · rcases ih hLater with ⟨pre, post, rfl, hFound⟩
      refine ⟨action :: pre, post, rfl, ?_⟩
      intro id hOthers
      rw [hFound id fun x hIn =>
        hOthers x (List.mem_cons_of_mem action hIn)]
      exact find?_executeAction _ (hOthers action List.mem_cons_self) tasks

theorem act_actions_prefix
    (answers : ℕ → StepAnswers) (tasks : TaskQueue)
    (actions : List DirectorAction) :
    ((act answers tasks actions).2.map Executed.action).IsPrefix actions := by
  induction actions generalizing answers tasks with
  | nil => simp [act]
  | cons action rest ih =>
    simp only [act]
    split_ifs
    · rw [List.map_cons, List.cons_prefix_cons]
      exact ⟨rfl, ih _ _⟩
    · simp [List.cons_prefix_cons]

theorem act_all
    (hLogged : ∀ n, (answers n).logged = true)
    (tasks : TaskQueue) (actions : List DirectorAction) :
    (act answers tasks actions).2.map Executed.action =
      actions := by
  induction actions generalizing answers tasks with
  | nil => rfl
  | cons action rest ih =>
    simp only [act, hLogged, if_true, List.map_cons]
    rw [ih fun n => hLogged (n + 1)]

variable {action : DirectorAction} {id : String}

theorem requeued?_eq_some
    (hRequeued : action.requeued? = some id) :
    action.actionType = .reassignTask ∧ action.taskId = some id := by
  rw [DirectorAction.requeued?.eq_def] at hRequeued
  split at hRequeued
  · next task vmName sessionName hType hTask hVm hSession =>
      split_ifs at hRequeued
      refine ⟨hType, ?_⟩
      rw [DirectorAction.taskId, hTask]
      exact hRequeued
  · simp at hRequeued

theorem marked?_eq_some
    (hMarked : action.marked? = some id) :
    action.taskId = some id := by
  rw [DirectorAction.marked?.eq_def] at hMarked
  split at hMarked
  · exact hMarked
  · exact hMarked
  · simp at hMarked

-- The actions of a cycle

/- The actions of the two reasoners that settle tasks. -/
def settling (a : FleetAdmiral) : List DirectorAction :=
  (due a).map verdictAction ++ (preemptionPairs a).map preemption

theorem decided_eq (a : FleetAdmiral) :
    ∃ started, decided a = settling a ++ started ∧
      ∀ x ∈ started, x.actionType = .startAgent := by
  refine ⟨batchAssignActions a (settling a), ?_, ?_⟩
  · simp only [decided, settling, lifecycleActions_eq, preemptionActions]
  · exact assignBatch_starts _ _

variable {task : FleetTask}

theorem verdict_type
    {fleet : FleetState} {misses : Misses} {verdict : ActionType × String}
    (hVerdict : dueVerdict fleet misses task = some verdict) :
    verdict.1 = .markComplete ∨ verdict.1 = .markFailed ∨
      verdict.1 = .reassignTask := by
  rw [dueVerdict] at hVerdict
  split at hVerdict
  · simp at hVerdict
  · next session hSeen =>
      rw [sightedVerdict.eq_def] at hVerdict
      split at hVerdict
      case h_5 =>
        split_ifs at hVerdict
        simp [← Option.some.inj hVerdict]
      case h_6 => simp at hVerdict
      all_goals
        simp [← Option.some.inj hVerdict]
  · split_ifs at hVerdict
    simp [← Option.some.inj hVerdict]

variable {a : FleetAdmiral} {x : DirectorAction}

theorem settles_of_mem_settling
    (hMem : x ∈ settling a) :
    x.settles = true := by
  rw [settling, List.mem_append, List.mem_map, List.mem_map] at hMem
  rcases hMem with ⟨pair, hPair, rfl⟩ | ⟨pair, -, rfl⟩
  · rcases mem_dueFrom hPair with ⟨-, misses, hVerdict⟩
    rcases verdict_type hVerdict with hType | hType | hType <;>
      simp [DirectorAction.settles, verdictAction, hType]
  · rfl

theorem taskId_settling (a : FleetAdmiral) :
    (settling a).map DirectorAction.taskId =
      ((dueTasks a ++ victims a).map FleetTask.id).map
        some := by
  rw [settling, ← preemptionPairs_fst, dueTasks]
  simp only [List.map_append, List.map_map]
  rfl

theorem filter_decided (a : FleetAdmiral) :
    (decided a).filter DirectorAction.settles = settling a := by
  rcases decided_eq a with ⟨started, hDecided, hStarted⟩
  rw [hDecided, List.filter_append]
  have hAll : (settling a).filter DirectorAction.settles = settling a := by
    rw [List.filter_eq_self]
    exact fun x hMem => settles_of_mem_settling hMem
  have hNone : started.filter DirectorAction.settles = [] := by
    rw [List.filter_eq_nil_iff]
    intro x hMem
    simp [DirectorAction.settles, hStarted x hMem]
  rw [hAll, hNone, List.append_nil]

theorem nodup_settling_iff (a : FleetAdmiral) :
    (((decided a).filter DirectorAction.settles).map
        DirectorAction.taskId).Nodup ↔
      ((dueTasks a ++ victims a).map FleetTask.id).Nodup := by
  rw [filter_decided, taskId_settling]
  exact List.nodup_map_iff (Option.some_injective String)

/- What comes before a settling action settles another task. -/
theorem decided_pairwise
    (hDistinct : ((dueTasks a ++ victims a).map FleetTask.id).Nodup) :
    (decided a).Pairwise fun x y =>
      y.settles = true → x.taskId ≠ y.taskId := by
  rcases decided_eq a with ⟨started, hDecided, hStarted⟩
  have hNot : ∀ y ∈ started, y.settles ≠ true := by
    intro y hMem
    simp [DirectorAction.settles, hStarted y hMem]
  rw [hDecided, List.pairwise_append]
  refine ⟨?_, ?_, ?_⟩
  · rw [← nodup_settling_iff, filter_decided,
      List.Nodup, List.pairwise_map] at hDistinct
    refine List.Pairwise.imp ?_ hDistinct
    intro x y hNe _
    exact hNe
  · refine List.pairwise_of_forall_mem_list ?_
    intro x _ y hMem hSettles
    exact absurd hSettles (hNot y hMem)
  · intro x _ y hMem hSettles
    exact absurd hSettles (hNot y hMem)

/- A settling action finds its task as the cycle found it. -/
theorem found_of_distinct
    (hDistinct : ((dueTasks a ++ victims a).map FleetTask.id).Nodup)
    (hMem : r ∈ (act answers a.tasks (decided a)).2)
    (hSettles : r.action.settles = true) (hId : r.action.taskId = some id) :
    r.found.find? (FleetTask.hasId id) =
      a.tasks.find? (FleetTask.hasId id) := by
  rcases act_found hMem with ⟨pre, post, hSplit, hFound⟩
  refine hFound id ?_
  intro x hIn
  have hPairwise := decided_pairwise hDistinct
  rw [hSplit, List.pairwise_append] at hPairwise
  rw [← hId]
  exact hPairwise.2.2 x hIn r.action List.mem_cons_self hSettles

theorem requeued?_eq_some_iff
    (hTask : action.task = some task) (hVm : action.vmName = task.assignedVm)
    (hSession : action.sessionName = task.assignedSession) :
    action.requeued? = some id ↔
      action.actionType = .reassignTask ∧
        movable task = true ∧ task.id = id := by
  rw [DirectorAction.requeued?.eq_def, movable.eq_def, hTask, hVm, hSession]
  cases action.actionType <;> cases task.assignedVm <;>
    cases task.assignedSession <;> simp

/- The tasks whose action puts them back. -/
theorem exists_requeued_iff
    (a : FleetAdmiral) (id : String) :
    (∃ x ∈ settling a, x.requeued? = some id) ↔
      ∃ t, t ∈ (dueTasks a).filter (isStuck a.fleet) ++ victims a ∧
        movable t = true ∧ t.id = id := by
  simp only [settling, List.mem_append, List.mem_map,
    List.mem_filter, dueTasks, ← preemptionPairs_fst]
  constructor
  · rintro ⟨x, ⟨pair, hPair, rfl⟩ | ⟨pair, hPair, rfl⟩, hRequeued⟩
    · rcases mem_dueFrom hPair with ⟨-, misses, hVerdict⟩
      rcases (requeued?_eq_some_iff rfl rfl rfl).mp
        hRequeued with ⟨hType, hMovable, hId⟩
      have hStuck := (reassign_iff_isStuck hVerdict).mp hType
      exact ⟨pair.1, Or.inl ⟨⟨pair, hPair, rfl⟩, hStuck⟩, hMovable, hId⟩
    · rcases (requeued?_eq_some_iff rfl rfl rfl).mp
        hRequeued with ⟨-, hMovable, hId⟩
      exact ⟨pair.1, Or.inr ⟨pair, hPair, rfl⟩, hMovable, hId⟩
  · rintro ⟨t, ⟨⟨pair, hPair, rfl⟩, hStuck⟩ |
      ⟨pair, hPair, rfl⟩, hMovable, hId⟩
    · rcases mem_dueFrom hPair with ⟨-, misses, hVerdict⟩
      have hType := (reassign_iff_isStuck hVerdict).mpr hStuck
      refine ⟨verdictAction pair, Or.inl ⟨pair, hPair, rfl⟩, ?_⟩
      exact (requeued?_eq_some_iff rfl rfl rfl).mpr ⟨hType, hMovable, hId⟩
    · refine ⟨preemption pair, Or.inr ⟨pair, hPair, rfl⟩, ?_⟩
      exact (requeued?_eq_some_iff rfl rfl rfl).mpr ⟨rfl, hMovable, hId⟩

-- The condition

theorem settles_of_requeued
    (hRequeued : x.requeued? = some id) :
    x.settles = true := by
  simp [DirectorAction.settles, (requeued?_eq_some hRequeued).1]

/- An action that puts a task back is one of the reasoners'. -/
theorem mem_settling_of_requeued
    (hMem : x ∈ decided a) (hRequeued : x.requeued? = some id) :
    x ∈ settling a := by
  rw [← filter_decided, List.mem_filter]
  exact ⟨hMem, settles_of_requeued hRequeued⟩

theorem act_of_separate
    (hSeparate : Separate a) (answers : ℕ → StepAnswers) :
    (act answers a.tasks (decided a)).2.Pairwise
        (fun r r' => ∀ id, r.action.marked? = some id →
          r'.action.requeued? ≠ some id) ∧
      ∀ r ∈ (act answers a.tasks (decided a)).2, ∀ id,
        r.action.requeued? = some id →
        ActiveIn r.found id := by
  have hPrefix := act_actions_prefix answers a.tasks (decided a)
  refine ⟨?_, ?_⟩
  · have hPairwise :=
      (decided_pairwise hSeparate.distinct).sublist hPrefix.sublist
    rw [List.pairwise_map] at hPairwise
    refine List.Pairwise.imp ?_ hPairwise
    intro r r' hNe id hMarked hRequeued
    refine hNe (settles_of_requeued hRequeued) ?_
    rw [marked?_eq_some hMarked, (requeued?_eq_some hRequeued).2]
  · intro r hMem id hRequeued
    have hDecided : r.action ∈ decided a :=
      hPrefix.subset (List.mem_map_of_mem hMem)
    rcases (exists_requeued_iff a id).mp
      ⟨r.action, mem_settling_of_requeued hDecided hRequeued,
        hRequeued⟩ with ⟨t, hBack, hMovable, rfl⟩
    rw [ActiveIn, found_of_distinct hSeparate.distinct hMem
      (settles_of_requeued hRequeued)
      (requeued?_eq_some hRequeued).2]
    exact hSeparate.active t hBack hMovable

/- A world in which everything works. -/
def worksOut : StepAnswers where
  now := "now"
  saved := true
  started := true
  logged := true

theorem separate_of_act
    (hDistinct : ((dueTasks a ++ victims a).map FleetTask.id).Nodup)
    (hActive :
      ∀ r ∈ (act (fun _ => worksOut) a.tasks
          (decided a)).2, ∀ id,
        r.action.requeued? = some id →
        ActiveIn r.found id) :
    Separate a := by
  refine ⟨hDistinct, ?_⟩
  intro t hBack hMovable
  rcases (exists_requeued_iff a t.id).mpr
    ⟨t, hBack, hMovable, rfl⟩ with ⟨x, hSettling, hRequeued⟩
  have hDecided : x ∈ decided a := by
    rw [← filter_decided] at hSettling
    exact List.mem_of_mem_filter hSettling
  have hAll :
      (act (fun _ => worksOut) a.tasks (decided a)).2.map
          Executed.action = decided a :=
    act_all (fun _ => rfl) a.tasks (decided a)
  rw [← hAll, List.mem_map] at hDecided
  rcases hDecided with ⟨r, hMem, rfl⟩
  have hHere := hActive r hMem t.id hRequeued
  rw [ActiveIn, found_of_distinct hDistinct hMem
    (settles_of_requeued hRequeued)
    (requeued?_eq_some hRequeued).2] at hHere
  exact hHere

/-
  A cycle is consistent exactly when the reasoners' tasks have
  different ids and the ones to be put back are found active.
-/
theorem consistent_iff_separate (a : FleetAdmiral) :
    Consistent a ↔ Separate a := by
  constructor
  · intro hConsistent
    have hAll := hConsistent ⟨true, true⟩ (decided a)
      (reason_eq_some_iff.mpr ⟨rfl, rfl, rfl⟩)
    rcases hAll with ⟨hOnce, hRuns, -⟩
    exact separate_of_act ((nodup_settling_iff a).mp hOnce)
      (hRuns fun _ => worksOut).2
  · intro hSeparate ans actions hReason
    rcases reason_eq_some_iff.mp hReason with ⟨-, -, rfl⟩
    refine ⟨(nodup_settling_iff a).mpr hSeparate.distinct,
      act_of_separate hSeparate, ?_, preemptionPairs_sound a⟩
    exact ⟨(lifecycleActions a).2,
      batchAssignActions a
        ((lifecycleActions a).2 ++ preemptionActions a), rfl⟩

def runningTask : FleetTask where
  id := "t1"
  prompt := "tidy up"
  priority := .low
  status := .running
  agentCommand := "claude"
  agentMode := "auto"
  maxTurns := 10
  protected? := false
  assignedVm := some "vm1"
  assignedSession := some "s1"
  assignedAt := none
  createdAt := "1"
  startedAt := none
  completedAt := none
  result := none
  prUrl := none
  error := none

def criticalTask : FleetTask :=
  { runningTask with
    id := "c1"
    priority := .critical
    status := .queued
    assignedVm := none
    assignedSession := none }

/- The task's agent is done, another agent keeps its VM busy. -/
def busyFleet : FleetAdmiral where
  tasks := [runningTask, criticalTask]
  fleet :=
    { vms :=
        [{ name := "vm1"
           status := "Running"
           tmuxSessions :=
            [{ sessionName := "s1"
               agentStatus := .completed
               lastOutput := ""
               corroborated := true },
             { sessionName := "s2"
               agentStatus := .running
               lastOutput := ""
               corroborated := false }] }]
      excludeVms := [] }
  maxAgentsPerVm := 3
  missingSessionCounts := Dict.empty

/- The task is completed, then preempted and put back. -/
theorem completed_victim_is_requeued :
    ¬Consistent busyFleet ∧
      ((act (fun _ => worksOut) busyFleet.tasks
        (settling busyFleet)).1.map FleetTask.status).head? =
        some .queued := by
  refine ⟨?_, by decide⟩
  intro hConsistent
  have hOnce := (hConsistent ⟨true, true⟩ (decided busyFleet)
    (reason_eq_some_iff.mpr ⟨rfl, rfl, rfl⟩)).1
  rw [nodup_settling_iff] at hOnce
  exact absurd hOnce (by decide)

end Admiral
