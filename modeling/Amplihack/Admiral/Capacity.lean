import Amplihack.Admiral.Statuses

/-
  How many agents the admiral starts, and when a machine never
  has more tasks than it may.
-/

-- One batch

namespace Admiral

open Base

/- More urgent, or as urgent and not younger. -/
def NotAfter (s t : FleetTask) : Prop :=
  s.rank < t.rank ∨ (s.rank = t.rank ∧ s.createdAt ≤ t.createdAt)

def queuedTasks (tasks : TaskQueue) : List FleetTask :=
  tasks.filter fun t => t.status == .queued

/- The actions that start an agent on the machine. -/
def startsOn (vmName : String) (actions : List DirectorAction) :
    ℕ :=
  actions.countP fun action =>
    action.actionType == .startAgent && action.vmName == some vmName

/-
  The tasks of a batch are the first of the queued ones, each
  taken once, and no machine gets more than it has room for.
-/
structure BatchInOrder
    (a : FleetAdmiral) (prior : List DirectorAction) :
    Prop where
  order : ∃ started left : List FleetTask,
    (batchAssignActions a prior).map DirectorAction.task =
        started.map some ∧
      (started ++ left).Perm (queuedTasks a.tasks) ∧
      (started ++ left).Pairwise NotAfter
  room : ∀ action ∈ batchAssignActions a prior,
    action.actionType = .startAgent ∧
    ∃ vm ∈ a.fleet.managedVms, vm.isRunning = true ∧
      action.vmName = some vm.name ∧
      vm.activeAgents + startsOn vm.name prior +
        startsOn vm.name (batchAssignActions a prior) ≤ a.maxAgentsPerVm

theorem pairwise_queuedByUrgency (tasks : TaskQueue) :
    (queuedByUrgency tasks).Pairwise NotAfter := by
  have : Std.Total fun s t : FleetTask => s.rank < t.rank ∨
      (s.rank = t.rank ∧ s.createdAt ≤ t.createdAt) := by
    refine ⟨fun s t => ?_⟩
    rcases Nat.lt_trichotomy s.rank t.rank with hLt | hEq | hGt
    · exact .inl (.inl hLt)
    · rcases String.le_total s.createdAt t.createdAt with
        hLe | hLe
      · exact .inl (.inr ⟨hEq, hLe⟩)
      · exact .inr (.inr ⟨hEq.symm, hLe⟩)
    · exact .inr (.inl hGt)
  have : IsTrans FleetTask fun s t => s.rank < t.rank ∨
      (s.rank = t.rank ∧ s.createdAt ≤ t.createdAt) := by
    refine ⟨fun s t u hLeft hRight => ?_⟩
    rcases hLeft with hLeft | ⟨hLeft, hFirst⟩
    · left
      rcases hRight with hRight | ⟨hRight, -⟩ <;> omega
    · rcases hRight with hRight | ⟨hRight, hLast⟩
      · left
        omega
      · exact .inr ⟨hLeft.trans hRight, String.le_trans hFirst hLast⟩
  exact List.pairwise_insertionSort
    (fun s t : FleetTask => s.rank < t.rank ∨
      (s.rank = t.rank ∧ s.createdAt ≤ t.createdAt)) _

theorem assignBatch_tasks
    (tasks : List FleetTask) (capacity : Dict String ℕ) :
    ∃ n, (assignBatch tasks capacity).map
      DirectorAction.task = (tasks.take n).map some := by
  induction tasks generalizing capacity with
  | nil => exact ⟨0, rfl⟩
  | cons task rest ih =>
    rw [assignBatch]
    split
    · exact ⟨0, rfl⟩
    · next vmName remaining _ =>
        rcases ih (if remaining ≤ 1 then
            capacity.remove vmName
          else capacity.insert vmName (remaining - 1)) with
          ⟨n, hTasks⟩
        refine ⟨n + 1, ?_⟩
        rw [List.map_cons, hTasks]
        rfl

variable {entry : String × ℕ}

/- A fold that keeps or takes ends in what it began with or
   in something it read. -/
theorem eq_or_mem_of_foldl
    {step : Option (String × ℕ) → String × ℕ → Option (String × ℕ)}
    (hStep : ∀ best e, step best e = some e ∨ step best e = best)
    {entries : List (String × ℕ)} {best : Option (String × ℕ)}
    (hEq : entries.foldl step best = some entry) :
    best = some entry ∨ entry ∈ entries := by
  induction entries generalizing best with
  | nil => exact .inl hEq
  | cons e entries ih =>
    rw [List.foldl_cons] at hEq
    rcases ih hEq with hHere | hLater
    · rcases hStep best e with hTake | hKeep
      · rw [hTake] at hHere
        cases hHere
        exact .inr List.mem_cons_self
      · exact .inl (hKeep.symm.trans hHere)
    · exact .inr (List.mem_cons_of_mem _ hLater)

variable {capacity : Dict String ℕ}

/- The machine that is chosen is one with room. -/
theorem get?_of_bestVm
    (hBest : bestVm capacity = some entry) :
    capacity.get? entry.1 = some entry.2 := by
  apply Dict.get?_of_mem_entries
  have hEither :=
    eq_or_mem_of_foldl (fun best e => ?_) hBest
  · rcases hEither with hNone | hMem
    · cases hNone
    · exact hMem
  · cases best with
    | none => exact .inl rfl
    | some held =>
      dsimp only
      split
      · exact .inl rfl
      · exact .inr rfl

/- No entry without room. -/
def Roomy (capacity : Dict String ℕ) : Prop :=
  ∀ vmName room, capacity.get? vmName = some room → 0 < room

theorem startsOn_assignBatch
    (tasks : List FleetTask) (hRoomy : Roomy capacity) (vmName : String) :
    startsOn vmName (assignBatch tasks capacity) ≤
      (capacity.get? vmName).getD 0 := by
  induction tasks generalizing capacity with
  | nil => exact Nat.zero_le _
  | cons task rest ih =>
    rw [assignBatch]
    split
    · exact Nat.zero_le _
    · next chosen remaining hBest =>
        have hGet := get?_of_bestVm hBest
        have hPos := hRoomy _ _ hGet
        dsimp only at hGet
        have hRest : Roomy (if remaining ≤ 1 then
            capacity.remove chosen
          else capacity.insert chosen (remaining - 1)) := by
          intro other room hOther
          split at hOther
          · rw [Dict.get?_remove] at hOther
            split at hOther
            · cases hOther
            · exact hRoomy _ _ hOther
          · rw [Dict.get?_insert] at hOther
            split at hOther
            · cases hOther
              omega
            · exact hRoomy _ _ hOther
        have hLater := ih hRest
        rw [startsOn, List.countP_cons, ← startsOn]
        by_cases hEq : vmName = chosen
        · subst hEq
          rw [hGet, Option.getD_some]
          have hOne : (if ((startAction task vmName).actionType
              == .startAgent && (startAction task
                vmName).vmName == some vmName) = true
              then 1 else 0) ≤ 1 := by split <;> omega
          have hLess : startsOn vmName (assignBatch rest
              (if remaining ≤ 1 then capacity.remove vmName
              else capacity.insert vmName (remaining - 1))) ≤
                remaining - 1 := by
            refine hLater.trans ?_
            split
            · rw [Dict.get?_remove, if_pos rfl]
              exact Nat.zero_le _
            · rw [Dict.get?_insert, if_pos rfl, Option.getD_some]
          omega
        · have hOther : (startAction task chosen).vmName ≠ some vmName := by
            intro hSame
            cases hSame
            exact hEq rfl
          have hSkip : ((startAction task chosen).actionType ==
              .startAgent && (startAction task chosen).vmName ==
                some vmName) = false := by simp [hOther]
          rw [hSkip]
          simp only [Bool.false_eq_true, if_false, Nat.add_zero]
          refine hLater.trans (Nat.le_of_eq ?_)
          split
          · rw [Dict.get?_remove, if_neg hEq]
          · rw [Dict.get?_insert, if_neg hEq]

variable {action : DirectorAction}

/- The machines of a batch are those with room. -/
theorem vmName_of_mem_assignBatch
    {tasks : List FleetTask} (hMem : action ∈ assignBatch tasks capacity) :
    ∃ vmName room, action.vmName = some vmName ∧
      capacity.get? vmName = some room := by
  induction tasks generalizing capacity with
  | nil => simp [assignBatch] at hMem
  | cons task rest ih =>
    rw [assignBatch] at hMem
    split at hMem
    · simp at hMem
    · next chosen remaining hBest =>
        have hGet := get?_of_bestVm hBest
        rcases List.mem_cons.mp hMem with rfl | hRest
        · exact ⟨chosen, remaining, rfl, hGet⟩
        · rcases ih hRest with ⟨vmName, room, hName, hRoom⟩
          refine ⟨vmName, ?_⟩
          by_cases hEq : vmName = chosen
          · subst hEq
            exact ⟨remaining, hName, hGet⟩
          · refine ⟨room, hName, ?_⟩
            split at hRoom
            · rwa [Dict.get?_remove, if_neg hEq] at hRoom
            · rwa [Dict.get?_insert, if_neg hEq] at hRoom

variable {vmName : String}

/- Where the room of a machine comes from. -/
theorem vmCapacity_get?
    (a : FleetAdmiral) (prior : List DirectorAction) {room : ℕ}
    (hGet : (vmCapacity a prior).get? vmName = some room) :
    0 < room ∧ ∃ vm ∈ a.fleet.managedVms,
      vm.isRunning = true ∧ vm.name = vmName ∧
        vm.activeAgents + startsOn vm.name prior + room =
          a.maxAgentsPerVm := by
  have hGo : ∀ (vms : List VmInfo) (capacity : Dict String ℕ),
      (∀ vmName room, capacity.get? vmName = some room →
        0 < room ∧ ∃ vm ∈ a.fleet.managedVms,
          vm.isRunning = true ∧ vm.name = vmName ∧
            vm.activeAgents + startsOn vm.name prior + room =
              a.maxAgentsPerVm) →
      (∀ vm ∈ vms, vm ∈ a.fleet.managedVms) →
      ∀ vmName room, (vms.foldl (fun capacity vm =>
          let used := vm.activeAgents +
            prior.countP fun action =>
              action.actionType == .startAgent &&
                action.vmName == some vm.name
          if vm.isRunning ∧ used < a.maxAgentsPerVm then
            capacity.insert vm.name (a.maxAgentsPerVm - used)
          else capacity) capacity).get? vmName = some room →
        0 < room ∧ ∃ vm ∈ a.fleet.managedVms,
          vm.isRunning = true ∧ vm.name = vmName ∧
            vm.activeAgents + startsOn vm.name prior + room =
              a.maxAgentsPerVm := by
    intro vms
    induction vms with
    | nil => exact fun capacity hInv _ => hInv
    | cons vm vms ih =>
      intro capacity hInv hVms
      rw [List.foldl_cons]
      apply ih
      · intro name room hGet
        dsimp only at hGet
        split at hGet
        · next hRoom =>
            rw [Dict.get?_insert] at hGet
            split at hGet
            · next hName =>
                cases hGet
                refine ⟨by omega, vm, hVms vm
                  List.mem_cons_self, hRoom.1, hName.symm, ?_⟩
                rw [startsOn]
                omega
            · exact hInv _ _ hGet
        · exact hInv _ _ hGet
      · intro other hMem
        exact hVms other (List.mem_cons_of_mem _ hMem)
  refine hGo a.fleet.managedVms Dict.empty ?_ (fun _ h => h) _ _ hGet
  intro name room hEmpty
  cases hEmpty

theorem startsOn_batch
    (a : FleetAdmiral) (prior : List DirectorAction) (vmName : String) :
    startsOn vmName (batchAssignActions a prior) ≤
      ((vmCapacity a prior).get? vmName).getD 0 :=
  startsOn_assignBatch _
    (fun _ _ hGet => (vmCapacity_get? a prior hGet).1) vmName

/- Every batch is in order, whatever is queued and seen. -/
theorem batchInOrder
    (a : FleetAdmiral) (prior : List DirectorAction) :
    BatchInOrder a prior := by
  refine ⟨?_, ?_⟩
  · rcases assignBatch_tasks (queuedByUrgency a.tasks)
      (vmCapacity a prior) with ⟨n, hTasks⟩
    refine ⟨(queuedByUrgency a.tasks).take n,
      (queuedByUrgency a.tasks).drop n, hTasks, ?_, ?_⟩
    · rw [List.take_append_drop]
      exact List.perm_insertionSort _ _
    · rw [List.take_append_drop]
      exact pairwise_queuedByUrgency a.tasks
  · intro action hMem
    rcases vmName_of_mem_assignBatch hMem with ⟨vmName, room, hName, hGet⟩
    rcases vmCapacity_get? a prior hGet with
      ⟨-, vm, hVm, hRunning, rfl, hRoom⟩
    have hStarts := startsOn_batch a prior vm.name
    rw [hGet, Option.getD_some] at hStarts
    exact ⟨assignBatch_starts _ _ action hMem, vm, hVm,
      hRunning, hName, by omega⟩

-- Tasks of a machine

/- The task is Assigned or Running on the machine. -/
def isOn (vmName : String) (t : FleetTask) : Bool :=
  t.isActive && t.assignedVm == some vmName

def vmLoad (vmName : String) (tasks : TaskQueue) : ℕ :=
  tasks.countP (isOn vmName)

/- The task that the action completes, fails or puts back. -/
def DirectorAction.settledId (action : DirectorAction) :
    Option String :=
  match action.marked? with
  | some id => some id
  | none => action.requeued?

/- The load without the first task of each of the ids. -/
def loadWithout (vmName : String) :
    List String → TaskQueue → ℕ
| _, [] => 0
| ids, t :: rest =>
  if t.id ∈ ids then
    loadWithout vmName (ids.filter (· ≠ t.id)) rest
  else
    (if isOn vmName t then 1 else 0) + loadWithout vmName ids rest

@[simp] theorem loadWithout_nil
    (vmName : String) (tasks : TaskQueue) :
    loadWithout vmName [] tasks = vmLoad vmName tasks := by
  induction tasks with
  | nil => rfl
  | cons t rest ih =>
    rw [loadWithout, if_neg (by simp), ih, vmLoad, vmLoad,
      List.countP_cons, Nat.add_comm]

theorem loadWithout_le
    (vmName : String) (ids : List String) (tasks : TaskQueue) :
    loadWithout vmName ids tasks ≤ vmLoad vmName tasks := by
  induction tasks generalizing ids with
  | nil => exact Nat.zero_le _
  | cons t rest ih =>
    rw [loadWithout, vmLoad, List.countP_cons, ← vmLoad]
    split
    · exact (ih _).trans (Nat.le_add_right _ _)
    · rw [Nat.add_comm]
      exact Nat.add_le_add_right (ih _) _

variable {f : FleetTask → FleetTask}

/- A task that is settled counts no more. -/
theorem loadWithout_updateById
    (hId : ∀ t, (f t).id = t.id)
    (hEnds : ∀ t, (f t).isActive = false) (vmName id : String)
    (ids : List String) (tasks : TaskQueue) :
    loadWithout vmName ids (updateById id f tasks) =
      loadWithout vmName (id :: ids) tasks := by
  induction tasks generalizing ids with
  | nil => rfl
  | cons t rest ih =>
    rw [updateById, updateFirst]
    by_cases hHere : t.id = id
    · have hHas : FleetTask.hasId id t = true := by
        simp [FleetTask.hasId, hHere]
      have hOff : isOn vmName (f t) = false := by simp [isOn, hEnds]
      rw [if_pos hHas, loadWithout, loadWithout, hId, hHere,
        if_pos List.mem_cons_self]
      split
      · simp
      · next hOut =>
          have hSame : (id :: ids).filter (· ≠ id) = ids := by
            rw [List.filter_cons_of_neg (by simp), List.filter_eq_self]
            intro other hMem
            simp only [ne_eq, decide_not, Bool.not_eq_true',
              decide_eq_false_iff_not]
            rintro rfl
            exact hOut hMem
          rw [hSame, hOff]
          simp
    · have hHas : FleetTask.hasId id t = false := by
        simpa [FleetTask.hasId] using hHere
      rw [hHas, if_neg (by simp), ← updateById, loadWithout,
        loadWithout, ih, ih]
      by_cases hIn : t.id ∈ ids
      · have hKept : decide (id ≠ t.id) = true := by
          simpa using Ne.symm hHere
        rw [if_pos hIn, if_pos (List.mem_cons_of_mem _ hIn),
          List.filter_cons, if_pos hKept]
      · have hOut : t.id ∉ id :: ids := by
          intro hCons
          rcases List.mem_cons.mp hCons with hEq | hMem
          · exact hHere hEq
          · exact hIn hMem
        rw [if_neg hIn, if_neg hOut]

/- One task more at most, where the new one may be. -/
theorem load_updateById_le
    {more : ℕ} (hMore : ∀ t, (if isOn vmName (f t) then 1 else 0) ≤ more)
    (id : String) (tasks : TaskQueue) :
    vmLoad vmName (updateById id f tasks) ≤ vmLoad vmName tasks + more := by
  induction tasks with
  | nil => exact Nat.zero_le _
  | cons t rest ih =>
    rw [updateById, updateFirst]
    split
    · have hOne := hMore t
      rw [vmLoad, vmLoad, List.countP_cons, List.countP_cons]
      omega
    · rw [← updateById, vmLoad, vmLoad, List.countP_cons,
        List.countP_cons, ← vmLoad, ← vmLoad]
      omega

-- What an action does to the load

/- What a settling action does to the queue. -/
theorem executeAction_settles
    (ans : StepAnswers) (hSettles : action.settles = true)
    (tasks : TaskQueue) :
    (action.settledId = none ∧
        (executeAction ans action tasks).2 = tasks) ∨
      ∃ id f, action.settledId = some id ∧
        (executeAction ans action tasks).2 = updateById id f tasks ∧
        (∀ t, (f t).id = t.id) ∧
        ∀ t, (f t).isActive = false := by
  unfold executeAction DirectorAction.settledId DirectorAction.marked?
  cases hType : action.actionType with
  | startAgent => simp [DirectorAction.settles, hType] at hSettles
  | stopAgent => simp [DirectorAction.settles, hType] at hSettles
  | report => simp [DirectorAction.settles, hType] at hSettles
  | propagateAuth => simp [DirectorAction.settles, hType] at hSettles
  | markComplete =>
    dsimp only [markComplete, DirectorAction.taskId]
    cases hTask : action.task with
    | none =>
      left
      rw [Option.map_none, DirectorAction.requeued?.eq_def, hType]
      exact ⟨rfl, rfl⟩
    | some task =>
      exact .inr ⟨task.id, _, rfl, rfl, fun _ => rfl, fun _ => rfl⟩
  | markFailed =>
    dsimp only [markFailed, DirectorAction.taskId]
    cases hTask : action.task with
    | none =>
      left
      rw [Option.map_none, DirectorAction.requeued?.eq_def, hType]
      exact ⟨rfl, rfl⟩
    | some task =>
      exact .inr ⟨task.id, _, rfl, rfl, fun _ => rfl, fun _ => rfl⟩
  | reassignTask =>
    dsimp only
    rw [DirectorAction.requeued?.eq_def, hType]
    unfold reassignTask
    cases hTask : action.task with
    | none => exact .inl ⟨rfl, rfl⟩
    | some task =>
      cases hVm : action.vmName with
      | none => exact .inl ⟨rfl, rfl⟩
      | some vmName =>
        cases hSession : action.sessionName with
        | none => exact .inl ⟨rfl, rfl⟩
        | some sessionName =>
          dsimp only
          split
          · exact .inr ⟨task.id, _, rfl, rfl, fun _ => rfl, fun _ => rfl⟩
          · exact .inl ⟨rfl, rfl⟩

theorem loadWithout_settles
    (ans : StepAnswers) (hSettles : action.settles = true)
    (vmName : String) (ids : List String) (tasks : TaskQueue) :
    loadWithout vmName ids (executeAction ans action tasks).2 =
      loadWithout vmName (action.settledId.toList ++ ids)
        tasks := by
  rcases executeAction_settles ans hSettles tasks with
    ⟨hNone, hSame⟩ | ⟨id, f, hId, hUpdate, hKeeps, hEnds⟩
  · rw [hNone, hSame]
    rfl
  · rw [hId, hUpdate, loadWithout_updateById hKeeps hEnds]
    rfl

theorem load_settles_le
    (ans : StepAnswers) (hSettles : action.settles = true)
    (vmName : String) (tasks : TaskQueue) :
    vmLoad vmName (executeAction ans action tasks).2 ≤
      vmLoad vmName tasks := by
  rw [← loadWithout_nil, loadWithout_settles ans hSettles]
  exact loadWithout_le _ _ _

/- An agent that is started is one more on its machine. -/
theorem load_start_le
    (ans : StepAnswers)
    (hStart : action.actionType = .startAgent) (vmName : String)
    (tasks : TaskQueue) :
    vmLoad vmName (executeAction ans action tasks).2 ≤
      vmLoad vmName tasks + startsOn vmName [action] := by
  have hCount : startsOn vmName [action] =
      if action.vmName = some vmName then 1 else 0 := by
    simp [startsOn, List.countP_cons, hStart]
  rw [executeAction, hStart, hCount]
  dsimp only [startAgent]
  split
  · next task chosen hTask hVm =>
      split
      · apply load_updateById_le
        intro t
        simp [isOn, FleetTask.assign, FleetTask.start,
          FleetTask.isActive, hVm]
      · exact Nat.le_add_right _ _
  · exact Nat.le_add_right _ _
  · exact Nat.le_add_right _ _

-- Runs of cycles

/- The queue, the misses and the actions still to carry out. -/
structure Round where
  tasks : TaskQueue
  missing : MissingCounts
  pending : List DirectorAction

/- A cycle decides on what it observes; then each of its
   actions is carried out. -/
inductive RoundStep where
| cycle (fleet : FleetState) (ans : ReasonAnswers)
| act (ans : StepAnswers)

namespace Round

def admiral (maxAgentsPerVm : ℕ) (r : Round)
    (fleet : FleetState) : FleetAdmiral where
  tasks := r.tasks
  fleet := fleet
  maxAgentsPerVm := maxAgentsPerVm
  missingSessionCounts := r.missing

def step (maxAgentsPerVm : ℕ) (r : Round) : RoundStep → Round
| .cycle fleet ans =>
  match r.pending with
  | [] =>
    let reasoned := reason ans
      (r.admiral maxAgentsPerVm fleet)
    { r with
      missing := reasoned.1.missingSessionCounts
      pending := reasoned.2.getD [] }
  | _ :: _ => r
| .act ans =>
  match r.pending with
  | [] => r
  | action :: rest =>
    { r with
      tasks := (executeAction ans action r.tasks).2
      pending := if ans.logged then rest else [] }

end Round

/- The actions that are decided before the batch. -/
def priorActions (a : FleetAdmiral) : List DirectorAction :=
  (lifecycleActions a).2 ++ preemptionActions a

/-
  The observation does not lag: when a task is queued, on each
  machine with room the tasks that the cycle leaves Assigned or
  Running are no more than the agents seen active there.
-/
def Counted (maxAgentsPerVm : ℕ) (r : Round) : RoundStep → Prop
| .cycle fleet _ =>
  (∃ t ∈ r.tasks, t.status = .queued) →
    ∀ vm ∈ fleet.managedVms, vm.isRunning = true →
      vm.activeAgents < maxAgentsPerVm →
      loadWithout vm.name
          ((priorActions
            (r.admiral maxAgentsPerVm fleet)).filterMap
              DirectorAction.settledId) r.tasks ≤
        vm.activeAgents
| .act _ => True

theorem priorActions_eq (a : FleetAdmiral) :
    priorActions a = settling a := by
  rw [priorActions, settling, lifecycleActions_eq, preemptionActions]

/- The actions that are pending still fit on the machines. -/
structure Round.Inv (maxAgentsPerVm : ℕ) (r : Round) : Prop where
  load : ∀ vmName, vmLoad vmName r.tasks ≤ maxAgentsPerVm
  pending : ∃ settles starts, r.pending = settles ++ starts ∧
    (∀ x ∈ settles, x.settles = true) ∧
    (∀ x ∈ starts, x.actionType = .startAgent) ∧
    ∀ vmName, 0 < startsOn vmName starts →
      loadWithout vmName
          (settles.filterMap DirectorAction.settledId) r.tasks +
        startsOn vmName starts ≤ maxAgentsPerVm

variable {maxAgentsPerVm : ℕ} {r : Round}

theorem Round.Inv.of_idle
    (hLoad : ∀ vmName, vmLoad vmName r.tasks ≤ maxAgentsPerVm)
    (hIdle : r.pending = []) :
    r.Inv maxAgentsPerVm := by
  refine ⟨hLoad, [], [], hIdle, by simp, by simp, ?_⟩
  intro vmName hStarts
  simp [startsOn] at hStarts

theorem startsOn_priorActions
    (a : FleetAdmiral) (vmName : String) :
    startsOn vmName (priorActions a) = 0 := by
  rw [startsOn, List.countP_eq_zero, priorActions_eq]
  intro x hMem hStart
  have hSettles := settles_of_mem_settling hMem
  rw [Bool.and_eq_true, beq_iff_eq] at hStart
  rw [DirectorAction.settles, hStart.1] at hSettles
  cases hSettles

variable {fleet : FleetState} {ans : ReasonAnswers}

theorem starts_fit
    (hCounted : Counted maxAgentsPerVm r (.cycle fleet ans))
    (hStarts : 0 < startsOn vmName (batchAssignActions
      (r.admiral maxAgentsPerVm fleet)
      (priorActions (r.admiral maxAgentsPerVm fleet)))) :
    loadWithout vmName
        ((priorActions
          (r.admiral maxAgentsPerVm fleet)).filterMap
            DirectorAction.settledId) r.tasks +
      startsOn vmName (batchAssignActions
        (r.admiral maxAgentsPerVm fleet)
        (priorActions (r.admiral maxAgentsPerVm fleet))) ≤
          maxAgentsPerVm := by
  rcases List.countP_pos_iff.mp hStarts with ⟨action, hMem, hAction⟩
  rw [Bool.and_eq_true, beq_iff_eq, beq_iff_eq] at hAction
  have hOrder := batchInOrder (r.admiral maxAgentsPerVm fleet)
    (priorActions (r.admiral maxAgentsPerVm fleet))
  rcases hOrder.room action hMem with ⟨-, vm, hVm, hRunning, hName, hRoom⟩
  rw [hAction.2, Option.some.injEq] at hName
  subst hName
  rw [startsOn_priorActions] at hRoom
  have hQueued : ∃ t ∈ r.tasks, t.status = .queued := by
    rcases mem_batchAssignActions hMem with ⟨t, hIn, hStatus, -⟩
    exact ⟨t, hIn, hStatus⟩
  have hMax : (r.admiral maxAgentsPerVm fleet).maxAgentsPerVm =
      maxAgentsPerVm := rfl
  rw [hMax] at hRoom
  have hSeen := hCounted hQueued vm hVm hRunning (by omega)
  omega

section Pending

variable {maxAgentsPerVm : ℕ}
variable {tasks : TaskQueue}
variable {action : DirectorAction}
variable {rest settles starts : List DirectorAction}
variable (ans : StepAnswers)

/- Settling a task leaves room for what follows. -/
theorem fits_after_settling
    (hHead : action.settles = true)
    (hFit : ∀ vmName, 0 < startsOn vmName starts →
      loadWithout vmName
          ((action :: settles).filterMap DirectorAction.settledId) tasks +
        startsOn vmName starts ≤ maxAgentsPerVm)
    {vmName : String}
    (hStarts : 0 < startsOn vmName starts) :
    loadWithout vmName
        (settles.filterMap DirectorAction.settledId)
        (executeAction ans action tasks).2 +
      startsOn vmName starts ≤ maxAgentsPerVm := by
  have hNow := hFit vmName hStarts
  have hIds : (action :: settles).filterMap
      DirectorAction.settledId =
        action.settledId.toList ++
          settles.filterMap DirectorAction.settledId := by
    cases hId : action.settledId <;> simp [hId]
  rw [hIds] at hNow
  rw [loadWithout_settles ans hHead]
  exact hNow

theorem startsOn_cons (vmName : String) :
    startsOn vmName (action :: rest) =
      startsOn vmName [action] + startsOn vmName rest := by
  rw [startsOn, startsOn, startsOn,
    ← List.countP_append, List.singleton_append]

/- A start takes its own place of those that fit. -/
theorem fits_after_start
    (hHead : action.actionType = .startAgent)
    (hFit : ∀ vmName, 0 < startsOn vmName (action :: rest) →
      loadWithout vmName
          (([] : List DirectorAction).filterMap
            DirectorAction.settledId) tasks +
        startsOn vmName (action :: rest) ≤ maxAgentsPerVm)
    {vmName : String}
    (hStarts : 0 < startsOn vmName (action :: rest)) :
    vmLoad vmName (executeAction ans action tasks).2 +
      startsOn vmName rest ≤ maxAgentsPerVm := by
  have hNow := load_start_le ans hHead vmName tasks
  have hHere := hFit vmName hStarts
  rw [List.filterMap_nil, loadWithout_nil, startsOn_cons]
    at hHere
  omega

end Pending

/- A cycle leaves a batch that fits. -/
theorem Round.cycle_inv
    (hInv : r.Inv maxAgentsPerVm)
    (hCounted : Counted maxAgentsPerVm r (.cycle fleet ans)) :
    (r.step maxAgentsPerVm (.cycle fleet ans)).Inv
      maxAgentsPerVm := by
  rw [Round.step]
  cases hPending : r.pending with
  | cons action rest => exact hInv
  | nil =>
    dsimp only
    cases hReason : (reason ans
        (r.admiral maxAgentsPerVm fleet)).2 with
    | none => exact .of_idle hInv.load rfl
    | some actions =>
      rcases reason_eq_some_iff.mp hReason with ⟨-, -, rfl⟩
      refine ⟨hInv.load, priorActions (r.admiral maxAgentsPerVm fleet),
        batchAssignActions _ _, rfl, ?_, ?_, ?_⟩
      · intro x hMem
        rw [priorActions_eq] at hMem
        exact settles_of_mem_settling hMem
      · exact assignBatch_starts _ _
      · intro vmName hStarts
        exact starts_fit hCounted hStarts

/- So does an action that is carried out. -/
theorem Round.act_inv
    {ans : StepAnswers} (hInv : r.Inv maxAgentsPerVm) :
    (r.step maxAgentsPerVm (.act ans)).Inv
      maxAgentsPerVm := by
  rw [Round.step]
  rcases hInv.pending with ⟨settles, starts, hSplit, hSettles, hStart, hFit⟩
  cases hPending : r.pending with
  | nil => exact hInv
  | cons action rest =>
    dsimp only
    rw [hPending] at hSplit
    cases settles with
    | cons x settles =>
      rw [List.cons_append, List.cons.injEq] at hSplit
      rcases hSplit with ⟨rfl, rfl⟩
      have hHead := hSettles action List.mem_cons_self
      have hLoad : ∀ vmName, vmLoad vmName
          (executeAction ans action r.tasks).2 ≤
            maxAgentsPerVm := fun vmName =>
        (load_settles_le ans hHead vmName r.tasks).trans (hInv.load vmName)
      cases hLogged : ans.logged with
      | false => exact .of_idle hLoad rfl
      | true =>
        exact ⟨hLoad, settles, starts, rfl,
          fun y hMem => hSettles y (List.mem_cons_of_mem _ hMem),
          hStart,
          fun _ => fits_after_settling ans hHead hFit⟩
    | nil =>
      rw [List.nil_append] at hSplit
      subst hSplit
      have hHead := hStart action List.mem_cons_self
      have hLoad : ∀ vmName, vmLoad vmName
          (executeAction ans action r.tasks).2 ≤
            maxAgentsPerVm := by
        intro vmName
        have hNow := load_start_le ans hHead vmName r.tasks
        have hOld := hInv.load vmName
        by_cases hStarts : 0 < startsOn vmName (action :: rest)
        · have hHere :=
            fits_after_start ans hHead hFit hStarts
          omega
        · rw [startsOn_cons] at hStarts
          omega
      cases hLogged : ans.logged with
      | false => exact .of_idle hLoad rfl
      | true =>
        refine ⟨hLoad, [], rest, rfl, by simp,
          fun y hMem => hStart y (List.mem_cons_of_mem _ hMem), ?_⟩
        intro vmName hStarts
        rw [List.filterMap_nil, loadWithout_nil]
        refine fits_after_start ans hHead hFit ?_
        rw [startsOn_cons]
        omega

theorem Round.step_inv
    (r : Round) (l : RoundStep) (hInv : r.Inv maxAgentsPerVm)
    (hCounted : Counted maxAgentsPerVm r l) :
    (r.step maxAgentsPerVm l).Inv maxAgentsPerVm := by
  cases l with
  | cycle fleet ans => exact Round.cycle_inv hInv hCounted
  | act ans => exact Round.act_inv hInv

/- Each batch is in order, and where the observations do not
   lag no machine ever has more tasks than it may. -/
theorem capacity_kept
    {maxAgentsPerVm : ℕ} {r r' : Round} (hIdle : r.pending = [])
    (hStart : ∀ vmName, vmLoad vmName r.tasks ≤ maxAgentsPerVm)
    (hRun : Reaches (Round.step maxAgentsPerVm)
      (Counted maxAgentsPerVm) r r') :
    (∀ a prior, BatchInOrder a prior) ∧
      ∀ vmName, vmLoad vmName r'.tasks ≤ maxAgentsPerVm :=
  ⟨batchInOrder,
    (hRun.invariant (Round.Inv maxAgentsPerVm)
      Round.step_inv (.of_idle hStart hIdle)).load⟩

def queuedTask (id : String) : FleetTask where
  id := id
  prompt := "tidy up"
  priority := .low
  status := .queued
  agentCommand := "claude"
  agentMode := "auto"
  maxTurns := 10
  protected? := false
  assignedVm := none
  assignedSession := none
  assignedAt := none
  createdAt := "1"
  startedAt := none
  completedAt := none
  result := none
  prUrl := none
  error := none

def twoQueued : Round where
  tasks := [queuedTask "a", queuedTask "b"]
  missing := Dict.empty
  pending := []

/- One machine with these sessions. -/
def oneVm (sessions : List TmuxSessionInfo) : FleetState where
  vms :=
    [{ name := "vm1"
       status := "Running"
       tmuxSessions := sessions }]
  excludeVms := []

def idleSession : TmuxSessionInfo where
  sessionName := "fleet-a"
  agentStatus := .idle
  lastOutput := ""
  corroborated := false

/- The first cycle, on a machine without sessions. -/
def firstCycle : List RoundStep :=
  [.cycle (oneVm []) ⟨true, true⟩, .act worksOut]

/- The next one sees the session of the first task idle. -/
def secondCycle : List RoundStep :=
  [.cycle (oneVm [idleSession]) ⟨true, true⟩, .act worksOut]

theorem twoQueued_load (vmName : String) :
    vmLoad vmName twoQueued.tasks ≤ 1 := by
  simp [vmLoad, twoQueued, isOn, queuedTask, FleetTask.isActive]

theorem capacity_kept_of_one_cycle :
    (∀ a prior, BatchInOrder a prior) ∧
      ∀ vmName, vmLoad vmName
        (firstCycle.foldl (Round.step 1) twoQueued).tasks ≤
          1 := by
  refine capacity_kept (r := twoQueued) rfl twoQueued_load ?_
  have hFirst : Counted 1 twoQueued (.cycle (oneVm []) ⟨true, true⟩) := by
    intro _ vm hVm _ _
    rw [List.mem_singleton.mp hVm]
    decide
  exact ((Reaches.refl twoQueued).tail _ hFirst).tail (.act worksOut) trivial

/- A machine with room for one agent gets a second task. -/
theorem idle_session_is_not_counted :
    twoQueued.pending = [] ∧
      (∀ vmName, vmLoad vmName twoQueued.tasks ≤ 1) ∧
      Reaches (Round.step 1) (fun _ _ => True) twoQueued
        ((firstCycle ++ secondCycle).foldl (Round.step 1) twoQueued) ∧
      vmLoad "vm1" ((firstCycle ++ secondCycle).foldl
        (Round.step 1) twoQueued).tasks = 2 := by
  refine ⟨rfl, twoQueued_load, ?_, by decide⟩
  exact Reaches.foldl _ (fun _ _ _ => trivial) _

end Admiral
