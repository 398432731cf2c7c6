import Amplihack.Admiral.Consistency
import Amplihack.Admiral.Processes

/-
  The statuses of the tasks of a queue, what an action makes of
  them, and what a cycle decides for them.
-/

-- Names And Statuses

namespace Admiral

open Base

def names (queue : List StoredTask) : List (String × String) :=
  queue.map fun s => (s.task.id, s.task.prompt)

def tasksOf (file : QueueFile) : List StoredTask :=
  (load file).getD []

def statusOf (tasks : TaskQueue) (id : String) :
    Option TaskStatus :=
  (tasks.find? (FleetTask.hasId id)).map FleetTask.status

/- Completed or failed. -/
def Done (tasks : TaskQueue) (id : String) : Prop :=
  statusOf tasks id = some .completed ∨ statusOf tasks id = some .failed

/- In a state before that. -/
def Early (tasks : TaskQueue) (id : String) : Prop :=
  statusOf tasks id = some .queued ∨
    statusOf tasks id = some .assigned ∨ statusOf tasks id = some .running

def ids (queue : List StoredTask) : List String :=
  queue.map fun s => s.task.id

theorem tasksOf_written (queue : List StoredTask) :
    tasksOf (written queue) = queue.map StoredTask.readBack := by
  unfold tasksOf
  rw [load_written]
  rfl

theorem names_tasksOf_written (queue : List StoredTask) :
    names (tasksOf (written queue)) = names queue := by
  rw [tasksOf_written]
  unfold names
  rw [List.map_map]
  rfl

theorem ids_eq (queue : List StoredTask) :
    ids queue = (names queue).map Prod.fst := by
  unfold ids names
  rw [List.map_map]
  rfl

variable {f : FleetTask → FleetTask}

theorem statusOf_map
    (hId : ∀ t, (f t).id = t.id)
    (hStatus : ∀ t, (f t).status = t.status) (tasks : TaskQueue)
    (id : String) :
    statusOf (tasks.map f) id = statusOf tasks id := by
  unfold statusOf
  induction tasks with
  | nil => rfl
  | cons t tasks ih =>
    have hSame : FleetTask.hasId id (f t) = FleetTask.hasId id t := by
      unfold FleetTask.hasId
      rw [hId]
    rw [List.map_cons, List.find?_cons, List.find?_cons, hSame]
    split
    · exact congrArg some (hStatus t)
    · exact ih

theorem statusOf_written (queue : List StoredTask) (id : String) :
    statusOf (tasksIn (tasksOf (written queue))) id =
      statusOf (tasksIn queue) id := by
  rw [tasksOf_written]
  have hSame : tasksIn (queue.map StoredTask.readBack) =
      (tasksIn queue).map fun t =>
        { t with maxTurns := turnsOf (some t.maxTurns) } := by
    unfold tasksIn
    rw [List.map_map, List.map_map]
    rfl
  rw [hSame]
  apply statusOf_map
  · exact fun _ => rfl
  · exact fun _ => rfl

variable {tasks : TaskQueue} {id : String}

theorem not_done_of_early
    (hEarly : Early tasks id) :
    ¬Done tasks id := by
  rintro (hDone | hDone) <;>
    rcases hEarly with hEarly | hEarly | hEarly <;>
    · rw [hDone] at hEarly
      cases hEarly

/- The names of tasks: what an update leaves. -/
def FleetTask.name (t : FleetTask) : String × String :=
  (t.id, t.prompt)

theorem names_eq (queue : List StoredTask) :
    names queue = (tasksIn queue).map FleetTask.name := by
  unfold names tasksIn
  rw [List.map_map]
  rfl

theorem ids_eq_map (queue : List StoredTask) :
    ids queue = (tasksIn queue).map FleetTask.id := by
  unfold ids tasksIn
  rw [List.map_map]
  rfl

variable {queue : List StoredTask}

theorem tasksIn_carry
    (hLength : tasks.length = queue.length) :
    tasksIn (carry queue tasks) = tasks := by
  unfold tasksIn carry
  induction queue generalizing tasks with
  | nil =>
    rw [List.length_eq_zero_iff.mp hLength]
    rfl
  | cons s queue ih =>
    cases tasks with
    | nil => cases hLength
    | cons t tasks =>
      rw [List.zipWith_cons_cons, List.map_cons, ih (Nat.succ.inj hLength)]

theorem carry_tasksIn (queue : List StoredTask) :
    carry queue (tasksIn queue) = queue := by
  unfold tasksIn carry
  induction queue with
  | nil => rfl
  | cons s queue ih => rw [List.map_cons, List.zipWith_cons_cons, ih]

theorem names_updateById
    (hName : ∀ t, (f t).name = t.name) (id : String) (tasks : TaskQueue) :
    (updateById id f tasks).map FleetTask.name =
      tasks.map FleetTask.name := by
  unfold updateById
  induction tasks with
  | nil => rfl
  | cons t tasks ih =>
    rw [updateFirst]
    split
    · rw [List.map_cons, List.map_cons, hName]
    · rw [List.map_cons, List.map_cons, ih]

theorem length_eq_of_names
    {tasks tasks' : TaskQueue}
    (hNames : tasks'.map FleetTask.name = tasks.map FleetTask.name) :
    tasks'.length = tasks.length := by
  simpa using congrArg List.length hNames

variable {status : TaskStatus}

/- An update sets the status of the task that has the id. -/
theorem statusOf_updateById_self
    (hName : ∀ t, (f t).name = t.name)
    (hStatus : ∀ t, (f t).status = status) (id : String) (tasks : TaskQueue) :
    statusOf (updateById id f tasks) id =
      (statusOf tasks id).map fun _ => status := by
  unfold statusOf updateById
  rw [find?_updateFirst_self]
  · cases tasks.find? (FleetTask.hasId id) with
    | none => rfl
    | some t => exact congrArg some (hStatus t)
  · intro t hHas
    have hId : (f t).id = t.id := congrArg Prod.fst (hName t)
    unfold FleetTask.hasId at hHas ⊢
    rw [hId]
    exact hHas

theorem statusOf_updateById_other
    {id id' : String} (hName : ∀ t, (f t).name = t.name)
    (hNe : id' ≠ id) (tasks : TaskQueue) :
    statusOf (updateById id f tasks) id' = statusOf tasks id' := by
  unfold statusOf
  rw [find?_updateById_other (fun t => congrArg Prod.fst (hName t)) hNe]

/- What an action does to the queue, said once. -/
theorem executeAction_changes
    (ans : StepAnswers) (action : DirectorAction) (tasks : TaskQueue) :
    (executeAction ans action tasks).2 = tasks ∨
      ∃ id f status, action.taskId = some id ∧
        (executeAction ans action tasks).2 = updateById id f tasks ∧
        (∀ t, (f t).name = t.name) ∧
        (∀ t, (f t).status = status) ∧
        (status = .running ∧ action.actionType = .startAgent ∨
          status = .completed ∨ status = .failed ∨
            action.requeued? = some id) := by
  unfold executeAction
  cases hType : action.actionType with
  | startAgent =>
    dsimp only
    unfold startAgent
    split
    next task vmName hTask hVm =>
      dsimp only
      split
      · refine Or.inr ⟨task.id, _, .running, ?_, rfl,
          fun _ => rfl, fun _ => rfl, Or.inl ⟨rfl, rfl⟩⟩
        rw [DirectorAction.taskId, hTask]
        rfl
      · exact Or.inl rfl
    next => exact Or.inl rfl
    next => exact Or.inl rfl
  | markComplete =>
    dsimp only
    unfold markComplete
    split
    next => exact Or.inl rfl
    next task hTask =>
      refine Or.inr ⟨task.id, _, .completed, ?_, rfl,
        fun _ => rfl, fun _ => rfl, Or.inr (Or.inl rfl)⟩
      rw [DirectorAction.taskId, hTask]
      rfl
  | markFailed =>
    dsimp only
    unfold markFailed
    split
    next => exact Or.inl rfl
    next task hTask =>
      refine Or.inr ⟨task.id, _, .failed, ?_, rfl,
        fun _ => rfl, fun _ => rfl,
        Or.inr (Or.inr (Or.inl rfl))⟩
      rw [DirectorAction.taskId, hTask]
      rfl
  | reassignTask =>
    dsimp only
    unfold reassignTask
    split
    next task vmName sessionName hTask hVm hSession =>
      split
      next hValid =>
        refine Or.inr ⟨task.id, _, .queued, ?_, rfl,
          fun _ => rfl, fun _ => rfl,
          Or.inr (Or.inr (Or.inr ?_))⟩
        · rw [DirectorAction.taskId, hTask]
          rfl
        · rw [DirectorAction.requeued?.eq_def, hType, hTask, hVm, hSession]
          dsimp only
          rw [if_pos hValid]
      next => exact Or.inl rfl
    next => exact Or.inl rfl
  | stopAgent | report | propagateAuth => exact Or.inl rfl

theorem statusOf_append
    (more : TaskQueue) (hStatus : statusOf tasks id = some status) :
    statusOf (tasks ++ more) id = some status := by
  unfold statusOf at hStatus ⊢
  rw [List.find?_append]
  cases hFind : tasks.find? (FleetTask.hasId id) with
  | none =>
    rw [hFind] at hStatus
    cases hStatus
  | some t =>
    rw [hFind] at hStatus
    exact hStatus

theorem Early.append
    (more : TaskQueue) (hEarly : Early tasks id) :
    Early (tasks ++ more) id :=
  hEarly.imp (statusOf_append more)
    (Or.imp (statusOf_append more) (statusOf_append more))

theorem mem_ids_of_done
    (hDone : Done (tasksIn queue) id) :
    id ∈ ids queue := by
  rw [ids_eq_map]
  unfold Done statusOf at hDone
  cases hFind : (tasksIn queue).find? (FleetTask.hasId id) with
  | none =>
    rw [hFind] at hDone
    rcases hDone with hNone | hNone <;> cases hNone
  | some t =>
    refine List.mem_map.mpr ⟨t, List.mem_of_find?_eq_some hFind, ?_⟩
    have hHas := List.find?_some hFind
    simpa [FleetTask.hasId] using hHas

/- What is appended is not found where the id is there. -/
theorem Early.of_append
    {more : TaskQueue} (hMem : id ∈ ids queue)
    (hEarly : Early (tasksIn queue ++ more) id) :
    Early (tasksIn queue) id := by
  rw [ids_eq_map] at hMem
  obtain ⟨t, hT, hId⟩ := List.mem_map.mp hMem
  have hSome : ((tasksIn queue).find? (FleetTask.hasId id)).isSome := by
    rw [List.find?_isSome]
    exact ⟨t, hT, by simp [FleetTask.hasId, hId]⟩
  unfold Early statusOf at hEarly ⊢
  rw [List.find?_append, Option.or_of_isSome hSome] at hEarly
  exact hEarly

variable {t : FleetTask}

theorem statusOf_of_not_mem
    (hNot : id ∉ ids queue) (hId : t.id = id) :
    statusOf (tasksIn queue ++ [t]) id = some t.status := by
  rw [ids_eq_map] at hNot
  have hNone : (tasksIn queue).find? (FleetTask.hasId id) = none := by
    rw [List.find?_eq_none]
    intro s hS hHas
    refine hNot (List.mem_map.mpr ⟨s, hS, ?_⟩)
    simpa [FleetTask.hasId] using hHas
  unfold statusOf
  rw [List.find?_append, hNone]
  simp [FleetTask.hasId, hId]

section Updated

variable {id : String}
variable {f : FleetTask → FleetTask}
variable {status : TaskStatus}

variable {tasks : TaskQueue} {id' : String}

/- What is early after an update was so, or is the task. -/
theorem early_updateById
    (hName : ∀ t, (f t).name = t.name) (hStatus : ∀ t, (f t).status = status)
    (hEarly : Early (updateById id f tasks) id') :
    Early tasks id' ∨ id' = id ∧
      (status = .queued ∨ status = .assigned ∨ status = .running) := by
  by_cases hSelf : id' = id
  · refine Or.inr ⟨hSelf, ?_⟩
    rw [hSelf] at hEarly
    unfold Early at hEarly
    rw [statusOf_updateById_self hName hStatus] at hEarly
    cases hOld : statusOf tasks id with
    | none =>
      rw [hOld] at hEarly
      rcases hEarly with hNone | hNone | hNone <;> cases hNone
    | some old =>
      rw [hOld] at hEarly
      exact hEarly.imp Option.some.inj
        (Or.imp Option.some.inj Option.some.inj)
  · unfold Early at hEarly ⊢
    rw [statusOf_updateById_other hName hSelf] at hEarly
    exact Or.inl hEarly

theorem early_updateById_other
    (hName : ∀ t, (f t).name = t.name) (hNe : id' ≠ id)
    (hEarly : Early tasks id') :
    Early (updateById id f tasks) id' := by
  unfold Early at hEarly ⊢
  rw [statusOf_updateById_other hName hNe]
  exact hEarly

/- Who is early stays so when the update is to running. -/
theorem early_updateById_running
    (hName : ∀ t, (f t).name = t.name)
    (hStatus : ∀ t, (f t).status = .running) (hEarly : Early tasks id') :
    Early (updateById id f tasks) id' := by
  by_cases hSelf : id' = id
  · rw [hSelf] at hEarly ⊢
    refine Or.inr (Or.inr ?_)
    rw [statusOf_updateById_self hName hStatus]
    rcases hEarly with hOld | hOld | hOld <;>
      · rw [hOld]
        rfl
  · exact early_updateById_other hName hSelf hEarly

theorem tasksIn_carry_updateById
    (hName : ∀ t, (f t).name = t.name) (id : String)
    (queue : List StoredTask) :
    tasksIn (carry queue (updateById id f (tasksIn queue))) =
      updateById id f (tasksIn queue) := by
  apply tasksIn_carry
  rw [length_eq_of_names (names_updateById hName id _)]
  exact List.length_map _

end Updated

-- What A Cycle Decides

theorem find?_of_mem
    (hDistinct : (tasks.map FleetTask.id).Nodup) (hMem : t ∈ tasks) :
    tasks.find? (FleetTask.hasId t.id) = some t := by
  induction tasks with
  | nil => exact (List.not_mem_nil hMem).elim
  | cons s tasks ih =>
    rw [List.map_cons, List.nodup_cons] at hDistinct
    rcases List.mem_cons.mp hMem with rfl | hLater
    · rw [List.find?_cons_of_pos]
      simp [FleetTask.hasId]
    · rw [List.find?_cons_of_neg]
      · exact ih hDistinct.2 hLater
      · intro hHas
        refine hDistinct.1 (List.mem_map.mpr ⟨t, hLater, ?_⟩)
        rw [FleetTask.hasId, beq_iff_eq] at hHas
        exact hHas.symm

theorem assignBatch_ids
    (tasks : List FleetTask) (capacity : Dict String ℕ) :
    ((assignBatch tasks capacity).map
      DirectorAction.taskId).IsPrefix (tasks.map fun t => some t.id) := by
  induction tasks generalizing capacity with
  | nil => exact List.prefix_refl _
  | cons task rest ih =>
    rw [assignBatch]
    split
    · exact List.nil_prefix
    · rw [List.map_cons, List.map_cons, List.cons_prefix_cons]
      exact ⟨rfl, ih _⟩

theorem mem_queuedByUrgency
    {t : FleetTask} :
    t ∈ queuedByUrgency tasks ↔ t ∈ tasks ∧ t.status = .queued := by
  unfold queuedByUrgency
  rw [List.mem_insertionSort, List.mem_filter, beq_iff_eq]

variable {a : FleetAdmiral} {x : DirectorAction}

theorem mem_batchAssignActions
    {prior : List DirectorAction} (hMem : x ∈ batchAssignActions a prior) :
    ∃ t ∈ a.tasks, t.status = .queued ∧ x.taskId = some t.id := by
  have hIds := (assignBatch_ids (queuedByUrgency a.tasks)
    (vmCapacity a prior)).subset (List.mem_map.mpr ⟨x, hMem, rfl⟩)
  obtain ⟨t, hT, hId⟩ := List.mem_map.mp hIds
  obtain ⟨hIn, hQueued⟩ := mem_queuedByUrgency.mp hT
  exact ⟨t, hIn, hQueued, hId.symm⟩

theorem mem_settling
    (hMem : x ∈ settling a) :
    ∃ t ∈ a.tasks, t.isActive = true ∧ x.taskId = some t.id := by
  have hIds : x.taskId ∈ (settling a).map DirectorAction.taskId :=
    List.mem_map.mpr ⟨x, hMem, rfl⟩
  rw [taskId_settling, List.mem_map] at hIds
  obtain ⟨id, hId, hSame⟩ := hIds
  obtain ⟨t, hT, rfl⟩ := List.mem_map.mp hId
  have hActive : t ∈ activeTasks a.tasks := by
    rcases List.mem_append.mp hT with hDue | hVictim
    · unfold dueTasks at hDue
      obtain ⟨pair, hPair, rfl⟩ := List.mem_map.mp hDue
      exact (mem_dueFrom hPair).1
    · rw [← preemptionPairs_fst] at hVictim
      exact (preemptionPairs_sound a).1.subset hVictim
  unfold activeTasks at hActive
  exact ⟨t, (List.mem_filter.mp hActive).1,
    (List.mem_filter.mp hActive).2, hSame.symm⟩

theorem decided_ready
    (hDistinct : (a.tasks.map FleetTask.id).Nodup) :
    ∀ x ∈ decided a, x.actionType = .startAgent →
      ∀ id, x.taskId = some id → Early a.tasks id := by
  intro x hMem hStart id hId
  unfold decided at hMem
  dsimp only at hMem
  rw [preemptionActions, lifecycleActions_eq] at hMem
  rcases List.mem_append.mp hMem with hPrior | hBatch
  · have hSettles := settles_of_mem_settling hPrior
    rw [DirectorAction.settles, hStart] at hSettles
    cases hSettles
  · obtain ⟨t, hIn, hQueued, hTask⟩ :=
      mem_batchAssignActions hBatch
    rw [hId] at hTask
    cases hTask
    refine Or.inl ?_
    unfold statusOf
    rw [find?_of_mem hDistinct hIn]
    exact congrArg some hQueued

theorem decided_apart
    (hDistinct : (a.tasks.map FleetTask.id).Nodup) :
    (decided a).Pairwise fun x y =>
      y.actionType = .startAgent → x.taskId ≠ y.taskId := by
  have hSame : decided a = settling a ++
      batchAssignActions a (settling a) := by
    unfold decided settling
    dsimp only
    rw [preemptionActions, lifecycleActions_eq]
  rw [hSame, List.pairwise_append]
  refine ⟨?_, ?_, ?_⟩
  · refine List.pairwise_of_forall_mem_list ?_
    intro x _ y hY hStart
    have hSettles := settles_of_mem_settling hY
    rw [DirectorAction.settles, hStart] at hSettles
    cases hSettles
  · have hNodup : ((queuedByUrgency a.tasks).map
        fun t => some t.id).Nodup := by
      have hSorted : ((queuedByUrgency a.tasks).map FleetTask.id).Nodup := by
        unfold queuedByUrgency
        rw [((List.perm_insertionSort _ _).map _).nodup_iff]
        exact hDistinct.sublist (List.filter_sublist.map _)
      have hSome := hSorted.map (Option.some_injective String)
      rw [List.map_map] at hSome
      exact hSome
    have hIds := hNodup.sublist (assignBatch_ids
      (queuedByUrgency a.tasks) (vmCapacity a (settling a))).sublist
    rw [List.Nodup, List.pairwise_map] at hIds
    refine List.Pairwise.imp ?_ hIds
    intro x y hNe _
    exact hNe
  · intro x hX y hY _ hBoth
    obtain ⟨s, hS, hActive, hLeft⟩ := mem_settling hX
    obtain ⟨t, hT, hQueued, hRight⟩ :=
      mem_batchAssignActions hY
    rw [hLeft, hRight] at hBoth
    have hFirst := find?_of_mem hDistinct hS
    rw [Option.some.inj hBoth, find?_of_mem hDistinct hT]
      at hFirst
    cases hFirst
    rw [FleetTask.isActive, hQueued] at hActive
    cases hActive

end Admiral
