import Amplihack.Admiral.Statuses

/-
  When the processes that share the queue lose no update.
-/

-- What Is Promised

namespace Admiral

open Base

/- What the process of a step has put back and not saved. -/
def World.requeuedBy (w : World) : Action → List String
| .run pid op =>
  ((w.processes.get? pid).map fun p =>
    (p.apply op).1.requeued).getD []
| _ => []

/- Tasks added are in the file, and statuses do not go back. -/
def LosesNothing (allowed : World → Action → Prop) : Prop :=
  ∀ file w, Reaches World.step allowed (.initial file) w →
    w.added ⊆ names (tasksOf w.file) ∧
      ∀ action, allowed w action → ∀ id,
        Done (tasksIn (tasksOf w.file)) id →
          Early (tasksIn (tasksOf (w.step action).file)) id →
            id ∈ w.requeuedBy action

/- An entry survives a load that is followed by a save. -/
def KeepsEntries (items : List Json) : Prop :=
  ∀ queue, load (.entries items) = some queue →
    ∀ e ∈ items, Stays (written queue) e

/-
  A file is saved over what the process last loaded or saved,
  and tasks have ids of their own.
-/
def Sound (w : World) : Action → Prop
| .start _ => (ids (tasksOf w.file)).Nodup
| .run pid op =>
  ∀ p, w.processes.get? pid = some p →
    ((p.apply op).2 = true → w.file = p.seen) ∧
      ∀ id ∈ op.newIds, id ∉ ids p.queue
| .finish _ => True

-- A Process That Goes Forward

/-
  Its queue has what it saw, no status is behind that unless
  put back, and what it is about to start is not done.
-/
structure Process.Inv (p : Process) : Prop where
  distinct : (ids p.queue).Nodup
  kept : names (tasksOf p.seen) ⊆ names p.queue
  forward : ∀ id, Done (tasksIn (tasksOf p.seen)) id →
    Early (tasksIn p.queue) id → id ∈ p.requeued
  ready : ∀ a ∈ p.pending, a.actionType = .startAgent →
    ∀ id, a.taskId = some id → Early (tasksIn p.queue) id
  apart : p.pending.Pairwise fun a b =>
    b.actionType = .startAgent → a.taskId ≠ b.taskId
  adopting : ∀ id, p.adopting = some id → Early (tasksIn p.queue) id

theorem opened_inv
    {file : QueueFile} {queue : List StoredTask}
    (hLoad : load file = some queue)
    (hDistinct : (ids (tasksOf file)).Nodup) :
    (Process.opened queue file).Inv := by
  have hSame : tasksOf file = queue := by
    unfold tasksOf
    rw [hLoad]
    rfl
  constructor
  case distinct =>
    rw [hSame] at hDistinct
    exact hDistinct
  case kept =>
    change names (tasksOf file) ⊆ names queue
    rw [hSame]
    exact List.Subset.refl _
  case forward =>
    intro id hDone hEarly
    change Done (tasksIn (tasksOf file)) id at hDone
    rw [hSame] at hDone
    exact absurd hDone (not_done_of_early hEarly)
  case ready => exact fun _ hMem => (List.not_mem_nil hMem).elim
  case apart => exact List.Pairwise.nil
  case adopting => exact fun _ hSome => by cases hSome

variable {p : Process}

/- After a save the file is what the process has. -/
theorem saved_inv
    (hInv : p.Inv) :
    { p with seen := written p.queue, requeued := [] }.Inv where
  distinct := hInv.distinct
  kept := by
    change names (tasksOf (written p.queue)) ⊆ names p.queue
    rw [names_tasksOf_written]
    exact List.Subset.refl _
  forward := by
    intro id hDone hEarly
    refine absurd ?_ (not_done_of_early hEarly)
    unfold Done at hDone ⊢
    rw [statusOf_written] at hDone
    exact hDone
  ready := hInv.ready
  apart := hInv.apart
  adopting := hInv.adopting

theorem addTask_inv
    {id now : String} {request : TaskRequest} (hInv : p.Inv)
    (hNew : id ∉ ids p.queue) (saved : Bool) :
    (p.apply (.addTask id now request saved)).1.Inv := by
  have hTasks : tasksIn (p.queue ++
      [StoredTask.new id now request]) = tasksIn p.queue ++
        [(StoredTask.new id now request).task] := by
    unfold tasksIn
    rw [List.map_append]
    rfl
  constructor
  case distinct =>
    change (ids (p.queue ++ [StoredTask.new id now request])).Nodup
    unfold ids
    rw [List.map_append, List.nodup_append]
    refine ⟨hInv.distinct, List.nodup_singleton _, ?_⟩
    intro a hA b hB
    rw [List.mem_singleton.mp hB]
    rintro rfl
    exact hNew hA
  case kept =>
    intro e hE
    change e ∈ names (p.queue ++ [StoredTask.new id now request])
    unfold names
    rw [List.map_append]
    exact List.mem_append_left _ (hInv.kept hE)
  case forward =>
    intro id' hDone hEarly
    change Early (tasksIn (p.queue ++
      [StoredTask.new id now request])) id' at hEarly
    rw [hTasks] at hEarly
    refine hInv.forward id' hDone (hEarly.of_append ?_)
    have hSeen := mem_ids_of_done hDone
    rw [ids_eq] at hSeen ⊢
    exact List.map_subset _ hInv.kept hSeen
  case ready =>
    intro a hA hStart id' hId
    change Early (tasksIn (p.queue ++ [StoredTask.new id now request])) id'
    rw [hTasks]
    exact (hInv.ready a hA hStart id' hId).append _
  case apart => exact hInv.apart
  case adopting =>
    intro id' hSome
    change (if saved then some id else none) = some id' at hSome
    change Early (tasksIn (p.queue ++ [StoredTask.new id now request])) id'
    rw [hTasks]
    split at hSome
    · cases hSome
      exact Or.inl (statusOf_of_not_mem hNew rfl)
    · cases hSome

section Updated

variable {p : Process}
variable {id : String}
variable {f : FleetTask → FleetTask}
variable {status : TaskStatus}

/-
  An update to a running state of what is not done, to a final
  state, or to the queue when that is noted.
-/
theorem update_inv
    {rest : List DirectorAction} {requeued : List String}
    (hInv : p.Inv) (hName : ∀ t, (f t).name = t.name)
    (hStatus : ∀ t, (f t).status = status)
    (hCause : Early (tasksIn p.queue) id ∨
      status = .completed ∨ status = .failed ∨ id ∈ requeued)
    (hGrows : p.requeued ⊆ requeued)
    (hReady : ∀ a ∈ rest, a.actionType = .startAgent →
      ∀ id', a.taskId = some id' →
        Early (updateById id f (tasksIn p.queue)) id')
    (hApart : rest.Pairwise fun a b =>
      b.actionType = .startAgent → a.taskId ≠ b.taskId) :
    { p with
      queue := carry p.queue (updateById id f (tasksIn p.queue))
      pending := rest
      adopting := none
      requeued := requeued }.Inv := by
  have hTasks := tasksIn_carry_updateById hName id p.queue
  have hNames : names (carry p.queue
      (updateById id f (tasksIn p.queue))) = names p.queue := by
    rw [names_eq, hTasks, names_updateById hName, names_eq]
  constructor
  case distinct =>
    change (ids (carry p.queue (updateById id f (tasksIn p.queue)))).Nodup
    rw [ids_eq, hNames, ← ids_eq]
    exact hInv.distinct
  case kept =>
    change names (tasksOf p.seen) ⊆ names (carry p.queue
      (updateById id f (tasksIn p.queue)))
    rw [hNames]
    exact hInv.kept
  case forward =>
    intro id' hDone hEarly
    change Early (tasksIn (carry p.queue
      (updateById id f (tasksIn p.queue)))) id' at hEarly
    change id' ∈ requeued
    rw [hTasks] at hEarly
    rcases early_updateById hName hStatus hEarly with
      hOld | ⟨rfl, hState⟩
    · exact hGrows (hInv.forward id' hDone hOld)
    · rcases hCause with hOld | hEnd | hEnd | hNoted
      · exact hGrows (hInv.forward id' hDone hOld)
      · rw [hEnd] at hState
        rcases hState with hState | hState | hState <;>
          cases hState
      · rw [hEnd] at hState
        rcases hState with hState | hState | hState <;>
          cases hState
      · exact hNoted
  case ready =>
    intro a hA hStart id' hId
    change Early (tasksIn (carry p.queue
      (updateById id f (tasksIn p.queue)))) id'
    rw [hTasks]
    exact hReady a hA hStart id' hId
  case apart => exact hApart
  case adopting => exact fun _ hSome => by cases hSome

theorem adopt_inv
    {now vmName sessionName : String} {saved : Bool} (hInv : p.Inv) :
    (p.apply (.adopt now vmName sessionName saved)).1.Inv := by
  unfold Process.apply
  dsimp only
  split
  next => exact hInv
  next id hAdopting =>
    have hEarly := hInv.adopting id hAdopting
    refine update_inv hInv (fun _ => rfl) (fun _ => rfl)
      (Or.inl hEarly) (List.Subset.refl _) ?_ hInv.apart
    intro a hA hStart id' hId
    exact early_updateById_running (fun _ => rfl)
      (fun _ => rfl) (hInv.ready a hA hStart id' hId)

theorem cycle_inv
    {fleet : FleetState} {maxAgentsPerVm : ℕ}
    {ans : ReasonAnswers} (hInv : p.Inv) :
    (p.apply (.cycle fleet maxAgentsPerVm ans)).1.Inv := by
  have hDistinct : ((tasksIn p.queue).map FleetTask.id).Nodup := by
    rw [← ids_eq_map]
    exact hInv.distinct
  unfold Process.apply
  dsimp only
  cases hDecided : (reason ans
      { tasks := tasksIn p.queue
        fleet := fleet
        maxAgentsPerVm := maxAgentsPerVm
        missingSessionCounts := p.missing }).2 with
  | none =>
    exact
      { distinct := hInv.distinct
        kept := hInv.kept
        forward := hInv.forward
        ready := fun _ hMem => (List.not_mem_nil hMem).elim
        apart := List.Pairwise.nil
        adopting := fun _ hSome => by cases hSome }
  | some actions =>
    obtain ⟨-, -, rfl⟩ := reason_eq_some_iff.mp hDecided
    exact
      { distinct := hInv.distinct
        kept := hInv.kept
        forward := hInv.forward
        ready := decided_ready hDistinct
        apart := decided_apart hDistinct
        adopting := fun _ hSome => by cases hSome }

theorem act_inv
    {ans : StepAnswers} (hInv : p.Inv) :
    (p.apply (.act ans)).1.Inv := by
  unfold Process.apply
  dsimp only
  split
  next => exact hInv
  next action rest hPending =>
    have hHead : action ∈ p.pending := by
      rw [hPending]
      exact List.mem_cons_self
    have hApart := hInv.apart
    rw [hPending, List.pairwise_cons] at hApart
    -- a log that fails leaves nothing pending
    have hRest : ∀ b ∈ (if ans.logged then rest else []), b ∈ rest := by
      intro b hB
      split at hB
      · exact hB
      · exact (List.not_mem_nil hB).elim
    have hRestApart : (if ans.logged then rest else []).Pairwise
        fun a b => b.actionType = .startAgent → a.taskId ≠ b.taskId := by
      split
      · exact hApart.2
      · exact List.Pairwise.nil
    have hLater : ∀ b ∈ rest, b ∈ p.pending := by
      intro b hB
      rw [hPending]
      exact List.mem_cons_of_mem _ hB
    rcases executeAction_changes ans action (tasksIn p.queue) with
      hSame | ⟨id, f, status, hId, hSame, hName, hStatus, hCause⟩
    · rw [hSame, carry_tasksIn]
      exact
        { distinct := hInv.distinct
          kept := hInv.kept
          forward := fun id' hDone hEarly =>
            List.mem_append_right _ (hInv.forward id' hDone hEarly)
          ready := fun b hB =>
            hInv.ready b (hLater b (hRest b hB))
          apart := hRestApart
          adopting := fun _ hSome => by cases hSome }
    · rw [hSame]
      refine update_inv hInv hName hStatus ?_
        (List.subset_append_right _ _) ?_ hRestApart
      · rcases hCause with ⟨-, hStart⟩ | hEnd | hEnd | hNoted
        · exact Or.inl (hInv.ready action hHead hStart id hId)
        · exact Or.inr (Or.inl hEnd)
        · exact Or.inr (Or.inr (Or.inl hEnd))
        · refine Or.inr (Or.inr (Or.inr ?_))
          rw [hNoted]
          exact List.mem_cons_self
      · intro b hB hStart id' hId'
        refine early_updateById_other hName ?_
          (hInv.ready b (hLater b (hRest b hB)) hStart id' hId')
        have hNe := hApart.1 b (hRest b hB) hStart
        rw [hId, hId'] at hNe
        exact fun hEq => hNe (congrArg some hEq.symm)

end Updated

variable {op : Operation}

theorem apply_inv
    (hInv : p.Inv) (hNew : ∀ id ∈ op.newIds, id ∉ ids p.queue) :
    (p.apply op).1.Inv := by
  cases op with
  | addTask id now request saved =>
    exact addTask_inv hInv (hNew id List.mem_cons_self) saved
  | adopt now vmName sessionName saved => exact adopt_inv hInv
  | cycle fleet maxAgentsPerVm ans => exact cycle_inv hInv
  | act ans => exact act_inv hInv

-- Worlds Where Nothing Is Lost

structure World.Inv (w : World) : Prop where
  processes : ∀ pid p, w.processes.get? pid = some p → p.Inv
  added : w.added ⊆ names (tasksOf w.file)

theorem World.inv_initial (file : QueueFile) :
    (World.initial file).Inv where
  processes := by
    intro pid p hGet
    change Dict.empty.get? pid = some p at hGet
    rw [Dict.get?_empty] at hGet
    cases hGet
  added := List.nil_subset _

variable {w : World} {pid : ℕ}

theorem inv_insert
    (hInv : w.Inv) (hP : p.Inv) :
    ∀ pid' q, (w.processes.insert pid p).get? pid' = some q →
      q.Inv := by
  intro pid' q hGet
  rw [Dict.get?_insert] at hGet
  split at hGet
  · cases hGet
    exact hP
  · exact hInv.processes pid' q hGet

/- A save of what was seen has the file's tasks, and more. -/
theorem file_of_save
    (pid : ℕ) {saved : Bool} (hP : p.Inv)
    (hSeen : saved = true → w.file = p.seen) :
    names (tasksOf w.file) ⊆ names (tasksOf (w.save pid p saved).file) ∧
      ∀ id, Done (tasksIn (tasksOf w.file)) id →
        Early (tasksIn (tasksOf (w.save pid p saved).file)) id →
          id ∈ p.requeued := by
  unfold World.save
  split
  next hSaved =>
    dsimp only
    rw [names_tasksOf_written, hSeen hSaved]
    refine ⟨hP.kept, ?_⟩
    intro id hDone hEarly
    refine hP.forward id hDone ?_
    unfold Early at hEarly ⊢
    rw [statusOf_written] at hEarly
    exact hEarly
  next =>
    refine ⟨List.Subset.refl _, ?_⟩
    intro id hDone hEarly
    exact absurd hDone (not_done_of_early hEarly)

/- Only a save changes what a process has seen. -/
theorem seen_apply (p : Process) (op : Operation) :
    (p.apply op).1.seen = p.seen := by
  cases op with
  | addTask => rfl
  | adopt =>
    unfold Process.apply
    dsimp only
    split
    · rfl
    · rfl
  | cycle => rfl
  | act =>
    unfold Process.apply
    dsimp only
    split
    · rfl
    · rfl

theorem saves_over_seen
    (hSound : Sound w (.run pid op)) (hGet : w.processes.get? pid = some p)
    (hSaved : (p.apply op).2 = true) :
    w.file = (p.apply op).1.seen := by
  rw [seen_apply]
  exact (hSound p hGet).1 hSaved

/- A task that was added is among those saved with it. -/
theorem added_of_apply
    (p : Process) (op : Operation) :
    op.added ⊆ names (p.apply op).1.queue ∧
      (op.added ≠ [] → (p.apply op).2 = true) := by
  cases op with
  | addTask id now request saved =>
    cases saved with
    | false => exact ⟨List.nil_subset _, fun hNe => absurd rfl hNe⟩
    | true =>
      refine ⟨?_, fun _ => rfl⟩
      intro e hE
      rw [List.mem_singleton.mp hE]
      unfold names Process.apply
      rw [List.map_append]
      exact List.mem_append_right _ List.mem_cons_self
  | adopt => exact ⟨List.nil_subset _, fun hNe => absurd rfl hNe⟩
  | cycle => exact ⟨List.nil_subset _, fun hNe => absurd rfl hNe⟩
  | act => exact ⟨List.nil_subset _, fun hNe => absurd rfl hNe⟩

variable {action : Action}

theorem step_inv
    (hInv : w.Inv) (hSound : Sound w action) :
    (w.step action).Inv := by
  cases action with
  | start pid =>
    unfold World.step
    dsimp only
    split
    next => exact hInv
    next queue hLoad =>
      exact
        { processes := inv_insert hInv
            (opened_inv hLoad hSound)
          added := hInv.added }
  | run pid op =>
    unfold World.step
    dsimp only
    split
    next => exact hInv
    next p hGet =>
      have hApplied := apply_inv (hInv.processes pid p hGet) (hSound p hGet).2
      obtain ⟨hKept, -⟩ := file_of_save pid hApplied
        (saves_over_seen hSound hGet)
      constructor
      case processes =>
        unfold World.save
        split
        · exact inv_insert hInv (saved_inv hApplied)
        · exact inv_insert hInv hApplied
      case added =>
        intro e hE
        rcases List.mem_append.mp hE with hNew | hOld
        · have hAdded := added_of_apply p op
          have hSaved := hAdded.2 (List.ne_nil_of_mem hNew)
          change e ∈ names (tasksOf (w.save pid _ _).file)
          unfold World.save
          rw [if_pos hSaved]
          dsimp only
          rw [names_tasksOf_written]
          exact hAdded.1 hNew
        · exact hKept (hInv.added hOld)
  | finish pid =>
    refine ⟨?_, hInv.added⟩
    intro pid' q hGet
    change (w.processes.remove pid).get? pid' = some q at hGet
    rw [Dict.get?_remove] at hGet
    split at hGet
    · cases hGet
    · exact hInv.processes pid' q hGet

theorem step_forward
    (hInv : w.Inv) (hSound : Sound w action) {id : String}
    (hDone : Done (tasksIn (tasksOf w.file)) id)
    (hEarly : Early (tasksIn (tasksOf (w.step action).file)) id) :
    id ∈ w.requeuedBy action := by
  cases action with
  | start pid =>
    unfold World.step at hEarly
    dsimp only at hEarly
    split at hEarly
    · exact absurd hDone (not_done_of_early hEarly)
    · exact absurd hDone (not_done_of_early hEarly)
  | run pid op =>
    unfold World.step at hEarly
    unfold World.requeuedBy
    dsimp only at hEarly ⊢
    split at hEarly
    next => exact absurd hDone (not_done_of_early hEarly)
    next p hGet =>
      rw [hGet]
      have hApplied := apply_inv (hInv.processes pid p hGet) (hSound p hGet).2
      exact (file_of_save pid hApplied
        (saves_over_seen hSound hGet)).2 id hDone hEarly
  | finish pid => exact absurd hDone (not_done_of_early hEarly)

/-
  Where saves go over what was seen and ids are told apart, no
  task is lost and no status goes back; and a load and a save
  keep the entries that read as tasks.
-/
theorem loses_nothing_of_sound (items : List Json) :
    LosesNothing Sound ∧
      (KeepsEntries items ↔ ∀ e ∈ items, (fromJsonValue e).isSome) := by
  constructor
  · intro file w hReaches
    have hInv := hReaches.invariant World.Inv
      (fun v action hV hSound => step_inv hV hSound)
      (World.inv_initial file)
    refine ⟨hInv.added, ?_⟩
    intro action hSound id hDone hEarly
    exact step_forward hInv hSound hDone hEarly
  · have hLoad : load (.entries items) =
        some (items.filterMap fromJsonValue) := rfl
    rw [← keeps_iff_readable hLoad]
    constructor
    · intro hKeeps
      exact hKeeps _ hLoad
    · intro hStays queue hQueue
      rw [hLoad] at hQueue
      cases hQueue
      exact hStays

-- A Task That Is Lost

def plainRequest : TaskRequest where
  prompt := "Fix it"
  repoUrl := ""
  priority := .medium
  agentCommand := "claude"
  agentMode := "auto"
  maxTurns := 20

/-
  The admiral loads, a command adds a task, and the admiral
  saves its own queue over that.
-/
theorem task_added_meanwhile_is_lost :
    ¬(LosesNothing (fun _ _ => True) ∧ ∀ items, KeepsEntries items) := by
  rintro ⟨hAll, -⟩
  have hRun := hAll .absent _ (Reaches.foldl
    [.start 1, .start 2,
      .run 2 (.addTask "t1" "2026-01-01" plainRequest true),
      .run 1 (.cycle ⟨[], []⟩ 3 ⟨true, true⟩)]
    (fun _ _ _ => trivial) _)
  have hAdded : ("t1", "Fix it") ∈
      (([] : List (String × String))) := hRun.1 (by
    decide +kernel)
  exact List.not_mem_nil hAdded

end Admiral
