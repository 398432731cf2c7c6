import Amplihack.Governor.Cap
import Amplihack.Governor.Saved

/-
  The governor's files stay valid under rounds, releases and
  removals of waiting entries, by any processes in any order.

  A round may record a reading that was observed far ahead of
  the clock, or whose profile has a long name, and a waiting
  entry may take a seq that saturated. `Sound` excludes both.
-/

-- Files that load

namespace Governor

open Base

namespace Disk

/- Every file that there is passes its checks. -/
structure Passes (now : ℤ) (disk : Disk) : Prop where
  history : ∀ h ∈ disk.history, h.validate now = .ok ()
  queue : ∀ q ∈ disk.queue, q.validate now = .ok ()
  state : ∀ s ∈ disk.state, s.validate now = .ok ()

/- The text of every file is short enough to be loaded. -/
structure Fits (sizes : Sizes) (disk : Disk) : Prop where
  history : ∀ h ∈ disk.history, sizes.history h ≤ maxFile
  queue : ∀ q ∈ disk.queue, sizes.queue q ≤ maxFile
  state : ∀ s ∈ disk.state, sizes.state s ≤ maxFile

end Disk

variable {render : Render}
variable {sizes : Sizes}
variable {now later : ℤ}
variable {disk : Disk}

theorem Disk.Passes.mono
    (hLater : now ≤ later) (hPasses : disk.Passes now) :
    disk.Passes later where
  history := fun h hMem =>
    History.validate_ok_iff.2
      ((History.validate_ok_iff.1 (hPasses.history h hMem)).mono hLater)
  queue := fun q hMem =>
    Queue.validate_ok_iff.2
      ((Queue.validate_ok_iff.1 (hPasses.queue q hMem)).mono hLater)
  state := fun s hMem =>
    State.validate_ok_iff.2
      ((State.validate_ok_iff.1 (hPasses.state s hMem)).mono hLater)

section Loads

variable {α : Type}
variable {default_ v : α}
variable {size : α → ℕ}
variable {validate : α → Except String Unit}
variable {file : Option α}

/- A load succeeds on a short file that passes its checks. -/
theorem load_isOk_iff :
    (∃ v, load default_ size validate file = .ok v) ↔
      ∀ v ∈ file, validate v = .ok () ∧ size v ≤ maxFile := by
  cases file with
  | none => simp [load]
  | some w =>
    unfold load
    by_cases hLarge : maxFile < size w
    · simp [hLarge]
    · cases hValid : validate w with
      | error why => simp [hLarge, hValid]
      | ok u => simp [hLarge, hValid, not_lt.1 hLarge]

/- What a load finds passes the checks, or is the default. -/
theorem load_ok_valid
    {Valid : α → Prop} (hChecks : ∀ v, validate v = .ok () → Valid v)
    (hDefault : Valid default_)
    (hLoad : load default_ size validate file = .ok v) :
    Valid v := by
  cases file with
  | none =>
    injection hLoad with hSame
    rw [← hSame]
    exact hDefault
  | some w =>
    have hOk := load_isOk_iff.1 ⟨v, hLoad⟩ w rfl
    have hSame : w = v := load_ok hLoad
    rw [← hSame]
    exact hChecks w hOk.1

theorem load_valid
    {Valid : α → Prop} (hChecks : ∀ v, validate v = .ok () → Valid v)
    (hDefault : Valid default_) :
    Valid ((load default_ size validate file).toOption.getD default_) := by
  cases hLoad : load default_ size validate file with
  | error why => exact hDefault
  | ok v => exact load_ok_valid hChecks hDefault hLoad

end Loads

/- A load at `now` quarantines no file. -/
theorem no_fault_iff :
    (loadAll sizes now disk).2 = none ↔
      disk.Passes now ∧ disk.Fits sizes := by
  constructor
  · intro hFault
    rcases load_of_no_fault hFault with ⟨hHistory, hQueue, hState⟩
    rw [load_isOk_iff] at hHistory hQueue hState
    exact
      ⟨⟨fun h hMem => (hHistory h hMem).1, fun q hMem => (hQueue q hMem).1,
        fun s hMem => (hState s hMem).1⟩,
      ⟨fun h hMem => (hHistory h hMem).2, fun q hMem => (hQueue q hMem).2,
        fun s hMem => (hState s hMem).2⟩⟩
  · rintro ⟨hPasses, hFits⟩
    rcases load_isOk_iff.2 fun h hMem =>
        ⟨hPasses.history h hMem, hFits.history h hMem⟩ with
      ⟨h, hHistory⟩
    rcases load_isOk_iff.2 fun q hMem =>
        ⟨hPasses.queue q hMem, hFits.queue q hMem⟩ with
      ⟨q, hQueue⟩
    rcases load_isOk_iff.2 fun s hMem =>
        ⟨hPasses.state s hMem, hFits.state s hMem⟩ with
      ⟨s, hState⟩
    unfold loadAll
    rw [hHistory, hQueue, hState]

/- A round starts from valid files, whatever is on the disk. -/
theorem loadAll_valid
    (sizes : Sizes) (now : ℤ) (disk : Disk) :
    (loadAll sizes now disk).1.Valid now where
  history := load_valid (fun _ => History.validate_ok_iff.1)
    (History.valid_default now)
  queue := load_valid (fun _ => Queue.validate_ok_iff.1)
    (Queue.valid_default now)
  state := load_valid (fun _ => State.validate_ok_iff.1)
    (State.valid_default now)

/- A fault's message is cut to the length a load accepts. -/
theorem loadAll_message
    {fault : FailOpen} (hFault : (loadAll sizes now disk).2 = some fault) :
    fault.message.utf8ByteSize ≤ 512 := by
  unfold loadAll at hFault
  dsimp only at hFault
  split at hFault
  next =>
    rw [← Option.some.inj hFault]
    exact FailOpen.message_new_le _ _
  next =>
    rw [← Option.some.inj hFault]
    exact FailOpen.message_new_le _ _
  next =>
    rw [← Option.some.inj hFault]
    exact FailOpen.message_new_le _ _
  next => cases hFault

-- Sound events

namespace Attempt

/- The files of a round before it decides. -/
def prepared
    (sizes : Sizes) (disk : Disk) (attempt : Attempt) :
    Files :=
  prepare attempt.host (max attempt.ctx.settings.maxConcurrency 1)
    (loadAll sizes attempt.host.now disk).1

def recorded
    (sizes : Sizes) (disk : Disk) (attempt : Attempt) :
    Files :=
  { attempt.prepared sizes disk with
    history := recordSamples
      (attempt.prepared sizes disk).history
      attempt.host.snapshots }

/- A top-level start without a ticket that has to wait. -/
structure Queues
    (render : Render) (sizes : Sizes) (disk : Disk) (attempt : Attempt) :
    Prop where
  loads : (loadAll sizes attempt.host.now disk).2 = none
  top :
    parentOf attempt.host attempt.ctx
      (attempt.prepared sizes disk).state.slots = none
  ticket :
    checkTicket attempt.host
      (attempt.prepared sizes disk).queue attempt.ticket = none
  room : (attempt.prepared sizes disk).queue.entries.length < governorQueueCap
  waits :
    (Governor.decide render
      (inputsOf attempt.host attempt.ctx attempt.deadline none
        (attempt.recorded sizes disk) none)
      attempt.host.now).kind = .wait
  early : attempt.host.now < attempt.deadline

/-
  The readings that are saved are in range, and a new waiting
  entry finds no live one with the greatest seq.
-/
structure Sound
    (render : Render) (sizes : Sizes) (disk : Disk) (attempt : Attempt) :
    Prop where
  readings :
    1 ≤ attempt.written → ∀ s ∈ attempt.host.snapshots,
      InRange attempt.host.now s
  seqs :
    2 ≤ attempt.written → attempt.Queues render sizes disk →
      ∀ e ∈ (attempt.prepared sizes disk).queue.entries, e.seq < u64Max

end Attempt

/- The clock does not go back, and the files are not too large. -/
def Sound
    (render : Render) (sizes : Sizes) (sys : System) (event : Event) :
    Prop :=
  sys.clock ≤ event.now ∧ sys.disk.Fits sizes ∧
    ∀ attempt, event = .round attempt → attempt.Sound render sizes sys.disk

-- One round

variable {attempt : Attempt}

/- A round whose files load records the readings, and decides. -/
theorem Attempt.run_eq
    (hFault : (loadAll sizes attempt.host.now disk).2 = none) :
    attempt.run render sizes disk =
      let parent := parentOf attempt.host attempt.ctx
        (attempt.prepared sizes disk).state.slots
      let ticket := checkTicket attempt.host
        (attempt.prepared sizes disk).queue attempt.ticket
      let files := attempt.recorded sizes disk
      if parent.isNone && ticket.isNone &&
          governorQueueCap ≤ files.queue.entries.length then
        failOpenRound attempt.host.now (queueFull files) files ticket
      else
        let d := Governor.decide render
          (inputsOf attempt.host attempt.ctx attempt.deadline
            parent files ticket) attempt.host.now
        settleRound attempt.host attempt.ctx
          (treeIdFor attempt.ctx attempt.nanos attempt.host.pid)
          attempt.deadline parent d
          { files with
            state := storeLimit attempt.host.now d files.state }
          ticket := by
  unfold Attempt.run round roundLoaded
  dsimp only
  rw [hFault]
  rfl

theorem prepared_valid
    (sizes : Sizes) (disk : Disk) (attempt : Attempt) :
    (attempt.prepared sizes disk).Valid attempt.host.now :=
  prepare_valid attempt.host _ (loadAll_valid sizes _ disk)

theorem recorded_history_valid
    (sizes : Sizes) (disk : Disk)
    (hReadings : ∀ s ∈ attempt.host.snapshots, InRange attempt.host.now s) :
    (attempt.recorded sizes disk).history.Valid
      attempt.host.now :=
  recordSamples_valid (prepared_valid sizes disk attempt).history hReadings

theorem prepare_nextSeq
    (host : Host) (max_ : ℕ) (files : Files) :
    (prepare host max_ files).state.nextSeq =
      repairedSeq files.state.nextSeq files.queue.entries := by
  dsimp only [prepare, reclaim, repair]
  split <;> rfl

variable {host : Host} {files : Files}

/- Below the greatest seq, the repaired seq is past all. -/
theorem seq_lt_nextSeq
    {max_ : ℕ} {e : QueueEntry}
    (hMem : e ∈ (prepare host max_ files).queue.entries)
    (hSeq : e.seq < u64Max) :
    e.seq < (prepare host max_ files).state.nextSeq := by
  rw [prepare_nextSeq]
  have hLoaded : e ∈ files.queue.entries := List.mem_of_mem_filter hMem
  have hPast :
      addUpTo u64Max e.seq 1 ≤
        repairedSeq files.state.nextSeq files.queue.entries :=
    addUpTo_le_repairedSeq hLoaded
  unfold addUpTo at hPast
  omega

/- Settling a decision touches neither history nor limit. -/
theorem settleRound_keeps
    {ctx : AdmitContext} {treeId : String} {deadline : ℤ}
    {parent : Option ℕ} {d : Decision} {ticket : Option ℕ} :
    (settleRound host ctx treeId deadline parent d files
        ticket).files.history = files.history ∧
      (settleRound host ctx treeId deadline parent d files
        ticket).files.state.limit = files.state.limit := by
  unfold settleRound admitRound
  cases d.kind with
  | allow =>
    dsimp only
    split <;> exact ⟨rfl, rfl⟩
  | deny => exact ⟨rfl, rfl⟩
  | wait =>
    dsimp only
    repeat' split
    all_goals exact ⟨rfl, rfl⟩

@[simp]
theorem storeLimit_nextSeq (now : ℤ) (d : Decision) (s : State) :
    (storeLimit now d s).nextSeq = s.nextSeq := by
  unfold storeLimit
  split <;> rfl

theorem limitAfter_le (i : Inputs) (now : ℤ) :
    (Governor.decide render i now).limitAfter ≤
      governorLimitCap := by
  have hLimit : (Governor.decide render i now).limitAfter = limitFor i now :=
    decide_limitAfter.1
  rw [hLimit]
  exact (limitFor_range i now).2.trans i.settings.concurrency_range.2

theorem storeLimit_range
    {i : Inputs} {state : State}
    (hRange : 1 ≤ state.limit ∧ state.limit ≤ governorLimitCap) :
    1 ≤ (storeLimit now (Governor.decide render i now) state).limit ∧
      (storeLimit now (Governor.decide render i now)
        state).limit ≤ governorLimitCap := by
  have hLimit : (Governor.decide render i now).limitAfter = limitFor i now :=
    decide_limitAfter.1
  unfold storeLimit
  split
  · refine ⟨?_, limitAfter_le i now⟩
    dsimp only
    rw [hLimit]
    exact (limitFor_range i now).1
  · exact hRange

/- A round leaves a limit that is set and in range. -/
theorem run_limit
    (render : Render) (sizes : Sizes) (disk : Disk) (attempt : Attempt) :
    1 ≤ (attempt.run render sizes disk).files.state.limit ∧
      (attempt.run render sizes disk).files.state.limit ≤
        governorLimitCap := by
  have hMax : 1 ≤ max attempt.ctx.settings.maxConcurrency 1 :=
    le_max_right _ _
  have hCap : max attempt.ctx.settings.maxConcurrency 1 ≤
      governorLimitCap :=
    max_le attempt.ctx.settings.concurrency_range.2 (by decide)
  have hPrepared := prepare_limit hMax attempt.host
    (loadAll sizes attempt.host.now disk).1
  have hRange := And.intro hPrepared.1 (hPrepared.2.trans hCap)
  cases hFault : (loadAll sizes attempt.host.now disk).2 with
  | some fault =>
    unfold Attempt.run round roundLoaded
    dsimp only
    rw [hFault]
    exact hRange
  | none =>
    rw [Attempt.run_eq hFault]
    dsimp only
    split
    · exact hRange
    · rw [settleRound_keeps.2]
      exact storeLimit_range hRange

/- The history that a round saves is valid. -/
theorem run_history_valid
    (render : Render) (sizes : Sizes) (disk : Disk)
    (hReadings : ∀ s ∈ attempt.host.snapshots, InRange attempt.host.now s) :
    (attempt.run render sizes disk).files.history.Valid
      attempt.host.now := by
  cases hFault : (loadAll sizes attempt.host.now disk).2 with
  | some fault =>
    unfold Attempt.run round roundLoaded
    dsimp only
    rw [hFault]
    exact (prepared_valid sizes disk attempt).history
  | none =>
    have hRecorded := recorded_history_valid sizes disk hReadings
    rw [Attempt.run_eq hFault]
    dsimp only
    split
    · exact hRecorded
    · rw [settleRound_keeps.1]
      exact hRecorded

/- Every file that a round saves is valid. -/
theorem run_valid
    (hReadings : ∀ s ∈ attempt.host.snapshots, InRange attempt.host.now s)
    (hSeqs : attempt.Queues render sizes disk →
      ∀ e ∈ (attempt.prepared sizes disk).queue.entries, e.seq < u64Max) :
    (attempt.run render sizes disk).files.Valid
      attempt.host.now := by
  have hNow : timeOk attempt.host.now attempt.host.now = true :=
    timeOk_self attempt.host.now_range
  have hPrepared := prepared_valid sizes disk attempt
  cases hFault : (loadAll sizes attempt.host.now disk).2 with
  | some fault =>
    unfold Attempt.run round roundLoaded
    dsimp only
    rw [hFault]
    exact failOpenRound_valid hNow (loadAll_message hFault)
      { hPrepared with
        queue := takeTicket_valid _ hPrepared.queue }
  | none =>
    have hRecorded : (attempt.recorded sizes disk).Valid
        attempt.host.now :=
      { hPrepared with
        history :=
          recorded_history_valid sizes disk hReadings }
    rw [Attempt.run_eq hFault]
    dsimp only
    split
    next =>
      exact failOpenRound_valid hNow (FailOpen.message_new_le _ _) hRecorded
    next hNotFull =>
      apply settleRound_valid
      · exact treeIdOk_treeIdFor _ _ _
      · exact hNow
      · intro hTop hTicket hWait hEarly e hMem hSame
        rw [hTop, hTicket] at hNotFull hWait
        have hRoom :
            (attempt.recorded sizes disk).queue.entries.length <
              governorQueueCap := by simpa using hNotFull
        have hQueues : attempt.Queues render sizes disk :=
          { loads := hFault
            top := hTop
            ticket := hTicket
            room := hRoom
            waits := hWait
            early := hEarly }
        have hBelow := seq_lt_nextSeq hMem (hSeqs hQueues e hMem)
        rw [hSame] at hBelow
        dsimp only at hBelow
        rw [storeLimit_nextSeq] at hBelow
        exact lt_irrefl _ hBelow
      · exact
          { hRecorded with
            state := storeLimit_valid (limitAfter_le _ _)
              hNow hRecorded.state }

-- Releases and waiting entries

/- A release rewrites the state that is there, or nothing. -/
theorem release_cases
    (now : ℤ) (guard : Guard) (saved : Bool)
    (hPasses : disk.Passes now) (hFits : disk.Fits sizes) :
    release sizes now guard saved disk = disk ∨
      (disk.state.getD .default).Valid now ∧
        release sizes now guard saved disk =
          { disk with
            state := some (releaseHeld guard
              (disk.state.getD .default)) } := by
  have hLoads := (load_of_no_fault (no_fault_iff.2 ⟨hPasses, hFits⟩)).2.2
  rcases hLoads with ⟨s, hLoad⟩
  have hValid : s.Valid now :=
    load_ok_valid (fun _ => State.validate_ok_iff.1)
      (State.valid_default now) hLoad
  rw [load_ok hLoad]
  unfold release
  rw [hLoad]
  cases guard with
  | inert code => exact .inl rfl
  | slot _ _ _ | nested _ _ =>
    cases saved with
    | false => exact .inl rfl
    | true => exact .inr ⟨hValid, rfl⟩

theorem dropTicket_cases
    (now : ℤ) (ticket : Option ℕ) (saved : Bool)
    (hPasses : disk.Passes now) (hFits : disk.Fits sizes) :
    dropTicket sizes now ticket saved disk = disk ∨
      ∃ q, q.Valid now ∧
        dropTicket sizes now ticket saved disk =
          { disk with queue := some (takeTicket q ticket) } := by
  have hLoads := (load_of_no_fault (no_fault_iff.2 ⟨hPasses, hFits⟩)).2.1
  rcases hLoads with ⟨q, hLoad⟩
  have hValid : q.Valid now :=
    load_ok_valid (fun _ => Queue.validate_ok_iff.1)
      (Queue.valid_default now) hLoad
  unfold dropTicket
  rw [hLoad]
  split
  · exact .inl rfl
  · cases saved with
    | false => exact .inl rfl
    | true => exact .inr ⟨q, hValid, rfl⟩

theorem releaseHeld_limit (guard : Guard) (s : State) :
    (releaseHeld guard s).limit = s.limit := by
  cases guard <;> rfl

-- One event

/- A save keeps the checks, as far as it came. -/
theorem save_passes
    {written : ℕ} (hPasses : disk.Passes now)
    (hHistory : 1 ≤ written → files.history.Valid now)
    (hFiles : 2 ≤ written → files.Valid now) :
    (disk.save files written).Passes now where
  history := by
    intro h hMem
    unfold Disk.save at hMem
    split at hMem
    next hWritten =>
      rw [← Option.some.inj hMem]
      exact History.validate_ok_iff.2 (hHistory hWritten)
    next => exact hPasses.history h hMem
  queue := by
    intro q hMem
    unfold Disk.save at hMem
    dsimp only at hMem
    split at hMem
    next hWritten =>
      rw [← Option.some.inj hMem]
      exact Queue.validate_ok_iff.2 (hFiles hWritten).queue
    next => exact hPasses.queue q hMem
  state := by
    intro s hMem
    unfold Disk.save at hMem
    dsimp only at hMem
    split at hMem
    next hWritten =>
      rw [← Option.some.inj hMem]
      exact State.validate_ok_iff.2 (hFiles (by omega)).state
    next => exact hPasses.state s hMem

variable {sys : System} {event : Event}

theorem step_passes
    (hPasses : sys.disk.Passes sys.clock)
    (hSound : Sound render sizes sys event) :
    (step render sizes sys event).disk.Passes
      (step render sizes sys event).clock := by
  rcases hSound with ⟨hLater, hFits, hRound⟩
  have hNow : sys.disk.Passes event.now := hPasses.mono hLater
  cases event with
  | round attempt =>
    have hAttempt := hRound attempt rfl
    have hKept : sys.disk.kept sizes attempt.host.now =
        sys.disk := (loadAll_of_no_fault (no_fault_iff.2 ⟨hNow, hFits⟩)).2
    dsimp only [step]
    rw [hKept]
    apply save_passes hNow
    · intro hWritten
      exact run_history_valid render sizes sys.disk
        (hAttempt.readings hWritten)
    · intro hWritten
      exact run_valid (hAttempt.readings (by omega)) (hAttempt.seqs hWritten)
  | release now guard saved =>
    dsimp only [step]
    rcases release_cases now guard saved hNow hFits with
      hSame | ⟨hValid, hSaved⟩
    · rw [hSame]
      exact hNow
    · rw [hSaved]
      exact
        { hNow with
          state := fun s hMem => by
            rw [← Option.some.inj hMem]
            exact State.validate_ok_iff.2 (releaseHeld_valid guard hValid) }
  | dropTicket now ticket saved =>
    dsimp only [step]
    rcases dropTicket_cases now ticket saved hNow hFits with
      hSame | ⟨q, hValid, hSaved⟩
    · rw [hSame]
      exact hNow
    · rw [hSaved]
      exact
        { hNow with
          queue := fun q' hMem => by
            rw [← Option.some.inj hMem]
            exact Queue.validate_ok_iff.2 (takeTicket_valid ticket hValid) }

/- The state's limit is set, and in range. -/
def Disk.LimitSet (disk : Disk) : Prop :=
  ∃ s, disk.state = some s ∧ 1 ≤ s.limit ∧ s.limit ≤ governorLimitCap

theorem step_limitSet
    (hPasses : sys.disk.Passes sys.clock)
    (hSound : Sound render sizes sys event) (hSet : sys.disk.LimitSet) :
    (step render sizes sys event).disk.LimitSet := by
  rcases hSound with ⟨hLater, hFits, -⟩
  rcases hSet with ⟨s, hState, hRange⟩
  have hNow : sys.disk.Passes event.now := hPasses.mono hLater
  cases event with
  | round attempt =>
    have hKept : sys.disk.kept sizes attempt.host.now =
        sys.disk := (loadAll_of_no_fault (no_fault_iff.2 ⟨hNow, hFits⟩)).2
    dsimp only [step]
    rw [hKept]
    unfold Disk.LimitSet Disk.save
    dsimp only
    split
    · exact ⟨_, rfl, run_limit render sizes sys.disk attempt⟩
    · exact ⟨s, hState, hRange⟩
  | release now guard saved =>
    dsimp only [step]
    rcases release_cases now guard saved hNow hFits with
      hSame | ⟨-, hSaved⟩
    · rw [hSame]
      exact ⟨s, hState, hRange⟩
    · rw [hSaved]
      refine ⟨_, rfl, ?_⟩
      rw [releaseHeld_limit, hState]
      exact hRange
  | dropTicket now ticket saved =>
    dsimp only [step]
    rcases dropTicket_cases now ticket saved hNow hFits with
      hSame | ⟨q, -, hSaved⟩
    · rw [hSame]
      exact ⟨s, hState, hRange⟩
    · rw [hSaved]
      exact ⟨s, hState, hRange⟩

-- Runs

/- A new waiting entry's seq is no other entry's. -/
theorem queued_ticket
    (hQueues : attempt.Queues render sizes disk)
    (hSeqs :
      ∀ e ∈ (attempt.prepared sizes disk).queue.entries, e.seq < u64Max) :
    ∃ seq, (attempt.run render sizes disk).ticket = some seq ∧
      ∀ e ∈ (attempt.prepared sizes disk).queue.entries, e.seq ≠ seq := by
  have hRoom : ¬ governorQueueCap ≤
      (attempt.recorded sizes disk).queue.entries.length :=
    not_le.2 hQueues.room
  have hEarly : ¬ attempt.deadline ≤ attempt.host.now :=
    not_le.2 hQueues.early
  refine ⟨(attempt.prepared sizes disk).state.nextSeq, ?_, ?_⟩
  · rw [Attempt.run_eq hQueues.loads]
    dsimp only
    rw [hQueues.top, hQueues.ticket, if_neg (by simpa using hRoom)]
    unfold settleRound
    rw [hQueues.waits]
    dsimp only
    rw [if_neg hEarly]
    exact congrArg some (storeLimit_nextSeq _ _ _)
  · intro e hMem hSame
    have hBelow := seq_lt_nextSeq hMem (hSeqs e hMem)
    exact absurd hSame (Nat.ne_of_lt hBelow)

/-
  The files pass the checks of every later load, and one is
  quarantined only if its text is too large.
-/
structure Consistent (sizes : Sizes) (sys : System) :
    Prop where
  passes : ∀ later, sys.clock ≤ later → sys.disk.Passes later
  loads :
    ∀ later, sys.clock ≤ later →
      ((loadAll sizes later sys.disk).2 = none ↔ sys.disk.Fits sizes)
  seqs : ∀ q ∈ sys.disk.queue, (q.entries.map QueueEntry.seq).Nodup
  slots :
    ∀ s ∈ sys.disk.state,
      (s.slots.map State.slotKey).Nodup ∧ s.limit ≤ governorLimitCap
  rings :
    ∀ h ∈ sys.disk.history,
      ∀ e ∈ h.weekly.entries ++ h.session.entries,
        e.2.length ≤ governorHistoryRing

theorem consistent_of_passes
    (hPasses : sys.disk.Passes sys.clock) :
    Consistent sizes sys where
  passes := fun later hLater => hPasses.mono hLater
  loads := fun later hLater =>
    no_fault_iff.trans (and_iff_right (hPasses.mono hLater))
  seqs := fun q hMem =>
    (Queue.validate_ok_iff.1 (hPasses.queue q hMem)).seqs
  slots := fun s hMem =>
    have hValid := State.validate_ok_iff.1 (hPasses.state s hMem)
    ⟨hValid.slotKeys, hValid.limit⟩
  rings := by
    intro h hMem e hEntry
    have hValid := History.validate_ok_iff.1 (hPasses.history h hMem)
    rcases List.mem_append.1 hEntry with hWeekly | hSession
    · exact (hValid.weekly e hWeekly).length
    · exact (hValid.session e hSession).length

/-
  From files that pass the checks, sound events leave files
  that pass them; a limit stays set; and no seq is issued
  that is queued.
-/
theorem files_self_consistent
    (render : Render) (sizes : Sizes) {start sys : System}
    (hStart : start.disk.Passes start.clock)
    (hRun : Reaches (step render sizes) (Sound render sizes) start sys) :
    Consistent sizes sys ∧
      (start.disk.LimitSet → sys.disk.LimitSet) ∧
      ∀ attempt : Attempt, Sound render sizes sys (.round attempt) →
        2 ≤ attempt.written →
        attempt.Queues render sizes sys.disk →
          ∃ seq,
            (attempt.run render sizes sys.disk).ticket = some seq ∧
              ∀ e ∈
                (attempt.prepared sizes sys.disk).queue.entries,
                e.seq ≠ seq := by
  have hPasses : sys.disk.Passes sys.clock :=
    Reaches.invariant (fun s => s.disk.Passes s.clock)
      (fun _ _ hInv hSound => step_passes hInv hSound)
      hRun hStart
  refine ⟨consistent_of_passes hPasses, ?_, ?_⟩
  · intro hSet
    have hBoth : sys.disk.Passes sys.clock ∧
        sys.disk.LimitSet :=
      Reaches.invariant
        (fun s => s.disk.Passes s.clock ∧ s.disk.LimitSet)
        (fun _ _ hInv hSound =>
          ⟨step_passes hInv.1 hSound, step_limitSet hInv.1 hSound hInv.2⟩)
        hRun ⟨hStart, hSet⟩
    exact hBoth.2
  · intro attempt hSound hWritten hQueues
    exact queued_ticket hQueues
      ((hSound.2.2 attempt rfl).seqs hWritten hQueues)

theorem empty_passes : System.empty.disk.Passes 0 :=
  ⟨nofun, nofun, nofun⟩

theorem sound_firstStart :
    Sound plainRender smallSizes System.empty (.round firstStart) := by
  refine ⟨by decide, ⟨nofun, nofun, nofun⟩, ?_⟩
  intro attempt hSame
  cases hSame
  refine ⟨?_, ?_⟩
  · intro hWritten s hMem hSample
    rw [List.mem_singleton.1 hMem]
    decide
  · intro hWritten hQueues e hMem
    cases hMem

/- What a first start writes is loaded again. -/
theorem files_self_consistent_of_first_start :
    (loadAll smallSizes 1000000
      (step plainRender smallSizes System.empty
        (.round firstStart)).disk).2 = none := by
  have hRun :
      Reaches (step plainRender smallSizes)
        (Sound plainRender smallSizes) System.empty
        (step plainRender smallSizes System.empty (.round firstStart)) :=
    (Reaches.refl System.empty).tail (Event.round firstStart) sound_firstStart
  have hConsistent := (files_self_consistent plainRender
    smallSizes empty_passes hRun).1
  exact (hConsistent.loads 1000000 (by decide)).2
    ⟨fun _ _ => Nat.zero_le _, fun _ _ => Nat.zero_le _,
      fun _ _ => Nat.zero_le _⟩

-- A reading from the future

/- The reading was observed 400 days and a second ahead. -/
def aheadHost : Host :=
  { firstHost with
    snapshots :=
      [{ name := "work"
         active := true
         eligible := true
         fiveHour := none
         sevenDay := some (10.0, 35600000)
         observedAt := 35560001
         noSessionWindow := true }] }

def aheadStart : Attempt :=
  { firstStart with host := aheadHost }

/- The next load at the same time quarantines the history. -/
theorem reading_ahead_quarantined :
    System.empty.disk.Passes System.empty.clock ∧
      System.empty.clock ≤ aheadStart.host.now ∧
      (loadAll smallSizes aheadStart.host.now
        (step plainRender smallSizes System.empty
          (.round aheadStart)).disk).2 ≠ none := by
  refine ⟨empty_passes, by decide, ?_⟩
  intro hNone
  have hPasses := (no_fault_iff.1 hNone).1
  have hRecorded :
      (aheadStart.run plainRender smallSizes
          System.empty.disk).files.history =
        recordSamples .default aheadHost.snapshots := by
    rw [Attempt.run_eq rfl]
    dsimp only
    split
    · rfl
    · exact settleRound_keeps.1
  have hValid := History.validate_ok_iff.1 (hPasses.history _ rfl)
  rw [hRecorded] at hValid
  -- The name's only ring holds the reading that was recorded.
  have hRing : ∃ e ∈
      (recordSamples .default aheadHost.snapshots).weekly.entries,
      ∃ s ∈ e.2, s.observedAt = 35560001 := by
    let ahead : Sample :=
      { observedAt := 35560001
        usedPct := Binary64.clamp 0.0 100.0 10.0
        resetsAt := some 35600000 }
    refine ⟨("work", pushSample [] ahead),
      List.mem_singleton.2 rfl, ahead, ?_, rfl⟩
    unfold pushSample
    rw [if_neg (by simp)]
    dsimp only
    rw [mergeSort_of_length_one rfl]
    exact List.mem_singleton.2 rfl
  rcases hRing with ⟨e, hEntry, s, hSample, hTime⟩
  have hOk := ((hValid.weekly e hEntry).samples s hSample).2
  rw [timeOk_iff, hTime] at hOk
  exact absurd hOk.2 (by decide)

end Governor
