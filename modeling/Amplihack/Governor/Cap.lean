import Amplihack.Governor.System

/-
  The number of top-level slots stays within the cap, and a
  start that takes a slot finds one below the limit.
-/

-- Fail-open admissions

namespace Governor

open Base

/- The round let the start through without deciding. -/
def Outcome.failsOpen : Outcome → Bool
| .admitted (.inert _) => true
| .admitted (.slot _ _ code) => code.isSome
| .admitted (.nested _ _) => false
| .denied _ => false
| .waiting _ _ => false

variable {render : Render}
variable {sizes : Sizes}
variable {host : Host}
variable {ctx : AdmitContext}
variable {treeId : String}
variable {deadline : ℤ}
variable {parent : Option ℕ}
variable {files : Files}
variable {ticket : Option ℕ}

-- The limit of a round

@[simp]
theorem storeLimit_slots (now : ℤ) (d : Decision) (s : State) :
    (storeLimit now d s).slots = s.slots := by
  unfold storeLimit
  split <;> rfl

variable {now : ℤ} {s : State}

/- A round stores the limit that its decision used. -/
theorem storeLimit_limit
    {i : Inputs} (hLimit : i.limit = s.limit)
    (hRange : 1 ≤ s.limit ∧ s.limit ≤ i.settings.maxConcurrency) :
    (storeLimit now (Governor.decide render i now) s).limit =
      limitFor i now := by
  have hMade :
      (Governor.decide render i now).limitAfter = limitFor i now ∧
        (Governor.decide render i now).evaluated = evaluationDue i now :=
    decide_limitAfter
  unfold storeLimit
  by_cases hDue : evaluationDue i now
  · simp [hMade.1, hMade.2, hDue]
  · have hClamp :
        clampNat s.limit 1 (max i.settings.maxConcurrency 1) =
          s.limit := by
      unfold clampNat
      omega
    simp [hMade.2, hDue, limitFor, hLimit, hClamp]

/- The loaded limit is brought into the range of the cap. -/
theorem prepare_limit
    {max_ : ℕ} (hMax : 1 ≤ max_) (host : Host) (files : Files) :
    1 ≤ (prepare host max_ files).state.limit ∧
      (prepare host max_ files).state.limit ≤ max_ := by
  dsimp only [prepare, reclaim, repair]
  unfold clampLimit governorLimitCap
  omega

/- The slots whose processes are alive. -/
def liveSlots (host : Host) (slots : List Slot) : List Slot :=
  slots.filter fun s => alive host s.pid s.startTime

theorem prepare_slots
    (host : Host) (max_ : ℕ) (files : Files) :
    (prepare host max_ files).state.slots =
      liveSlots host files.state.slots := by
  dsimp only [prepare, reclaim, repair]
  split <;> rfl

-- The slots of a round

theorem pushSlot_length_le
    (host : Host) (ctx : AdmitContext) (treeId : String) (slots : List Slot) :
    (pushSlot host ctx treeId slots).length ≤ slots.length + 1 := by
  unfold pushSlot
  rw [List.length_append]
  exact Nat.add_le_add_right (List.length_filter_le _ _) 1

/-
  What the settling of a decision does to the slots: a slot
  is added below the limit, a parent's count goes up, or
  nothing changes. The limit stored is the decision's.
-/
structure Settled
    (slots : List Slot) (limit : ℕ) (made : Round) :
    Prop where
  limit_eq : made.files.state.limit = limit
  slot :
    ∀ pid tree code,
      made.outcome = .admitted (.slot pid tree code) →
        code = none →
          slots.length < limit ∧
            made.files.state.slots.length ≤ slots.length + 1
  nested :
    ∀ pid tree,
      made.outcome = .admitted (.nested pid tree) →
        ∃ i p, slots[i]? = some p ∧
          p.pid = pid ∧ p.treeId = tree ∧
          made.files.state.slots = slots.modify i addNested
  other :
    (∀ guard, made.outcome ≠ .admitted guard) → made.files.state.slots = slots

variable {slots : List Slot} {limit : ℕ}

theorem admitRound_settled
    {reason : Reason} (hSlots : files.state.slots = slots)
    (hLimit : files.state.limit = limit)
    (hRoom :
      reason.code = .noReadings ∨
        (parent.bind fun i => slots[i]?).isSome = true ∨
        slots.length < limit) :
    Settled slots limit
      (admitRound host ctx treeId parent reason files ticket) := by
  subst hSlots
  unfold admitRound
  cases hParent : parent.bind fun i =>
      (files.state.slots[i]?).map fun p => (i, p) with
  | some found =>
    rcases found with ⟨i, p⟩
    have hFound : files.state.slots[i]? = some p := by
      rcases Option.bind_eq_some_iff.1 hParent with ⟨j, -, hMap⟩
      rcases Option.map_eq_some_iff.1 hMap with ⟨q, hGet, hPair⟩
      rcases Prod.mk.inj hPair with ⟨rfl, rfl⟩
      exact hGet
    simp only [hParent]
    refine ⟨hLimit, ?_, ?_, ?_⟩
    · intro pid tree code hOutcome
      cases hOutcome
    · intro pid tree hOutcome
      cases hOutcome
      exact ⟨i, p, hFound, rfl, rfl, rfl⟩
    · intro hOther
      exact absurd rfl (hOther _)
  | none =>
    have hNone :
        (parent.bind fun i => files.state.slots[i]?) =
          none := by
      cases parent with
      | none => rfl
      | some i => simpa using hParent
    simp only [hParent]
    refine ⟨hLimit, ?_, ?_, ?_⟩
    · intro pid tree code hOutcome hCode
      cases hOutcome
      have hReadings : reason.code ≠ .noReadings := by
        intro hNoReadings
        simp [hNoReadings] at hCode
      have hBelow : files.state.slots.length < limit := by
        rcases hRoom with hNoReadings | hNested | hBelow
        · exact absurd hNoReadings hReadings
        · simp [hNone] at hNested
        · exact hBelow
      exact ⟨hBelow, pushSlot_length_le host ctx treeId _⟩
    · intro pid tree hOutcome
      cases hOutcome
    · intro hOther
      exact absurd rfl (hOther _)

variable {made : Round}

/- A round that admits nothing leaves the slots alone. -/
theorem Settled.of_slots_eq
    (hSlots : made.files.state.slots = slots)
    (hLimit : made.files.state.limit = limit)
    (hOutcome : ∀ guard, made.outcome ≠ .admitted guard) :
    Settled slots limit made where
  limit_eq := hLimit
  slot := fun _ _ _ hSlot => absurd hSlot (hOutcome _)
  nested := fun _ _ hNested => absurd hNested (hOutcome _)
  other := fun _ => hSlots

variable {d : Decision}

theorem settleRound_settled
    (hSlots : files.state.slots = slots) (hLimit : files.state.limit = limit)
    (hRoom : d.kind = .allow →
      d.reason.code = .noReadings ∨
        (parent.bind fun i => slots[i]?).isSome = true ∨
        slots.length < limit) :
    Settled slots limit
      (settleRound host ctx treeId deadline parent d files ticket) := by
  unfold settleRound
  cases hKind : d.kind with
  | allow => exact admitRound_settled hSlots hLimit (hRoom hKind)
  | deny => exact .of_slots_eq hSlots hLimit nofun
  | wait =>
    dsimp only
    split
    · exact .of_slots_eq hSlots hLimit nofun
    · split
      · exact .of_slots_eq hSlots hLimit nofun
      · exact .of_slots_eq hSlots hLimit nofun

/- A decision on files whose limit is in range settles so. -/
theorem decided_settled
    (treeId : String) (files : Files)
    (hRange : 1 ≤ files.state.limit ∧
      files.state.limit ≤ ctx.settings.maxConcurrency)
    (hDecision : d = Governor.decide render
      (inputsOf host ctx deadline parent files ticket)
      host.now) :
    ∃ limit, 1 ≤ limit ∧
      limit ≤ ctx.settings.maxConcurrency ∧
      Settled files.state.slots limit
        (settleRound host ctx treeId deadline parent d
          { files with
            state := storeLimit host.now d files.state }
          ticket) := by
  subst hDecision
  let i := inputsOf host ctx deadline parent files ticket
  have hLimit := limitFor_range i host.now
  refine ⟨limitFor i host.now, hLimit.1, hLimit.2, ?_⟩
  apply settleRound_settled
  · exact storeLimit_slots host.now _ files.state
  · exact storeLimit_limit rfl hRange
  · intro hAllow
    rcases decide_allow hAllow with
      hReadings | hNested | hBelow
    · exact .inl hReadings
    · refine .inr (.inl ?_)
      simpa only [Request.nested, inputsOf, Option.isSome_map] using hNested
    · refine .inr (.inr ?_)
      have hCap : limitFor i host.now ≤ 64 :=
        hLimit.2.trans ctx.settings.concurrency_range.2
      have hHeld : min files.state.slots.length u32Max <
          limitFor i host.now := hBelow
      unfold u32Max at hHeld
      omega

/-
  A round that decides: the slots it starts from are the live
  ones, and the limit it stores is in the range of the cap.
-/
theorem roundLoaded_settled
    {loaded : Files × Option FailOpen}
    (hOpen :
      (roundLoaded render host ctx treeId deadline loaded
        ticket).outcome.failsOpen = false) :
    ∃ limit, 1 ≤ limit ∧
      limit ≤ ctx.settings.maxConcurrency ∧
      loaded.2 = none ∧
      Settled (liveSlots host loaded.1.state.slots) limit
        (roundLoaded render host ctx treeId deadline loaded ticket) := by
  have hCap : max ctx.settings.maxConcurrency 1 =
      ctx.settings.maxConcurrency :=
    max_eq_left ctx.settings.concurrency_range.1
  unfold roundLoaded at hOpen ⊢
  dsimp only at hOpen ⊢
  rw [hCap] at hOpen ⊢
  cases hFault : loaded.2 with
  | some fault => simp [hFault, failOpenRound, Outcome.failsOpen] at hOpen
  | none =>
    simp only [hFault] at hOpen ⊢
    split at hOpen
    next => simp [failOpenRound, Outcome.failsOpen] at hOpen
    next hFull =>
      rw [if_neg hFull]
      have hRange := prepare_limit
        ctx.settings.concurrency_range.1 host loaded.1
      rcases decided_settled treeId
          { prepare host ctx.settings.maxConcurrency
              loaded.1 with
            history := recordSamples
              (prepare host ctx.settings.maxConcurrency
                loaded.1).history host.snapshots }
          hRange rfl with ⟨limit, hOne, hMax, hSettled⟩
      rw [← prepare_slots host ctx.settings.maxConcurrency loaded.1]
      exact ⟨limit, hOne, hMax, trivial, hSettled⟩

-- Runs under one cap

/-
  Every round has the same cap and does not fail open, and a
  release drops a guard that is held and finds its file.
-/
def Governed (render : Render) (sizes : Sizes) (max_ : ℕ)
    (sys : System) : Event → Prop
| .round attempt =>
  attempt.ctx.settings.maxConcurrency = max_ ∧
    (attempt.run render sizes sys.disk).outcome.failsOpen = false
| .release now guard _ =>
  guard ∈ sys.guards ∧
    (load .default sizes.state (·.validate now) sys.disk.state).isOk = true
| .dropTicket _ _ _ => True

/- The stored slots and limit are within the cap. -/
def State.Within (max_ : ℕ) (s : State) : Prop :=
  s.slots.length ≤ max_ ∧ 1 ≤ s.limit ∧ s.limit ≤ max_

/- A guard is held only after a state was written. -/
structure Capped (max_ : ℕ) (sys : System) : Prop where
  within : ∀ s, sys.disk.state = some s → s.Within max_
  stored : sys.guards ≠ [] → sys.disk.state.isSome = true

def storedSlots (disk : Disk) : List Slot :=
  (disk.state.getD .default).slots

variable {max_ : ℕ}
variable {sys : System}

variable {attempt : Attempt}

/- What a round that decides does with the stored slots. -/
theorem run_settled
    (hGoverned : Governed render sizes max_ sys (.round attempt)) :
    ∃ limit, 1 ≤ limit ∧ limit ≤ max_ ∧
      sys.disk.kept sizes attempt.host.now = sys.disk ∧
      Settled
        (liveSlots attempt.host (storedSlots sys.disk)) limit
        (attempt.run render sizes sys.disk) := by
  rcases hGoverned with ⟨rfl, hOpen⟩
  rcases roundLoaded_settled hOpen with ⟨limit, hOne, hMax, hFault, hSettled⟩
  have hLoaded := loadAll_of_no_fault hFault
  rw [hLoaded.1] at hSettled
  exact ⟨limit, hOne, hMax, hLoaded.2, hSettled⟩

/- A round keeps the stored state within the cap. -/
theorem Settled.within
    (hSettled : Settled slots limit made)
    (hOpen : made.outcome.failsOpen = false) (hSlots : slots.length ≤ max_)
    (hLimit : 1 ≤ limit ∧ limit ≤ max_) :
    made.files.state.Within max_ := by
  refine ⟨?_, hSettled.limit_eq ▸ hLimit⟩
  cases hOutcome : made.outcome with
  | admitted guard =>
    cases guard with
    | inert code => simp [hOutcome, Outcome.failsOpen] at hOpen
    | slot pid tree code =>
      have hCode : code = none := by
        simpa [hOutcome, Outcome.failsOpen] using hOpen
      have hAdded := hSettled.slot pid tree code hOutcome hCode
      omega
    | nested pid tree =>
      rcases hSettled.nested pid tree hOutcome with ⟨i, p, -, -, -, hModify⟩
      rw [hModify, List.length_modify]
      exact hSlots
  | denied _ | waiting _ _ =>
    rw [hSettled.other (by simp [hOutcome])]
    exact hSlots

theorem storedSlots_length
    (hCapped : Capped max_ sys) (host : Host) :
    (liveSlots host (storedSlots sys.disk)).length ≤ max_ := by
  have hLive := List.length_filter_le
    (fun s => alive host s.pid s.startTime)
    (storedSlots sys.disk)
  refine hLive.trans ?_
  unfold storedSlots
  cases hState : sys.disk.state with
  | none => exact Nat.zero_le max_
  | some s => exact (hCapped.within s hState).1

theorem capped_round
    (hCapped : Capped max_ sys)
    (hGoverned : Governed render sizes max_ sys (.round attempt)) :
    Capped max_ (step render sizes sys (.round attempt)) := by
  rcases run_settled hGoverned with ⟨limit, hOne, hMax, hKept, hSettled⟩
  have hWithin : (attempt.run render sizes
      sys.disk).files.state.Within max_ :=
    hSettled.within hGoverned.2
      (storedSlots_length hCapped attempt.host) ⟨hOne, hMax⟩
  dsimp only [step, Disk.save]
  rw [hKept]
  by_cases hWritten : 3 ≤ attempt.written
  · simp only [hWritten, if_true]
    constructor
    · intro s hState
      rw [← Option.some.inj hState]
      exact hWithin
    · intro _
      rfl
  · simp only [hWritten, if_false]
    exact ⟨hCapped.within, hCapped.stored⟩

theorem releaseHeld_within
    (hWithin : s.Within max_) (guard : Guard) :
    (releaseHeld guard s).Within max_ := by
  refine ⟨?_, ?_⟩
  · cases guard with
    | inert code => exact hWithin.1
    | slot pid tree code => exact (List.length_filter_le _ _).trans hWithin.1
    | nested pid tree =>
      dsimp only [releaseHeld]
      rw [List.length_modify]
      exact hWithin.1
  · cases guard <;> exact hWithin.2

/- A release that finds its file changes the slots alone. -/
theorem release_of_load
    {disk : Disk} (guard : Guard) (saved : Bool)
    (hLoad : load .default sizes.state (·.validate now) disk.state = .ok s) :
    release sizes now guard saved disk = disk ∨
      release sizes now guard saved disk =
        { disk with state := some (releaseHeld guard s) } := by
  cases guard with
  | inert code => exact .inl rfl
  | slot _ _ _ | nested _ _ =>
    simp only [release, hLoad]
    cases saved
    · exact .inl rfl
    · exact .inr rfl

theorem capped_release
    {guard : Guard} {saved : Bool} (hCapped : Capped max_ sys)
    (hGoverned : Governed render sizes max_ sys (.release now guard saved)) :
    Capped max_ (step render sizes sys (.release now guard saved)) := by
  rcases hGoverned with ⟨hHeld, hLoads⟩
  have hStored : sys.disk.state.isSome = true :=
    hCapped.stored (List.ne_nil_of_mem hHeld)
  rcases Option.isSome_iff_exists.1 hStored with ⟨s, hState⟩
  cases hLoad : load .default sizes.state (·.validate now)
      sys.disk.state with
  | error why => simp [hLoad, Except.isOk, Except.toBool] at hLoads
  | ok loaded =>
    have hSame : s = loaded := by simpa [hState] using load_ok hLoad
    subst hSame
    dsimp only [step]
    rcases release_of_load guard saved hLoad with
      hSkip | hDone
    · rw [hSkip]
      exact ⟨hCapped.within, fun _ => hStored⟩
    · rw [hDone]
      constructor
      · intro t hAfter
        rw [← Option.some.inj hAfter]
        exact releaseHeld_within (hCapped.within s hState) guard
      · intro _
        rfl

theorem dropTicket_state
    (now : ℤ) (ticket : Option ℕ) (saved : Bool) (disk : Disk) :
    (dropTicket sizes now ticket saved disk).state =
      disk.state := by
  unfold dropTicket
  split
  · rfl
  · split
    · rfl
    · split <;> rfl

theorem capped_step
    {event : Event} (hCapped : Capped max_ sys)
    (hGoverned : Governed render sizes max_ sys event) :
    Capped max_ (step render sizes sys event) := by
  cases event with
  | round attempt => exact capped_round hCapped hGoverned
  | release now guard saved => exact capped_release hCapped hGoverned
  | dropTicket now ticket saved =>
    dsimp only [step]
    constructor
    · rw [dropTicket_state]
      exact hCapped.within
    · rw [dropTicket_state]
      exact hCapped.stored

theorem capped_empty : Capped max_ System.empty where
  within := nofun
  stored := fun hGuards => absurd rfl hGuards

/-
  From empty files, under one cap and without a fail-open
  round: the stored slots never exceed the cap and the stored
  limit stays in its range. A round that takes a slot leaves
  no more slots than the limit it stores; without a fault a
  slot is taken only for room. A nested start changes nothing
  but the count of its parent, among the slots of the live.
-/
theorem concurrency_capped
    (render : Render) (sizes : Sizes) (max_ : ℕ) (sys : System)
    (hRun : Reaches (step render sizes)
      (Governed render sizes max_) System.empty sys) :
    (∀ s, sys.disk.state = some s →
      s.slots.length ≤ max_ ∧ 1 ≤ s.limit ∧ s.limit ≤ max_) ∧
    ∀ attempt, Governed render sizes max_ sys (.round attempt) →
      let made := attempt.run render sizes sys.disk
      (∀ pid tree code,
        made.outcome = .admitted (.slot pid tree code) →
          made.files.state.slots.length ≤ made.files.state.limit) ∧
      ∀ pid tree, made.outcome = .admitted (.nested pid tree) →
        ∃ i p,
          (liveSlots attempt.host (storedSlots sys.disk))[i]? = some p ∧
          p.pid = pid ∧ p.treeId = tree ∧
          made.files.state.slots =
            (liveSlots attempt.host
              (storedSlots sys.disk)).modify i addNested := by
  have hCapped : Capped max_ sys :=
    hRun.invariant (Capped max_)
      (fun _ _ hInv hGoverned => capped_step hInv hGoverned)
      capped_empty
  refine ⟨hCapped.within, ?_⟩
  intro attempt hGoverned made
  rcases run_settled hGoverned with ⟨limit, hOne, hMax, hKept, hSettled⟩
  refine ⟨?_, hSettled.nested⟩
  intro pid tree code hOutcome
  have hCode : code = none := by
    have hOpen : made.outcome.failsOpen = false := hGoverned.2
    simpa [hOutcome, Outcome.failsOpen] using hOpen
  have hAdded := hSettled.slot pid tree code hOutcome hCode
  have hLimit : made.files.state.limit = limit := hSettled.limit_eq
  calc
    made.files.state.slots.length ≤ _ := hAdded.2
    _ ≤ limit := hAdded.1
    _ = made.files.state.limit := hLimit.symm

-- A first start

def plainRender : Render where
  utc := fun _ => ""
  points := fun _ => ""

/- Every text is small. -/
def smallSizes : Sizes where
  history := fun _ => 0
  queue := fun _ => 0
  state := fun _ => 0

/- One active profile, with a tenth of its week used. -/
def firstHost : Host where
  now := 1000000
  now_range := by unfold i64Max; decide
  pid := 7
  signalled := fun _ => true
  startTime := fun _ => none
  inAncestry := fun _ _ => false
  snapshots :=
    [{ name := "work"
       active := true
       eligible := true
       fiveHour := none
       sevenDay := some (10.0, 1100000)
       observedAt := 1000000
       noSessionWindow := true }]

def twoAtATime : Settings where
  maxConcurrency := 2
  reservePoints := 10
  step := 1
  bandPct := 10
  evalIntervalSecs := 60
  maxReadingAgeSecs := 3600
  concurrency_range := Settings.two_in_range

def plainContext : AdmitContext where
  settings := twoAtATime
  class_ := .ordinary
  start := .agent
  workstream := "main"
  sessionDepth := none
  treeId := some "tree"
  parent := none
  recipe := none
  workstream_ok := by decide

def firstStart : Attempt where
  host := firstHost
  ctx := plainContext
  nanos := 0
  deadline := 1000100
  ticket := none
  written := 3

theorem mergeSort_of_length_one
    {α : Type} {items : List α} {le : α → α → Bool}
    (hLength : items.length = 1) :
    items.mergeSort le = items := by
  rcases List.length_eq_one_iff.1 hLength with ⟨item, rfl⟩
  exact List.mergeSort_singleton item

theorem governed_firstStart :
    Governed plainRender smallSizes 2 System.empty (.round firstStart) := by
  refine ⟨rfl, ?_⟩
  have hLoaded :
      loadAll smallSizes firstStart.host.now System.empty.disk =
        ({ history := .default
           queue := .default
           state := .default }, none) := rfl
  unfold Attempt.run round
  rw [hLoaded]
  unfold roundLoaded
  dsimp only
  unfold inputsOf
  dsimp only
  -- The outcome depends on neither the samples nor the signal.
  generalize recordSamples _ _ = history
  generalize rateSignal _ _ _ _ = signal
  unfold Governor.decide
  dsimp only
  rw [mergeSort_of_length_one (by decide)]
  cases signal <;> rfl

/- The state that the first start leaves is within the cap. -/
theorem concurrency_capped_of_first_start :
    ∃ s,
      (step plainRender smallSizes System.empty
        (.round firstStart)).disk.state = some s ∧
      s.slots.length ≤ 2 ∧ 1 ≤ s.limit ∧ s.limit ≤ 2 := by
  have hRun :
      Reaches (step plainRender smallSizes)
        (Governed plainRender smallSizes 2) System.empty
        (step plainRender smallSizes System.empty (.round firstStart)) :=
    (Reaches.refl System.empty).tail
      (Event.round firstStart) governed_firstStart
  exact ⟨_, rfl,
    (concurrency_capped plainRender smallSizes 2 _ hRun).1 _
      rfl⟩

end Governor
