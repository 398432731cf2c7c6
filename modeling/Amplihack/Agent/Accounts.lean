import Amplihack.Agent.Moves

/-
  The candidates and the stops of a classification.

  The launches of a registration, and the clock.
-/

-- Candidates

namespace Agent

open Base

variable {c : Chrono}
variable {now : ℤ}
variable {maxRestarts : ℕ}

/- The entry of the candidate has restarts left. -/
def Room
    (c : Chrono) (now : ℤ) (maxRestarts : ℕ) (reg : Registry)
    (candidate : Candidate) :
    Prop :=
  ∃ e, reg.get? candidate.name = some e ∧
    restartsWithin c e.restarts now hour < maxRestarts

variable {p : Plan} {e : Entry}

theorem restartsWithin_of_candidate
    (hVerdict : verdictOf c now maxRestarts p e = .candidate) :
    restartsWithin c e.restarts now hour < maxRestarts := by
  rw [verdictOf] at hVerdict
  split at hVerdict
  · cases hVerdict
  · split at hVerdict
    · cases hVerdict
    · split at hVerdict
      · cases hVerdict
      · split at hVerdict
        · cases hVerdict
        · next hRoom => exact Nat.lt_of_not_le hRoom

/- Only a candidate's verdict adds a candidate. -/
theorem classifyEntry_candidate
    (p : Plan) (e : Entry) :
    (classifyEntry c now maxRestarts p e).2.1 = none ∨
      verdictOf c now maxRestarts p e = .candidate ∧
        ∃ candidate,
          (classifyEntry c now maxRestarts p e).2.1 =
            some candidate ∧ candidate.name = p.name := by
  rw [classifyEntry]
  cases verdictOf c now maxRestarts p e with
  | healthy => exact Or.inl rfl
  | candidate => exact Or.inr ⟨rfl, _, rfl, rfl⟩
  | result outcome =>
    simp only
    split
    · exact Or.inl rfl
    · exact Or.inl rfl

/- What one plan adds, and to which candidates. -/
theorem classifyOne_candidates
    (acc : Classified) (p : Plan) :
    (classifyOne c now maxRestarts acc p).1.2 = acc.1.2 ∨
      ∃ candidate e,
        (classifyOne c now maxRestarts acc p).1.2 = acc.1.2 ++ [candidate] ∧
        candidate.name = p.name ∧
        acc.2.get? p.name = some e ∧
        restartsWithin c e.restarts now hour <
          maxRestarts := by
  rw [classifyOne]
  cases hGet : acc.2.get? p.name with
  | none => exact Or.inl rfl
  | some e =>
    simp only
    split
    · rcases @classifyEntry_candidate c now maxRestarts p
          e with
        hNone | ⟨hVerdict, candidate, hSome, hName⟩
      · refine Or.inl ?_
        simp [hNone]
      · refine Or.inr ⟨candidate, e, ?_, hName, rfl,
          restartsWithin_of_candidate hVerdict⟩
        simp [hSome]
    · exact Or.inl rfl

variable {reg : Registry} {acc : Classified}

theorem room_of_foldl
    (plans : List Plan) (hCarried : CarriedAll reg acc.2)
    (hRoom : ∀ candidate ∈ acc.1.2, Room c now maxRestarts reg candidate) :
    ∀ candidate ∈
      (plans.foldl (classifyOne c now maxRestarts) acc).1.2,
      Room c now maxRestarts reg candidate := by
  induction plans generalizing acc with
  | nil => exact hRoom
  | cons p rest ih =>
    refine ih (hCarried.trans (carried_classifyOne maxRestarts acc p)) ?_
    intro candidate hMem
    rcases @classifyOne_candidates c now maxRestarts acc p with
      hSame | ⟨new, e, hNew, hName, hGet, hLess⟩
    · rw [hSame] at hMem
      exact hRoom candidate hMem
    · rw [hNew, List.mem_append, List.mem_singleton] at hMem
      rcases hMem with hOld | rfl
      · exact hRoom candidate hOld
      · rcases hCarried p.name e hGet with
          ⟨e₀, hGet₀, hCarry⟩
        refine ⟨e₀, by rw [hName]; exact hGet₀, ?_⟩
        rw [← hCarry.restarts]
        exact hLess

variable {plans : List Plan}

/- A candidate has fewer restarts than the limit. -/
theorem room_of_classifyAll
    {reg : Registry} :
    ∀ candidate ∈
      (classifyAll c now maxRestarts plans reg).1.2,
      Room c now maxRestarts reg candidate :=
  room_of_foldl plans (CarriedAll.refl reg) (by simp)

/- Each plan gives at most one candidate, of its name. -/
theorem sublist_foldl
    (plans : List Plan) (acc : Classified) :
    ((plans.foldl (classifyOne c now maxRestarts)
      acc).1.2.map Candidate.name).Sublist
        (acc.1.2.map Candidate.name ++ plans.map Plan.name) := by
  induction plans generalizing acc with
  | nil => simp
  | cons p rest ih =>
    refine (ih _).trans ?_
    rw [List.map_cons, List.append_cons]
    apply List.Sublist.append_right
    rcases @classifyOne_candidates c now maxRestarts acc p with hSame | ⟨new, e, hNew, hName, -, -⟩
    · rw [hSame]
      exact List.sublist_append_left _ _
    · rw [hNew, List.map_append, List.map_singleton, hName]

theorem sublist_classifyAll
    (plans : List Plan) (reg : Registry) :
    ((classifyAll c now maxRestarts plans reg).1.2.map
      Candidate.name).Sublist (plans.map Plan.name) :=
  sublist_foldl plans (([], []), reg)

-- Stops

variable {name : String}

theorem classifyOne_get?_ne
    (hNe : name ≠ p.name) :
    (classifyOne c now maxRestarts acc p).2.get? name = acc.2.get? name := by
  rw [classifyOne]
  split
  · rfl
  · split
    · simp [hNe]
    · rfl

/- Plans of other names leave the entry alone. -/
theorem foldl_get?_ne
    (hNe : name ∉ plans.map Plan.name) (acc : Classified) :
    (plans.foldl (classifyOne c now maxRestarts) acc).2.get?
        name = acc.2.get? name := by
  induction plans generalizing acc with
  | nil => rfl
  | cons p rest ih =>
    rw [List.map_cons, List.mem_cons, not_or] at hNe
    rw [List.foldl_cons, ih hNe.2, classifyOne_get?_ne hNe.1]

theorem classifyOne_stops
    (hGet : acc.2.get? p.name = some e)
    (hSame : sameAsPlanned p e = true) (hLost : p.obs = .lost)
    (hPre : p.pre = none)
    (hFull : maxRestarts ≤ restartsWithin c e.restarts now hour) :
    ∃ e', (classifyOne c now maxRestarts acc p).2.get?
        p.name = some e' ∧ e'.state = .stopped := by
  have hVerdict :
      verdictOf c now maxRestarts p e = .result .restartLimit := by
    simp [verdictOf, hLost, outcomeOf, hPre, hFull]
  refine ⟨(classifyEntry c now maxRestarts p e).2.2, ?_, ?_⟩
  · simp [classifyOne, hGet, hSame]
  · simp [classifyEntry, hVerdict, Entry.stop]

/- A lost agent without restarts left is stopped. -/
theorem stopped_of_classifyAll
    (hNodup : (plans.map Plan.name).Nodup) (hPlan : p ∈ plans)
    (hGet : reg.get? p.name = some e)
    (hSame : sameAsPlanned p e = true) (hLost : p.obs = .lost)
    (hPre : p.pre = none)
    (hFull : maxRestarts ≤ restartsWithin c e.restarts now hour) :
    ∃ e', (classifyAll c now maxRestarts plans reg).2.get?
        p.name = some e' ∧ e'.state = .stopped := by
  rcases List.append_of_mem hPlan with ⟨before, after, rfl⟩
  rw [List.map_append, List.map_cons] at hNodup
  have hParts := List.nodup_append.mp hNodup
  have hBefore : p.name ∉ before.map Plan.name := by
    intro hMem
    exact hParts.2.2 _ hMem _ List.mem_cons_self rfl
  have hAfter : p.name ∉ after.map Plan.name :=
    (List.nodup_cons.mp hParts.2.1).1
  rw [classifyAll, List.foldl_append, List.foldl_cons, foldl_get?_ne hAfter]
  apply classifyOne_stops _ hSame hLost hPre hFull
  rw [foldl_get?_ne hBefore]
  exact hGet

-- Plans

/- The plans of a pass have different names. -/
theorem nodup_plansOf
    (ans : Answers) (reg : Registry) :
    ((plansOf ans reg).map Plan.name).Nodup := by
  have hNames :
      (plansOf ans reg).map Plan.name = (activeAgents reg).map Prod.fst := by
    rw [plansOf, List.map_map]
    rfl
  rw [hNames]
  have hPerm : (byName reg).map Prod.fst |>.Perm
      (reg.entries.map Prod.fst) := (List.perm_insertionSort _ _).map _
  exact (hPerm.nodup_iff.mpr reg.nodupKeys).sublist
    (List.filter_sublist.map _)

end Agent

-- Launches Of A Registration

namespace Agent

open Base

/- The launches of one registration. -/
def attemptsFor
    (log : List Attempt) (name : String) (generation : ℕ) :
    List Attempt :=
  log.filter fun a =>
    a.agent.name == name && a.agent.generation == generation

def attemptsSince
    (log : List Attempt) (name : String) (generation : ℕ) (w : ℤ) :
    ℕ :=
  ((attemptsFor log name generation).filter fun a =>
    w ≤ a.time).length

/- Its launches in the hour that starts at `w`. -/
def attemptsWithin
    (log : List Attempt) (name : String) (generation : ℕ) (w : ℤ) :
    ℕ :=
  ((attemptsFor log name generation).filter fun a =>
    w ≤ a.time && a.time ≤ w + hour).length

variable {log : List Attempt}
variable {name : String}
variable {generation : ℕ}
variable {w : ℤ}

theorem attemptsSince_cons
    (a : Attempt) :
    attemptsSince (a :: log) name generation w =
      (if a.agent.name = name ∧
          a.agent.generation = generation ∧ w ≤ a.time
        then 1 else 0) +
        attemptsSince log name generation w := by
  simp only [attemptsSince, attemptsFor, List.filter_cons]
  by_cases hName : a.agent.name = name
  · by_cases hGen : a.agent.generation = generation
    · by_cases hTime : w ≤ a.time
      · simp [hName, hGen, hTime, Nat.add_comm]
      · simp [hName, hGen, hTime]
    · simp [hGen]
  · simp [hName]

theorem attemptsWithin_cons
    (a : Attempt) :
    attemptsWithin (a :: log) name generation w =
      (if a.agent.name = name ∧
          a.agent.generation = generation ∧
          w ≤ a.time ∧ a.time ≤ w + hour
        then 1 else 0) +
        attemptsWithin log name generation w := by
  simp only [attemptsWithin, attemptsFor, List.filter_cons]
  by_cases hName : a.agent.name = name
  · by_cases hGen : a.agent.generation = generation
    · by_cases hTime : w ≤ a.time ∧ a.time ≤ w + hour
      · simp [hName, hGen, hTime, Nat.add_comm]
      · simp [hName, hGen, hTime]
    · simp [hGen]
  · simp [hName]

/- An hour's launches are launches since its start. -/
theorem attemptsWithin_le
    {w' : ℤ} (hLe : w' ≤ w) :
    attemptsWithin log name generation w ≤
      attemptsSince log name generation w' := by
  apply List.Sublist.length_le
  apply List.monotone_filter_right
  intro a hInside
  simp only [Bool.and_eq_true, decide_eq_true_eq]
    at hInside ⊢
  omega

/- A registration to come has no launches. -/
theorem attemptsSince_eq_zero_of_new
    (hNew : ∀ a ∈ log, a.agent.name = name →
      a.agent.generation < generation) :
    attemptsSince log name generation w = 0 := by
  rw [attemptsSince, List.length_eq_zero_iff, List.filter_eq_nil_iff]
  intro a ha
  rw [attemptsFor, List.mem_filter] at ha
  simp only [Bool.and_eq_true, beq_iff_eq] at ha
  have hLess := hNew a ha.1 ha.2.1
  omega

/- No launch is later than the last reading. -/
theorem attemptsSince_eq_zero_of_late
    {reading : ℤ} (hTimes : ∀ a ∈ log, a.time ≤ reading)
    (hLate : reading < w) :
    attemptsSince log name generation w = 0 := by
  rw [attemptsSince, List.length_eq_zero_iff, List.filter_eq_nil_iff]
  intro a ha
  have hTime := hTimes a (List.mem_filter.mp ha).1
  simp only [decide_eq_true_eq]
  omega

-- Phases

def Phase.candidates : Phase → List Candidate
| .idle => []
| .began => []
| .planned _ _ => []
| .resuming candidates => candidates
| .checked candidates _ => candidates
| .settling candidates _ _ _ _ => candidates
| .recording candidates _ _ => candidates

/- The launch that is made and not yet recorded. -/
def Phase.owed : Phase → Option Pending
| .idle => none
| .began => none
| .planned _ _ => none
| .resuming _ => none
| .checked _ _ => none
| .settling _ _ _ _ attempted => attempted
| .recording _ p _ => some p

/- The resume that passed its check. -/
def Phase.pending : Phase → Option Pending
| .checked _ p => some p
| .settling _ _ _ _ attempted => attempted
| .recording _ p _ => some p
| .idle => none
| .began => none
| .planned _ _ => none
| .resuming _ => none

def Phase.isEarly : Phase → Bool
| .began => true
| .planned _ _ => true
| .idle => false
| .resuming _ => false
| .checked _ _ => false
| .settling _ _ _ _ _ => false
| .recording _ _ _ => false

def owes (phase : Phase) (name : String) (generation : ℕ) :
    ℕ :=
  match phase.owed with
  | some p =>
    if p.name = name ∧ p.generation = generation then 1
    else 0
  | none => 0

-- The Clock

/- The readings of the clock in their order. -/
structure Clocked (first last : ℤ) (s : System) : Prop where
  first : first ≤ s.passNow
  passNow : s.passNow ≤ s.reading
  reading : s.reading ≤ s.clock
  last : s.clock ≤ last
  times : ∀ a ∈ s.log, a.time ≤ s.reading
  early : s.phase.isEarly = true → s.reading = s.passNow
  recorded : ∀ candidates p time,
    s.phase = .recording candidates p time → time = s.reading

theorem clocked_initial
    {first last clock : ℤ} (hFirst : first ≤ clock)
    (hLast : clock ≤ last) (reg : Registry) :
    Clocked first last (System.initial reg clock) where
  first := hFirst
  passNow := le_refl _
  reading := le_refl _
  last := hLast
  times := by simp [System.initial]
  early := fun _ => rfl
  recorded := by simp [System.initial]

namespace Clocked

variable {first last : ℤ}
variable {s s' : System}

/- The registry plays no part. -/
theorem frame
    (hClock : Clocked first last s) (hPassNow : s'.passNow = s.passNow)
    (hReading : s'.reading = s.reading)
    (hSame : s'.clock = s.clock) (hLog : s'.log = s.log)
    (hEarly : s'.phase.isEarly = true → s.phase.isEarly = true)
    (hRecording : ∀ candidates p time,
      s'.phase = .recording candidates p time →
        s.phase = .recording candidates p time) :
    Clocked first last s' where
  first := by
    rw [hPassNow]
    exact hClock.first
  passNow := by
    rw [hPassNow, hReading]
    exact hClock.passNow
  reading := by
    rw [hReading, hSame]
    exact hClock.reading
  last := by
    rw [hSame]
    exact hClock.last
  times := by
    rw [hLog, hReading]
    exact hClock.times
  early := by
    rw [hReading, hPassNow]
    intro h
    exact hClock.early (hEarly h)
  recorded := by
    rw [hReading]
    intro candidates p time h
    exact hClock.recorded candidates p time (hRecording candidates p time h)

end Clocked

variable {t : Text}
variable {defaultSocket : String}
variable {maxRestarts : ℕ}
variable {first last : ℤ}
variable {s s' : System}

theorem System.bump_clock
    (name : Option String) (s : System) :
    (s.bump name).passNow = s.passNow ∧
      (s.bump name).reading = s.reading ∧
      (s.bump name).clock = s.clock := by
  cases name with
  | some _ | none => exact ⟨rfl, rfl, rfl⟩

theorem afterLaunch_recording
    {candidates rest : List Candidate} {p q : Pending}
    {time time' : ℤ} {result : Launched}
    (hPhase : System.afterLaunch candidates p time result =
      .recording rest q time') :
    time' = time := by
  cases result with
  | started warning =>
    simp only [System.afterLaunch, Phase.recording.injEq]
      at hPhase
    exact hPhase.2.2.symm
  | failed line => simp [System.afterLaunch] at hPhase
  | unknown reason attempted => simp [System.afterLaunch] at hPhase

theorem afterLaunch_isEarly
    (candidates : List Candidate) (p : Pending) (time : ℤ)
    (result : Launched) :
    (System.afterLaunch candidates p time result).isEarly =
      false := by
  cases result with
  | started _ | failed _ | unknown _ _ => rfl

theorem Clocked.launch
    {candidates : List Candidate} {p : Pending}
    (hClock : Clocked first last s) (ans : LaunchAnswers) :
    Clocked first last (s.launch candidates p ans) where
  first := hClock.first
  passNow := hClock.passNow.trans hClock.reading
  reading := le_refl _
  last := hClock.last
  times := by
    intro a ha
    change a.time ≤ s.clock
    simp only [System.launch] at ha
    split at ha
    · rcases List.mem_cons.mp ha with rfl | hOld
      · exact le_refl _
      · exact (hClock.times a hOld).trans hClock.reading
    · exact (hClock.times a ha).trans hClock.reading
  early := by
    intro hEarly
    rw [System.launch, afterLaunch_isEarly] at hEarly
    cases hEarly
  recorded := by
    intro rest q time hPhase
    exact afterLaunch_recording hPhase

/- Readings stay in order while the clock goes on. -/
theorem clocked_moves
    {a : Action} (hClock : Clocked first last s)
    (hTick : ∀ time, a = .tick time → time ≤ last)
    (hMoves : Moves t defaultSocket maxRestarts s a s') :
    Clocked first last s' := by
  cases hMoves with
  | tick time =>
    exact ⟨hClock.first, hClock.passNow,
      hClock.reading.trans (le_max_left _ _),
      max_le hClock.last (hTick time rfl), hClock.times,
      hClock.early, hClock.recorded⟩
  | command command reading changed hRun =>
    rcases System.bump_clock
        (command.registers s.registry)
        { s with
          registry := prunedEntries t (min reading s.clock)
            changed } with
      ⟨hPassNow, hReading, hSame⟩
    rcases System.bump_frame
        (command.registers s.registry)
        { s with
          registry := prunedEntries t (min reading s.clock)
            changed } with
      ⟨hLog, -, -, hPhase⟩
    refine hClock.frame hPassNow hReading hSame hLog ?_ ?_
    · rw [hPhase]
      exact id
    · rw [hPhase]
      exact fun _ _ _ h => h
  | beginPass hPhase =>
    exact ⟨hClock.first.trans
        (hClock.passNow.trans hClock.reading),
      le_refl _, le_refl _, hClock.last,
      fun a ha => (hClock.times a ha).trans hClock.reading,
      fun _ => rfl, fun _ _ _ h => by cases h⟩
  | refreshIds changes hPhase =>
    refine hClock.frame rfl rfl rfl rfl ?_ fun _ _ _ h => by cases h
    rw [hPhase]
    exact id
  | applyMarkers ends hPhase =>
    refine hClock.frame rfl rfl rfl rfl ?_ fun _ _ _ h => by cases h
    rw [hPhase]
    exact id
  | plan ans hPhase =>
    refine hClock.frame rfl rfl rfl rfl ?_ fun _ _ _ h => by cases h
    rw [hPhase]
    exact id
  | classify _ _ | healthy _ _ | drop _ _ _ _ | skip _ _ _ _ _ _ =>
    exact hClock.frame rfl rfl rfl rfl
      (fun h => by cases h) fun _ _ _ h => by cases h
  | check candidates name ans e id hPhase hCandidate hGet
      hActive hLost hId hFresh =>
      exact hClock.frame rfl rfl rfl rfl
        (fun h => by cases h) fun _ _ _ h => by cases h
  | settle candidates name registeredAt outcome attempted
      reading now out changed hPhase hNow hRun =>
      subst hNow
      have hLe : s.reading ≤ max s.reading (min reading s.clock) :=
        le_max_left _ _
      exact ⟨hClock.first, hClock.passNow.trans hLe,
        max_le hClock.reading (min_le_right _ _), hClock.last,
        fun a ha => (hClock.times a ha).trans hLe,
        (fun h => by cases h), fun _ _ _ h => by cases h⟩
  | launch candidates p ans hPhase => exact hClock.launch ans
  | record _ _ _ _ _ _ | endPass _ _ =>
    exact hClock.frame rfl rfl rfl rfl
      (fun h => by cases h) fun _ _ _ h => by cases h

end Agent
