import Mathlib.Data.List.MinMax
import Mathlib.Data.Prod.Lex
import Amplihack.Base.Numbers

/-
  The governor's data types.

  Times are Unix seconds. Counters are natural numbers that
  the operations saturate at the width of the source's types.

  Rate feedback: burn rates from recorded samples, and the
  signal that moves the concurrency limit.

  The fair queue: waiting requests ordered by class rank, then
  by the admissions of their workstream, then by arrival.
-/

-- Classes and starts

namespace Governor

/- A request's priority class, highest first. -/
inductive Class where
| coordination
| recovery
| review
| ordinary
deriving DecidableEq

namespace Class

/- The queue rank: lower is admitted first. -/
def rank : Class → ℕ
| .coordination => 0
| .recovery => 1
| .review => 2
| .ordinary => 3

/- Classes that may spend the protected reserve. -/
def protected_ (class_ : Class) : Bool :=
  class_ != .ordinary

end Class

inductive Start where
| agent
| recipe
deriving DecidableEq

def Start.asStr : Start → String
| .agent => "agent"
| .recipe => "recipe"

-- What is stored

/- A slot held by a running top-level process. -/
structure Slot where
  pid : ℕ
  startTime : Option ℕ
  workstream : String
  class_ : Class
  treeId : String
  admittedAt : ℤ
  nestedChildren : ℕ
  start : Start

/- A waiting request. -/
structure QueueEntry where
  seq : ℕ
  workstream : String
  class_ : Class
  pid : ℕ
  startTime : Option ℕ
  enqueuedAt : ℤ
deriving DecidableEq

/- One admission in the fairness window. -/
structure Admission where
  workstream : String
  at_ : ℤ

/- One reading of one window, kept for the burn rate. -/
structure Sample where
  observedAt : ℤ
  usedPct : Float
  resetsAt : Option ℤ

-- Readings and budgets

/- A profile as the governor sees it; windows as read. -/
structure ProfileSnapshot where
  name : String
  active : Bool
  eligible : Bool
  fiveHour : Option (Float × ℤ)
  sevenDay : Option (Float × ℤ)
  observedAt : ℤ
  noSessionWindow : Bool

/- One usage window of one profile. -/
structure WindowBudget where
  usedPct : Float
  resetsAt : Option ℤ

/- `session` is `none` for a weekly-only profile. -/
structure Budget where
  name : String
  active : Bool
  eligible : Bool
  session : Option WindowBudget
  weekly : WindowBudget

/- What rate feedback says about the concurrency limit. -/
inductive RateSignal where
| over
| under
| steady
| unknown
deriving DecidableEq

-- Requests and decisions

/- The ranges are those that the configuration clamps to. -/
structure Settings where
  maxConcurrency : ℕ
  reservePoints : ℕ
  step : ℕ
  bandPct : ℕ
  evalIntervalSecs : ℕ
  maxReadingAgeSecs : ℕ
  concurrency_range : 1 ≤ maxConcurrency ∧ maxConcurrency ≤ 64

theorem Settings.two_in_range : 1 ≤ 2 ∧ 2 ≤ 64 := by decide

/- `parent` is the kind of the live slot it runs under. -/
structure Request where
  class_ : Class
  workstream : String
  start : Start
  parent : Option Start
  seq : Option ℕ
  deadline : ℤ

namespace Request

def nested (request : Request) : Bool :=
  request.parent.isSome

/- Part of a `recipe run` that was already admitted. -/
def insideRecipe (request : Request) : Bool :=
  request.parent == some .recipe

end Request

/- Everything `Governor.decide` reads. -/
structure Inputs where
  budgets : List Budget
  signal : RateSignal
  limit : ℕ
  lastEvaluatedAt : Option ℤ
  slots : List Slot
  queue : List QueueEntry
  admissions : List Admission
  settings : Settings
  request : Request

inductive DecisionKind where
| allow
| wait
| deny
deriving DecidableEq

inductive ReasonCode where
| noReadings
| room
| nested
| weeklyExhausted
| sessionExhausted
| reserve
| concurrency
| queue
| waitExpired
deriving DecidableEq

def ReasonCode.asStr : ReasonCode → String
| .noReadings => "no-readings"
| .room => "room"
| .nested => "nested"
| .weeklyExhausted => "weekly-exhausted"
| .sessionExhausted => "session-exhausted"
| .reserve => "reserve"
| .concurrency => "concurrency"
| .queue => "queue"
| .waitExpired => "wait-expired"

structure Reason where
  code : ReasonCode
  message : String

structure Decision where
  kind : DecisionKind
  reason : Reason
  limitAfter : ℕ
  evaluated : Bool
  retryAfter : Option ℤ
  announce : Bool

/- How a time and a number of points are shown. -/
structure Render where
  utc : ℤ → String
  points : Float → String

end Governor

-- Rates

namespace Governor

open Base

def hour : Float := 3600.0

/- One window's rates, in points per hour. -/
structure WindowRate where
  burn : Option Float
  sustainable : Option Float

/- A difference, if it has 64 bits. -/
def checkedSub (x y : ℤ) : Option ℤ :=
  if i64Min ≤ x - y ∧ x - y ≤ i64Max then some (x - y)
  else none

def finite (x : Float) : Option Float :=
  if x.isFinite then some x else none

/- The last sample observed latest. -/
def newestSample (samples : List Sample) : Option Sample :=
  samples.foldl
    (fun best s =>
      match best with
      | none => some s
      | some b =>
        if b.observedAt ≤ s.observedAt then some s
        else some b)
    none

/- The first sample observed earliest. -/
def oldestSample (samples : List Sample) : Option Sample :=
  samples.foldl
    (fun best s =>
      match best with
      | none => some s
      | some b =>
        if s.observedAt < b.observedAt then some s
        else some b)
    none

/-
  Points per hour from the oldest to the newest sample of the
  newest one's reset window.
-/
def burnRate (samples : List Sample) : Option Float := do
  let valid := samples.filter fun s => s.usedPct.isFinite
  let newest ← newestSample valid
  let current := valid.filter fun s =>
    s.resetsAt == newest.resetsAt
  if current.length < 2 then none
  else
    let oldest ← oldestSample current
    let elapsed ←
      checkedSub newest.observedAt oldest.observedAt
    if elapsed ≤ 0 then none
    else
      let delta := newest.usedPct - oldest.usedPct
      if delta < 0.0 then none
      else finite (delta / (Float.ofInt elapsed / hour))

/- `remaining` points spread over the hours to the reset. -/
def sustainable
    (remaining : Float) (resetsAt : Option ℤ) (now : ℤ) :
    Option Float := do
  let left ← checkedSub (← resetsAt) now
  if left ≤ 0 ∨ !remaining.isFinite then none
  else finite (remaining / (Float.ofInt left / hour))

/- The signal of a set of windows, with a band in percent. -/
def signal (windows : List WindowRate) (bandPct : ℕ) :
    RateSignal :=
  let band := Float.ofNat (min bandPct 100) / 100.0
  let usable := windows.filterMap fun w => do
    let burn ← w.burn.bind finite
    let sust ← w.sustainable.bind finite
    return (burn, sust)
  if usable.isEmpty then .unknown
  else if usable.any
      (fun w => decide (w.2 * (1.0 + band) < w.1)) then
    .over
  else if usable.all
      (fun w => decide (w.1 < w.2 * (1.0 - band))) then
    .under
  else
    .steady

-- The limit

/- `x` between the bounds. -/
def clampNat (x low high : ℕ) : ℕ :=
  min (max x low) high

/- The next concurrency limit. -/
def nextLimit
    (limit : ℕ) (signal : RateSignal) (step max_ : ℕ) :
    ℕ :=
  let cap := max max_ 1
  let limit := clampNat limit 1 cap
  match signal with
  | .over => max (limit - step) 1
  | .under => min (addUpTo u32Max limit step) cap
  | .steady => limit
  | .unknown => limit

theorem clampNat_range (limit max_ : ℕ) :
    1 ≤ clampNat limit 1 (max max_ 1) ∧
      clampNat limit 1 (max max_ 1) ≤ max max_ 1 := by
  unfold clampNat
  omega

theorem nextLimit_range
    (limit : ℕ) (signal : RateSignal) (step max_ : ℕ) :
    1 ≤ nextLimit limit signal step max_ ∧
      nextLimit limit signal step max_ ≤ max max_ 1 := by
  have hRange := clampNat_range limit max_
  cases signal
  · dsimp only [nextLimit]
    omega
  · dsimp only [nextLimit]
    unfold addUpTo u32Max
    omega
  · exact hRange
  · exact hRange

end Governor

-- The order of the queue

namespace Governor

open Base

def governorWindowSecs : ℤ := 86400

def governorWindowCap : ℕ := 1024

/- Admissions to `workstream` in `admissions`. -/
def admissionsTo
    (workstream : String) (admissions : List Admission) :
    ℕ :=
  admissions.countP fun a => a.workstream == workstream

/- The key of a request of `class_` with ticket `seq`. -/
def keyFor
    (class_ : Class) (workstream : String) (seq : ℕ)
    (admissions : List Admission) :
    ℕ ×ₗ ℕ ×ₗ ℕ :=
  toLex (class_.rank, toLex (admissionsTo workstream admissions, seq))

def orderKey (e : QueueEntry) (admissions : List Admission) :
    ℕ ×ₗ ℕ ×ₗ ℕ :=
  keyFor e.class_ e.workstream e.seq admissions

/- The entry admitted next: the first with the least key. -/
def headEntry
    (entries : List QueueEntry) (admissions : List Admission) :
    Option QueueEntry :=
  entries.argmin fun e => orderKey e admissions

/- The seq of the entry admitted next, if any. -/
def head
    (entries : List QueueEntry) (admissions : List Admission) :
    Option ℕ :=
  (headEntry entries admissions).map QueueEntry.seq

/- The next seq to issue, moved past every queued one. -/
def repairedSeq (nextSeq : ℕ) (entries : List QueueEntry) : ℕ :=
  let past := entries.map fun e => addUpTo u64Max e.seq 1
  max (max nextSeq (past.max?.getD 1)) 1

/- The entries without the one that has the ticket. -/
def withoutSeq (seq : ℕ) (entries : List QueueEntry) :
    List QueueEntry :=
  entries.filter fun e => e.seq != seq

/- Admissions within the window, oldest first, newest kept. -/
def pruneWindow (admissions : List Admission) (now : ℤ) :
    List Admission :=
  let since := saturatingSub now governorWindowSecs
  let recent := admissions.filter fun a => since ≤ a.at_
  let sorted := recent.mergeSort fun a b => a.at_ ≤ b.at_
  sorted.drop (sorted.length - governorWindowCap)

-- What the head is ahead of

variable {entries : List QueueEntry}
variable {admissions : List Admission} {e : QueueEntry}

theorem headEntry_mem
    (hHead : headEntry entries admissions = some e) :
    e ∈ entries :=
  List.argmin_mem hHead

variable {f : QueueEntry}

theorem orderKey_headEntry_le
    (hHead : headEntry entries admissions = some e) (hMem : f ∈ entries) :
    orderKey e admissions ≤ orderKey f admissions :=
  List.le_of_mem_argmin hMem hHead

theorem headEntry_isSome
    (hMem : f ∈ entries) :
    ∃ e, headEntry entries admissions = some e := by
  cases hHead : headEntry entries admissions with
  | some e => exact ⟨e, rfl⟩
  | none =>
    rw [headEntry, List.argmin_eq_none] at hHead
    rw [hHead] at hMem
    cases hMem

/- A repaired counter is past every queued seq. -/
theorem addUpTo_le_repairedSeq
    {nextSeq : ℕ} (hMem : e ∈ entries) :
    addUpTo u64Max e.seq 1 ≤ repairedSeq nextSeq entries := by
  simp only [repairedSeq]
  cases hMax : (entries.map
      fun e => addUpTo u64Max e.seq 1).max? with
  | none =>
    rw [List.max?_eq_none_iff, List.map_eq_nil_iff] at hMax
    rw [hMax] at hMem
    cases hMem
  | some m =>
    have hLe : addUpTo u64Max e.seq 1 ≤ m :=
      (List.max?_eq_some_iff.mp hMax).2 _ (List.mem_map_of_mem hMem)
    simp only [Option.getD_some]
    omega

theorem le_repairedSeq
    (nextSeq : ℕ) (entries : List QueueEntry) :
    nextSeq ≤ repairedSeq nextSeq entries := by
  simp only [repairedSeq]
  omega

theorem keyFor_le_iff
    {c d : Class} {v w : String} {s t : ℕ} {admissions : List Admission} :
    keyFor c v s admissions ≤ keyFor d w t admissions ↔
      c.rank < d.rank ∨ c.rank = d.rank ∧
        (admissionsTo v admissions < admissionsTo w admissions ∨
          admissionsTo v admissions = admissionsTo w admissions ∧ s ≤ t) := by
  simp only [keyFor, Prod.Lex.toLex_le_toLex]

@[simp]
theorem admissionsTo_append
    (workstream : String) (admissions more : List Admission) :
    admissionsTo workstream (admissions ++ more) =
      admissionsTo workstream admissions + admissionsTo workstream more :=
  List.countP_append

@[simp]
theorem admissionsTo_singleton
    (workstream : String) (a : Admission) :
    admissionsTo workstream [a] =
      if a.workstream = workstream then 1 else 0 := by
  simp [admissionsTo, List.countP_cons]

variable {now : ℤ}

/- A window that drops nothing only reorders. -/
theorem pruneWindow_perm
    (hKept : (pruneWindow admissions now).length = admissions.length) :
    (pruneWindow admissions now).Perm admissions := by
  simp only [pruneWindow, List.length_drop] at hKept ⊢
  have hSorted := List.mergeSort_perm
    (admissions.filter fun a =>
      saturatingSub now governorWindowSecs ≤ a.at_)
    (fun a b => a.at_ ≤ b.at_)
  have hLength := hSorted.length_eq
  have hFilter := List.length_filter_le
    (fun a : Admission =>
      decide (saturatingSub now governorWindowSecs ≤ a.at_))
    admissions
  have hAll : (admissions.filter fun a =>
      saturatingSub now governorWindowSecs ≤ a.at_) =
        admissions :=
    List.filter_sublist.eq_of_length (by omega)
  have hNone : (List.mergeSort (admissions.filter fun a =>
      saturatingSub now governorWindowSecs ≤ a.at_)
        fun a b => a.at_ ≤ b.at_).length - governorWindowCap = 0 := by omega
  rw [hNone, List.drop_zero]
  exact hSorted.trans (by rw [hAll])

theorem admissionsTo_pruneWindow
    (hKept : (pruneWindow admissions now).length = admissions.length)
    (workstream : String) :
    admissionsTo workstream (pruneWindow admissions now) =
      admissionsTo workstream admissions := by
  have hPerm := pruneWindow_perm hKept
  unfold admissionsTo
  exact hPerm.countP_eq _

end Governor
