import Mathlib.Data.List.Basic
import Amplihack.Base.Numbers

/-
  The deadline of a wait for a usage limit: the earliest row
  of the deadline table that applies, a tie named by the
  earlier row.
-/

-- Plans

namespace LimitWait

open Base

/- Added to a reset still in the future. -/
def margin : ℤ := 120

/- A reset further away than this is not waited for. -/
def fiveHours : ℤ := 5 * 3600

/- The wait ends this long before the step timeout. -/
def stepTimeoutLead : ℤ := 60

/- A capacity wait's length when nothing sets one. -/
def capacityDefaultMax : ℕ := 21600

/- Which row set the deadline. -/
inductive Bound where
| resetMargin
| maxWait
| stepTimeout
deriving DecidableEq

/- What a wait waits for. -/
inductive PlanKind where
| reset
| capacity
deriving DecidableEq

structure Plan where
  until_ : ℤ
  bound : Bound
  kind : PlanKind
  reset : Option ℤ

/- A step's start and timeout; a timeout of 0 does not apply. -/
def stepDeadline (now : ℤ) : Option (ℤ × ℕ) → Option ℤ
| some (start, timeout) =>
  if 0 < timeout then
    some (max
      (saturatingSub (saturatingAdd start (orMax timeout)) stepTimeoutLead)
      now)
  else none
| none => none

/- The earlier of a deadline and a candidate. -/
def consider (row least : Bound × ℤ) : Bound × ℤ :=
  if row.2 < least.2 then row else least

def considerOption
    (row : Option (Bound × ℤ)) (least : Bound × ℤ) :
    Bound × ℤ :=
  match row with
  | some row => consider row least
  | none => least

/- Until the reset and its margin, within five hours. -/
def resetUntil (now reset : ℤ) : ℤ :=
  if reset ≤ now then now
  else
    saturatingAdd (min reset (saturatingAdd now fiveHours)) margin

def plan
    (now reset : ℤ) (max : Option ℕ) (step : Option (ℤ × ℕ)) :
    Plan :=
  let first := (Bound.resetMargin, resetUntil now reset)
  let second := considerOption
    (max.map fun max =>
      (.maxWait, saturatingAdd now (orMax max)))
    first
  let least := considerOption
    ((stepDeadline now step).map fun stop =>
      (.stepTimeout, stop))
    second
  { until_ := least.2
    bound := least.1
    kind := .reset
    reset := some reset }

/-
  The reset of the login that failed, the maximum and the step
  timeout; a tie is the reset's before the maximum's.
-/
def planCapacity
    (now : ℤ) (reset : Option ℤ) (max : Option ℕ) (step : Option (ℤ × ℕ)) :
    Plan :=
  let first := (Bound.maxWait,
    saturatingAdd now (orMax (max.getD capacityDefaultMax)))
  let second :=
    match reset.filter (now < ·) with
    | some reset =>
      let stop := saturatingAdd reset margin
      if stop ≤ first.2 then (.resetMargin, stop) else first
    | none => first
  let least := considerOption
    ((stepDeadline now step).map fun stop =>
      (.stepTimeout, stop))
    second
  { until_ := least.2
    bound := least.1
    kind := .capacity
    reset := reset }

-- The Deadline Table

/- The rows that apply, in the order of the table. -/
def rows
    (now reset : ℤ) (max : Option ℕ) (step : Option (ℤ × ℕ)) :
    List (Bound × ℤ) :=
  [(.resetMargin, resetUntil now reset)] ++
    (max.map fun max =>
      (Bound.maxWait, saturatingAdd now (orMax max))).toList ++
    ((stepDeadline now step).map fun stop =>
      (Bound.stepTimeout, stop)).toList

def capacityRows
    (now : ℤ) (reset : Option ℤ) (max : Option ℕ) (step : Option (ℤ × ℕ)) :
    List (Bound × ℤ) :=
  ((reset.filter (now < ·)).map fun reset =>
      (Bound.resetMargin, saturatingAdd reset margin)).toList ++
    [(.maxWait, saturatingAdd now (orMax (max.getD capacityDefaultMax)))] ++
    ((stepDeadline now step).map fun stop =>
      (Bound.stepTimeout, stop)).toList

/- The first of the rows that no row is before. -/
structure Earliest
    (rows : List (Bound × ℤ)) (bound : Bound) (stop : ℤ) :
    Prop where
  first : rows.find? (·.2 = stop) = some (bound, stop)
  least : ∀ row ∈ rows, stop ≤ row.2

variable {rows : List (Bound × ℤ)}
variable {least : Bound × ℤ}
variable {now reset : ℤ}
variable {max : Option ℕ}
variable {step : Option (ℤ × ℕ)}

theorem earliest_singleton (row : Bound × ℤ) :
    Earliest [row] row.1 row.2 := by
  constructor
  case first => simp
  case least =>
    intro other hOther
    rw [List.mem_singleton.mp hOther]

/- A later row takes over only when it is earlier. -/
theorem Earliest.consider
    (hLeast : Earliest rows least.1 least.2) (row : Bound × ℤ) :
    Earliest (rows ++ [row]) (consider row least).1
      (consider row least).2 := by
  unfold LimitWait.consider
  split
  next hLess =>
    constructor
    case first =>
      have hNone : rows.find? (·.2 = row.2) = none := by
        rw [List.find?_eq_none]
        intro other hOther hSame
        have hLe := hLeast.least other hOther
        rw [of_decide_eq_true hSame] at hLe
        exact absurd hLess (not_lt.mpr hLe)
      rw [List.find?_append, hNone, Option.none_or]
      simp
    case least =>
      intro other hOther
      rcases List.mem_append.mp hOther with hOld | hNew
      · exact hLess.le.trans (hLeast.least other hOld)
      · rw [List.mem_singleton.mp hNew]
  next hLess =>
    constructor
    case first =>
      rw [List.find?_append, hLeast.first]
      rfl
    case least =>
      intro other hOther
      rcases List.mem_append.mp hOther with hOld | hNew
      · exact hLeast.least other hOld
      · rw [List.mem_singleton.mp hNew]
        exact not_lt.mp hLess

theorem Earliest.considerOption
    (hLeast : Earliest rows least.1 least.2) (row : Option (Bound × ℤ)) :
    Earliest (rows ++ row.toList) (considerOption row least).1
      (considerOption row least).2 := by
  cases row with
  | none =>
    rw [Option.toList_none, List.append_nil]
    exact hLeast
  | some row => exact hLeast.consider row

theorem plan_earliest
    (now reset : ℤ) (max : Option ℕ) (step : Option (ℤ × ℕ)) :
    Earliest (LimitWait.rows now reset max step)
      (plan now reset max step).bound
      (plan now reset max step).until_ :=
  ((earliest_singleton _).considerOption _).considerOption _

theorem planCapacity_earliest
    (now : ℤ) (reset : Option ℤ) (max : Option ℕ) (step : Option (ℤ × ℕ)) :
    Earliest (capacityRows now reset max step)
      (planCapacity now reset max step).bound
      (planCapacity now reset max step).until_ := by
  refine Earliest.considerOption ?_ _
  cases reset.filter (now < ·) with
  | none => exact earliest_singleton _
  | some reset =>
    dsimp only
    split
    next hLe =>
      constructor
      case first => simp
      case least =>
        intro row hRow
        rcases List.mem_cons.mp hRow with rfl | hSecond
        · exact le_refl _
        · rw [List.mem_singleton.mp hSecond]
          exact hLe
    next hLe =>
      have hLess := not_le.mp hLe
      constructor
      case first =>
        rw [Option.map_some, Option.toList_some,
          List.singleton_append, List.find?_cons_of_neg]
        · simp
        · simpa using hLess.ne'
      case least =>
        intro row hRow
        rcases List.mem_cons.mp hRow with rfl | hSecond
        · exact hLess.le
        · rw [List.mem_singleton.mp hSecond]

-- Bounds

variable {x y : ℤ}

theorem le_saturatingAdd
    (hHigh : x ≤ i64Max) (hNonneg : 0 ≤ y) :
    x ≤ saturatingAdd x y :=
  le_saturate (by omega) hHigh

theorem saturatingAdd_le
    (hLow : i64Min ≤ x) (hNonneg : 0 ≤ y) :
    saturatingAdd x y ≤ x + y :=
  saturate_le (by omega)

theorem orMax_nonneg (n : ℕ) : 0 ≤ orMax n := by
  unfold orMax i64Max
  split <;> omega

theorem resetUntil_bounds
    (hLow : i64Min ≤ now) (hHigh : now ≤ i64Max) :
    now ≤ resetUntil now reset ∧
      resetUntil now reset ≤ now + fiveHours + margin := by
  have hHours : (0 : ℤ) ≤ fiveHours := by decide
  have hMargin : (0 : ℤ) ≤ margin := by decide
  unfold resetUntil
  split
  next hPast => omega
  next hFuture =>
    have hCeiling := le_saturatingAdd hHigh hHours
    have hWithin := saturatingAdd_le hLow hHours
    have hMost := (saturate_range (now + fiveHours)).2
    change saturatingAdd now fiveHours ≤ i64Max at hMost
    have hLeast : now ≤ min reset (saturatingAdd now fiveHours) :=
      le_min (not_le.mp hFuture).le hCeiling
    have hUpper := min_le_right reset (saturatingAdd now fiveHours)
    have hUp := le_saturatingAdd (hUpper.trans hMost) hMargin
    have hDown := saturatingAdd_le (hLow.trans hLeast) hMargin
    omega

variable {stop : ℤ}

theorem le_stepDeadline
    (hStop : stepDeadline now step = some stop) :
    now ≤ stop := by
  unfold stepDeadline at hStop
  split at hStop
  · split at hStop
    · rw [← Option.some.inj hStop]
      exact le_max_right _ _
    · cases hStop
  · cases hStop

variable {row : Bound × ℤ}

theorem le_of_mem_stepRow
    (hRow : row ∈ ((stepDeadline now step).map fun stop =>
      (Bound.stepTimeout, stop)).toList) :
    now ≤ row.2 := by
  rw [Option.mem_toList, Option.map_eq_some_iff] at hRow
  obtain ⟨stop, hStop, rfl⟩ := hRow
  exact le_stepDeadline hStop

theorem le_of_mem_rows
    (hLow : i64Min ≤ now) (hHigh : now ≤ i64Max)
    (hRow : row ∈ LimitWait.rows now reset max step) :
    now ≤ row.2 := by
  unfold LimitWait.rows at hRow
  rcases List.mem_append.mp hRow with hFront | hStep
  · rcases List.mem_append.mp hFront with hReset | hMax
    · rw [List.mem_singleton.mp hReset]
      exact (resetUntil_bounds hLow hHigh).1
    · rw [Option.mem_toList, Option.map_eq_some_iff] at hMax
      obtain ⟨longest, -, rfl⟩ := hMax
      exact le_saturatingAdd hHigh (orMax_nonneg longest)
  · exact le_of_mem_stepRow hStep

theorem le_of_mem_capacityRows
    {own : Option ℤ} (hHigh : now ≤ i64Max)
    (hOwn : ∀ reset ∈ own, reset ≤ i64Max)
    (hRow : row ∈ capacityRows now own max step) :
    now ≤ row.2 := by
  unfold capacityRows at hRow
  rcases List.mem_append.mp hRow with hFront | hStep
  · rcases List.mem_append.mp hFront with hReset | hMax
    · rw [Option.mem_toList, Option.map_eq_some_iff] at hReset
      obtain ⟨reset, hReset, rfl⟩ := hReset
      rw [Option.filter_eq_some_iff, decide_eq_true_iff]
        at hReset
      exact hReset.2.le.trans
        (le_saturatingAdd (hOwn reset hReset.1) (by decide))
    · rw [List.mem_singleton.mp hMax]
      exact le_saturatingAdd hHigh (orMax_nonneg _)
  · exact le_of_mem_stepRow hStep

/- The earliest is a row, so what bounds the rows bounds it. -/
theorem Earliest.mem
    {bound : Bound} (hEarliest : Earliest rows bound stop) :
    (bound, stop) ∈ rows :=
  List.mem_of_find?_eq_some hEarliest.first

def stepOf : Option (Int64 × UInt64) → Option (ℤ × ℕ) :=
  Option.map fun step => (step.1.toInt, step.2.toNat)

/-
  The deadline of a wait for a reset, then that of a wait for
  another login, over all machine integers.
-/
theorem deadlines_bounded
    (now reset : Int64) (own : Option Int64)
    (max : Option UInt64) (step : Option (Int64 × UInt64)) :
    (now.toInt ≤
        (plan now.toInt reset.toInt (max.map UInt64.toNat)
          (stepOf step)).until_ ∧
      (plan now.toInt reset.toInt (max.map UInt64.toNat)
          (stepOf step)).until_ ≤
        now.toInt + fiveHours + margin ∧
      Earliest
        (LimitWait.rows now.toInt reset.toInt
          (max.map UInt64.toNat) (stepOf step))
        (plan now.toInt reset.toInt (max.map UInt64.toNat)
          (stepOf step)).bound
        (plan now.toInt reset.toInt (max.map UInt64.toNat)
          (stepOf step)).until_) ∧
      now.toInt ≤
        (planCapacity now.toInt (own.map Int64.toInt)
          (max.map UInt64.toNat) (stepOf step)).until_ ∧
      Earliest
        (capacityRows now.toInt (own.map Int64.toInt)
          (max.map UInt64.toNat) (stepOf step))
        (planCapacity now.toInt (own.map Int64.toInt)
          (max.map UInt64.toNat) (stepOf step)).bound
        (planCapacity now.toInt (own.map Int64.toInt)
          (max.map UInt64.toNat) (stepOf step)).until_ := by
  obtain ⟨hLow, hHigh⟩ := toInt_range now
  have hReset := plan_earliest now.toInt reset.toInt
    (max.map UInt64.toNat) (stepOf step)
  have hCapacity := planCapacity_earliest now.toInt
    (own.map Int64.toInt) (max.map UInt64.toNat) (stepOf step)
  have hOwn : ∀ reset ∈ own.map Int64.toInt, reset ≤ i64Max := by
    intro reset hReset
    obtain ⟨word, -, rfl⟩ := Option.map_eq_some_iff.mp hReset
    exact (toInt_range word).2
  refine ⟨⟨?_, ?_, hReset⟩, ?_, hCapacity⟩
  · exact le_of_mem_rows hLow hHigh hReset.mem
  · exact (hReset.least _ List.mem_cons_self).trans
      (resetUntil_bounds hLow hHigh).2
  · exact le_of_mem_capacityRows hHigh hOwn hCapacity.mem

end LimitWait
