import Mathlib.Algebra.Order.Group.Int
import Mathlib.Data.List.Chain

/-
  The Gregorian calendar on whole days, before and after its
  introduction.
-/

-- Years

namespace Base

namespace Calendar

def isLeap (year : ℤ) : Bool :=
  year % 4 = 0 && (year % 100 ≠ 0 || year % 400 = 0)

def leapDay (year : ℤ) : ℤ :=
  if isLeap year then 1 else 0

/- The days from the first of January of year 1 to `year`'s. -/
def daysBeforeYear (year : ℤ) : ℤ :=
  365 * (year - 1) + (year - 1) / 4 - (year - 1) / 100 + (year - 1) / 400

theorem isLeap_iff {year : ℤ} :
    isLeap year = true ↔
      year % 4 = 0 ∧ (year % 100 ≠ 0 ∨ year % 400 = 0) := by
  simp [isLeap]

theorem daysBeforeYear_succ (year : ℤ) :
    daysBeforeYear (year + 1) = daysBeforeYear year + 365 + leapDay year := by
  unfold daysBeforeYear leapDay
  split
  · next hYes =>
      rw [isLeap_iff] at hYes
      omega
  · next hNo =>
      rw [isLeap_iff] at hNo
      omega

theorem daysBeforeYear_mono
    {a b : ℤ} (hLe : a ≤ b) :
    daysBeforeYear a ≤ daysBeforeYear b := by
  unfold daysBeforeYear
  omega

/- The cycles that a year completes, in days. -/
theorem daysBeforeYear_cycles
    {a c f e : ℤ} (hc : 0 ≤ c ∧ c ≤ 3) (hf : 0 ≤ f ∧ f ≤ 24)
    (he : 0 ≤ e ∧ e ≤ 3) :
    daysBeforeYear (400 * a + 100 * c + 4 * f + e + 1) =
      146097 * a + 36524 * c + 1461 * f + 365 * e := by
  have hFours :
      (400 * a + 100 * c + 4 * f + e) / 4 = 100 * a + 25 * c + f := by omega
  have hCenturies : (400 * a + 100 * c + 4 * f + e) / 100 = 4 * a + c := by
    omega
  have hCycles : (400 * a + 100 * c + 4 * f + e) / 400 = a := by omega
  rw [daysBeforeYear, Int.add_sub_cancel, hFours, hCenturies, hCycles]
  omega

/- The year that completes a hundred years is no leap year. -/
theorem leapDay_cycles
    {a c f e : ℤ} (hc : 0 ≤ c ∧ c ≤ 3) (hf : 0 ≤ f ∧ f ≤ 24) (he : e = 3) :
    leapDay (400 * a + 100 * c + 4 * f + e + 1) =
      if f = 24 ∧ c < 3 then 0 else 1 := by
  have hLeap :
      isLeap (400 * a + 100 * c + 4 * f + e + 1) = true ↔
        ¬ (f = 24 ∧ c < 3) := by
    rw [isLeap_iff]
    omega
  by_cases hHundred : f = 24 ∧ c < 3
  · rw [leapDay, if_neg fun hYes => hLeap.mp hYes hHundred, if_pos hHundred]
  · rw [leapDay, if_pos (hLeap.mpr hHundred), if_neg hHundred]

/-
  The year of a day counted from the first of January of
  year 1, by cycles of 400, 100, 4 and 1 years.
-/
def yearOf (day : ℤ) : ℤ :=
  let inCycle := day % 146097
  let centuries := min (inCycle / 36524) 3
  let inCentury := inCycle - centuries * 36524
  let fours := inCentury / 1461
  let inFour := inCentury % 1461
  let ones := min (inFour / 365) 3
  400 * (day / 146097) + 100 * centuries + 4 * fours + ones + 1

/- A year spans the days from its first to the next one's. -/
theorem daysBeforeYear_yearOf (day : ℤ) :
    daysBeforeYear (yearOf day) ≤ day ∧
      day < daysBeforeYear (yearOf day) + 365 + leapDay (yearOf day) := by
  generalize hc : min (day % 146097 / 36524) 3 = c
  generalize hr : day % 146097 - c * 36524 = r
  generalize hf : r / 1461 = f
  generalize he : min (r % 1461 / 365) 3 = e
  have hYear : yearOf day =
      400 * (day / 146097) + 100 * c + 4 * f + e + 1 := by
    simp only [yearOf, hc, hr, hf, he]
  have hcRange : 0 ≤ c ∧ c ≤ 3 := by omega
  have hrRange : 0 ≤ r ∧ r ≤ 36524 ∧ (c < 3 → r ≤ 36523) := by omega
  have hfRange : 0 ≤ f ∧ f ≤ 24 := by omega
  have heRange : 0 ≤ e ∧ e ≤ 3 := by omega
  rw [hYear, daysBeforeYear_cycles hcRange hfRange heRange]
  by_cases hLast : e = 3
  · rw [leapDay_cycles hcRange hfRange hLast]
    split <;> omega
  · have hLeap : 0 ≤ leapDay
        (400 * (day / 146097) + 100 * c + 4 * f + e + 1) := by
      unfold leapDay
      split <;> omega
    omega

-- Months

/- The days of a year before each month and after the last. -/
def monthStarts (year : ℤ) : List ℤ :=
  let leap := leapDay year
  [0, 31, 59 + leap, 90 + leap, 120 + leap, 151 + leap,
   181 + leap, 212 + leap, 243 + leap, 273 + leap, 304 + leap,
   334 + leap, 365 + leap]

/- The first month start after a day of the year. -/
def nextStart (year dayOfYear : ℤ) : Option ℤ :=
  (monthStarts year).find? fun start => dayOfYear < start

/- The first of the month after a day, counted alike. -/
def nextMonthStart (day : ℤ) : ℤ :=
  let year := yearOf day
  let start := daysBeforeYear year
  start + (nextStart year (day - start)).getD 0

/- The first number above `d` is near it when the gaps are small. -/
theorem find?_lt_of_gaps
    {d gap : ℤ} :
    ∀ {a : ℤ} {rest : List ℤ}, a ≤ d →
      (a :: rest).IsChain (fun x y => y ≤ x + gap) →
      (∃ s ∈ rest, d < s) →
      ∃ s, rest.find? (fun s => d < s) = some s ∧ d < s ∧ s ≤ d + gap := by
  intro a rest
  induction rest generalizing a with
  | nil => simp
  | cons b rest ih =>
    intro hLe hChain hAbove
    rw [List.isChain_cons_cons] at hChain
    by_cases hb : d < b
    · refine ⟨b, by simp [hb], hb, ?_⟩
      have hGap := hChain.1
      omega
    · rw [List.find?_cons_of_neg (by simpa using hb)]
      refine ih (not_lt.mp hb) hChain.2 ?_
      simpa [hb] using hAbove

theorem leapDay_range (year : ℤ) :
    0 ≤ leapDay year ∧ leapDay year ≤ 1 := by
  unfold leapDay
  split <;> decide

/- The next month starts within 31 days. -/
theorem nextMonthStart_range (day : ℤ) :
    day < nextMonthStart day ∧ nextMonthStart day ≤ day + 31 := by
  rcases daysBeforeYear_yearOf day with ⟨hLow, hHigh⟩
  have hLeap := leapDay_range (yearOf day)
  have hChain : (monthStarts (yearOf day)).IsChain fun x y => y ≤ x + 31 := by
    simp only [monthStarts, List.isChain_cons_cons,
      List.isChain_singleton, and_true]
    omega
  have hStart : ∃ start,
      nextStart (yearOf day)
          (day - daysBeforeYear (yearOf day)) = some start ∧
        day - daysBeforeYear (yearOf day) < start ∧
        start ≤ day - daysBeforeYear (yearOf day) + 31 := by
    have hFirst : 0 ≤ day - daysBeforeYear (yearOf day) := by omega
    rw [nextStart, monthStarts,
      List.find?_cons_of_neg (by simpa using hFirst)]
    refine find?_lt_of_gaps hFirst hChain
      ⟨365 + leapDay (yearOf day), by simp, by omega⟩
  rcases hStart with ⟨start, hNext, hAfter, hWithin⟩
  simp only [nextMonthStart, hNext, Option.getD_some]
  omega

/- The first of March of the year 2024. -/
example : nextMonthStart 738944 = 738945 := by decide

end Calendar

end Base
