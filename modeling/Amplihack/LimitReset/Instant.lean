import Amplihack.Base.Calendar
import Amplihack.Base.Numbers
import Amplihack.LimitReset.Fragment
import Mathlib.Order.Bounds.Basic

/-
  The instant that a reset's text names: the first of its
  clock time, on its date, that is at most ten minutes past.
-/

-- Dates

namespace LimitReset

open Base
open Base.Calendar

/- The years that have dates. -/
def minYear : ℤ := -262143

def maxYear : ℤ := 262142

/- Days are counted from the first of January of year 1. -/
def minDay : ℤ := daysBeforeYear minYear

def maxDay : ℤ := daysBeforeYear (maxYear + 1) - 1

def IsDay (d : ℤ) : Prop :=
  minDay ≤ d ∧ d ≤ maxDay

instance (d : ℤ) : Decidable (IsDay d) :=
  inferInstanceAs (Decidable (_ ∧ _))

def fromYmdOpt (year : ℤ) (month day : ℕ) : Option ℤ :=
  if ¬ (minYear ≤ year ∧ year ≤ maxYear) ∨ month = 0 then none
  else
    match (monthStarts year)[month - 1]?,
        (monthStarts year)[month]? with
    | some start, some next =>
      if 1 ≤ day ∧ day ≤ next - start then
        some (daysBeforeYear year + start + (day - 1))
      else none
    | _, _ => none

def succOpt (d : ℤ) : Option ℤ :=
  if IsDay (d + 1) then some (d + 1) else none

/- The first of January of 1970. -/
def epochDay : ℤ := 719162

/- A day of a number of seconds since then. -/
def dayOf (seconds : ℤ) : ℤ :=
  seconds / 86400 + epochDay

def andHmsOpt (d : ℤ) (hour minute : ℕ) : Option ℤ :=
  if hour < 24 ∧ minute < 60 then
    some ((d - epochDay) * 86400 + hour * 3600 + minute * 60)
  else none

def checkedAdd (local_ minutes : ℤ) : Option ℤ :=
  if IsDay (dayOf (local_ + 60 * minutes)) then
    some (local_ + 60 * minutes)
  else none

-- Zones

/- The instants at which a clock shows a time. -/
inductive LocalResult where
| none
| single (t : ℤ)
| ambiguous (a b : ℤ)
deriving DecidableEq

namespace LocalResult

def earliest : LocalResult → Option ℤ
| .none => Option.none
| .single t => some t
| .ambiguous a b => some (min a b)

def Has (t : ℤ) : LocalResult → Prop
| .none => False
| .single a => t = a
| .ambiguous a b => t = a ∨ t = b

end LocalResult

/-
  A zone of the compiled-in table: what its clock shows at an
  instant, and the instants at which it shows a time. Times
  most of a day apart come in their order.
-/
structure Zone where
  localAt : ℤ → Option ℤ
  fromLocal : ℤ → LocalResult
  shown : ∀ n t, (fromLocal n).Has t ↔ localAt t = some n
  ordered : ∀ n n' t t', n + 75600 ≤ n' →
    (fromLocal n).earliest = some t →
    (fromLocal n').earliest = some t' → t < t'
  instants : ∀ t n, localAt t = some n → i64Min + 600 ≤ t ∧ t ≤ i64Max
  dates : ∀ t n, localAt t = some n → IsDay (dayOf n)

def graceSecs : ℤ := 600

def maxGapMinutes : ℕ := 180

namespace Zone

variable (z : Zone)

/- The day that the zone has at an instant. -/
def dateAt (now : ℤ) : Option ℤ :=
  (z.localAt now).map dayOf

/-
  The earlier instant of a time that is shown twice, the first
  one after a gap.
-/
def resolve (naive : ℤ) : Option ℤ :=
  (List.range (maxGapMinutes + 1)).findSome? fun k : ℕ =>
    (checkedAdd naive k).bind fun t =>
      (z.fromLocal t).earliest

/- The instant of a clock time on a day. -/
def instant (hour minute : ℕ) (d : ℤ) : Option ℤ :=
  (andHmsOpt d hour minute).bind z.resolve

/- The instant of a clock time, on a date when there is one. -/
def choose
    (day : Option (ℕ × ℕ)) (hour minute : ℕ)
    (now : ℤ) : Option ℤ := do
  let today ← z.dateAt now
  let (first, later) := match day with
    | none => (some today, succOpt today)
    | some (month, day) =>
      (fromYmdOpt (yearOf today) month day,
        fromYmdOpt (yearOf today + 1) month day)
  match first.bind (z.instant hour minute) with
  | some t =>
    if saturatingSub now graceSecs ≤ t then some t
    else later.bind (z.instant hour minute)
  | none => later.bind (z.instant hour minute)

end Zone

/- The instant that a fragment names, from now. -/
def parse
    (lookup : List Char → Option Zone) (fragment : List Char)
    (now : ℤ) : Option ℤ := do
  let (day, hour, minute, name) ← read (cut fragment)
  let z ← lookup name
  z.choose day hour minute now

-- The instants a fragment names

/- The days on which the clock time counts. -/
def Names (day : Option (ℕ × ℕ)) (d : ℤ) : Prop :=
  match day with
  | none => IsDay d
  | some (month, day) =>
    ∃ year, fromYmdOpt year month day = some d

def NamedInstants
    (z : Zone) (day : Option (ℕ × ℕ))
    (hour minute : ℕ) : Set ℤ :=
  {t | ∃ d, Names day d ∧ z.instant hour minute d = some t}

/- The named instants that are not over by ten minutes. -/
def Upcoming
    (z : Zone) (day : Option (ℕ × ℕ)) (hour minute : ℕ)
    (now : ℤ) : Set ℤ :=
  {t | t ∈ NamedInstants z day hour minute ∧ now - 600 ≤ t}

/- One of them is within the next year. -/
def Soon
    (z : Zone) (day : Option (ℕ × ℕ)) (hour minute : ℕ)
    (now : ℤ) : Prop :=
  ∃ t ∈ Upcoming z day hour minute now, t ≤ now + 366 * 86400

/- The first of them is the result. -/
def Right
    (z : Zone) (day : Option (ℕ × ℕ)) (hour minute : ℕ) (now : ℤ)
    (result : Option ℤ) : Prop :=
  Soon z day hour minute now →
    ∃ t, result = some t ∧ IsLeast (Upcoming z day hour minute now) t

/-
  The named day `k` steps from today's: days, or for a date
  years.
-/
def nth (day : Option (ℕ × ℕ)) (today k : ℤ) : Option ℤ :=
  match day with
  | none => if IsDay (today + k) then some (today + k) else none
  | some (month, day) =>
    fromYmdOpt (yearOf today + k) month day

/-
  The clock time of every day before today (of every year
  before this one, for a date) is over by more than ten
  minutes, and when today's is over or never comes, the next
  one's does and is not over.
-/
structure OnTime
    (z : Zone) (day : Option (ℕ × ℕ)) (hour minute : ℕ)
    (now today : ℤ) : Prop where
  earlier : ∀ k < 0, ∀ t,
    (nth day today k).bind (z.instant hour minute) = some t → t < now - 600
  next :
    (∀ t, (nth day today 0).bind (z.instant hour minute) =
      some t → t < now - 600) →
    ∃ t, (nth day today 1).bind (z.instant hour minute) =
      some t ∧ now - 600 ≤ t

-- The order of the instants

theorem month_range
    {year start : ℤ} (hMem : start ∈ monthStarts year) :
    0 ≤ start ∧ start ≤ 365 + leapDay year := by
  have hLeap := leapDay_range year
  simp only [monthStarts, List.mem_cons, List.not_mem_nil, or_false] at hMem
  omega

theorem fromYmdOpt_range
    {year d : ℤ} {month day : ℕ}
    (hDate : fromYmdOpt year month day = some d) :
    IsDay d ∧ daysBeforeYear year ≤ d ∧ d < daysBeforeYear (year + 1) := by
  rw [fromYmdOpt] at hDate
  split at hDate
  next => cases hDate
  next hYear =>
    split at hDate
    next start next hStart hNext =>
      split at hDate
      next hDay =>
        have hLow := month_range (List.mem_of_getElem? hStart)
        have hHigh := month_range (List.mem_of_getElem? hNext)
        have hSucc := daysBeforeYear_succ year
        rw [not_or, not_not] at hYear
        have hFirst := daysBeforeYear_mono hYear.1.1
        have hLast : daysBeforeYear (year + 1) ≤
            daysBeforeYear (maxYear + 1) :=
          daysBeforeYear_mono (by omega)
        have hEq := Option.some.inj hDate
        refine ⟨⟨?_, ?_⟩, ?_, ?_⟩
        · rw [minDay]
          omega
        · rw [maxDay]
          omega
        · omega
        · omega
      next => cases hDate
    next => cases hDate

/- Named days come in their order. -/
theorem nth_lt
    {day : Option (ℕ × ℕ)} {today k k' d d' : ℤ}
    (hLess : k < k') (hDay : nth day today k = some d)
    (hDay' : nth day today k' = some d') :
    d < d' := by
  unfold nth at hDay hDay'
  cases day with
  | none =>
    dsimp only at hDay hDay'
    split at hDay
    next =>
      split at hDay'
      next =>
        have hEq := Option.some.inj hDay
        have hEq' := Option.some.inj hDay'
        omega
      next => cases hDay'
    next => cases hDay
  | some date =>
    have hRange := fromYmdOpt_range hDay
    have hRange' := fromYmdOpt_range hDay'
    have hYears :
        daysBeforeYear (yearOf today + k + 1) ≤
          daysBeforeYear (yearOf today + k') :=
      daysBeforeYear_mono (by omega)
    omega

theorem names_iff
    {day : Option (ℕ × ℕ)} (today d : ℤ) :
    Names day d ↔ ∃ k, nth day today k = some d := by
  unfold Names nth
  cases day with
  | none =>
    constructor
    · intro hDay
      refine ⟨d - today, ?_⟩
      have hEq : today + (d - today) = d := by omega
      simp only [hEq]
      exact if_pos hDay
    · rintro ⟨k, hNth⟩
      dsimp only at hNth
      split at hNth
      next hDay => exact Option.some.inj hNth ▸ hDay
      next => cases hNth
  | some date =>
    constructor
    · rintro ⟨year, hDate⟩
      refine ⟨year - yearOf today, ?_⟩
      have hEq : yearOf today + (year - yearOf today) =
          year := by omega
      simp only [hEq]
      exact hDate
    · rintro ⟨k, hNth⟩
      exact ⟨_, hNth⟩

section Order

variable {z : Zone}

theorem resolve_some
    {naive t : ℤ} (hSome : z.resolve naive = some t) :
    ∃ k : ℕ, k ≤ maxGapMinutes ∧
      (z.fromLocal (naive + 60 * k)).earliest = some t := by
  rcases List.exists_of_findSome?_eq_some hSome with ⟨k, hMem, hStep⟩
  rcases Option.bind_eq_some_iff.mp hStep with ⟨n, hAdd, hFirst⟩
  rw [checkedAdd] at hAdd
  split at hAdd
  next =>
    rw [← Option.some.inj hAdd] at hFirst
    refine ⟨k, ?_, hFirst⟩
    exact Nat.lt_succ_iff.mp (List.mem_range.mp hMem)
  next => cases hAdd

theorem resolve_of_earliest
    {naive t : ℤ} (hDay : IsDay (dayOf naive))
    (hFirst : (z.fromLocal naive).earliest = some t) :
    z.resolve naive = some t := by
  have hRange : List.range (maxGapMinutes + 1) =
      0 :: (List.range maxGapMinutes).map Nat.succ := List.range_succ_eq_map
  have hAdd : checkedAdd naive ((0 : ℕ) : ℤ) = some naive := by
    simp [checkedAdd, hDay]
  rw [Zone.resolve, hRange, List.findSome?_cons, hAdd,
    Option.bind_some, hFirst]

/- A clock time comes earlier on an earlier day. -/
theorem instant_lt
    {hour minute : ℕ} {d d' t t' : ℤ} (hLess : d < d')
    (hInstant : z.instant hour minute d = some t)
    (hInstant' : z.instant hour minute d' = some t') :
    t < t' := by
  rcases Option.bind_eq_some_iff.mp hInstant with ⟨n, hTime, hResolve⟩
  rcases Option.bind_eq_some_iff.mp hInstant' with ⟨n', hTime', hResolve'⟩
  rcases resolve_some hResolve with ⟨k, hGap, hFirst⟩
  rcases resolve_some hResolve' with ⟨k', hGap', hFirst'⟩
  refine z.ordered _ _ _ _ ?_ hFirst hFirst'
  unfold andHmsOpt at hTime hTime'
  split at hTime
  next hClock =>
    rw [if_pos hClock] at hTime'
    have hEq := Option.some.inj hTime
    have hEq' := Option.some.inj hTime'
    have hShort : k ≤ 180 := hGap
    omega
  next => cases hTime

end Order

-- The first instant

section First

variable {r : ℤ → Option ℤ}
variable {w : ℤ}

/- The term at 0 when it reaches the bound, else the next one. -/
def firstFrom (r : ℤ → Option ℤ) (w : ℤ) : Option ℤ :=
  match r 0 with
  | some t => if w ≤ t then some t else r 1
  | none => r 1

theorem firstFrom_here
    {t : ℤ} (hHere : r 0 = some t) (hReach : w ≤ t) :
    firstFrom r w = some t := by
  rw [firstFrom, hHere]
  exact if_pos hReach

theorem firstFrom_next
    (hOver : ∀ t, r 0 = some t → t < w) :
    firstFrom r w = r 1 := by
  rw [firstFrom]
  cases hHere : r 0 with
  | none => rfl
  | some t => exact if_neg (not_le.mpr (hOver t hHere))

section Ordered

variable (hOrder : ∀ k k' t t', k < k' → r k = some t →
  r k' = some t' → t < t')

include hOrder

/- A term that reaches the bound, and none before it does. -/
theorem isLeast_of_term
    {j t : ℤ} (hTerm : r j = some t) (hReach : w ≤ t)
    (hBefore : ∀ k < j, ∀ u, r k = some u → u < w) :
    IsLeast {t | (∃ k, r k = some t) ∧ w ≤ t} t := by
  refine ⟨⟨⟨j, hTerm⟩, hReach⟩, ?_⟩
  rintro u ⟨⟨k, hOther⟩, hHigh⟩
  rcases lt_trichotomy k j with hLess | rfl | hMore
  · have hLow := hBefore k hLess u hOther
    omega
  · rw [hTerm] at hOther
    exact (Option.some.inj hOther).le
  · exact (hOrder j k t u hMore hTerm hOther).le

theorem lt_of_isLeast
    {j k t u : ℤ} (hTerm : r j = some t)
    (hLeast : IsLeast {t | (∃ k, r k = some t) ∧ w ≤ t} t)
    (hLess : k < j) (hOther : r k = some u) :
    u < w := by
  by_contra hHigh
  have hLow := hLeast.2 ⟨⟨k, hOther⟩, not_lt.mp hHigh⟩
  have hOrdered := hOrder k j u t hLess hOther hTerm
  omega

/-
  Of terms in their order it is the least that reaches the
  bound, when none before 0 does and one of the two does.
-/
theorem isLeast_firstFrom_iff :
    (∃ t, firstFrom r w = some t ∧
      IsLeast {t | (∃ k, r k = some t) ∧ w ≤ t} t) ↔
    (∀ k < 0, ∀ t, r k = some t → t < w) ∧
      ((∀ t, r 0 = some t → t < w) → ∃ t, r 1 = some t ∧ w ≤ t) := by
  by_cases hHere : ∃ t, r 0 = some t ∧ w ≤ t
  · rcases hHere with ⟨t, hZero, hReach⟩
    rw [firstFrom_here hZero hReach]
    constructor
    · rintro ⟨s, hEq, hLeast⟩
      cases hEq
      refine ⟨?_, fun hOver => ?_⟩
      · intro k hBefore u hTerm
        exact lt_of_isLeast hOrder hZero hLeast hBefore hTerm
      · have hLess := hOver t hZero
        omega
    · rintro ⟨hEarlier, -⟩
      exact ⟨t, rfl, isLeast_of_term hOrder hZero hReach hEarlier⟩
  · have hOver : ∀ t, r 0 = some t → t < w := by
      intro t hZero
      by_contra hReach
      exact hHere ⟨t, hZero, not_lt.mp hReach⟩
    rw [firstFrom_next hOver]
    constructor
    · rintro ⟨t, hOne, hLeast⟩
      refine ⟨?_, fun _ => ⟨t, hOne, hLeast.1.2⟩⟩
      intro k hBefore u hTerm
      exact lt_of_isLeast hOrder hOne hLeast (by omega) hTerm
    · rintro ⟨hEarlier, hNext⟩
      rcases hNext hOver with ⟨t, hOne, hReach⟩
      refine ⟨t, hOne, isLeast_of_term hOrder hOne hReach ?_⟩
      intro k hBefore u hTerm
      have hCases : k < 0 ∨ k = 0 := by omega
      rcases hCases with hNegative | rfl
      · exact hEarlier k hNegative u hTerm
      · exact hOver u hTerm

end Ordered

end First

-- When the result is right

section Right

variable {z : Zone}
variable {day : Option (ℕ × ℕ)}
variable {hour minute : ℕ}
variable {now today : ℤ}

theorem saturatingSub_grace
    {shown : ℤ} (hNow : z.localAt now = some shown) :
    saturatingSub now graceSecs = now - 600 := by
  have hRange := z.instants now shown hNow
  rw [i64Max] at hRange
  rw [saturatingSub, saturate, if_neg, if_neg]
  · rfl
  · rw [graceSecs, i64Max]
    omega
  · rw [graceSecs]
    omega

/- The two days that are tried are the first and the second. -/
theorem choose_eq_firstFrom
    (hToday : z.dateAt now = some today) :
    z.choose day hour minute now =
      firstFrom (fun k =>
        (nth day today k).bind (z.instant hour minute))
        (now - 600) := by
  rcases Option.map_eq_some_iff.mp hToday with ⟨shown, hNow, hDay⟩
  have hIsDay : IsDay today := hDay ▸ z.dates now shown hNow
  rw [Zone.choose, hToday, firstFrom, saturatingSub_grace hNow]
  cases day with
  | none =>
    have hZero : nth none today 0 = some today := by simp [nth, hIsDay]
    rw [hZero]
    rfl
  | some date =>
    have hZero : nth (some date) today 0 =
        fromYmdOpt (yearOf today) date.1 date.2 := by simp [nth]
    rw [hZero]
    rfl

theorem upcoming_eq (today : ℤ) :
    Upcoming z day hour minute now =
      {t | (∃ k, (nth day today k).bind
        (z.instant hour minute) = some t) ∧ now - 600 ≤ t} := by
  ext t
  refine and_congr_left fun _ => ?_
  constructor
  · rintro ⟨d, hNames, hInstant⟩
    rcases (names_iff today d).mp hNames with ⟨k, hNth⟩
    exact ⟨k, by rw [hNth]; exact hInstant⟩
  · rintro ⟨k, hBind⟩
    rcases Option.bind_eq_some_iff.mp hBind with ⟨d, hNth, hInstant⟩
    exact ⟨d, (names_iff today d).mpr ⟨k, hNth⟩, hInstant⟩

theorem least_iff_onTime
    (hToday : z.dateAt now = some today) :
    (∃ t, z.choose day hour minute now = some t ∧
      IsLeast (Upcoming z day hour minute now) t) ↔
    OnTime z day hour minute now today := by
  rw [choose_eq_firstFrom hToday, upcoming_eq today, isLeast_firstFrom_iff]
  · exact ⟨fun h => ⟨h.1, h.2⟩, fun h => ⟨h.1, h.2⟩⟩
  · intro k k' t t' hLess hTerm hTerm'
    rcases Option.bind_eq_some_iff.mp hTerm with ⟨d, hNth, hInstant⟩
    rcases Option.bind_eq_some_iff.mp hTerm' with ⟨d', hNth', hInstant'⟩
    exact instant_lt (nth_lt hLess hNth hNth') hInstant hInstant'

theorem parse_eq_choose
    {lookup : List Char → Option Zone} {fragment name : List Char}
    (hText : FragmentText (cut fragment) day hour minute name)
    (hZone : lookup name = some z) (now : ℤ) :
    parse lookup fragment now = z.choose day hour minute now := by
  rw [parse, read_of_fragmentText hText]
  dsimp only [Option.bind_eq_bind, Option.bind_some]
  rw [hZone]
  rfl

/-
  A fragment is read as the first instant it names that is
  not over by ten minutes, exactly when no day before today
  has one and today's or the next day's is one.
-/
theorem parse_right_iff
    {lookup : List Char → Option Zone} {fragment name : List Char}
    (hText : FragmentText (cut fragment) day hour minute name)
    (hZone : lookup name = some z) (now : ℤ) :
    Right z day hour minute now (parse lookup fragment now) ↔
      (Soon z day hour minute now →
        ∃ today, z.dateAt now = some today ∧
          OnTime z day hour minute now today) := by
  rw [parse_eq_choose hText hZone]
  refine forall_congr' fun hSoon => ?_
  constructor
  · rintro ⟨t, hChoose, hLeast⟩
    rcases Option.bind_eq_some_iff.mp hChoose with ⟨today, hToday, -⟩
    exact ⟨today, hToday, (least_iff_onTime hToday).mp ⟨t, hChoose, hLeast⟩⟩
  · rintro ⟨today, hToday, hOnTime⟩
    exact (least_iff_onTime hToday).mpr hOnTime

end Right

-- Zones with a fixed offset

theorem isDay_range
    {shown : ℤ} (hDay : IsDay (dayOf shown)) :
    -9223372036854000000 ≤ shown ∧ shown ≤ 9223372036854000000 := by
  unfold IsDay dayOf minDay maxDay minYear maxYear
    daysBeforeYear epochDay at hDay
  omega

/- A clock that is always as far from universal time. -/
def fixedZone
    (offset : ℤ)
    (hOffset : -86400 < offset ∧ offset < 86400) : Zone where
  localAt t :=
    if IsDay (dayOf (t + offset)) then some (t + offset)
    else none
  fromLocal n :=
    if IsDay (dayOf n) then .single (n - offset) else .none
  shown := by
    intro n t
    constructor
    · intro hHas
      split at hHas
      next hDay =>
        have hEq : t + offset = n := by
          rw [show t = n - offset from hHas]
          omega
        rw [hEq, if_pos hDay]
      next => cases hHas
    · intro hAt
      split at hAt
      next hDay =>
        have hEq := Option.some.inj hAt
        rw [← hEq, if_pos hDay]
        change t = t + offset - offset
        omega
      next => cases hAt
  ordered := by
    intro n n' t t' hApart hFirst hFirst'
    split at hFirst
    next =>
      split at hFirst'
      next =>
        have hEq := Option.some.inj hFirst
        have hEq' := Option.some.inj hFirst'
        omega
      next => cases hFirst'
    next => cases hFirst
  instants := by
    intro t n hAt
    split at hAt
    next hDay =>
      have hRange := isDay_range hDay
      rw [i64Min, i64Max]
      omega
    next => cases hAt
  dates := by
    intro t n hAt
    split at hAt
    next hDay => exact Option.some.inj hAt ▸ hDay
    next => cases hAt

section Fixed

variable {offset : ℤ}
variable {hOffset : -86400 < offset ∧ offset < 86400}
variable {hour minute : ℕ}

theorem fixed_instant
    {d : ℤ} (hClock : hour < 24 ∧ minute < 60) (hDay : IsDay d) :
    (fixedZone offset hOffset).instant hour minute d =
      some ((d - epochDay) * 86400 + hour * 3600 + minute * 60 - offset) := by
  rw [Zone.instant, andHmsOpt, if_pos hClock, Option.bind_some]
  have hSame : dayOf ((d - epochDay) * 86400 + hour * 3600 +
      minute * 60) = d := by
    rw [dayOf]
    omega
  have hShown : IsDay (dayOf ((d - epochDay) * 86400 +
      hour * 3600 + minute * 60)) := by
    rw [hSame]
    exact hDay
  refine resolve_of_earliest hShown ?_
  exact congrArg LocalResult.earliest (if_pos hShown)

/-
  There it is the ten minutes after midnight that go wrong,
  for the clock times of the ten minutes before it.
-/
theorem fixed_onTime_iff
    {now : ℤ} (hClock : hour < 24 ∧ minute < 60)
    (hFirst : minDay < dayOf (now + offset))
    (hLast : dayOf (now + offset) < maxDay) :
    OnTime (fixedZone offset hOffset) none hour minute now
        (dayOf (now + offset)) ↔
      hour * 3600 + minute * 60 < 85800 + (now + offset) % 86400 := by
  generalize hToday : dayOf (now + offset) = today
    at hFirst hLast
  have hSplit : (today - epochDay) * 86400 +
      (now + offset) % 86400 = now + offset := by
    rw [← hToday, dayOf]
    omega
  have hNth : ∀ k, IsDay (today + k) →
      (nth none today k).bind
        ((fixedZone offset hOffset).instant hour minute) =
      some ((today + k - epochDay) * 86400 + hour * 3600 +
        minute * 60 - offset) := by
    intro k hDay
    rw [nth, if_pos hDay, Option.bind_some, fixed_instant hClock hDay]
  constructor
  · intro hOnTime
    have hYesterday := hNth (-1) ⟨by omega, by omega⟩
    have hOver := hOnTime.earlier (-1) (by decide) _ hYesterday
    omega
  · intro hLate
    refine ⟨?_, ?_⟩
    · intro k hBefore t hTerm
      rcases Option.bind_eq_some_iff.mp hTerm with ⟨d, hDay, -⟩
      have hIsDay : IsDay (today + k) := by
        rw [nth] at hDay
        split at hDay
        next hYes => exact hYes
        next => cases hDay
      rw [hNth k hIsDay] at hTerm
      have hEq := Option.some.inj hTerm
      omega
    · intro _
      refine ⟨_, hNth 1 ⟨by omega, by omega⟩, ?_⟩
      omega

end Fixed

-- Two resets

def utc : Zone := fixedZone 0 (by decide)

/- The only zone that is looked up here. -/
def onlyUtc (name : List Char) : Option Zone :=
  if name = "UTC".toList then some utc else none

theorem beforeMidnight_clock :
    ClockText
      (bytes "11" ++ (bytes ":" ++ (bytes "58" ++ bytes "pm")))
      23 58 := by
  have hHours : TwoDigits (bytes "11") := ⟨rfl, rfl⟩
  have hMinutes : TwoDigits (bytes "58") := ⟨rfl, rfl⟩
  exact .hourMinute hHours.digits (by decide) (by decide)
    hMinutes (by decide) (.pm rfl)

/- Two minutes before midnight, with a date or without. -/
theorem beforeMidnight_text :
    FragmentText (cut "11:58pm (UTC)".toList) none 23 58 "UTC".toList := by
  have hCut : cut "11:58pm (UTC)".toList =
      bytes "11" ++ (bytes ":" ++ (bytes "58" ++ bytes "pm")) ++
        (bytes " (" ++ (utf8 "UTC".toList ++ 41 :: [])) := by decide
  rw [hCut]
  exact .undated beforeMidnight_clock (by decide) (by decide)

theorem beforeNewYear_text :
    FragmentText (cut "Dec 31, 11:58pm (UTC)".toList)
      (some (12, 31)) 23 58 "UTC".toList := by
  have hCut : cut "Dec 31, 11:58pm (UTC)".toList =
      bytes "Dec" ++ bytes " " ++ bytes "31" ++ bytes ", " ++
        (bytes "11" ++ (bytes ":" ++
            (bytes "58" ++ bytes "pm")) ++
          (bytes " (" ++ (utf8 "UTC".toList ++ 41 :: []))) := by decide
  have hMonth : months[11]? = some ((bytes "Dec").map toLower) := rfl
  have hDate : DateText
      (bytes "Dec" ++ bytes " " ++ bytes "31" ++ bytes ", ")
      12 31 := .mk hMonth rfl (by decide)
  rw [hCut]
  exact .dated hDate beforeMidnight_clock (by decide) (by decide)

/- At three in the afternoon it is read as today's. -/
theorem parse_right_iff_of_afternoon :
    Right utc none 23 58 1792335600
      (parse onlyUtc "11:58pm (UTC)".toList 1792335600) := by
  refine (parse_right_iff beforeMidnight_text rfl
    1792335600).mpr fun _ => ⟨_, rfl, ?_⟩
  exact (fixed_onTime_iff (by decide) (by decide) (by decide)).mpr (by decide)

theorem not_right_of_earlier
    {z : Zone} {day : Option (ℕ × ℕ)} {hour minute : ℕ} {now s t : ℤ}
    (hUpcoming : s ∈ Upcoming z day hour minute now)
    (hSoon : s ≤ now + 366 * 86400) (hLess : s < t) :
    ¬ Right z day hour minute now (some t) := by
  intro hRight
  rcases hRight ⟨s, hUpcoming, hSoon⟩ with ⟨u, hEq, hLeast⟩
  have hLow := hLeast.2 hUpcoming
  have hSame := Option.some.inj hEq
  omega

/-
  Five minutes after midnight, and after new year, a reset
  seven minutes ago is moved a day, and a year, ahead.
-/
theorem reset_before_midnight :
    (parse onlyUtc "11:58pm (UTC)".toList 1792368300 = some 1792454280 ∧
      1792367880 ∈ Upcoming utc none 23 58 1792368300 ∧
      ¬ Right utc none 23 58 1792368300
        (parse onlyUtc "11:58pm (UTC)".toList 1792368300)) ∧
    (parse onlyUtc "Dec 31, 11:58pm (UTC)".toList 1798761900 =
        some 1830297480 ∧
      1798761480 ∈ Upcoming utc (some (12, 31)) 23 58 1798761900 ∧
      ¬ Right utc (some (12, 31)) 23 58 1798761900
        (parse onlyUtc "Dec 31, 11:58pm (UTC)".toList 1798761900)) := by
  have hDay : parse onlyUtc "11:58pm (UTC)".toList
      1792368300 = some 1792454280 := by
    rw [parse_eq_choose beforeMidnight_text rfl]
    decide
  have hYear : parse onlyUtc "Dec 31, 11:58pm (UTC)".toList
      1798761900 = some 1830297480 := by
    rw [parse_eq_choose beforeNewYear_text rfl]
    decide
  have hYesterday : 1792367880 ∈ Upcoming utc none 23 58 1792368300 := by
    refine ⟨⟨739906, ?_, by decide⟩, by decide⟩
    exact (by decide : IsDay 739906)
  have hLastYear : 1798761480 ∈
      Upcoming utc (some (12, 31)) 23 58 1798761900 :=
    ⟨⟨739980, ⟨2026, by decide⟩, by decide⟩, by decide⟩
  refine ⟨⟨hDay, hYesterday, ?_⟩, hYear, hLastYear, ?_⟩
  · rw [hDay]
    exact not_right_of_earlier hYesterday (by decide) (by decide)
  · rw [hYear]
    exact not_right_of_earlier hLastYear (by decide) (by decide)

end LimitReset
