import Amplihack.Base.Search
import Amplihack.Base.Utf8
import Mathlib.Data.List.Nodup

/-
  The text of a usage limit's reset: an optional date, a clock
  time and a zone's name.
-/

-- Bytes

namespace LimitReset

open Base

abbrev Bytes := List UInt8

def bytes (s : String) : Bytes :=
  utf8 s.toList

def maxFragment : ℕ := 128

/- A place where no letter is cut in two. -/
def isCharBoundary (b : Bytes) (i : ℕ) : Bool :=
  i = 0 || i = b.length ||
    (match b[i]? with
    | some c => c < 128 || 192 ≤ c
    | none => false)

/- The last such place up to `i`. -/
def floorBoundary (b : Bytes) : ℕ → ℕ
| 0 => 0
| i + 1 =>
  if isCharBoundary b (i + 1) then i + 1
  else floorBoundary b i

/- What of a fragment is read. -/
def cut (fragment : List Char) : Bytes :=
  let b := utf8 fragment
  b.take (floorBoundary b (min b.length maxFragment))

def isDigit (c : UInt8) : Bool :=
  48 ≤ c && c ≤ 57

def toLower (c : UInt8) : UInt8 :=
  if 65 ≤ c ∧ c ≤ 90 then c + 32 else c

def number (d : Bytes) : ℕ :=
  d.foldl (fun acc c => acc * 10 + (c - 48).toNat) 0

-- The parts of a fragment

def months : List Bytes :=
  ["jan", "feb", "mar", "apr", "may", "jun", "jul", "aug",
    "sep", "oct", "nov", "dec"].map bytes

/- The month from 1, the day and the bytes after the date. -/
def date (b : Bytes) : Option (ℕ × ℕ × Bytes) := do
  if b.length < 3 then none
  else
    let mon := (b.take 3).map toLower
    let month ← months.findIdx? (· == mon)
    let rest ← (b.drop 3).dropPrefix? (bytes " ")
    let dLen := (rest.takeWhile isDigit).length
    if ¬ (1 ≤ dLen ∧ dLen ≤ 2) then none
    else
      let after ← (rest.drop dLen).dropPrefix? (bytes ", ")
      some (month + 1, number (rest.take dLen), after)

/- Zero or twelve hours for the two halves of a day. -/
def meridiem (rest : Bytes) : Option ℕ :=
  if rest.length < 2 then none
  else if (rest.take 2).map toLower = bytes "am" then some 0
  else if (rest.take 2).map toLower = bytes "pm" then some 12
  else none

/- The minutes after a colon and the bytes after them. -/
def minutes (rest : Bytes) : Option (Option ℕ × Bytes) :=
  match rest.dropPrefix? (bytes ":") with
  | none => some (none, rest)
  | some after =>
    if (after.takeWhile isDigit).length ≠ 2 then none
    else some (some (number (after.take 2)), after.drop 2)

/- The hour, the minute and the bytes after the clock time. -/
def clock (b : Bytes) : Option (ℕ × ℕ × Bytes) := do
  let hLen := (b.takeWhile isDigit).length
  if ¬ (1 ≤ hLen ∧ hLen ≤ 2) then none
  else
    let hour := number (b.take hLen)
    let (minute, rest) ← minutes (b.drop hLen)
    match meridiem rest with
    | some add =>
      if ¬ (1 ≤ hour ∧ hour ≤ 12) ∨
          minute.any (59 < ·) = true then none
      else
        some (hour % 12 + add, minute.getD 0, rest.drop 2)
    | none => do
        let minute ← minute
        if hLen = 2 ∧ hour ≤ 23 ∧ minute ≤ 59 then
          some (hour, minute, rest)
        else none

/- The zone's name between parentheses. -/
def zone (rest : Bytes) : Option (List Char) := do
  let inner ← rest.dropPrefix? (bytes " (")
  let close ← inner.findIdx? (· == 41)
  let name ← decodeUtf8 (inner.take close)
  if name.isEmpty then none else some name

/- The date, when there is one, the hour, the minute, the zone. -/
def read (b : Bytes) :
    Option (Option (ℕ × ℕ) × ℕ × ℕ × List Char) := do
  let (day, b) := match date b with
    | some (month, day, rest) => (some (month, day), rest)
    | none => (none, b)
  let (hour, minute, rest) ← clock b
  let name ← zone rest
  some (day, hour, minute, name)

-- The grammar

def Digits (b : Bytes) : Prop :=
  b.all isDigit = true

/- A month in any case and a day of one or two digits. -/
inductive DateText : Bytes → ℕ → ℕ → Prop
| mk {word digits : Bytes} {month : ℕ}
    (hMonth : months[month]? = some (word.map toLower))
    (hDigits : Digits digits)
    (hLength : 1 ≤ digits.length ∧ digits.length ≤ 2) :
    DateText (word ++ bytes " " ++ digits ++ bytes ", ")
      (month + 1) (number digits)

/- The two halves of a day, in any case. -/
inductive Half : Bytes → ℕ → Prop
| am {word : Bytes}
    (hWord : word.map toLower = bytes "am") : Half word 0
| pm {word : Bytes}
    (hWord : word.map toLower = bytes "pm") : Half word 12

structure TwoDigits (b : Bytes) : Prop where
  digits : Digits b
  length : b.length = 2

/- `H[:MM]am`, `H[:MM]pm` or `HH:MM`. -/
inductive ClockText : Bytes → ℕ → ℕ → Prop
| hour {digits word : Bytes} {add : ℕ}
    (hDigits : Digits digits)
    (hLength : 1 ≤ digits.length ∧ digits.length ≤ 2)
    (hHour : 1 ≤ number digits ∧ number digits ≤ 12)
    (hWord : Half word add) :
    ClockText (digits ++ word) (number digits % 12 + add) 0
| hourMinute {digits mm word : Bytes} {add : ℕ}
    (hDigits : Digits digits)
    (hLength : 1 ≤ digits.length ∧ digits.length ≤ 2)
    (hHour : 1 ≤ number digits ∧ number digits ≤ 12)
    (hMinutes : TwoDigits mm)
    (hMinute : number mm ≤ 59)
    (hWord : Half word add) :
    ClockText (digits ++ (bytes ":" ++ (mm ++ word)))
      (number digits % 12 + add) (number mm)
| full {hh mm : Bytes}
    (hHours : TwoDigits hh)
    (hHour : number hh ≤ 23)
    (hMinutes : TwoDigits mm)
    (hMinute : number mm ≤ 59) :
    ClockText (hh ++ (bytes ":" ++ mm)) (number hh) (number mm)

/- An optional date, a clock time, the zone and any text. -/
inductive FragmentText :
    Bytes → Option (ℕ × ℕ) → ℕ → ℕ → List Char → Prop
| undated {b tail : Bytes} {hour minute : ℕ}
    {name : List Char}
    (hClock : ClockText b hour minute)
    (hName : name ≠ [])
    (hClose : 41 ∉ utf8 name) :
    FragmentText
      (b ++ (bytes " (" ++ (utf8 name ++ 41 :: tail)))
      none hour minute name
| dated {d b tail : Bytes} {month day hour minute : ℕ}
    {name : List Char}
    (hDate : DateText d month day)
    (hClock : ClockText b hour minute)
    (hName : name ≠ [])
    (hClose : 41 ∉ utf8 name) :
    FragmentText
      (d ++ (b ++ (bytes " (" ++ (utf8 name ++ 41 :: tail))))
      (some (month, day)) hour minute name

-- What is in the grammar is read

variable {c : UInt8}

/- The digits in front of another byte. -/
theorem takeWhile_digits
    {ds rest : Bytes} (hDigits : Digits ds) (hOther : isDigit c = false) :
    (ds ++ c :: rest).takeWhile isDigit = ds := by
  rw [List.takeWhile_append_of_pos (List.all_eq_true.mp hDigits),
    List.takeWhile_cons_of_neg (by simp [hOther]), List.append_nil]

theorem dropPrefix?_append (a b : Bytes) :
    (a ++ b).dropPrefix? a = some b :=
  dropPrefix?_iff.mpr rfl

variable {month : ℕ} {word : Bytes}

theorem length_of_month
    (hMonth : months[month]? = some word) :
    word.length = 3 := by
  have hAll : months.all (·.length = 3) = true := rfl
  exact of_decide_eq_true
    (List.all_eq_true.mp hAll word (List.mem_of_getElem? hMonth))

theorem findIdx?_month
    (hMonth : months[month]? = some word) :
    months.findIdx? (· == word) = some month := by
  rcases List.getElem?_eq_some_iff.mp hMonth with ⟨hLess, hAt⟩
  have hDistinct : months.Nodup := by decide
  rw [List.findIdx?_eq_some_iff_getElem]
  refine ⟨hLess, by simp [hAt], ?_⟩
  intro j hBefore hSame
  have hEq : months[j] = months[month] := by
    rw [hAt]
    exact eq_of_beq hSame
  have hIndex := hDistinct.getElem_inj_iff.mp hEq
  omega

theorem date_dateText
    {d : Bytes} {month day : ℕ} (hDate : DateText d month day)
    (rest : Bytes) :
    date (d ++ rest) = some (month, day, rest) := by
  cases hDate with
  | @mk word digits month hMonth hDigits hLength =>
    have hWord : word.length = 3 := by simpa using length_of_month hMonth
    have hText :
        word ++ bytes " " ++ digits ++ bytes ", " ++ rest =
          word ++ (bytes " " ++ (digits ++ (bytes ", " ++ rest))) := by
      simp only [List.append_assoc]
    have hTake : (digits ++ (bytes ", " ++ rest)).takeWhile
        isDigit = digits := takeWhile_digits hDigits rfl
    have hLong : ¬ (word ++ (bytes " " ++
        (digits ++ (bytes ", " ++ rest)))).length < 3 := by
      rw [List.length_append]
      omega
    rw [hText, date, if_neg hLong]
    rw [List.take_left' hWord, List.drop_left' hWord, dropPrefix?_append]
    simp only [findIdx?_month hMonth, hTake, Option.bind_eq_bind,
      Option.bind_some]
    rw [if_neg (not_not.mpr hLength), List.drop_left,
      List.take_left, dropPrefix?_append]
    rfl

theorem toLower_digit
    (hDigit : isDigit c = true) :
    toLower c = c := by
  simp only [isDigit, Bool.and_eq_true, decide_eq_true_eq,
    UInt8.le_iff_toNat_le] at hDigit
  refine if_neg ?_
  simp only [UInt8.le_iff_toNat_le]
  rintro ⟨hLow, -⟩
  exact absurd (hLow.trans hDigit.2) (by decide)

/- No month starts with a digit. -/
theorem date_digit
    (hDigit : isDigit c = true) (rest : Bytes) :
    date (c :: rest) = none := by
  have hLetters : months.all (·.head?.all (!isDigit ·)) = true := rfl
  have hNone : months.findIdx?
      (· == ((c :: rest).take 3).map toLower) = none := by
    rw [List.findIdx?_eq_none_iff]
    intro word hMem
    rw [beq_eq_false_iff_ne]
    rintro rfl
    have hHead := List.all_eq_true.mp hLetters _ hMem
    simp [toLower_digit hDigit, hDigit] at hHead
  rw [date]
  split
  next => rfl
  next =>
    dsimp only
    rw [hNone]
    rfl

variable {b : Bytes} {hour minute : ℕ}

theorem ClockText.head
    (hClock : ClockText b hour minute) :
    ∃ c rest, b = c :: rest ∧ isDigit c = true := by
  have hDigit : ∀ digits rest : Bytes, Digits digits →
      1 ≤ digits.length →
      ∃ c more, digits ++ rest = c :: more ∧ isDigit c = true := by
    intro digits rest hDigits hLength
    cases digits with
    | nil => simp at hLength
    | cons c cs =>
      rw [Digits, List.all_cons, Bool.and_eq_true] at hDigits
      exact ⟨c, cs ++ rest, rfl, hDigits.1⟩
  cases hClock with
  | hour hDigits hLength => exact hDigit _ _ hDigits hLength.1
  | hourMinute hDigits hLength => exact hDigit _ _ hDigits hLength.1
  | full hHours =>
    exact hDigit _ _ hHours.digits (by rw [hHours.length]; decide)

variable {add : ℕ}

/- The word of a half is two letters. -/
theorem Half.length
    (hWord : Half word add) :
    word.length = 2 := by
  cases hWord with
  | am hWord =>
    rw [← List.length_map toLower, hWord]
    rfl
  | pm hWord =>
    rw [← List.length_map toLower, hWord]
    rfl

/- It starts with a letter. -/
theorem Half.head
    (hWord : Half word add) :
    ∃ c rest, word = c :: rest ∧ isDigit c = false ∧ c ≠ 58 := by
  have hLetter : ∀ c : UInt8, isDigit (toLower c) = false →
      toLower c ≠ 58 → isDigit c = false ∧ c ≠ 58 := by
    intro c hOther hColon
    refine ⟨?_, ?_⟩
    · rw [Bool.eq_false_iff]
      intro hDigit
      rw [toLower_digit hDigit, hDigit] at hOther
      cases hOther
    · rintro rfl
      exact hColon rfl
  have hSplit : ∀ a : UInt8, ∀ more : Bytes,
      word.map toLower = a :: more → isDigit a = false →
      a ≠ 58 → ∃ c rest, word = c :: rest ∧ isDigit c = false ∧ c ≠ 58 := by
    intro a more hMap hOther hColon
    rcases List.map_eq_cons_iff.mp hMap with ⟨c, rest, hText, hLower, -⟩
    rw [← hLower] at hOther hColon
    exact ⟨c, rest, hText, hLetter c hOther hColon⟩
  cases hWord with
  | am hWord => exact hSplit _ _ hWord rfl (by decide)
  | pm hWord => exact hSplit _ _ hWord rfl (by decide)

theorem meridiem_half
    (hWord : Half word add) (rest : Bytes) :
    meridiem (word ++ rest) = some add := by
  have hLength := hWord.length
  have hLong : ¬ (word ++ rest).length < 2 := by
    rw [List.length_append]
    omega
  rw [meridiem, if_neg hLong, List.take_left' hLength]
  cases hWord with
  | am hWord => rw [if_pos hWord]
  | pm hWord => rw [hWord, if_neg (by decide), if_pos rfl]

theorem minutes_none
    (hColon : c ≠ 58) (rest : Bytes) :
    minutes (c :: rest) = some (none, c :: rest) := by
  have hDrop : (c :: rest).dropPrefix? (bytes ":") = none := by
    rw [Option.eq_none_iff_forall_ne_some]
    intro after hAfter
    have hText := dropPrefix?_iff.mp hAfter
    exact hColon (List.cons.inj hText).1
  rw [minutes, hDrop]

theorem minutes_some
    {mm : Bytes} (hMinutes : TwoDigits mm)
    (hOther : isDigit c = false) (rest : Bytes) :
    minutes (bytes ":" ++ (mm ++ c :: rest)) =
      some (some (number mm), c :: rest) := by
  rw [minutes, dropPrefix?_append]
  dsimp only
  rw [takeWhile_digits hMinutes.digits hOther,
    if_neg (not_not.mpr hMinutes.length), List.take_left' hMinutes.length,
    List.drop_left' hMinutes.length]

variable {digits rest after : Bytes}

/- An hour of twelve, read with its half of the day. -/
theorem clock_half
    {minute : Option ℕ} (hDigits : Digits digits)
    (hLength : 1 ≤ digits.length ∧ digits.length ≤ 2)
    (hHour : 1 ≤ number digits ∧ number digits ≤ 12)
    (hOther : isDigit c = false)
    (hRead : minutes (c :: rest) = some (minute, word ++ after))
    (hMinute : minute.any (59 < ·) = false) (hWord : Half word add) :
    clock (digits ++ c :: rest) =
      some (number digits % 12 + add, minute.getD 0, after) := by
  rw [clock, takeWhile_digits hDigits hOther]
  dsimp only
  rw [if_neg (not_not.mpr hLength), List.take_left, List.drop_left, hRead]
  dsimp only [Option.bind_eq_bind, Option.bind_some]
  rw [meridiem_half hWord, List.drop_left' hWord.length]
  simp [hHour, hMinute]

/- Two digits of hours, read without a half. -/
theorem clock_full
    (hHours : TwoDigits digits) (hHour : number digits ≤ 23)
    (hOther : isDigit c = false)
    (hRead : minutes (c :: rest) = some (some minute, after))
    (hMinute : minute ≤ 59) (hNone : meridiem after = none) :
    clock (digits ++ c :: rest) = some (number digits, minute, after) := by
  have hLength : 1 ≤ digits.length ∧ digits.length ≤ 2 := by
    rw [hHours.length]
    decide
  rw [clock, takeWhile_digits hHours.digits hOther]
  dsimp only
  rw [if_neg (not_not.mpr hLength), List.take_left, List.drop_left, hRead]
  dsimp only [Option.bind_eq_bind, Option.bind_some]
  rw [hNone]
  simp [hHours.length, hHour, hMinute]

/- A clock time in front of a zone. -/
theorem clock_clockText
    (hClock : ClockText b hour minute) (rest : Bytes) :
    clock (b ++ (bytes " (" ++ rest)) =
      some (hour, minute, bytes " (" ++ rest) := by
  cases hClock with
  | hour hDigits hLength hHour hWord =>
    rcases hWord.head with ⟨c, w, hText, hOther, hColon⟩
    have hRead := minutes_none hColon (w ++ (bytes " (" ++ rest))
    rw [← List.cons_append, ← hText] at hRead
    rw [hText, List.append_assoc, List.cons_append]
    rw [hText] at hRead
    exact clock_half hDigits hLength hHour hOther hRead rfl (hText ▸ hWord)
  | @hourMinute digits mm word add hDigits hLength hHour
      hMinutes hMinute hWord =>
      rcases hWord.head with ⟨c, w, hText, hOther, -⟩
      have hRead := minutes_some hMinutes hOther (w ++ (bytes " (" ++ rest))
      rw [← List.cons_append, ← hText] at hRead
      have hAll : (some (number mm)).any (59 < ·) = false := by
        simpa using hMinute
      have hClock := clock_half hDigits hLength hHour
        (c := 58) rfl hRead hAll hWord
      rw [List.append_assoc, List.append_assoc, List.append_assoc]
      exact hClock
  | @full hh mm hHours hHour hMinutes hMinute =>
    have hRead := minutes_some (c := 32) hMinutes rfl (40 :: rest)
    have hClock := clock_full hHours hHour (c := 58) rfl hRead hMinute rfl
    rw [List.append_assoc, List.append_assoc]
    exact hClock

variable {name : List Char}

theorem zone_name
    (hName : name ≠ []) (hClose : 41 ∉ utf8 name) (tail : Bytes) :
    zone (bytes " (" ++ (utf8 name ++ 41 :: tail)) = some name := by
  have hFind : (utf8 name ++ 41 :: tail).findIdx? (· == 41) =
      some (utf8 name).length := by
    have hNone : (utf8 name).findIdx? (· == 41) = none := by
      rw [List.findIdx?_eq_none_iff]
      intro c hMem
      rw [beq_eq_false_iff_ne]
      rintro rfl
      exact hClose hMem
    rw [List.findIdx?_append, hNone, List.findIdx?_cons]
    simp
  rw [zone, dropPrefix?_append]
  simp only [Option.bind_eq_bind, Option.bind_some, hFind,
    List.take_left, decodeUtf8_utf8]
  rw [if_neg (by simp [hName])]

/- A text in the grammar is read as what it says. -/
theorem read_of_fragmentText
    {day : Option (ℕ × ℕ)} (hText : FragmentText b day hour minute name) :
    read b = some (day, hour, minute, name) := by
  cases hText with
  | @undated b tail hour minute name hClock hName hClose =>
    rcases hClock.head with ⟨c, rest, hHead, hDigit⟩
    have hDate : date (b ++ (bytes " (" ++
        (utf8 name ++ 41 :: tail))) = none := by
      rw [hHead, List.cons_append]
      exact date_digit hDigit _
    rw [read, hDate]
    dsimp only
    rw [clock_clockText hClock]
    dsimp only [Option.bind_eq_bind, Option.bind_some]
    rw [zone_name hName hClose]
    rfl
  | dated hDate hClock hName hClose =>
    rw [read, date_dateText hDate]
    dsimp only
    rw [clock_clockText hClock]
    dsimp only [Option.bind_eq_bind, Option.bind_some]
    rw [zone_name hName hClose]
    rfl

end LimitReset
