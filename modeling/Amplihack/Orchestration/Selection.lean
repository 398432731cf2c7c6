import Amplihack.Orchestration.NVersion

/-
  When the version that is selected is the one the reviewer
  names, and one that succeeded.
-/

-- Leading digits

namespace Orchestration

/- The first decimal digit of a number. -/
def leading (n : ℕ) : ℕ :=
  if n < 10 then n else leading (n / 10)

theorem leading_of_lt {n : ℕ} (hLt : n < 10) :
    leading n = n := by
  rw [leading, if_pos hLt]

theorem leading_lt (n : ℕ) : leading n < 10 := by
  induction n using Nat.strongRecOn with
  | ind n ih =>
    rw [leading]
    split
    · assumption
    · exact ih (n / 10) (by omega)

theorem leading_le (n : ℕ) : leading n ≤ n := by
  induction n using Nat.strongRecOn with
  | ind n ih =>
    rw [leading]
    split
    · exact Nat.le_refl n
    · exact (ih (n / 10) (by omega)).trans (Nat.div_le_self n 10)

theorem leading_pos {n : ℕ} (hPos : 0 < n) :
    0 < leading n := by
  induction n using Nat.strongRecOn with
  | ind n ih =>
    rw [leading]
    split
    · exact hPos
    · exact ih (n / 10) (by omega) (by omega)

/- The digits of a number begin with its leading one. -/
theorem toDigits_eq_leading (n : ℕ) :
    ∃ rest, Nat.toDigits 10 n = (leading n).digitChar :: rest := by
  induction n using Nat.strongRecOn with
  | ind n ih =>
    rw [leading]
    split
    · next hLt =>
        exact ⟨[], Nat.toDigits_of_lt_base hLt⟩
    · rcases ih (n / 10) (by omega) with ⟨rest, hDigits⟩
      refine ⟨rest ++ [(n % 10).digitChar], ?_⟩
      rw [Nat.toDigits_of_base_le (by decide) (by omega),
        hDigits, List.cons_append]

theorem digitChar_inj :
    ∀ d < 10, ∀ e < 10, Nat.digitChar d = Nat.digitChar e → d = e := by
  decide

/- A number that begins another one has its leading digit. -/
theorem leading_of_isPrefix
    {i j : ℕ} (hPrefix : Nat.toDigits 10 i <+: Nat.toDigits 10 j) :
    leading i = leading j := by
  rcases toDigits_eq_leading i with ⟨rest, hLeft⟩
  rcases toDigits_eq_leading j with ⟨rest', hRight⟩
  rw [hLeft, hRight, List.cons_prefix_cons] at hPrefix
  exact digitChar_inj _ (leading_lt i) _ (leading_lt j) hPrefix.1

theorem leading_isPrefix (j : ℕ) :
    Nat.toDigits 10 (leading j) <+: Nat.toDigits 10 j := by
  rcases toDigits_eq_leading j with ⟨rest, hDigits⟩
  rw [Nat.toDigits_of_lt_base (leading_lt j), hDigits]
  exact ⟨rest, rfl⟩

-- Numbers in a text

/- The number that a text begins with, read to its end. -/
def numberAt (cs : List Char) : Option ℕ :=
  match cs.takeWhile Char.isDigit with
  | [] => none
  | c :: ds =>
    if c = '0' then none
    else some (Nat.ofDigitChars 10 (c :: ds) 0)

def markers : List String :=
  ["version ", "v"]

/- The numbers that follow a marker here. -/
def marksAt (cs : List Char) : List ℕ :=
  markers.filterMap fun marker =>
    if marker.toList.isPrefixOf cs then
      numberAt (cs.drop marker.toList.length)
    else none

/- The numbers that follow a marker anywhere in a text. -/
def markedNumbers (text : String) : List ℕ :=
  text.toList.tails.flatMap marksAt

def namedFrom : Option Char → List Char → List ℕ
| _, [] => []
| before, c :: cs =>
  (if before.all (!·.isAlphanum) then marksAt (c :: cs)
    else []) ++ namedFrom (some c) cs

/- Those whose marker begins a word. -/
def namedNumbers (text : String) : List ℕ :=
  namedFrom none text.toList

theorem namedFrom_subset
    (before : Option Char) (cs : List Char) :
    ∀ n ∈ namedFrom before cs, n ∈ cs.tails.flatMap marksAt := by
  induction cs generalizing before with
  | nil => intro n hMem; simp [namedFrom] at hMem
  | cons c cs ih =>
    intro n hMem
    rw [List.tails_cons, List.flatMap_cons, List.mem_append]
    rw [namedFrom, List.mem_append] at hMem
    rcases hMem with hHere | hLater
    · split at hHere
      · exact .inl hHere
      · simp at hHere
    · exact .inr (ih (some c) n hLater)

theorem namedNumbers_subset
    {text : String} {n : ℕ} (hMem : n ∈ namedNumbers text) :
    n ∈ markedNumbers text :=
  namedFrom_subset none text.toList n hMem

theorem digit_value
    {c : Char} (hDigit : c.isDigit = true) :
    c.toNat - '0'.toNat < 10 ∧ (c.toNat - '0'.toNat).digitChar = c := by
  rw [Char.isDigit_iff_toNat] at hDigit
  have hNine : '9'.toNat = '0'.toNat + 9 := rfl
  have hLt : c.toNat - '0'.toNat < 10 := by omega
  refine ⟨hLt, Char.toNat_inj.mp ?_⟩
  rw [Nat.toNat_digitChar_of_lt_ten hLt]
  have hZero : '0'.toNat = 48 := rfl
  omega

/- Digits that go on from a positive number. -/
theorem toDigits_append
    {acc : ℕ} {ds : List Char} (hPos : 0 < acc)
    (hDigits : ∀ c ∈ ds, c.isDigit = true) :
    Nat.toDigits 10 acc ++ ds =
      Nat.toDigits 10 (Nat.ofDigitChars 10 ds acc) := by
  induction ds generalizing acc with
  | nil => simp
  | cons c ds ih =>
    rcases digit_value (hDigits c List.mem_cons_self) with ⟨hLt, hChar⟩
    rw [Nat.ofDigitChars_cons, ← ih (by omega) fun d hMem =>
      hDigits d (List.mem_cons_of_mem _ hMem)]
    have hStep : Nat.toDigits 10 acc ++
        Nat.toDigits 10 (c.toNat - '0'.toNat) =
          Nat.toDigits 10 (10 * acc + (c.toNat - '0'.toNat)) :=
      Nat.toDigits_append_toDigits (by decide) hPos hLt
    rw [← hStep, Nat.toDigits_of_lt_base hLt, hChar]
    simp

/- A number that is read has the digits it is read from. -/
theorem numberAt_eq_some_iff
    {cs : List Char} {n : ℕ} :
    numberAt cs = some n ↔
      0 < n ∧ cs.takeWhile Char.isDigit = Nat.toDigits 10 n := by
  unfold numberAt
  have hDigits : ∀ c ∈ cs.takeWhile Char.isDigit, c.isDigit = true :=
    List.all_eq_true.mp List.all_takeWhile
  cases hRun : cs.takeWhile Char.isDigit with
  | nil =>
    rcases toDigits_eq_leading n with ⟨rest, hLeading⟩
    simp [hLeading]
  | cons c ds =>
    rw [hRun] at hDigits
    rcases digit_value (hDigits c List.mem_cons_self) with ⟨hLt, hChar⟩
    dsimp only
    split
    · next hZero =>
        refine iff_of_false (by simp) ?_
        rintro ⟨hPos, hEq⟩
        rcases toDigits_eq_leading n with ⟨rest, hLeading⟩
        rw [hLeading, hZero, List.cons.injEq] at hEq
        have hNone := digitChar_inj 0 (by decide) (leading n)
          (leading_lt n) hEq.1
        exact absurd (leading_pos hPos) (by omega)
    · next hNonzero =>
        have hPos : 0 < c.toNat - '0'.toNat := by
          rw [Nat.pos_iff_ne_zero]
          intro hZero
          rw [hZero] at hChar
          exact hNonzero hChar.symm
        have hValue : c :: ds =
            Nat.toDigits 10 (Nat.ofDigitChars 10 (c :: ds) 0) := by
          rw [Nat.ofDigitChars_cons, Nat.mul_zero, Nat.zero_add,
            ← toDigits_append hPos fun d hMem =>
              hDigits d (List.mem_cons_of_mem _ hMem),
            Nat.toDigits_of_lt_base hLt, hChar]
          rfl
        constructor
        · intro hSome
          rw [← Option.some.inj hSome]
          refine ⟨?_, hValue⟩
          rw [Nat.pos_iff_ne_zero]
          intro hZero
          rw [hZero, Nat.toDigits_of_lt_base (by decide),
            List.cons.injEq] at hValue
          exact hNonzero hValue.1
        · rintro ⟨-, hEq⟩
          rw [hEq, Nat.ofDigitChars_ten_toDigits]

theorem toList_toString (n : ℕ) :
    (toString n).toList = Nat.toDigits 10 n := by
  simp [toString, Nat.repr]

/- The text goes on with a positive number, perhaps longer. -/
theorem isPrefix_iff_numberAt
    {i : ℕ} (hPos : 0 < i) (cs : List Char) :
    Nat.toDigits 10 i <+: cs ↔
      ∃ j, numberAt cs = some j ∧
        Nat.toDigits 10 i <+: Nat.toDigits 10 j := by
  have hDigits : ∀ c ∈ Nat.toDigits 10 i, c.isDigit = true :=
    fun c hMem => Nat.isDigit_of_mem_toDigits (by decide) (by decide) hMem
  constructor
  · rintro ⟨rest, rfl⟩
    have hRun : (Nat.toDigits 10 i ++ rest).takeWhile
        Char.isDigit = Nat.toDigits 10 i ++ rest.takeWhile Char.isDigit :=
      List.takeWhile_append_of_pos hDigits
    have hJoined := toDigits_append hPos
      (List.all_eq_true.mp (List.all_takeWhile (l := rest)))
    rw [hJoined] at hRun
    refine ⟨_, numberAt_eq_some_iff.mpr ⟨?_, hRun⟩, ?_⟩
    · rw [Nat.pos_iff_ne_zero]
      intro hZero
      have hNil : Nat.toDigits 10 0 = [Nat.digitChar 0] := rfl
      rcases toDigits_eq_leading i with ⟨tail, hLeading⟩
      rw [hZero, hNil, hLeading, List.cons_append, List.cons.injEq] at hJoined
      have hNone := digitChar_inj (leading i) (leading_lt i) 0
        (by decide) hJoined.1
      exact absurd (leading_pos hPos) (by omega)
    · rw [← hJoined]
      exact List.prefix_append _ _
  · rintro ⟨j, hNumber, hPrefix⟩
    rw [numberAt_eq_some_iff] at hNumber
    rw [← hNumber.2] at hPrefix
    exact hPrefix.trans (List.takeWhile_prefix _)

/- A search for a version finds every number it begins. -/
theorem hasText_token_iff
    {i : ℕ} (hPos : 0 < i) (text : String) :
    (∃ marker ∈ markers, hasText text (marker ++ toString i) = true) ↔
      ∃ j ∈ markedNumbers text, Nat.toDigits 10 i <+: Nat.toDigits 10 j := by
  have hToken : ∀ (marker : String) (tail : List Char),
      (marker ++ toString i).toList.isPrefixOf tail = true ↔
        marker.toList.isPrefixOf tail = true ∧ ∃ j,
          numberAt (tail.drop marker.toList.length) = some j ∧
            Nat.toDigits 10 i <+: Nat.toDigits 10 j := by
    intro marker tail
    rw [String.toList_append, toList_toString, List.isPrefixOf_iff_prefix,
      List.isPrefixOf_iff_prefix, ← isPrefix_iff_numberAt hPos]
    constructor
    · rintro ⟨rest, rfl⟩
      rw [List.append_assoc, List.drop_left]
      exact ⟨⟨_, rfl⟩, ⟨rest, rfl⟩⟩
    · rintro ⟨⟨rest, rfl⟩, hNumber⟩
      rw [List.drop_left] at hNumber
      rw [List.prefix_append_right_inj]
      exact hNumber
  constructor
  · rintro ⟨marker, hMarker, hText⟩
    rcases List.any_eq_true.mp hText with ⟨tail, hTail, hHere⟩
    rcases (hToken marker tail).mp hHere with ⟨hBegins, j, hNumber, hPrefix⟩
    refine ⟨j, List.mem_flatMap.mpr ⟨tail, hTail, ?_⟩, hPrefix⟩
    refine List.mem_filterMap.mpr ⟨marker, hMarker, ?_⟩
    rw [if_pos hBegins]
    exact hNumber
  · rintro ⟨j, hMem, hPrefix⟩
    rcases List.mem_flatMap.mp hMem with ⟨tail, hTail, hMarks⟩
    rcases List.mem_filterMap.mp hMarks with ⟨marker, hMarker, hNumber⟩
    split at hNumber
    · next hBegins =>
        refine ⟨marker, hMarker, List.any_eq_true.mpr
          ⟨tail, hTail, (hToken marker tail).mpr
            ⟨hBegins, j, hNumber, hPrefix⟩⟩⟩
    · cases hNumber

theorem pos_of_mem_markedNumbers
    {text : String} {n : ℕ} (hMem : n ∈ markedNumbers text) :
    0 < n := by
  rcases List.mem_flatMap.mp hMem with ⟨tail, -, hMarks⟩
  rcases List.mem_filterMap.mp hMarks with ⟨marker, -, hNumber⟩
  split at hNumber
  · exact (numberAt_eq_some_iff.mp hNumber).1
  · cases hNumber

-- What is selected

namespace NVersion

variable {nv : NVersion}

def Succeeded (versions : List ProcessResult) (k : ℕ) : Prop :=
  ∃ r, versions[k]? = some r ∧ r.isSuccess = true

/- The answer selects a version, not a hybrid. -/
def Selecting (text : String) : Prop :=
  keywords.any (hasText text) = true ∧ hasText text "hybrid" = false

/-
  What is selected is a hybrid or a version that succeeded;
  and it is the one version that the answer names, if that
  one succeeded.
-/
structure Selects
    (versions : List ProcessResult) (text : String)
    (selected : Option String) :
    Prop where
  works : selected = some "hybrid" ∨ ∃ k,
    selected = some (versionName k) ∧ Succeeded versions k
  follows : ∀ k, Selecting text → k + 1 ∈ namedNumbers text →
    (∀ j ∈ namedNumbers text, j = k + 1) →
    Succeeded versions k → selected = some (versionName k)

/-
  The least leading digit of the numbers in the answer is that
  of a version that succeeded, or of none; and a version that
  is named alone has this digit for its number.
-/
structure ReadsRight
    (versions : List ProcessResult) (text : String) :
    Prop where
  works : Selecting text → ∀ j ∈ markedNumbers text,
    (∀ j' ∈ markedNumbers text, leading j ≤ leading j') →
      leading j ≤ versions.length → Succeeded versions (leading j - 1)
  alone : ∀ k, Selecting text → k + 1 ∈ namedNumbers text →
    (∀ j ∈ namedNumbers text, j = k + 1) →
    Succeeded versions k →
      k + 1 < 10 ∧ ∀ j ∈ markedNumbers text, k + 1 ≤ leading j

variable {versions : List ProcessResult} {k : ℕ}

theorem Succeeded.lt
    (hSucceeded : Succeeded versions k) :
    k < versions.length := by
  rcases hSucceeded with ⟨r, hGet, -⟩
  exact (List.getElem?_eq_some_iff.mp hGet).1

/- What the search for a version comes to. -/
def pick (n : ℕ) (text : String) : Option ℕ :=
  (List.range n).find? fun i =>
    (hasText text ("version " ++ toString (i + 1)) ||
      hasText text ("v" ++ toString (i + 1))) &&
      keywords.any (hasText text)

variable {text : String}

theorem pick_test_iff
    (hSelecting : Selecting text) (i : ℕ) :
    ((hasText text ("version " ++ toString (i + 1)) ||
        hasText text ("v" ++ toString (i + 1))) &&
        keywords.any (hasText text)) = true ↔
      ∃ j ∈ markedNumbers text,
        Nat.toDigits 10 (i + 1) <+: Nat.toDigits 10 j := by
  rw [hSelecting.1, Bool.and_true, Bool.or_eq_true,
    ← hasText_token_iff (Nat.succ_pos i)]
  simp [markers]

/- The version of the least leading digit is found. -/
theorem pick_eq_some
    {n i : ℕ} (hSelecting : Selecting text) (hPick : pick n text = some i) :
    (∃ j ∈ markedNumbers text, leading j = i + 1) ∧
      ∀ j ∈ markedNumbers text, i + 1 ≤ leading j := by
  rw [pick, List.find?_range_eq_some] at hPick
  rcases hPick with ⟨hHere, hIn, hBefore⟩
  rw [List.mem_range] at hIn
  have hLeast : ∀ j ∈ markedNumbers text, i + 1 ≤ leading j := by
    intro j hMem
    by_contra hLess
    have hPos := leading_pos (pos_of_mem_markedNumbers hMem)
    have hNot := hBefore (leading j - 1) (by omega)
    rw [Bool.not_eq_true', Bool.eq_false_iff, ne_eq,
      pick_test_iff hSelecting, Nat.sub_add_cancel hPos] at hNot
    exact hNot ⟨j, hMem, leading_isPrefix j⟩
  refine ⟨?_, hLeast⟩
  rcases (pick_test_iff hSelecting i).mp hHere with ⟨j, hMem, hPrefix⟩
  refine ⟨j, hMem, ?_⟩
  have hSame := leading_of_isPrefix hPrefix
  have hLe := leading_le (i + 1)
  have hGe := hLeast j hMem
  omega

variable {n : ℕ}

theorem pick_eq_none
    (hSelecting : Selecting text) (hPick : pick n text = none) :
    ∀ j ∈ markedNumbers text, n < leading j := by
  intro j hMem
  by_contra hLess
  have hPos := leading_pos (pos_of_mem_markedNumbers hMem)
  rw [pick, List.find?_eq_none] at hPick
  apply hPick (leading j - 1) (List.mem_range.mpr (by omega))
  rw [pick_test_iff hSelecting, Nat.sub_add_cancel hPos]
  exact ⟨j, hMem, leading_isPrefix j⟩

theorem exists_firstSuccessful
    (hSome : versions.any (·.isSuccess) = true) :
    ∃ k, firstSuccessful versions = some (versionName k) ∧
      Succeeded versions k := by
  cases hIndex : versions.findIdx? (·.isSuccess) with
  | none =>
    rw [List.findIdx?_eq_none_iff] at hIndex
    rcases List.any_eq_true.mp hSome with ⟨r, hMem, hSuccess⟩
    rw [hIndex r hMem] at hSuccess
    cases hSuccess
  | some k =>
    refine ⟨k, by rw [firstSuccessful, hIndex]; rfl, ?_⟩
    rcases List.findIdx?_eq_some_iff_getElem.mp hIndex with ⟨hLt, hSuccess, -⟩
    exact ⟨versions[k], List.getElem?_eq_getElem hLt, hSuccess⟩

/- What a successful review comes to. -/
theorem selected_eq
    {runReviewer : ClaudeProcess → ProcessResult}
    (hSome : versions.any (·.isSuccess) = true)
    (hReview : (runReviewer (nv.reviewer versions)).isSuccess = true) :
    (nv.outcome versions runReviewer).selected =
      (nv.parseSelection
        (runReviewer (nv.reviewer versions)).answer).or
          (firstSuccessful versions) := by
  rw [outcome, if_neg (by simp [hSome])]
  dsimp only
  rw [if_neg (by simp [hReview])]

variable {answer : String}

theorem parseSelection_of_selecting
    (hSelecting : Selecting (nv.toLowercase answer)) :
    nv.parseSelection answer =
      (pick nv.n (nv.toLowercase answer)).map versionName := by
  rw [parseSelection, if_neg (by simp [hSelecting.2])]
  rfl

/- Without a selecting word no version is read. -/
theorem parseSelection_of_not_selecting
    (hNot : ¬ Selecting (nv.toLowercase answer)) :
    nv.parseSelection answer = some "hybrid" ∨
      nv.parseSelection answer = none := by
  rw [parseSelection]
  split
  · exact .inl rfl
  · next hHybrid =>
      right
      have hWords : keywords.any
          (hasText (nv.toLowercase answer)) = false := by
        rw [Bool.eq_false_iff]
        intro hWords
        exact hNot ⟨hWords, Bool.eq_false_iff.mpr hHybrid⟩
      simp [hWords]

/- The version that is read from an answer with one number. -/
theorem pick_of_alone
    (hSelecting : Selecting text) (hLt : k < n)
    (hNamed : k + 1 ∈ namedNumbers text) :
    pick n text = some k ↔
      k + 1 < 10 ∧ ∀ j ∈ markedNumbers text, k + 1 ≤ leading j := by
  have hMarked := namedNumbers_subset hNamed
  constructor
  · intro hPick
    rcases pick_eq_some hSelecting hPick with ⟨⟨j, -, hLeading⟩, hLeast⟩
    have hDigit := leading_lt j
    exact ⟨by omega, hLeast⟩
  · rintro ⟨hDigit, hLeast⟩
    have hOwn := leading_of_lt hDigit
    cases hPick : pick n text with
    | none =>
      have hOver := pick_eq_none hSelecting hPick _ hMarked
      omega
    | some i =>
      rcases pick_eq_some hSelecting hPick with ⟨⟨j, hMem, hLeading⟩, hFirst⟩
      have hLow := hLeast j hMem
      have hHigh := hFirst _ hMarked
      rw [hOwn] at hHigh
      congr 1
      omega

section Chosen

variable {versions : List ProcessResult}
variable {n : ℕ}
variable {text : String}

/- The one version that is named and has succeeded. -/
theorem chosen_eq_iff
    {k : ℕ} (hSelecting : Selecting text) (hLt : k < n)
    (hNamed : k + 1 ∈ namedNumbers text) :
    ((pick n text).map versionName).or
        (firstSuccessful versions) = some (versionName k) ↔
      k + 1 < 10 ∧ ∀ j ∈ markedNumbers text, k + 1 ≤ leading j := by
  rw [← pick_of_alone hSelecting hLt hNamed]
  cases hPick : pick n text with
  | none =>
    have hOver := pick_eq_none hSelecting hPick _ (namedNumbers_subset hNamed)
    have hLe := leading_le (k + 1)
    omega
  | some i =>
    rw [Option.map_some, Option.some_or, Option.some.injEq, Option.some.injEq]
    exact ⟨versionName_inj, fun hEq => by rw [hEq]⟩

/- What is chosen is the version of the least digit. -/
theorem succeeded_of_chosen
    {j : ℕ} (hSelecting : Selecting text)
    (hChosen :
      ((pick n text).map versionName).or
          (firstSuccessful versions) = some "hybrid" ∨
        ∃ k, ((pick n text).map versionName).or
            (firstSuccessful versions) =
              some (versionName k) ∧ Succeeded versions k)
    (hMem : j ∈ markedNumbers text)
    (hLeast : ∀ j' ∈ markedNumbers text, leading j ≤ leading j')
    (hLe : leading j ≤ n) :
    Succeeded versions (leading j - 1) := by
  cases hPick : pick n text with
  | none =>
    have hOver := pick_eq_none hSelecting hPick j hMem
    omega
  | some i =>
    rcases pick_eq_some hSelecting hPick with ⟨⟨j', hMem', hLeading⟩, hFirst⟩
    have hHere : leading j = i + 1 := by
      have hLow := hLeast j' hMem'
      have hHigh := hFirst j hMem
      omega
    rw [hPick, Option.map_some, Option.some_or] at hChosen
    rcases hChosen with hHybrid | ⟨k, hName, hSucceeded⟩
    · exact absurd (Option.some.inj hHybrid) (versionName_ne_hybrid i)
    · have hSame := versionName_inj (Option.some.inj hName)
      rw [hHere, Nat.add_sub_cancel, hSame]
      exact hSucceeded

theorem exists_chosen
    (hSelecting : Selecting text) (hSome : versions.any (·.isSuccess) = true)
    (hWorks : ∀ j ∈ markedNumbers text,
      (∀ j' ∈ markedNumbers text, leading j ≤ leading j') →
        leading j ≤ n → Succeeded versions (leading j - 1)) :
    ∃ k, ((pick n text).map versionName).or
        (firstSuccessful versions) = some (versionName k) ∧
      Succeeded versions k := by
  cases hPick : pick n text with
  | none => exact exists_firstSuccessful hSome
  | some i =>
    rcases pick_eq_some hSelecting hPick with ⟨⟨j, hMem, hLeading⟩, hFirst⟩
    have hIn : i < n := List.mem_range.mp (List.mem_of_find?_eq_some hPick)
    have hLeast : ∀ j' ∈ markedNumbers text, leading j ≤ leading j' := by
      rw [hLeading]
      exact hFirst
    have hSucceeded := hWorks j hMem hLeast (by omega)
    rw [hLeading, Nat.add_sub_cancel] at hSucceeded
    exact ⟨i, rfl, hSucceeded⟩

end Chosen

/- Letters of the alphabet only. -/
def asciiVersions (n : ℕ) : NVersion where
  seconds := fun _ => "0.0"
  toLowercase := fun s => String.ofList (s.toList.map Char.toLower)
  session := ⟨none, none⟩
  taskPrompt := "sort a list"
  n := n
  selectionCriteria := none
  diversityProfiles := none

def answered (exitCode : Int) (output : String) :
    ProcessResult where
  exitCode := exitCode
  output := output
  stderr := ""
  durationMs := 0
  processId := "p"
  result := none
  producer := ⟨"", "p", none, none⟩

def allDone (n : ℕ) : List ProcessResult :=
  List.replicate n (answered 0 "done")

def namesSecond (_ : ClaudeProcess) : ProcessResult :=
  answered 0 "Best: Version 2"

end NVersion

end Orchestration
