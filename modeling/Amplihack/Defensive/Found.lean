import Amplihack.Base.Search
import Amplihack.Defensive.Answer

/-
  When the JSON of an answer is found: unless the whole
  answer or a fenced block before it reads as something else.
-/

-- What the three strategies give

namespace Defensive

open Governor

variable {V : Type}

namespace JsonReader

variable (reader : JsonReader V)

/- The value of the first block that can be read. -/
def FirstRead (blocks : List Text) (v : V) : Prop :=
  ∃ earlier block later, blocks = earlier ++ block :: later ∧
    (∀ b ∈ earlier, ∀ w, reader.fromStr b ≠ .ok w) ∧
    reader.fromStr block = .ok v

/-
  Neither the whole answer nor, when that cannot be read, its
  first block that can, is another value.
-/
structure Undisturbed (text : Text) (v : V) : Prop where
  whole : ∀ w, reader.fromStr (trim text) = .ok w → w = v
  block :
    (∀ w, reader.fromStr (trim text) ≠ .ok w) →
    ∀ w, reader.FirstRead (fenceBlocks text) w → w = v

variable {reader}

theorem readBlocks_eq_ok_iff
    (lastError : Option String) {blocks : List Text} {v : V} :
    reader.readBlocks lastError blocks = .ok v ↔
      reader.FirstRead blocks v := by
  induction blocks generalizing lastError with
  | nil => simp [readBlocks, FirstRead]
  | cons b blocks ih =>
    unfold readBlocks
    cases hRead : reader.fromStr b with
    | ok w =>
      dsimp only
      constructor
      · intro hEq
        cases hEq
        exact ⟨[], b, blocks, rfl, by simp, hRead⟩
      · rintro ⟨earlier, block, later, hSplit, hFail, hOk⟩
        cases earlier with
        | nil =>
          cases hSplit
          rw [Except.ok.inj (hRead.symm.trans hOk)]
        | cons a earlier =>
          cases hSplit
          exact absurd hRead (hFail _ (by simp) w)
    | error e =>
      dsimp only
      rw [ih]
      constructor
      · rintro ⟨earlier, block, later, rfl, hFail, hOk⟩
        refine ⟨b :: earlier, block, later, rfl, ?_, hOk⟩
        intro a hMem w hEq
        rcases List.mem_cons.mp hMem with rfl | hMem
        · rw [hRead] at hEq
          cases hEq
        · exact hFail a hMem w hEq
      · rintro ⟨earlier, block, later, hSplit, hFail, hOk⟩
        cases earlier with
        | nil =>
          cases hSplit
          rw [hRead] at hOk
          cases hOk
        | cons a earlier =>
          cases hSplit
          exact ⟨earlier, block, later, rfl,
            fun c hMem => hFail c (by simp [hMem]), hOk⟩

theorem undisturbed_of_whole
    {text : Text} {v w : V} (hWhole : reader.fromStr (trim text) = .ok w) :
    reader.Undisturbed text v ↔ w = v := by
  constructor
  · intro hCalm
    exact hCalm.whole w hWhole
  · rintro rfl
    refine ⟨?_, fun hFail => absurd hWhole (hFail w)⟩
    intro u hOther
    exact Except.ok.inj (hOther.symm.trans hWhole)

/- When the whole cannot be read the blocks decide. -/
theorem undisturbed_of_blocks
    {text : Text} {v : V} (hFail : ∀ w, reader.fromStr (trim text) ≠ .ok w) :
    reader.Undisturbed text v ↔
      ∀ w, reader.readBlocks none (fenceBlocks text) = .ok w → w = v := by
  constructor
  · intro hCalm w hRead
    exact hCalm.block hFail w ((readBlocks_eq_ok_iff none).mp hRead)
  · intro hBlocks
    refine ⟨fun w hWhole => absurd hWhole (hFail w), ?_⟩
    intro _ w hFirst
    exact hBlocks w ((readBlocks_eq_ok_iff none).mpr hFirst)

section Core

variable {opening closing : Char}
variable {body lead trail : Text}
variable {v : V}

/- The value that is left is the one between the two sides. -/
theorem parse_core_iff
    (hPair : (opening, closing) ∈ pairs) (hBody : Balanced body)
    (hLead : lead.all (!isDelimiter ·) = true)
    (hRead : reader.fromStr (opening :: (body ++ [closing])) = .ok v) :
    reader.parseLlmJsonResult
        (lead ++ (opening :: (body ++ [closing])) ++ trail) =
      .ok v ↔
    reader.Undisturbed
      (lead ++ (opening :: (body ++ [closing])) ++ trail)
      v := by
  have hTrim :
      trim (lead ++ (opening :: (body ++ [closing])) ++
        trail) = _ := trim_core hPair lead trail
  have hPlain : (lead.dropWhile isWhiteSpace).all
      (!isDelimiter ·) = true := by
    rw [List.all_eq_true] at hLead ⊢
    intro c hMem
    exact hLead c (List.dropWhile_sublist _ |>.mem hMem)
  have hFound := extractBalancedJson_core hPair hBody hPlain
    (trail.reverse.dropWhile isWhiteSpace).reverse
  rw [← hTrim] at hFound
  generalize lead ++ (opening :: (body ++ [closing])) ++ trail = text
    at hTrim hFound ⊢
  have hNe : trim text ≠ [] := by
    rw [hTrim]
    simp
  unfold parseLlmJsonResult
  dsimp only
  rw [if_neg hNe, hFound]
  cases hWhole : reader.fromStr (trim text) with
  | ok w =>
    dsimp only
    rw [undisturbed_of_whole hWhole, Except.ok.injEq]
  | error e =>
    dsimp only
    rw [undisturbed_of_blocks (by simp [hWhole])]
    cases hBlocks :
      reader.readBlocks none (fenceBlocks text) with
    | ok w =>
      dsimp only
      simp only [Except.ok.injEq, forall_eq']
    | error lastError =>
      simp only [Option.map_some, hRead, true_iff]
      intro w hEq
      cases hEq

end Core

end JsonReader

-- Answers without fences of their own

/- The letter a fence is made of. -/
def grave : Char := Char.ofNat 96

/- A text in the middle of an answer. -/
def inline (lead s trail : Text) : Text :=
  lead ++ s ++ trail

/- A text between a fence line and a closing fence. -/
def fenced (lead s trail : Text) : Text :=
  inline (lead ++ fence ++ "json\n".toList) s ("\n".toList ++ fence ++ trail)

/- The first letter that is no blank is a quote. -/
def startsQuoted (lead : Text) : Bool :=
  (lead.dropWhile isWhiteSpace).head? = some '"'

variable {s trail : Text}

theorem noFence_start
    (hShort : s.length < 3) (hTrail : trail.head? ≠ some grave) :
    ¬ fence <+: s ++ trail := by
  intro hPrefix
  have hLetters : ∀ n < 3, fence[n]? = some grave := by
    intro n hLess
    rcases n with _ | _ | _ | n
    · rfl
    · rfl
    · rfl
    · omega
  have hAt : (s ++ trail)[s.length]? = some grave := by
    rcases hPrefix with ⟨rest, hText⟩
    rw [← hText, List.getElem?_append_left hShort]
    exact hLetters _ hShort
  rw [List.getElem?_append_right (le_refl _),
    Nat.sub_self, ← List.head?_eq_getElem?] at hAt
  exact hTrail hAt

/- A text with no fence in it goes to the piece as a whole. -/
theorem splitFences_append
    (hPlain : ¬ fence <:+: s)
    (hTrail : trail.head? ≠ some grave) (piece : Text) :
    splitFences 0 piece (s ++ trail) = splitFences 0 (piece ++ s) trail := by
  induction s generalizing piece with
  | nil => simp
  | cons c cs ih =>
    have hNone : fence.isPrefixOf (c :: cs ++ trail) =
        false := by
      rw [Bool.eq_false_iff, ne_eq, List.isPrefixOf_iff_prefix]
      intro hPrefix
      by_cases hShort : (c :: cs).length < 3
      · exact noFence_start hShort hTrail hPrefix
      · refine hPlain (List.IsPrefix.isInfix ?_)
        refine List.prefix_of_prefix_length_le hPrefix
          (List.prefix_append _ _) ?_
        have hLength : fence.length = 3 := rfl
        omega
    have hRest : ¬ fence <:+: cs :=
      fun hInfix => hPlain (List.infix_cons hInfix)
    rw [List.cons_append] at hNone ⊢
    rw [splitFences, if_neg (by simp [hNone]), ih hRest (piece ++ [c])]
    simp

/- Nor do letters that no fence has. -/
theorem splitFences_skip
    {front : Text} (hFront : ∀ c ∈ front, c ≠ grave) (piece rest : Text) :
    splitFences 0 piece (front ++ rest) =
      splitFences 0 (piece ++ front) rest := by
  induction front generalizing piece with
  | nil => simp
  | cons c cs ih =>
    rw [List.forall_mem_cons] at hFront
    have hNone : ¬ fence.isPrefixOf (c :: (cs ++ rest)) =
        true := by
      rw [List.isPrefixOf_iff_prefix]
      rintro ⟨more, hText⟩
      exact hFront.1 (List.cons.inj hText).1.symm
    rw [List.cons_append, splitFences, if_neg hNone,
      ih hFront.2 (piece ++ [c])]
    simp

theorem ne_grave_of_all
    (hAll : s.all (· ≠ grave) = true) :
    ∀ c ∈ s, c ≠ grave := by
  simpa using hAll

theorem noFence_inside
    (hPlain : ∀ c ∈ s, c ≠ grave) :
    ¬ fence <:+: s := by
  intro hInfix
  exact hPlain grave (hInfix.subset List.mem_cons_self) rfl

theorem splitFences_plain
    (hPlain : ∀ c ∈ s, c ≠ grave) (piece : Text) :
    splitFences 0 piece s = [piece ++ s] := by
  have hSplit := splitFences_skip hPlain piece []
  rw [List.append_nil] at hSplit
  rw [hSplit, splitFences]

theorem splitFences_fence (piece rest : Text) :
    splitFences 0 piece (fence ++ rest) = piece :: splitFences 0 [] rest := by
  have hIs : fence.isPrefixOf (fence ++ rest) = true := by
    rw [List.isPrefixOf_iff_prefix]
    exact List.prefix_append _ _
  change splitFences 0 piece (grave :: grave :: grave :: rest) = _
  rw [splitFences]
  exact if_pos hIs

theorem head?_ne_grave
    (hPlain : ∀ c ∈ s, c ≠ grave) :
    s.head? ≠ some grave := by
  intro hHead
  exact hPlain grave (List.mem_of_mem_head? hHead) rfl

section Plain

variable {lead s trail : Text}

theorem fenceBlocks_inline
    (hLead : ∀ c ∈ lead, c ≠ grave) (hTrail : ∀ c ∈ trail, c ≠ grave)
    (hPlain : ¬ fence <:+: s) :
    fenceBlocks (inline lead s trail) = [] := by
  rw [fenceBlocks, inline, List.append_assoc, splitFences_skip hLead,
    splitFences_append hPlain (head?_ne_grave hTrail),
    splitFences_plain hTrail]
  rfl

/- The block between the fences is the only one. -/
theorem fenceBlocks_fenced
    (hLead : ∀ c ∈ lead, c ≠ grave) (hTrail : ∀ c ∈ trail, c ≠ grave)
    (hPlain : ¬ fence <:+: s) :
    fenceBlocks (fenced lead s trail) =
      [trim ("\n".toList ++ s ++ "\n".toList)] := by
  have hText : fenced lead s trail =
      lead ++ (fence ++ ("json\n".toList ++ (s ++
        ("\n".toList ++ (fence ++ trail))))) := by simp [fenced, inline]
  have hHead : ("\n".toList ++ (fence ++ trail)).head? ≠ some grave := by
    change some '\n' ≠ some grave
    decide
  rw [fenceBlocks, hText, splitFences_skip hLead, splitFences_fence,
    splitFences_skip (ne_grave_of_all (s := "json\n".toList) rfl),
    splitFences_append hPlain hHead,
    splitFences_skip (ne_grave_of_all (s := "\n".toList) rfl),
    splitFences_fence, splitFences_plain hTrail]
  rfl

end Plain

-- The answer as a whole

section Whole

variable {reader : JsonReader V}
variable {opening closing : Char}
variable {body lead rest : Text}
variable {v w : V}

theorem isBlank_of_isDelimiter
    {c : Char} (hDelimiter : isDelimiter c = true) :
    isBlank c = false := by
  cases hBlank : isBlank c with
  | false => rfl
  | true =>
    rw [isDelimiter_of_isBlank hBlank] at hDelimiter
    cases hDelimiter

theorem isBlank_of_not_isWhiteSpace
    {c : Char} (hWhite : isWhiteSpace c = false) :
    isBlank c = false := by
  cases hBlank : isBlank c with
  | false => rfl
  | true =>
    rw [isWhiteSpace_of_isBlank hBlank] at hWhite
    cases hWhite

/- Of two texts with one start the first letters agree. -/
theorem blanks_eq_nil
    {before s t : Text} {c : Char} (hText : c :: s = before ++ t)
    (hBefore : before.all isBlank = true) (hBlank : isBlank c = false) :
    before = [] := by
  cases before with
  | nil => rfl
  | cons b bs =>
    rw [List.cons_append, List.cons.injEq] at hText
    rw [List.all_cons, Bool.and_eq_true, ← hText.1, hBlank] at hBefore
    cases hBefore.1

/- One text has one balanced part at its start. -/
theorem core_unique
    {a b : Char} {other after : Text}
    (hPair : (opening, closing) ∈ pairs) (hBody : Balanced body)
    (hPair' : (a, b) ∈ pairs) (hOther : Balanced other)
    (hText : opening :: (body ++ closing :: rest) =
      a :: (other ++ b :: after)) :
    rest = after := by
  have hHead : a = opening := (List.cons.inj hText).1.symm
  rcases pairs_apart hPair hPair' with ⟨-, rfl⟩ | hApart
  · have hWalk := walk_core hPair hBody rest
    rw [hText, hHead, walk_core hPair hOther after] at hWalk
    have hSame := Option.some.inj hWalk
    rw [List.cons.injEq, List.append_left_inj] at hSame
    rw [hSame.2] at hText
    have hTail := List.append_cancel_left (List.cons.inj hText).2
    exact (List.cons.inj hTail).2
  · exact absurd hHead hApart.1.2.1

/-
  Behind letters that start no string, the whole answer is
  read as the value of its core or not at all.
-/
theorem eq_of_whole
    (hPair : (opening, closing) ∈ pairs) (hBody : Balanced body)
    (hLead : lead.all (!isDelimiter ·) = true)
    (hFirst : ∀ c ∈ lead.head?, isWhiteSpace c = false ∧ c ≠ '"')
    (hRead : reader.fromStr (opening :: (body ++ [closing])) = .ok v)
    (hWhole : reader.fromStr
      (lead ++ (opening :: (body ++ [closing])) ++ rest) = .ok w) :
    w = v := by
  rcases pair_isDelimiter hPair with ⟨hOpening, -, -, -⟩
  cases hKind : reader.isContainer w with
  | true =>
    rcases reader.container _ w hWhole hKind with
      ⟨before, a, b, other, after, hBefore, hPair', hOther, hAfter, hText⟩
    cases lead with
    | nil =>
      have hStart :
          opening :: (body ++ closing :: rest) =
            before ++ (a :: (other ++ b :: after)) := by simpa using hText
      have hNil := blanks_eq_nil hStart hBefore
        (isBlank_of_isDelimiter hOpening)
      have hRest : rest = after := by
        rw [hNil] at hStart
        exact core_unique hPair hBody hPair' hOther hStart
      have hCore := reader.blanks []
        (opening :: (body ++ [closing])) rest w rfl
        (hRest ▸ hAfter) (by simpa using hWhole)
      exact Except.ok.inj (hCore.symm.trans hRead)
    | cons c cs =>
      -- the first letter is neither a blank nor a bracket
      have hBlank := isBlank_of_not_isWhiteSpace (hFirst c rfl).1
      have hStart :
          c :: (cs ++ opening :: (body ++ closing :: rest)) =
            before ++ (a :: (other ++ b :: after)) := by simpa using hText
      rw [blanks_eq_nil hStart hBefore hBlank, List.nil_append] at hStart
      have hHead := (List.cons.inj hStart).1
      rw [hHead, List.all_cons, (pair_isDelimiter hPair').1] at hLead
      cases hLead
  | false =>
    rcases reader.scalar _ w hWhole hKind with
      hQuote | hNone
    · cases lead with
      | nil =>
        rw [List.nil_append, List.cons_append,
          List.dropWhile_cons_of_neg
            (by simp [isBlank_of_isDelimiter hOpening])]
          at hQuote
        rw [Option.some.inj hQuote] at hOpening
        exact absurd hOpening (by decide)
      | cons c cs =>
        have hPlain := hFirst c rfl
        have hBlank := isBlank_of_not_isWhiteSpace hPlain.1
        rw [List.cons_append, List.cons_append,
          List.dropWhile_cons_of_neg (by simp [hBlank])]
          at hQuote
        exact absurd (Option.some.inj hQuote) hPlain.2
    · rw [List.all_append, List.all_append, List.all_cons, hOpening] at hNone
      simp at hNone

end Whole

-- Values with text on both sides

section Around

variable {reader : JsonReader V}
variable {front s back : Text}
variable {v w : V}

/-
  The core of a text is read as the text is, and the blanks
  around it go with what is on the two sides.
-/
theorem exists_core
    (hText : reader.fromStr s = .ok v)
    (hValue : reader.isContainer v = true) :
    ∃ before opening closing body after, before.all isBlank = true ∧
      (opening, closing) ∈ pairs ∧
      Balanced body ∧
      (∀ front back, inline front s back =
        (front ++ before) ++ (opening :: (body ++ [closing])) ++
          (after ++ back)) ∧
      after.all isBlank = true ∧
      reader.fromStr (opening :: (body ++ [closing])) = .ok v := by
  rcases reader.container s v hText hValue with
    ⟨before, opening, closing, body, after, hBefore, hPair,
      hBody, hAfter, hShape⟩
  refine ⟨before, opening, closing, body, after, hBefore,
    hPair, hBody, fun front back => ?_, hAfter, ?_⟩
  · rw [inline, hShape]
    simp only [List.append_assoc]
  · rw [hShape] at hText
    exact reader.blanks before _ after v hBefore hAfter hText

theorem all_plain_append
    {before : Text} (hFront : front.all (!isDelimiter ·) = true)
    (hBefore : before.all isBlank = true) :
    (front ++ before).all (!isDelimiter ·) = true := by
  rw [List.all_append, hFront, Bool.true_and, List.all_eq_true]
  intro c hMem
  rw [isDelimiter_of_isBlank (List.all_eq_true.mp hBefore c hMem)]
  rfl

/- Read unless another strategy has read something else. -/
theorem parse_around_iff
    (hText : reader.fromStr s = .ok v) (hValue : reader.isContainer v = true)
    (hFront : front.all (!isDelimiter ·) = true) :
    reader.parseLlmJsonResult (inline front s back) = .ok v ↔
      reader.Undisturbed (inline front s back) v := by
  rcases exists_core hText hValue with
    ⟨before, opening, closing, body, after, hBefore, hPair,
      hBody, hSplit, -, hRead⟩
  rw [hSplit]
  exact JsonReader.parse_core_iff hPair hBody
    (all_plain_append hFront hBefore) hRead

theorem dropWhile_blanks
    {before : Text} (hBefore : before.all isBlank = true) :
    before.dropWhile isWhiteSpace = [] := by
  rw [List.dropWhile_eq_nil_iff]
  intro c hMem
  exact isWhiteSpace_of_isBlank (List.all_eq_true.mp hBefore c hMem)

theorem startsQuoted_append_blanks
    {before : Text} (hFront : startsQuoted front = false)
    (hBefore : before.all isBlank = true) :
    startsQuoted (front ++ before) = false := by
  unfold startsQuoted at hFront ⊢
  rw [List.dropWhile_append]
  split
  next =>
    rw [dropWhile_blanks hBefore]
    rfl
  next hSome =>
    rw [List.isEmpty_iff] at hSome
    rw [List.head?_append_of_ne_nil _ hSome]
    exact hFront

/- The whole answer is no other value. -/
theorem eq_of_whole_around
    (hText : reader.fromStr s = .ok v) (hValue : reader.isContainer v = true)
    (hFront : front.all (!isDelimiter ·) = true)
    (hQuoted : startsQuoted front = false)
    (hWhole : reader.fromStr (trim (inline front s back)) = .ok w) :
    w = v := by
  rcases exists_core hText hValue with
    ⟨before, opening, closing, body, after, hBefore, hPair,
      hBody, hSplit, -, hRead⟩
  rw [hSplit, trim_core hPair] at hWhole
  have hPlain := all_plain_append hFront hBefore
  have hStart := startsQuoted_append_blanks hQuoted hBefore
  refine eq_of_whole hPair hBody ?_ ?_ hRead hWhole
  · rw [List.all_eq_true] at hPlain ⊢
    intro c hMem
    exact hPlain c (List.dropWhile_sublist _ |>.mem hMem)
  · intro c hHead
    have hWhite : isWhiteSpace c = false := by
      have hNot := List.head?_dropWhile_not isWhiteSpace (front ++ before)
      rw [Option.mem_def.mp hHead] at hNot
      exact hNot
    refine ⟨hWhite, ?_⟩
    rintro rfl
    rw [startsQuoted, Option.mem_def.mp hHead] at hStart
    simp at hStart

end Around

section Answer

variable {reader : JsonReader V}
variable {lead s trail : Text}
variable {v : V}

/- The line of a fence has no delimiter and no quote. -/
theorem fenceLine_plain
    (hLead : lead.all (!isDelimiter ·) = true) :
    (lead ++ fence ++ "json\n".toList).all (!isDelimiter ·) = true := by
  rw [List.all_append, List.all_append, hLead]
  decide

theorem startsQuoted_fenceLine
    (hQuoted : startsQuoted lead = false) :
    startsQuoted (lead ++ fence ++ "json\n".toList) =
      false := by
  unfold startsQuoted at hQuoted ⊢
  rw [List.append_assoc, List.dropWhile_append]
  split
  next => decide
  next hSome =>
    rw [List.isEmpty_iff] at hSome
    rw [List.head?_append_of_ne_nil _ hSome]
    exact hQuoted

/- The text between the fences is read as it is. -/
theorem fromStr_trim
    (hText : reader.fromStr s = .ok v)
    (hValue : reader.isContainer v = true) :
    reader.fromStr (trim ("\n".toList ++ s ++ "\n".toList)) = .ok v := by
  rcases exists_core hText hValue with
    ⟨before, opening, closing, body, after, hBefore, hPair,
      hBody, hSplit, hAfter, hRead⟩
  have hFront : ("\n".toList ++ before).all isBlank = true := by
    rw [List.all_append, hBefore]
    rfl
  have hBack : (after ++ "\n".toList).reverse.all isBlank = true := by
    rw [List.all_reverse, List.all_append, hAfter]
    rfl
  change reader.fromStr (trim (inline "\n".toList s "\n".toList)) = .ok v
  rw [hSplit, trim_core hPair, dropWhile_blanks hFront,
    dropWhile_blanks hBack]
  simpa using hRead

/-
  The JSON in an answer is found unless an earlier strategy
  reads something else, and always when no string is begun
  before it and it has no fence in it.
-/
theorem parse_iff
    (hText : reader.fromStr s = .ok v) (hValue : reader.isContainer v = true)
    (hLead : ∀ c ∈ lead, isDelimiter c = false ∧ c ≠ grave)
    (hTrail : ∀ c ∈ trail, c ≠ grave) :
    (∀ text ∈ [inline lead s trail, fenced lead s trail],
      (reader.parseLlmJsonResult text = .ok v ↔ reader.Undisturbed text v)) ∧
    (startsQuoted lead = false → ¬ fence <:+: s →
      ∀ text ∈ [inline lead s trail, fenced lead s trail],
        reader.parseLlmJsonResult text = .ok v) := by
  have hPlain : lead.all (!isDelimiter ·) = true := by
    rw [List.all_eq_true]
    intro c hMem
    rw [(hLead c hMem).1]
    rfl
  have hGrave : ∀ c ∈ lead, c ≠ grave :=
    fun c hMem => (hLead c hMem).2
  have hIff :
      ∀ text ∈ [inline lead s trail, fenced lead s trail],
        (reader.parseLlmJsonResult text = .ok v ↔
          reader.Undisturbed text v) := by
    intro text hMem
    rcases List.mem_pair.mp hMem with rfl | rfl
    · exact parse_around_iff hText hValue hPlain
    · exact parse_around_iff hText hValue (fenceLine_plain hPlain)
  refine ⟨hIff, ?_⟩
  intro hQuoted hFence text hMem
  rw [hIff text hMem]
  rcases List.mem_pair.mp hMem with rfl | rfl
  · refine ⟨?_, ?_⟩
    · intro w
      exact eq_of_whole_around hText hValue hPlain hQuoted
    · rintro - w ⟨earlier, block, later, hBlocks, -⟩
      rw [fenceBlocks_inline hGrave hTrail hFence] at hBlocks
      simp at hBlocks
  · refine ⟨?_, ?_⟩
    · intro w
      exact eq_of_whole_around hText hValue
        (fenceLine_plain hPlain)
        (startsQuoted_fenceLine hQuoted)
    · rintro - w ⟨earlier, block, later, hBlocks, -, hRead⟩
      rw [fenceBlocks_fenced hGrave hTrail hFence] at hBlocks
      have hMem : block ∈ earlier ++ block :: later := by simp
      rw [← hBlocks, List.mem_singleton] at hMem
      rw [hMem, fromStr_trim hText hValue] at hRead
      exact (Except.ok.inj hRead).symm

end Answer

-- A reader of a few texts

/- An array with a number in it, and a string of that text. -/
def oneItem : Text := "[1]".toList

def quotedItem : Text := '"' :: (oneItem ++ ['"'])

/- An object with the array between fences in a string. -/
def fencedMember : Text :=
  '\x7b' :: ('"' :: (['a'] ++ '"' :: ':' :: '"' ::
    (fence ++ oneItem ++ fence ++ ['"'])) ++ ['\x7d'])

def startsContainer (t : Text) : Bool :=
  t.head? = some '\x7b' || t.head? = some '['

/- What a reader of JSON gives for these, by their own texts. -/
def fewTexts (t : Text) : Except String Text :=
  let core := Base.strip isBlank t
  if core ∈ [oneItem, quotedItem, fencedMember] then .ok core
  else .error "expected value"

theorem fewTexts_eq_ok
    {t v : Text} (hRead : fewTexts t = .ok v) :
    v = Base.strip isBlank t ∧
      (v = oneItem ∨ v = quotedItem ∨ v = fencedMember) := by
  rw [fewTexts] at hRead
  split at hRead
  next hMem =>
    cases hRead
    exact ⟨rfl, by simpa using hMem⟩
  next => cases hRead

variable {t : Text}

theorem plainText_balanced
    (hPlain : t.all (fun c =>
      c ≠ '"' && !isDelimiter c) = true) :
    Balanced t := by
  induction t with
  | nil => exact Balanced.nil
  | cons c cs ih =>
    simp only [List.all_cons, Bool.and_eq_true,
      decide_eq_true_eq, Bool.not_eq_true'] at hPlain
    exact Balanced.plain hPlain.1.1 hPlain.1.2 (ih (by simpa using hPlain.2))

theorem plainText_stringBody
    (hPlain : t.all (fun c => c ≠ '"' && c ≠ '\\') = true) :
    StringBody t := by
  induction t with
  | nil => exact StringBody.nil
  | cons c cs ih =>
    simp only [List.all_cons, Bool.and_eq_true, decide_eq_true_eq] at hPlain
    exact StringBody.plain hPlain.1.1 hPlain.1.2
      (ih (by simpa using hPlain.2))

theorem container_around
    {opening closing : Char} {t body : Text}
    (hPair : (opening, closing) ∈ pairs) (hBody : Balanced body)
    (hCore : opening :: (body ++ [closing]) = Base.strip isBlank t) :
    ContainerText t := by
  rcases Base.exists_strip isBlank t with
    ⟨before, after, hBefore, hAfter, hText⟩
  refine ⟨before, opening, closing, body, after, hBefore,
    hPair, hBody, hAfter, ?_⟩
  rw [hCore]
  exact hText

def fewReader : JsonReader Text where
  fromStr := fewTexts
  isContainer := startsContainer
  blanks := by
    intro before t after v hBefore hAfter hRead
    rw [fewTexts, Base.strip_around hBefore hAfter] at hRead
    exact hRead
  container := by
    intro t v hRead hKind
    rcases fewTexts_eq_ok hRead with ⟨hCore, rfl | rfl | rfl⟩
    · have hPair : ('[', ']') ∈ pairs := by simp [pairs]
      have hBody : Balanced ['1'] := plainText_balanced rfl
      exact container_around hPair hBody hCore
    · cases hKind
    · have hPair : ('\x7b', '\x7d') ∈ pairs := by
        simp [pairs]
      have hName : StringBody ['a'] := plainText_stringBody rfl
      have hInner : StringBody (fence ++ oneItem ++ fence) :=
        plainText_stringBody rfl
      have hBody := Balanced.string hName
        (Balanced.plain (c := ':') (by decide) rfl
          (Balanced.string hInner Balanced.nil))
      exact container_around hPair hBody hCore
  scalar := by
    intro t v hRead hKind
    rcases fewTexts_eq_ok hRead with ⟨hCore, rfl | rfl | rfl⟩
    · cases hKind
    · rcases Base.exists_strip isBlank t with
        ⟨before, after, hBefore, -, hText⟩
      refine Or.inl ?_
      rw [hText, ← hCore, List.append_assoc,
        List.dropWhile_append_of_pos (List.all_eq_true.mp hBefore)]
      rfl
    · cases hKind

/- A list in an answer, without a fence and with one. -/
theorem parse_iff_of_list :
    fewReader.parseLlmJsonResult
        (inline "Here: ".toList oneItem " [".toList) =
      .ok oneItem ∧
    fewReader.parseLlmJsonResult
        (fenced "Here: ".toList oneItem " [".toList) =
      .ok oneItem := by
  have hText : fewReader.fromStr oneItem = .ok oneItem := rfl
  have hLead : ∀ c ∈ "Here: ".toList,
      isDelimiter c = false ∧ c ≠ grave := by simp [isDelimiter, grave]
  have hTrail : ∀ c ∈ " [".toList, c ≠ grave := by simp [grave]
  have hRead := (parse_iff hText rfl hLead hTrail).2 rfl
    (noFence_inside (ne_grave_of_all rfl))
  exact ⟨hRead _ (by simp), hRead _ (by simp)⟩

/-
  A list between fences in a string of an object is read in
  the object's place, and a string in that of the list in it.
-/
theorem fenced_string_is_read :
    fewReader.fromStr fencedMember = .ok fencedMember ∧
    fewReader.isContainer fencedMember = true ∧
    fewReader.parseLlmJsonResult
      (inline "Here: ".toList fencedMember []) = .ok oneItem ∧
    oneItem ≠ fencedMember ∧
    fewReader.fromStr oneItem = .ok oneItem ∧
    fewReader.isContainer oneItem = true ∧
    fewReader.parseLlmJsonResult
      (inline ['"'] oneItem ['"']) = .ok quotedItem ∧
    quotedItem ≠ oneItem := by
  refine ⟨rfl, rfl, rfl, ?_, rfl, rfl, rfl, ?_⟩
  · decide
  · decide

end Defensive
