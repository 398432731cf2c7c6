import Amplihack.Governor.Round

/-
  The JSON in an agent's answer: the whole text, a fenced
  block or the first balanced part.
-/

-- Balanced texts

namespace Defensive

open Governor

abbrev Text := List Char

/- The opening and closing delimiters. -/
def pairs : List (Char × Char) :=
  [('\x7b', '\x7d'), ('[', ']')]

def isDelimiter (c : Char) : Bool :=
  c = '\x7b' || c = '\x7d' || c = '[' || c = ']'

/- What stands between the quotes of a string. -/
inductive StringBody : Text → Prop
| nil : StringBody []
| plain {c : Char} {cs : Text}
    (hQuote : c ≠ '"')
    (hSlash : c ≠ '\\')
    (hRest : StringBody cs) :
    StringBody (c :: cs)
| escaped {c : Char} {cs : Text}
    (hRest : StringBody cs) :
    StringBody ('\\' :: c :: cs)

/- A text whose strings are closed and whose delimiters outside
   of strings are in pairs. -/
inductive Balanced : Text → Prop
| nil : Balanced []
| plain {c : Char} {cs : Text}
    (hQuote : c ≠ '"')
    (hPlain : isDelimiter c = false)
    (hRest : Balanced cs) :
    Balanced (c :: cs)
| string {body cs : Text}
    (hBody : StringBody body)
    (hRest : Balanced cs) :
    Balanced ('"' :: (body ++ '"' :: cs))
| nested {opening closing : Char} {body cs : Text}
    (hPair : (opening, closing) ∈ pairs)
    (hBody : Balanced body)
    (hRest : Balanced cs) :
    Balanced (opening :: (body ++ closing :: cs))

/- The blanks of JSON. -/
def isBlank (c : Char) : Bool :=
  c = ' ' || c = '\t' || c = '\n' || c = '\r'

/- The text of an object or array, with blanks around it. -/
def ContainerText (t : Text) : Prop :=
  ∃ before opening closing body after, before.all isBlank = true ∧
    (opening, closing) ∈ pairs ∧
    Balanced body ∧
    after.all isBlank = true ∧
    t = before ++ (opening :: (body ++ [closing])) ++ after

/- The text of a string, a number or a word. -/
def ScalarText (t : Text) : Prop :=
  (t.dropWhile isBlank).head? = some '"' ∨ t.all (!isDelimiter ·) = true

/-
  `serde_json::from_str`, of which the grammar of JSON is
  taken as given: the shape of a text that is read, and that
  the blanks around it do not matter.
-/
structure JsonReader (V : Type) where
  fromStr : Text → Except String V
  isContainer : V → Bool
  blanks : ∀ before t after v,
    before.all isBlank = true → after.all isBlank = true →
    fromStr (before ++ t ++ after) = .ok v → fromStr t = .ok v
  container : ∀ t v,
    fromStr t = .ok v → isContainer v = true → ContainerText t
  scalar : ∀ t v, fromStr t = .ok v → isContainer v = false → ScalarText t

-- Fenced blocks

/- Three grave accents. -/
def fence : Text := "```".toList

/- The text between the fences, with as many letters still to
   skip and the piece so far. -/
def splitFences : ℕ → Text → Text → List Text
| _, piece, [] => [piece]
| 0, piece, c :: cs =>
  if fence.isPrefixOf (c :: cs) then
    piece :: splitFences 2 [] cs
  else splitFences 0 (piece ++ [c]) cs
| skip + 1, piece, _ :: cs => splitFences skip piece cs

/- Every second piece, when a fence closes it. -/
def closedPieces : List Text → List Text
| _ :: piece :: next :: rest =>
  piece :: closedPieces (next :: rest)
| _ => []

/-
  The captures of the expression: the word after a fence goes
  first, and the blanks around a block are trimmed later.
-/
def fenceBlocks (text : Text) : List Text :=
  (closedPieces (splitFences 0 [] text)).map fun piece =>
    trim (if "json".toList.isPrefixOf piece then piece.drop 4
      else piece)

-- The first balanced part

def findJsonStart : Text → Option (Char × Char)
| [] => none
| c :: cs =>
  if c = '\x7b' then some ('\x7b', '\x7d')
  else if c = '[' then some ('[', ']')
  else findJsonStart cs

/- The letters up to the one that closes the first. -/
def walk (opening closing : Char) :
    ℤ → Bool → Bool → Text → Option Text
| _, _, _, [] => none
| depth, inString, escapeNext, c :: cs =>
  (if escapeNext then
    walk opening closing depth inString false cs
  else if c = '\\' ∧ inString = true then
    walk opening closing depth inString true cs
  else if c = '"' then
    walk opening closing depth (!inString) false cs
  else if inString then
    walk opening closing depth inString false cs
  else if c = opening then
    walk opening closing (depth + 1) inString false cs
  else if c = closing then
    if depth - 1 = 0 then some []
    else walk opening closing (depth - 1) inString false cs
  else walk opening closing depth inString false cs).map (c :: ·)

def extractBalancedJson (text : Text) : Option Text :=
  match findJsonStart text with
  | none => none
  | some (opening, closing) =>
    walk opening closing 0 false false (text.dropWhile (· ≠ opening))

-- Reading an answer

inductive ParseLlmJsonError where
| missing
| corrupt (detail : String)
deriving DecidableEq

namespace JsonReader

variable {V : Type}
variable (reader : JsonReader V)

/- The first block that is read, or the last error. -/
def readBlocks : Option String → List Text →
    Except (Option String) V
| lastError, [] => .error lastError
| _, block :: blocks =>
  match reader.fromStr block with
  | .ok v => .ok v
  | .error e => readBlocks (some e) blocks

def parseLlmJsonResult (text : Text) :
    Except ParseLlmJsonError V :=
  let trimmed := trim text
  if trimmed = [] then .error .missing
  else
    match reader.fromStr trimmed with
    | .ok v => .ok v
    | .error _ =>
      let blocks := fenceBlocks text
      match reader.readBlocks none blocks with
      | .ok v => .ok v
      | .error lastError =>
        let extracted :=
          (extractBalancedJson trimmed).map reader.fromStr
        match extracted with
        | some (.ok v) => .ok v
        | _ =>
          let lastError :=
            match extracted with
            | some (.error e) => some e
            | _ => lastError
          if !blocks.isEmpty ||
              (findJsonStart trimmed).isSome then
            .error (.corrupt (lastError.getD
              ("unbalanced or truncated JSON " ++ "payload")))
          else .error .missing

end JsonReader

-- The walk over a balanced text

section Walk

variable {opening closing : Char}
variable {depth : ℤ}

theorem walk_string_body
    {body : Text} (hBody : StringBody body) (rest : Text) :
    walk opening closing depth true false (body ++ rest) =
      (walk opening closing depth true false rest).map (body ++ ·) := by
  induction hBody with
  | nil => simp
  | @plain c cs hQuote hSlash _ ih =>
    rw [List.cons_append, walk]
    simp [hQuote, hSlash, ih, Function.comp_def]
  | @escaped c cs _ ih =>
    rw [List.cons_append, List.cons_append, walk]
    simp only [Bool.false_eq_true, if_false, and_self, if_true]
    rw [walk]
    simp [ih, Function.comp_def]

/- A whole string is passed over. -/
theorem walk_string
    {body : Text} (hBody : StringBody body) (rest : Text) :
    walk opening closing depth false false
        ('"' :: (body ++ '"' :: rest)) =
      (walk opening closing depth false false rest).map
        (fun t => '"' :: (body ++ '"' :: t)) := by
  rw [walk]
  simp only [Bool.false_eq_true, if_false, and_false, if_true, Bool.not_false]
  rw [walk_string_body hBody, walk]
  simp [Function.comp_def]

/- So is a letter that neither opens nor closes. -/
theorem walk_other
    {c : Char} (hQuote : c ≠ '"') (hOpening : c ≠ opening)
    (hClosing : c ≠ closing) (rest : Text) :
    walk opening closing depth false false (c :: rest) =
      (walk opening closing depth false false rest).map (c :: ·) := by
  rw [walk]
  simp [hQuote, hOpening, hClosing]

theorem walk_opening
    (hPair : (opening, closing) ∈ pairs) (rest : Text) :
    walk opening closing depth false false
        (opening :: rest) =
      (walk opening closing (depth + 1) false false rest).map
        (opening :: ·) := by
  have hQuote : opening ≠ '"' := by
    rcases List.mem_pair.mp hPair with hEq | hEq
    · cases hEq
      decide
    · cases hEq
      decide
  rw [walk]
  simp [hQuote]

theorem walk_closing
    (hPair : (opening, closing) ∈ pairs) (rest : Text) :
    walk opening closing depth false false
        (closing :: rest) =
      (if depth - 1 = 0 then some []
        else walk opening closing (depth - 1) false false
          rest).map (closing :: ·) := by
  have hOther : closing ≠ '"' ∧ closing ≠ opening := by
    rcases List.mem_pair.mp hPair with hEq | hEq
    · cases hEq
      decide
    · cases hEq
      decide
  rw [walk]
  simp [hOther.1, hOther.2]

/- Two pairs are the same or have no letter in common. -/
theorem pairs_apart
    {a b : Char} (hPair : (opening, closing) ∈ pairs)
    (hOther : (a, b) ∈ pairs) :
    a = opening ∧ b = closing ∨
      (a ≠ '"' ∧ a ≠ opening ∧ a ≠ closing) ∧
        b ≠ '"' ∧ b ≠ opening ∧ b ≠ closing := by
  rcases List.mem_pair.mp hPair with hEq | hEq
  all_goals
    rcases List.mem_pair.mp hOther with hSame | hSame
    all_goals
      cases hEq
      cases hSame
      decide

theorem ne_of_isDelimiter_eq_false
    {c : Char} (hPair : (opening, closing) ∈ pairs)
    (hPlain : isDelimiter c = false) :
    c ≠ opening ∧ c ≠ closing := by
  simp only [isDelimiter, Bool.or_eq_false_iff,
    decide_eq_false_iff_not] at hPlain
  rcases List.mem_pair.mp hPair with hEq | hEq
  · cases hEq
    exact ⟨hPlain.1.1.1, hPlain.1.1.2⟩
  · cases hEq
    exact ⟨hPlain.1.2, hPlain.2⟩

/- Inside of a pair a balanced text is passed over. -/
theorem walk_balanced
    {body : Text} (hPair : (opening, closing) ∈ pairs)
    (hBody : Balanced body) (hDepth : 1 ≤ depth) (rest : Text) :
    walk opening closing depth false false (body ++ rest) =
      (walk opening closing depth false false rest).map (body ++ ·) := by
  induction hBody generalizing depth rest with
  | nil => simp
  | @plain c cs hQuote hPlain _ ih =>
    rcases ne_of_isDelimiter_eq_false hPair hPlain with ⟨hOpening, hClosing⟩
    rw [List.cons_append, walk_other hQuote hOpening hClosing, ih hDepth]
    simp [Function.comp_def]
  | @string body cs hString _ ih =>
    have hText : '"' :: (body ++ '"' :: cs) ++ rest =
        '"' :: (body ++ '"' :: (cs ++ rest)) := by simp
    rw [hText, walk_string hString, ih hDepth]
    simp [Function.comp_def]
  | @nested a b body cs hNested _ _ ihBody ihRest =>
    have hText : a :: (body ++ b :: cs) ++ rest =
        a :: (body ++ b :: (cs ++ rest)) := by simp
    rw [hText]
    rcases pairs_apart hPair hNested with
      ⟨rfl, rfl⟩ | ⟨⟨hQuote, hOpening, hClosing⟩, hLast⟩
    -- a pair of the same kind goes one deeper and back
    · have hDeeper : ¬ depth + 1 - 1 = 0 := by omega
      rw [walk_opening hPair, ihBody (by omega), walk_closing hPair,
        if_neg hDeeper, add_sub_cancel_right, ihRest hDepth]
      simp [Function.comp_def]
    · rw [walk_other hQuote hOpening hClosing, ihBody hDepth,
        walk_other hLast.1 hLast.2.1 hLast.2.2, ihRest hDepth]
      simp [Function.comp_def]

/- From its opening letter the walk ends at the closing one. -/
theorem walk_core
    {body : Text} (hPair : (opening, closing) ∈ pairs)
    (hBody : Balanced body) (rest : Text) :
    walk opening closing 0 false false
        (opening :: (body ++ closing :: rest)) =
      some (opening :: (body ++ [closing])) := by
  rw [walk_opening hPair, walk_balanced hPair hBody (by decide),
    walk_closing hPair, if_pos (by decide)]
  rfl

end Walk

-- The value that is last tried

theorem isWhiteSpace_of_isBlank
    {c : Char} (hBlank : isBlank c = true) :
    isWhiteSpace c = true := by
  simp only [isBlank, Bool.or_eq_true, decide_eq_true_eq]
    at hBlank
  rcases hBlank with ((rfl | rfl) | rfl) | rfl
  all_goals decide

theorem isDelimiter_of_isBlank
    {c : Char} (hBlank : isBlank c = true) :
    isDelimiter c = false := by
  simp only [isBlank, Bool.or_eq_true, decide_eq_true_eq]
    at hBlank
  rcases hBlank with ((rfl | rfl) | rfl) | rfl
  all_goals decide

section Core

variable {opening closing : Char}
variable {body : Text}

/- The letters of a pair. -/
theorem pair_isDelimiter
    (hPair : (opening, closing) ∈ pairs) :
    isDelimiter opening = true ∧ isDelimiter closing = true ∧
      isWhiteSpace opening = false ∧
      isWhiteSpace closing = false := by
  rcases List.mem_pair.mp hPair with hEq | hEq
  all_goals
    cases hEq
    decide

/- Trimming takes blanks of the two sides only. -/
theorem trim_core
    (hPair : (opening, closing) ∈ pairs) (lead trail : Text) :
    trim (lead ++ (opening :: (body ++ [closing])) ++ trail) =
      lead.dropWhile isWhiteSpace ++
        (opening :: (body ++ [closing])) ++
        (trail.reverse.dropWhile isWhiteSpace).reverse := by
  rcases pair_isDelimiter hPair with ⟨-, -, hOpening, hClosing⟩
  have hFront :
      (lead ++ (opening :: (body ++ [closing])) ++
        trail).dropWhile isWhiteSpace =
      lead.dropWhile isWhiteSpace ++
        (opening :: (body ++ [closing])) ++ trail := by
    rw [List.append_assoc, List.dropWhile_append, List.append_assoc]
    split
    next hNil =>
      rw [List.isEmpty_iff] at hNil
      rw [hNil, List.cons_append, List.dropWhile_cons_of_neg]
      · rfl
      · simp [hOpening]
    next => rfl
  rw [trim, hFront, List.reverse_append, List.dropWhile_append]
  split
  next hNil =>
    rw [List.isEmpty_iff] at hNil
    rw [hNil]
    simp [List.dropWhile_cons_of_neg, hClosing]
  next => simp

theorem findJsonStart_core
    {lead : Text} (hPair : (opening, closing) ∈ pairs)
    (hLead : lead.all (!isDelimiter ·) = true) (rest : Text) :
    findJsonStart (lead ++ opening :: rest) = some (opening, closing) := by
  induction lead with
  | nil =>
    rcases List.mem_pair.mp hPair with hEq | hEq
    all_goals
      cases hEq
      rfl
  | cons c cs ih =>
    rw [List.all_cons, Bool.and_eq_true, Bool.not_eq_true'] at hLead
    have hPlain := hLead.1
    simp only [isDelimiter, Bool.or_eq_false_iff,
      decide_eq_false_iff_not] at hPlain
    rw [List.cons_append, findJsonStart,
      if_neg hPlain.1.1.1, if_neg hPlain.1.2]
    exact ih hLead.2

/- Behind letters that are no delimiters the core is found. -/
theorem extractBalancedJson_core
    {lead : Text} (hPair : (opening, closing) ∈ pairs) (hBody : Balanced body)
    (hLead : lead.all (!isDelimiter ·) = true) (trail : Text) :
    extractBalancedJson
        (lead ++ (opening :: (body ++ [closing])) ++ trail) =
      some (opening :: (body ++ [closing])) := by
  have hText :
      lead ++ (opening :: (body ++ [closing])) ++ trail =
        lead ++ opening :: (body ++ closing :: trail) := by simp
  have hSkip : ∀ c ∈ lead, decide (c ≠ opening) = true := by
    intro c hMem
    have hPlain := List.all_eq_true.mp hLead c hMem
    rw [Bool.not_eq_true'] at hPlain
    exact decide_eq_true (ne_of_isDelimiter_eq_false hPair hPlain).1
  rw [hText, extractBalancedJson, findJsonStart_core hPair hLead]
  dsimp only
  rw [List.dropWhile_append_of_pos hSkip,
    List.dropWhile_cons_of_neg (by simp)]
  exact walk_core hPair hBody trail

end Core

end Defensive
