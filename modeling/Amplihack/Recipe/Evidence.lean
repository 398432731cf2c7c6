import Amplihack.Recipe.FailureClass

/-
  Which markers a piece of evidence carries, and what each
  step of the gathering keeps of them.
-/

-- Carried Markers

namespace Recipe

open Base Governor

/- Some marker occurs in the text, in any case. -/
def Carries (markers : List String) (text : Text) : Prop :=
  ∃ m ∈ markers, m.toList <:+: toAsciiLowercase text

instance (markers : List String) (text : Text) :
    Decidable (Carries markers text) := by
  unfold Carries
  infer_instance

/- Work-failure, environmental and usage-limit markers. -/
def terminalMarkers : List String :=
  workMarkers ++ repoSelectionMarkers ++ environmentalMarkers ++ allMarkers

theorem carries_append
    {ms ns : List String} {text : Text} :
    Carries (ms ++ ns) text ↔ Carries ms text ∨ Carries ns text := by
  simp only [Carries, List.mem_append, or_and_right, exists_or]

theorem Carries.of_isInfix
    {markers : List String} {part text : Text}
    (hCarries : Carries markers part) (hInfix : part <:+: text) :
    Carries markers text := by
  rcases hCarries with ⟨m, hm, hOccurs⟩
  refine ⟨m, hm, hOccurs.trans ?_⟩
  exact hInfix.map Char.toLower

-- The Class By Carried Markers

theorem isSome_sooner
    (best : Option (ℕ × String)) (found : ℕ × String) :
    (sooner best found).isSome := by
  cases best with
  | none => rfl
  | some best =>
    rw [sooner]
    split <;> rfl

theorem isSome_foldl_sooner
    (found : List (ℕ × String)) :
    ∀ best : Option (ℕ × String),
      (found.foldl sooner best).isSome ↔ best.isSome ∨ found ≠ [] := by
  induction found with
  | nil => simp
  | cons f found ih =>
    intro best
    rw [List.foldl_cons, ih]
    simp [isSome_sooner]

theorem firstMatch_isSome_iff
    (text : Text) (markers : List String) :
    (firstMatch (toAsciiLowercase text) markers).isSome ↔
      Carries markers text := by
  rw [firstMatch, Option.isSome_map, isSome_foldl_sooner]
  simp only [Option.isSome_none, Bool.false_eq_true, false_or, ne_eq,
    List.filterMap_eq_nil_iff, Option.map_eq_none_iff, not_forall, Carries,
    exists_prop]
  refine exists_congr fun m => and_congr_right fun _ => ?_
  rw [← find_isSome_iff, Option.isSome_iff_ne_none]

/- A text is retryable for a transient marker and no other. -/
theorem classifyFailureText_retryable (text : Text) :
    (classifyFailureText text).1.isMechanicallyRetryable ↔
      Carries transientMarkers text ∧ ¬Carries terminalMarkers text := by
  rw [terminalMarkers, carries_append, carries_append, carries_append]
  simp only [← firstMatch_isSome_iff]
  rw [classifyFailureText]
  cases firstMatch (toAsciiLowercase text) workMarkers with
  | some m => simp [FailureClass.isMechanicallyRetryable]
  | none =>
  cases firstMatch (toAsciiLowercase text)
      repoSelectionMarkers with
  | some m => simp [FailureClass.isMechanicallyRetryable]
  | none =>
  cases firstMatch (toAsciiLowercase text)
      environmentalMarkers with
  | some m => simp [FailureClass.isMechanicallyRetryable]
  | none =>
  cases firstMatch (toAsciiLowercase text) allMarkers with
  | some m => simp [FailureClass.isMechanicallyRetryable]
  | none =>
  cases firstMatch (toAsciiLowercase text)
      transientMarkers with
  | some m => simp [FailureClass.isMechanicallyRetryable]
  | none => simp [FailureClass.isMechanicallyRetryable]

-- Plain Markers

/-
  A marker on one line with no closing bracket, no white space
  at its ends and no bracket at its start, and with a letter
  that the note of an elision lacks.
-/
structure PlainMarker (m : Text) : Prop where
  oneLine : '\n' ∉ m
  unclosed : ']' ∉ m
  head : ∃ c ∈ m.head?, c ≠ '[' ∧ isWhiteSpace c = false
  last : ∃ c ∈ m.getLast?, isWhiteSpace c = false
  foreign : ∃ c ∈ m, c ∉ elision

def plainMarker (m : Text) : Bool :=
  !m.contains '\n' && !m.contains ']' &&
    m.head?.any (fun c => c != '[' && !isWhiteSpace c) &&
    m.getLast?.any (!isWhiteSpace ·) &&
    m.any (!elision.contains ·)

theorem PlainMarker.of_plainMarker
    {m : Text} (hPlain : plainMarker m = true) :
    PlainMarker m := by
  simp only [plainMarker, Bool.and_eq_true, Bool.not_eq_true',
    List.contains_eq_mem, decide_eq_false_iff_not, Option.any_eq_true,
    bne_iff_ne, List.any_eq_true] at hPlain
  rcases hPlain with ⟨⟨⟨⟨hLine, hClosed⟩, hHead⟩, hLast⟩, hForeign⟩
  exact ⟨hLine, hClosed, hHead, hLast, hForeign⟩

theorem PlainMarker.ne_nil
    {m : Text} (hPlain : PlainMarker m) :
    m ≠ [] := by
  rcases hPlain.foreign with ⟨c, hc, _⟩
  exact List.ne_nil_of_mem hc

def PlainMarkers (markers : List String) : Prop :=
  ∀ m ∈ markers, PlainMarker m.toList

theorem plainMarkers_terminal :
    PlainMarkers terminalMarkers := by
  have hAll : terminalMarkers.all (plainMarker ·.toList) := by decide +kernel
  intro m hm
  exact .of_plainMarker (List.all_eq_true.mp hAll m hm)

theorem plainMarkers_transient :
    PlainMarkers transientMarkers := by
  have hAll : transientMarkers.all (plainMarker ·.toList) := by decide +kernel
  intro m hm
  exact .of_plainMarker (List.all_eq_true.mp hAll m hm)

section Gathered

variable {markers : List String}

theorem Carries.ne_nil
    {text : Text} (hPlain : PlainMarkers markers)
    (hCarries : Carries markers text) :
    text ≠ [] := by
  rintro rfl
  rcases hCarries with ⟨m, hm, hOccurs⟩
  exact (hPlain m hm).ne_nil (List.infix_nil.mp hOccurs)

-- Joined Texts

theorem carries_joinLines_iff
    (hPlain : PlainMarkers markers) (parts : List Text) :
    Carries markers (joinLines parts) ↔
      ∃ part ∈ parts, Carries markers part := by
  have hParts : ∀ m ∈ markers,
      (m.toList <:+: toAsciiLowercase (joinLines parts) ↔
        ∃ part ∈ parts, m.toList <:+: toAsciiLowercase part) := by
    intro m hm
    rw [toAsciiLowercase, joinLines, map_intercalate]
    have hSplit := infix_intercalate_iff
      (hPlain m hm).oneLine (hPlain m hm).ne_nil
      (parts.map (List.map Char.toLower))
    simpa [toAsciiLowercase] using hSplit
  constructor
  · rintro ⟨m, hm, hOccurs⟩
    rcases (hParts m hm).mp hOccurs with ⟨part, hPart, h⟩
    exact ⟨part, hPart, m, hm, h⟩
  · rintro ⟨part, hPart, m, hm, hOccurs⟩
    exact ⟨m, hm, (hParts m hm).mpr ⟨part, hPart, hOccurs⟩⟩

/- A label is apart from the text that it stands before. -/
theorem carries_labelled_iff
    (hPlain : PlainMarkers markers) (label text : Text) :
    Carries markers (labelled label text) ↔
      Carries markers label ∨ Carries markers text := by
  rw [Carries, Carries, Carries, ← exists_or]
  refine exists_congr fun m => ?_
  rw [← and_or_left]
  refine and_congr_right fun hm => ?_
  rcases (hPlain m hm).head with ⟨c, hc, hOpen, hWhite⟩
  have hNil := (hPlain m hm).ne_nil
  have hSpace : m.toList.head? ≠ some ' ' := by
    rw [Option.mem_def.mp hc]
    rintro ⟨rfl⟩
    simp [isWhiteSpace] at hWhite
  have hBracket : m.toList.head? ≠ some '[' := by
    rw [Option.mem_def.mp hc]
    simpa using hOpen
  have hParts := infix_append_cons_iff
    (hPlain m hm).unclosed hNil
    (toAsciiLowercase label) (' ' :: toAsciiLowercase text)
  rw [infix_cons_iff_of_head hSpace hNil] at hParts
  have hText : toAsciiLowercase (labelled label text) =
      '[' :: (toAsciiLowercase label ++
        ']' :: ' ' :: toAsciiLowercase text) := by
    simp [labelled, toAsciiLowercase]
  rw [hText, infix_cons_iff_of_head hBracket hNil, hParts]

/- The note that stands for what is cut adds no marker. -/
theorem carries_truncateEvidence_iff
    (hPlain : PlainMarkers markers) (text : Text) :
    Carries markers (truncateEvidence text) ↔
      Carries markers (lastOf evidenceMaxChars text) := by
  rw [truncateEvidence]
  split
  · next hShort => rw [lastOf_of_le hShort]
  · refine exists_congr fun m => and_congr_right fun hm => ?_
    have hParts := infix_append_cons_iff
      (hPlain m hm).oneLine (hPlain m hm).ne_nil
      elision
      (toAsciiLowercase (lastOf evidenceMaxChars text))
    have hNote : ¬m.toList <:+: elision := by
      intro hOccurs
      rcases (hPlain m hm).foreign with ⟨c, hc, hForeign⟩
      exact hForeign (hOccurs.subset hc)
    have hLower : toAsciiLowercase elision = elision := by decide
    rw [or_iff_right hNote, ← hLower] at hParts
    rw [← hParts]
    simp [toAsciiLowercase]

-- The Evidence Of A Step

theorem trim_eq_strip (text : Text) :
    trim text = strip isWhiteSpace text :=
  rfl

theorem isWhiteSpace_eq_false
    {c : Char} (hPrintable : 33 ≤ c.toNat ∧ c.toNat ≤ 126) :
    isWhiteSpace c = false := by
  have hSpace : c ≠ ' ' := by
    rintro rfl
    simp at hPrintable
  simp [isWhiteSpace, hSpace]
  omega

theorem isWhiteSpace_toLower (c : Char) :
    isWhiteSpace c.toLower = isWhiteSpace c := by
  by_cases hUpper : 65 ≤ c.toNat ∧ c.toNat ≤ 90
  · have hLower : c.toLower.toNat = c.toNat + 32 := by
      have hVal : c.val ≥ 'A'.val ∧ c.val ≤ 'Z'.val := hUpper
      delta Char.toLower
      rw [dif_pos hVal]
      change (c.val + 32).toNat = c.val.toNat + 32
      change 65 ≤ c.val.toNat ∧ c.val.toNat ≤ 90 at hUpper
      rw [UInt32.toNat_add]
      exact Nat.mod_eq_of_lt (by
        change c.val.toNat + 32 < 2 ^ 32
        omega)
    rw [isWhiteSpace_eq_false, isWhiteSpace_eq_false]
    · omega
    · omega
  · have hSame : c.toLower = c := by
      exact dif_neg hUpper
    rw [hSame]

theorem Carries.trim
    {text : Text} (hPlain : PlainMarkers markers)
    (hCarries : Carries markers text) :
    Carries markers (trim text) := by
  rcases hCarries with ⟨m, hm, hOccurs⟩
  refine ⟨m, hm, ?_⟩
  rw [trim_eq_strip, toAsciiLowercase, ← strip_map isWhiteSpace_toLower]
  rcases (hPlain m hm).head with ⟨c, hHead, _, hc⟩
  rcases (hPlain m hm).last with ⟨d, hLast, hd⟩
  refine infix_strip ?_ ?_ hOccurs
  · intro e he
    rw [Option.mem_unique he hHead]
    exact hc
  · intro e he
    rw [Option.mem_unique he hLast]
    exact hd

theorem Carries.trim_ne_nil
    {text : Text} (hPlain : PlainMarkers markers)
    (hCarries : Carries markers text) :
    Governor.trim text ≠ [] :=
  (hCarries.trim hPlain).ne_nil hPlain

theorem stripCr_isInfix (line : Text) :
    stripCr line <:+: line := by
  rw [stripCr]
  split
  · exact (List.dropLast_prefix line).isInfix
  · exact List.infix_rfl

theorem infix_of_mem_linesFrom
    {line : Text} {text : Text} :
    ∀ {start : Text}, line ∈ linesFrom start text →
      line <:+: start ++ text := by
  induction text with
  | nil =>
    intro start hLine
    rw [linesFrom] at hLine
    split at hLine
    · simp at hLine
    · rw [List.mem_singleton.mp hLine, List.append_nil]
  | cons c cs ih =>
    intro start hLine
    rw [linesFrom] at hLine
    split at hLine
    · rcases List.mem_cons.mp hLine with rfl | hRest
      · exact (stripCr_isInfix start).trans List.infix_append_left
      · have hInfix := ih hRest
        exact List.infix_append_of_infix_right (List.infix_cons hInfix)
    · simpa using ih hLine

theorem infix_of_mem_lines
    {line text : Text} (hLine : line ∈ lines text) :
    line <:+: text := by
  simpa using infix_of_mem_linesFrom hLine

/- The last lines of what was captured of a step's run. -/
def capturedLines (step : RecipeRunStepResult) : List Text :=
  step.error :: lastOf evidenceTailLines (lines step.output) ++
    lastOf evidenceTailLines step.recentStdout ++
    lastOf evidenceTailLines step.recentStderr

theorem error_mem_capturedLines
    (step : RecipeRunStepResult) :
    step.error ∈ capturedLines step := by
  simp [capturedLines]

theorem carries_stepEvidence_of_line
    {step : RecipeRunStepResult} {line : Text}
    (hPlain : PlainMarkers markers) (hLine : line ∈ capturedLines step)
    (hCarries : Carries markers line) :
    Carries markers (stepEvidence step) := by
  have hTail : ∀ ls : List Text, line ∈ lastOf evidenceTailLines ls →
      ls ≠ [] ∧ Carries markers (tailOf ls evidenceTailLines) := by
    intro ls hMem
    refine ⟨List.ne_nil_of_mem ((lastOf_suffix _ ls).mem hMem), ?_⟩
    exact (carries_joinLines_iff hPlain _).mpr ⟨line, hMem, hCarries⟩
  rw [stepEvidence, carries_joinLines_iff hPlain]
  simp only [capturedLines, List.mem_append, List.mem_cons] at hLine
  rcases hLine with ((rfl | hOut) | hStdout) | hStderr
  · have hTrim := hCarries.trim hPlain
    exact ⟨_, by simp [hTrim.ne_nil hPlain], hTrim⟩
  · have hText := hCarries.of_isInfix
      (infix_of_mem_lines ((lastOf_suffix _ _).mem hOut))
    exact ⟨_, by simp [hText.trim_ne_nil hPlain, tailLines], (hTail _ hOut).2⟩
  · exact ⟨_, by simp [(hTail _ hStdout).1], (hTail _ hStdout).2⟩
  · exact ⟨_, by simp [(hTail _ hStderr).1], (hTail _ hStderr).2⟩

end Gathered

end Recipe
