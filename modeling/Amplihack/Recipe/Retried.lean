import Amplihack.Recipe.Evidence

/-
  Which failed runs are retried.
-/

-- Retries

namespace Recipe

open Base Governor

variable {result : RecipeRunResult} {stderrTail : Text}

def retryable
    (result : RecipeRunResult) (stderrTail : Text) :
    Bool :=
  (classifyRunFailure result stderrTail).cls
    |>.isMechanicallyRetryable

/- Some captured evidence carries a transient marker. -/
def TransientCaptured
    (result : RecipeRunResult) (stderrTail : Text) :
    Prop :=
  (∃ step ∈ failedSteps result,
    Carries transientMarkers (stepEvidence step)) ∨
  (∃ status ∈ result.status, Carries transientMarkers status) ∨
  Carries transientMarkers (tailLines stderrTail evidenceTailLines)

/- A run is retried for a transient failure and no other. -/
structure RetriedOnlyOnTransient
    (result : RecipeRunResult) (stderrTail : Text) :
    Prop where
  refused :
    (∃ step ∈ failedSteps result,
      ∃ line ∈ capturedLines step, Carries terminalMarkers line) →
    retryable result stderrTail = false
  captured : retryable result stderrTail = true →
    TransientCaptured result stderrTail
  unambiguous : retryable result stderrTail = true →
    ∀ step ∈ failedSteps result, ¬Carries terminalMarkers (stepEvidence step)

-- What The Joined Evidence Carries

/- What the cut keeps of the joined evidence. -/
def keptEvidence
    (result : RecipeRunResult) (stderrTail : Text) :
    Text :=
  lastOf evidenceMaxChars (joinedEvidence result stderrTail)

/- The kept evidence has transient markers and no others. -/
def KeepsTransientOnly
    (result : RecipeRunResult) (stderrTail : Text) :
    Prop :=
  Carries transientMarkers (keptEvidence result stderrTail) ∧
    ¬Carries terminalMarkers (keptEvidence result stderrTail)

theorem retryable_iff :
    retryable result stderrTail = true ↔
      KeepsTransientOnly result stderrTail := by
  rw [retryable, classifyRunFailure, classifyFailureText_retryable,
    carries_truncateEvidence_iff plainMarkers_transient,
    carries_truncateEvidence_iff plainMarkers_terminal]
  rfl

theorem carries_joinedEvidence_of_step
    {step : RecipeRunStepResult} (hStep : step ∈ failedSteps result)
    (hCarries : Carries terminalMarkers (stepEvidence step)) :
    Carries terminalMarkers (joinedEvidence result stderrTail) := by
  have hPlain := plainMarkers_terminal
  rw [joinedEvidence, carries_joinLines_iff hPlain]
  refine ⟨labelled step.stepId (stepEvidence step), ?_,
    (carries_labelled_iff hPlain _ _).mpr (Or.inr hCarries)⟩
  simp only [List.mem_append, List.mem_filterMap]
  refine Or.inl (Or.inl ⟨step, hStep, ?_⟩)
  rw [stepPart, if_pos (hCarries.trim_ne_nil hPlain)]

/- The fixed labels carry no transient marker. -/
theorem not_carries_labels :
    ¬Carries transientMarkers "run status".toList ∧
      ¬Carries transientMarkers "runner stderr".toList := by
  decide +kernel

/- A transient marker comes from what was captured or an id. -/
theorem carries_joinedEvidence_cases
    (hCarries : Carries transientMarkers (joinedEvidence result stderrTail)) :
    TransientCaptured result stderrTail ∨
      ∃ step ∈ failedSteps result, trim (stepEvidence step) ≠ [] ∧
        Carries transientMarkers step.stepId := by
  have hPlain := plainMarkers_transient
  rw [joinedEvidence, carries_joinLines_iff hPlain] at hCarries
  rcases hCarries with ⟨part, hPart, hCarries⟩
  simp only [List.mem_append, List.mem_filterMap, Option.mem_toList] at hPart
  rcases hPart with (⟨step, hStep, hPart⟩ | hPart) | hPart
  · rw [stepPart] at hPart
    split at hPart
    · next hBlank =>
        cases hPart
        rw [carries_labelled_iff hPlain] at hCarries
        rcases hCarries with hId | hEvidence
        · exact Or.inr ⟨step, hStep, hBlank, hId⟩
        · exact Or.inl (Or.inl ⟨step, hStep, hEvidence⟩)
    · simp at hPart
  · rw [statusPart, Option.map_eq_some_iff] at hPart
    rcases hPart with ⟨status, hStatus, rfl⟩
    rw [Option.filter_eq_some_iff] at hStatus
    rw [carries_labelled_iff hPlain,
      or_iff_right not_carries_labels.1] at hCarries
    exact Or.inl (Or.inr (Or.inl ⟨status, hStatus.1, hCarries⟩))
  · rw [stderrPart] at hPart
    split at hPart
    · cases hPart
      rw [carries_labelled_iff hPlain,
        or_iff_right not_carries_labels.2] at hCarries
      exact Or.inl (Or.inr (Or.inr hCarries))
    · simp at hPart

-- When A Retry Is Wrong

/-
  The evidence is longer than what is kept, and a failed
  step's other markers all stand in what is not.
-/
def LostByCut
    (result : RecipeRunResult) (stderrTail : Text) :
    Prop :=
  evidenceMaxChars < (joinedEvidence result stderrTail).length ∧
  (∃ step ∈ failedSteps result, Carries terminalMarkers (stepEvidence step)) ∧
  KeepsTransientOnly result stderrTail

/- No transient marker stands outside the ids of steps. -/
def NamedByIdOnly
    (result : RecipeRunResult) (stderrTail : Text) :
    Prop :=
  (∃ step ∈ failedSteps result, trim (stepEvidence step) ≠ [] ∧
    Carries transientMarkers step.stepId) ∧
  ¬TransientCaptured result stderrTail ∧
  KeepsTransientOnly result stderrTail

/- Progress dots, then a broken pipe, on one line. -/
def dotsOutput : Text :=
  List.replicate 1995 '.' ++ "epipe".toList

def testedStep (output : Text) : RecipeRunStepResult where
  stepId := "tests".toList
  status := "failed".toList
  output := output
  error := "test failed".toList
  recentStdout := []
  recentStderr := []

def testedRun (output : Text) : RecipeRunResult where
  stepResults := [testedStep output]
  status := none

theorem length_dotsOutput :
    dotsOutput.length = evidenceMaxChars := by
  rw [dotsOutput, List.length_append, List.length_replicate]
  rfl

theorem dotsOutput_subset :
    dotsOutput ⊆ ['.', 'e', 'p', 'i'] := by
  intro c hc
  rcases List.mem_append.mp hc with hDot | hWord
  · simp [List.eq_of_mem_replicate hDot]
  · revert hWord
    simp
    tauto

theorem carries_dotsOutput :
    Carries transientMarkers dotsOutput := by
  have hWord : Carries transientMarkers "epipe".toList :=
    ⟨"epipe", by simp [transientMarkers], by decide⟩
  exact hWord.of_isInfix (List.suffix_append _ _).isInfix

theorem not_carries_dotsOutput :
    ¬Carries terminalMarkers dotsOutput := by
  have hAll : terminalMarkers.all fun m =>
      m.toList.any fun c =>
        !(List.contains ['.', 'e', 'p', 'i'] c) := by decide +kernel
  rintro ⟨m, hm, hOccurs⟩
  rw [List.all_eq_true] at hAll
  rcases List.any_eq_true.mp (hAll m hm) with ⟨c, hc, hOther⟩
  have hLower : toAsciiLowercase dotsOutput = dotsOutput := by
    rw [toAsciiLowercase, dotsOutput, List.map_append, List.map_replicate]
    congr 1
  rw [hLower] at hOccurs
  have hLetter := dotsOutput_subset (hOccurs.subset hc)
  simp [hLetter] at hOther

/- A text on one line is its only line. -/
theorem linesFrom_of_notMem
    {text : Text} :
    ∀ {start : Text}, '\n' ∉ text →
      start ++ text ≠ [] →
      linesFrom start text = [start ++ text] := by
  induction text with
  | nil =>
    intro start _ hNil
    rw [List.append_nil] at hNil ⊢
    rw [linesFrom, if_neg hNil]
  | cons c cs ih =>
    intro start hLine _
    rw [List.mem_cons, not_or] at hLine
    rw [linesFrom, if_neg (Ne.symm hLine.1), ih hLine.2 (by simp)]
    simp

theorem failedSteps_testedRun (output : Text) :
    failedSteps (testedRun output) = [testedStep output] := by
  have hStatus : isCompletedStatus "failed".toList = false := by decide
  simp only [failedSteps, testedRun, testedStep, List.filter_cons, hStatus]
  rfl

theorem carries_error_testedStep (output : Text) :
    Carries terminalMarkers (testedStep output).error :=
  ⟨"test failed", by simp [terminalMarkers, workMarkers],
    by simp [testedStep, toAsciiLowercase]⟩

theorem carries_testedStep (output : Text) :
    Carries terminalMarkers (stepEvidence (testedStep output)) :=
  carries_stepEvidence_of_line plainMarkers_terminal
    (error_mem_capturedLines _)
    (carries_error_testedStep output)

theorem joinedEvidence_testedRun
    {output : Text} (hLine : '\n' ∉ output) (hBlank : trim output ≠ []) :
    ∃ front, joinedEvidence (testedRun output) [] = front ++ output := by
  have hError : trim "test failed".toList = "test failed".toList := by decide
  have hNil : output ≠ [] := by
    rintro rfl
    exact hBlank rfl
  have hLines : lines output = [output] := linesFrom_of_notMem hLine hNil
  have hEvidence : stepEvidence (testedStep output) =
      "test failed".toList ++ '\n' :: output := by
    rw [stepEvidence, testedStep, hError, if_pos (by decide),
      if_pos hBlank, tailLines, hLines]
    simp [joinLines, tailOf, lastOf, evidenceTailLines]
  have hPart : stepPart (testedStep output) =
      some (labelled "tests".toList
        ("test failed".toList ++ '\n' :: output)) := by
    rw [stepPart, if_pos ((carries_testedStep output).trim_ne_nil
      plainMarkers_terminal), hEvidence]
    rfl
  refine ⟨"[tests] test failed\n".toList, ?_⟩
  rw [joinedEvidence, failedSteps_testedRun, List.filterMap_cons_some hPart]
  simp [statusPart, stderrPart, testedRun, labelled, joinLines, trim]

end Recipe
