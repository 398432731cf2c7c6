import Amplihack.TailFollow.Agreement

/-
  The second shell scanner follows every round of the first.
-/

-- Plain Characters

namespace TailFollow

open Base Shell

variable {chars : Text}
variable {s s' : State}
variable {t : Cursor}
variable {c : Char}
variable {v : View}
variable {inDouble : Bool}

theorem InStep.goto
    (hIn : InStep chars v inDouble t) (i : ℕ) :
    InStep chars { v with i } inDouble (t.goto i) :=
  ⟨hIn.inDouble, hIn.heredocs, hIn.skipped, hIn.bodies, .inl rfl⟩

theorem InStep.skip
    (hIn : InStep chars v inDouble t) (hSame : t.i = v.i)
    {kind : RegionKind} (hKind : kind ≠ .substitution) (last i : ℕ) :
    InStep chars
      { v with
        i
        skipped := v.skipped ++ [⟨kind, v.i, last⟩] }
      inDouble ((t.skip kind last).goto i) where
  inDouble := hIn.inDouble
  heredocs := hIn.heredocs
  skipped := by
    change t.skipped ++ [⟨kind, t.i, last⟩] = _
    rw [hIn.skipped, hSame]
  bodies := by
    change t.bodies = bodiesOf chars (t.skipped ++ [⟨kind, t.i, last⟩])
    rw [bodiesOf_append_of_ne hKind, hIn.bodies]
  i := .inl rfl

theorem InStep.subst
    (hIn : InStep chars v inDouble t) (hSame : t.i = v.i) (last i : ℕ) :
    InStep chars
      { v with
        i
        skipped :=
          v.skipped ++ [⟨.substitution, v.i, last⟩] }
      inDouble
      (((t.skip .substitution last).addBody
        (sliceOrEmpty chars (t.i + 2) last)).goto i) where
  inDouble := hIn.inDouble
  heredocs := hIn.heredocs
  skipped := by
    change t.skipped ++ [⟨.substitution, t.i, last⟩] = _
    rw [hIn.skipped, hSame]
  bodies := by
    change t.bodies ++ [sliceOrEmpty chars (t.i + 2) last] =
      bodiesOf chars (t.skipped ++ [⟨.substitution, t.i, last⟩])
    rw [hIn.bodies]
    unfold bodiesOf
    rw [List.filter_append, List.filter_cons_of_pos (by simp),
      List.filter_nil, List.map_append]
    rfl
  i := .inl rfl

theorem follows_plain
    (hc : chars[v.i]? = some c) (hPlain : PlainAt chars v.i c)
    (hIn : InStep chars v false t) :
    Follows chars { v with i := v.i + 1 } false t := by
  have hSame := hIn.same (List.getElem?_eq_some_iff.mp hc).1
  rw [← hSame] at hc hPlain ⊢
  exact .next (step_plain hc hIn.inDouble hPlain) (.here (hIn.goto _))

/- The characters of operators other than `<`. -/
theorem plainAt_of_op
    (hOp : c = ';' ∨ c = '&' ∨ c = '(' ∨ c = ')' ∨ c = '|' ∨ c = '>')
    (i : ℕ) :
    PlainAt chars i c := by
  have hOther : c ≠ '\'' ∧ c ≠ '"' ∧ c ≠ '\\' ∧ c ≠ grave ∧
      c ≠ '\n' ∧ c ≠ '$' ∧ c ≠ '#' ∧ c ≠ '<' := by
    rcases hOp with rfl | rfl | rfl | rfl | rfl | rfl
    all_goals decide
  rcases hOther with ⟨hSingle, hDouble, hEscape, hBack, hLine,
    hDollar, hHash, hLess⟩
  exact ⟨hSingle, hDouble, hEscape, hBack, hLine,
    fun hSame => absurd hSame hDollar,
    fun hSame => absurd hSame hHash,
    fun hSame => absurd hSame hLess⟩

/- What the two scanners call plain is the same. -/
theorem plainAt_of_plain
    (hPlain : Plain chars s c)
    (hHash : c = '#' → s.inWord = !wordStart chars s.i) :
    PlainAt chars s.i c where
  single := hPlain.single
  double := hPlain.double
  escape := hPlain.escape
  back := hPlain.back
  line := hPlain.line
  dollar := hPlain.dollar
  hash hSame := by
    have hIn := hPlain.hash hSame
    rw [hHash hSame] at hIn
    simpa using hIn
  less := hPlain.less

/- One more character, if it is of the operator too. -/
theorem follows_second
    {p : Prop} [Decidable p]
    (hSecond : p → ∃ d, chars[v.i]? = some d ∧ PlainAt chars v.i d)
    (hIn : InStep chars v false t) :
    Follows chars { v with i := if p then v.i + 1 else v.i } false t := by
  split
  next hp =>
    rcases hSecond hp with ⟨d, hd, hPlain⟩
    exact follows_plain hd hPlain hIn
  next => exact .here hIn

-- Quotes, Escapes And Comments

theorem follows_singleQuote
    (hc : chars[s.i]? = some '\'') (hArm : singleQuote chars s = .ok s')
    (hIn : InStep chars (view s) false t) :
    Follows chars (view s') false t := by
  have hSame : t.i = s.i := hIn.same (List.getElem?_eq_some_iff.mp hc).1
  unfold singleQuote at hArm
  rw [readUntil_eq, Checked.ok_bind] at hArm
  rcases Except.ok.inj hArm with rfl
  have hSkip := hIn.skip hSame
    (show RegionKind.single ≠ .substitution by simp)
  refine .next (step_single (hSame ▸ hc) hIn.inDouble) ?_
  rw [hSame]
  exact .here (hSkip _ _)

theorem follows_ansiC
    (hc : chars[s.i]? = some '$') (hNext : chars[s.i + 1]? = some '\'')
    (hArm : ansiC chars s = .ok s') (hComplete : s'.complete = true)
    (hIn : InStep chars (view s) false t) :
    Follows chars (view s') false t := by
  have hSame : t.i = s.i := hIn.same (List.getElem?_eq_some_iff.mp hc).1
  rcases ansiCClose_ok chars (s.i + 1) with ⟨close, hClose, _⟩
  rcases ansiCDecode_ok (sliceOrEmpty chars (s.i + 2)
    (close.getD (chars.length - 1))) with ⟨decoded, hDecoded⟩
  unfold ansiC at hArm
  rw [hClose, Checked.ok_bind] at hArm
  dsimp only at hArm
  rw [hDecoded, Checked.ok_bind] at hArm
  rcases Except.ok.inj hArm with rfl
  cases close with
  | none => exact absurd hComplete (by simp [State.goto])
  | some last =>
    refine .next (step_ansiC (hSame ▸ hc) (hSame ▸ hNext)
      hIn.inDouble (hSame ▸ hClose)) ?_
    have hSkip := hIn.skip hSame
      (show RegionKind.ansiC ≠ .substitution by simp)
    exact .here (hSkip last (last + 1))

theorem follows_stepOver
    (hc : chars[s.i]? = some '$')
    (hNext : chars[s.i + 1]? = some '(')
    (hArm : stepOver chars s = .ok s')
    (hComplete : s'.complete = true)
    (hIn : InStep chars (view s) inDouble t) :
    Follows chars (view s') inDouble t := by
  have hi := (List.getElem?_eq_some_iff.mp hc).1
  have hSame : t.i = s.i := hIn.same hi
  rcases substClose_ok hNext with ⟨close, hClose, hLater⟩
  unfold stepOver at hArm
  rw [hClose, Checked.ok_bind] at hArm
  cases close with
  | none =>
    dsimp only at hArm
    rw [Checked.sub, if_pos (by omega), Checked.ok_bind,
      Checked.slice_of_le (by omega) (by omega), Checked.ok_bind] at hArm
    rcases Except.ok.inj hArm with rfl
    exact absurd hComplete (by simp [State.goto])
  | some last =>
    rcases hLater last rfl with ⟨hFirst, hLast⟩
    dsimp only at hArm
    rw [Checked.ok_bind, Checked.slice_of_le (by omega) (by omega),
      Checked.ok_bind] at hArm
    rcases Except.ok.inj hArm with rfl
    refine .next (step_subst (hSame ▸ hc) (hSame ▸ hNext) (hSame ▸ hClose)) ?_
    exact .here (hIn.subst hSame _ _)

theorem follows_backslash
    (hc : chars[s.i]? = some '\\') (hIn : InStep chars (view s) false t) :
    Follows chars (view (backslash chars s)) false t := by
  have hSame : t.i = s.i := hIn.same (List.getElem?_eq_some_iff.mp hc).1
  have hGoto := hIn.goto (s.i + 2)
  refine .next (step_escape (hSame ▸ hc)) ?_
  rw [hSame]
  unfold backslash
  split
  · split
    · exact .here hGoto
    · exact .here hGoto
  next hNone =>
    have hEnd := List.getElem?_eq_none_iff.mp hNone
    refine .here ⟨hGoto.inDouble, hGoto.heredocs,
      hGoto.skipped, hGoto.bodies, .inr ⟨?_, ?_⟩⟩
    · change chars.length ≤ s.i + 1
      exact hEnd
    · change chars.length ≤ s.i + 2
      omega

theorem follows_comment
    (hc : chars[s.i]? = some '#') (hStart : wordStart chars s.i = true)
    (hArm : comment chars s = .ok s') (hIn : InStep chars (view s) false t) :
    Follows chars (view s') false t := by
  have hSame : t.i = s.i := hIn.same (List.getElem?_eq_some_iff.mp hc).1
  unfold comment at hArm
  rw [skipComment_eq, Checked.ok_bind] at hArm
  rcases Except.ok.inj hArm with rfl
  refine .next (step_comment (hSame ▸ hc) hIn.inDouble (hSame ▸ hStart)) ?_
  have hSkip := hIn.skip hSame
    (show RegionKind.comment ≠ .substitution by simp)
  rw [hSame]
  exact .here (hSkip _ _)

-- Heredocs

theorem follows_hereString
    (hc : chars[s.i]? = some '<') (hNext : chars[s.i + 1]? = some '<')
    (hThird : chars[s.i + 2]? = some '<')
    (hIn : InStep chars (view s) false t) :
    Follows chars (view (s.endWord.goto (s.i + 3) true)) false
      t := by
  have hSame : t.i = s.i := hIn.same (List.getElem?_eq_some_iff.mp hc).1
  have hStep := step_less (hSame ▸ hc) (hSame ▸ hNext) hIn.inDouble
  rw [hSame, if_pos hThird] at hStep
  rw [view_goto, view_endWord]
  exact .next hStep (.here (hIn.goto _))

theorem follows_heredoc
    (hc : chars[s.i]? = some '<') (hNext : chars[s.i + 1]? = some '<')
    (hThird : chars[s.i + 2]? ≠ some '<') (hOut : s.out ≠ [])
    (hArm : heredoc chars s = .ok s') (hIn : InStep chars (view s) false t) :
    Follows chars (view s') false t := by
  have hSame : t.i = s.i := hIn.same (List.getElem?_eq_some_iff.mp hc).1
  have hLength : 1 ≤ s.endWord.out.length :=
    List.length_pos_iff.mpr ((endWord_moves s).out hOut)
  have hWord := view_endWord s
  unfold heredoc at hArm
  dsimp only at hArm
  rw [Checked.sub, if_pos hLength, Checked.ok_bind, endWord_i] at hArm
  rcases Except.ok.inj hArm with rfl
  have hStep := step_less (hSame ▸ hc) (hSame ▸ hNext) hIn.inDouble
  rw [hSame, if_neg hThird] at hStep
  refine .next hStep (.here ?_)
  have hSkip := hIn.skip hSame
    (show RegionKind.delimiter ≠ .substitution by simp)
    ((heredocDelim chars s.i).2 - 1) (heredocDelim chars s.i).2
  refine ⟨hSkip.inDouble, ?_, ?_, hSkip.bodies, .inl rfl⟩
  · change t.heredocs ++ [_] =
      List.map Pending.heredoc (s.endWord.heredocs ++ [_])
    have hSpecs : s.endWord.heredocs.map (·.heredoc) =
        s.heredocs.map (·.heredoc) := congrArg View.heredocs hWord
    rw [List.map_append, hSpecs, hIn.heredocs]
    rfl
  · change _ = s.endWord.skipped ++ [⟨_, s.endWord.i, _⟩]
    have hSkipped : s.endWord.skipped = s.skipped :=
      congrArg View.skipped hWord
    rw [hSkipped, endWord_i]
    exact hSkip.skipped

theorem follows_newline
    (hc : chars[s.i]? = some '\n') (hOut : s.out ≠ [])
    (hArm : newline chars s = .ok s') (hIn : InStep chars (view s) false t) :
    Follows chars (view s') false t := by
  have hSame : t.i = s.i := hIn.same (List.getElem?_eq_some_iff.mp hc).1
  have hLength : 1 ≤ s.endWord.out.length :=
    List.length_pos_iff.mpr ((endWord_moves s).out hOut)
  have hLast :
      s.endWord.out[s.endWord.out.length - 1]? =
        some (s.endWord.out[s.endWord.out.length - 1]) :=
    List.getElem?_eq_getElem (by omega)
  unfold newline at hArm
  dsimp only at hArm
  rw [Checked.sub, if_pos hLength, Checked.ok_bind,
    Checked.get_of_getElem? hLast, Checked.ok_bind] at hArm
  have hView := view_endLine s.endWord
    (s.endWord.out.length - 1)
    s.endWord.out[s.endWord.out.length - 1]
  rw [view_endWord] at hView
  generalize s.endWord.endLine _ _ = u at *
  have hIndex : u.i = s.i := congrArg View.i hView
  have hSpecs : u.heredocs.map (·.heredoc) = t.heredocs :=
    (congrArg View.heredocs hView).trans hIn.heredocs.symm
  have hSkipped : u.skipped = s.skipped := congrArg View.skipped hView
  have hNone : u.heredocs = [] ↔ t.heredocs = [] := by
    rw [← hSpecs, List.map_eq_nil_iff]
  rw [hIndex, hSpecs] at hArm
  rcases readHeredocBodies_ok chars s.i t.heredocs with
    ⟨⟨read, last⟩, hRead, _⟩
  rw [hRead, Checked.ok_bind] at hArm
  rcases Except.ok.inj hArm with rfl
  have hStep := step_newline (hSame ▸ hc) hIn.inDouble (hSame.symm ▸ hRead)
  refine .next hStep (.here ?_)
  by_cases hEmpty : t.heredocs = []
  · rw [if_pos hEmpty, if_pos (hNone.mpr hEmpty)]
    exact ⟨hIn.inDouble, rfl, hIn.skipped.trans hSkipped.symm,
      hIn.bodies, .inl rfl⟩
  · have hSkip := hIn.skip hSame
      (show RegionKind.bodies ≠ .substitution by simp)
      last (last + 1)
    rw [if_neg hEmpty, if_neg fun hNil => hEmpty (hNone.mp hNil)]
    refine ⟨hIn.inDouble, rfl, ?_, hSkip.bodies, .inl rfl⟩
    change _ = u.skipped ++ [⟨_, u.i, _⟩]
    rw [hSkipped, hIndex]
    exact hSkip.skipped

-- Operators

theorem follows_pipe
    (hc : chars[s.i]? = some '|') (hIn : InStep chars (view s) false t) :
    Follows chars (view (Shell.pipe chars s)) false t := by
  have hFirst : PlainAt chars (view s).i '|' :=
    plainAt_of_op (by simp) _
  unfold Shell.pipe
  rw [view_newCommand, view_goto, view_endCommand, view_endWord]
  refine (follows_plain hc hFirst hIn).bind ?_
  intro u hNext
  exact follows_second
    (fun hAmp => ⟨'&', hAmp, plainAt_of_op (by simp) _⟩) hNext

theorem follows_separator
    {i : ℕ} (hFollows : Follows chars { view s with i } false t) :
    Follows chars (view (separator s i)) false t := by
  unfold separator
  rw [view_nextPipeline, view_goto, view_endCommand, view_endWord]
  exact hFollows

theorem follows_orElse
    (hc : chars[s.i]? = some '|') (hNext : chars[s.i + 1]? = some '|')
    (hIn : InStep chars (view s) false t) :
    Follows chars (view (separator s (s.i + 2))) false t := by
  have hBar : ∀ i, PlainAt chars i '|' :=
    plainAt_of_op (by simp)
  apply follows_separator
  refine (follows_plain hc (hBar _) hIn).bind ?_
  intro u hIn'
  exact follows_plain hNext (hBar _) hIn'

theorem follows_ampRedirect
    (hc : chars[s.i]? = some '&') (hNext : chars[s.i + 1]? = some '>')
    (hIn : InStep chars (view s) false t) :
    Follows chars (view (ampRedirect chars s)) false t := by
  have hAmp : PlainAt chars (view s).i '&' :=
    plainAt_of_op (by simp) _
  have hRight : ∀ i, PlainAt chars i '>' :=
    plainAt_of_op (by simp)
  unfold ampRedirect
  rw [view_awaitTarget, view_endWord]
  refine (follows_plain hc hAmp hIn).bind ?_
  intro u hIn'
  refine (follows_plain hNext (hRight _) hIn').bind ?_
  intro w hIn''
  exact follows_second (fun hThird => ⟨'>', hThird, hRight _⟩) hIn''

theorem follows_redirect
    (hc : chars[s.i]? = some c) (hPlain : PlainAt chars s.i c)
    (hIn : InStep chars (view s) false t) :
    Follows chars (view (redirect chars s c)) false t := by
  have hSecond : ∀ second : Text,
      (∀ d ∈ second, d = ';' ∨ d = '&' ∨ d = '(' ∨ d = ')' ∨
        d = '|' ∨ d = '>') →
      Follows chars
        { view s with
          i := if chars[s.i + 1]?.any second.contains then
            s.i + 2 else s.i + 1 }
        false t := by
    intro second hOps
    refine (follows_plain hc hPlain hIn).bind ?_
    intro u hIn'
    refine follows_second ?_ hIn'
    intro hAny
    rcases (Option.any_eq_true _ _).mp hAny with ⟨d, hd, hMem⟩
    exact ⟨d, hd, plainAt_of_op (hOps d (List.contains_iff_mem.mp hMem)) _⟩
  have hBoth : Follows chars
      { view s with
        i := if chars[s.i + 1]?.any
            (if c = '>' then ">|&".toList
              else ">&".toList).contains then
          s.i + 2 else s.i + 1 }
      false t := by
    apply hSecond
    split
    · simp
    · simp
  unfold redirect
  dsimp only
  split
  · exact hBoth
  · rw [view_awaitTarget, view_endWord, endWord_i]
    exact hBoth

-- Double Quotes

theorem moves_of_doubleQuoteStep
    {x y : State} (hEnds : Ends (doubleQuoteStep chars) x y) :
    Shell.Moves x y := by
  induction hEnds with
  | @last x y hBody =>
    have hSafe := doubleQuoteStep_ok chars x
    rw [hBody] at hSafe
    have hSame : y = x := hSafe
    rw [hSame]
    exact .refl x
  | @next x y z hBody _ ih =>
    have hSafe := doubleQuoteStep_ok chars x
    rw [hBody] at hSafe
    exact hSafe.1.trans ih

/- The next character is not one that a backslash escapes. -/
def EscapesNothing (chars : Text) (i : ℕ) : Prop :=
  chars[i]?.any isEscapable = false

/-
  Within quotes the other scanner may be a character ahead,
  after a backslash that escapes nothing.
-/
def InQuotes (chars : Text) (s : State) (t : Cursor) : Prop :=
  InStep chars (view s) true t ∨
    EscapesNothing chars s.i ∧
      InStep chars { view s with i := s.i + 1 } true t

theorem InQuotes.inStep
    (hIn : InQuotes chars s t) (hc : chars[s.i]? = some c)
    (hEscapable : isEscapable c = true) :
    InStep chars (view s) true t := by
  rcases hIn with hIn | ⟨hNothing, _⟩
  · exact hIn
  · unfold EscapesNothing at hNothing
    rw [hc, Option.any_some, hEscapable] at hNothing
    cases hNothing

theorem doubleQuoteStep_of_lt
    (hc : chars[s.i]? = some c) :
    doubleQuoteStep chars s =
      if c = '"' then .ok (.inr s)
      else if c = '$' ∧ chars[s.i + 1]? = some '(' then
        (stepOver chars s).bind fun s => .ok (.inl s)
      else if c = '\\' ∧ chars[s.i + 1]?.any isEscapable then
        (Checked.get chars (s.i + 1)).bind fun c =>
          .ok (.inl ((s.push [c]).goto (s.i + 2) true))
      else
        .ok (.inl ((s.push [c]).goto (s.i + 1) true)) := by
  rcases List.getElem?_eq_some_iff.mp hc with ⟨hi, hSame⟩
  unfold doubleQuoteStep
  rw [if_pos hi, get_of_lt hi, Checked.ok_bind, hSame]
  split
  · rfl
  · split
    · rfl
    · split
      · rfl
      · dsimp only
        rw [get_of_lt hi, hSame]
        rfl

theorem doubleQuoteStep_of_le
    (hi : ¬s.i < chars.length) :
    doubleQuoteStep chars s = .ok (.inr s) :=
  if_neg hi

/- A round of the tokeniser within double quotes. -/
theorem follows_doubleQuoteStep
    (hGrave : grave ∉ chars)
    (hRound : doubleQuoteStep chars s = .ok (.inl s'))
    (hComplete : s'.complete = true) (hIn : InQuotes chars s t) :
    ∃ u,
      (∀ b, Ends (step chars) t b ↔ Ends (step chars) u b) ∧
        InQuotes chars s' u := by
  by_cases hi : s.i < chars.length
  · have hc : chars[s.i]? = some chars[s.i] :=
      List.getElem?_eq_getElem hi
    have hBack : chars[s.i] ≠ grave := fun hSame =>
      hGrave (hSame ▸ List.getElem_mem hi)
    generalize chars[s.i] = c at hc hBack
    rw [doubleQuoteStep_of_lt hc] at hRound
    split at hRound
    · cases hRound
    next hDouble =>
    split at hRound
    next hSubst =>
      rcases hSubst with ⟨rfl, hNext⟩
      have hStep := hIn.inStep hc rfl
      rcases stepOver_ok hi hNext with ⟨u, hOver, _, _⟩
      rw [hOver] at hRound
      rcases Sum.inl.inj (Except.ok.inj hRound) with rfl
      rcases follows_stepOver hc hNext hOver hComplete hStep
        with ⟨w, hEnds, hIn'⟩
      exact ⟨w, hEnds, .inl hIn'⟩
    next hSubst =>
    split at hRound
    next hEscape =>
      rcases hEscape with ⟨rfl, hAny⟩
      have hStep := hIn.inStep hc rfl
      have hSame : t.i = s.i := hStep.same hi
      rcases (Option.any_eq_true _ _).mp hAny with ⟨d, hd, _⟩
      rw [Checked.get_of_getElem? hd] at hRound
      rcases Sum.inl.inj (Except.ok.inj hRound) with rfl
      refine ⟨_, fun b => ends_next_iff (step_escape (hSame ▸ hc)), .inl ?_⟩
      rw [hSame]
      exact hStep.goto _
    next hEscape =>
      rcases Sum.inl.inj (Except.ok.inj hRound) with rfl
      rcases hIn with hStep | ⟨_, hAhead⟩
      · have hSame : t.i = s.i := hStep.same hi
        by_cases hSlash : c = '\\'
        · rcases hSlash with rfl
          refine ⟨_, fun b => ends_next_iff
            (step_escape (hSame ▸ hc)), .inr ⟨?_, ?_⟩⟩
          · exact Bool.of_not_eq_true fun hAny =>
              hEscape ⟨rfl, hAny⟩
          · rw [hSame]
            exact hStep.goto _
        · refine ⟨_, fun b => ends_next_iff
            (step_plain_double (hSame ▸ hc) hStep.inDouble
              hSlash hDouble hBack (hSame ▸ hSubst)),
            .inl ?_⟩
          rw [hSame]
          exact hStep.goto _
      · exact ⟨t, fun b => Iff.rfl, .inl hAhead⟩
  · rw [doubleQuoteStep_of_le hi] at hRound
    cases hRound

/- Both come to the closing quote together. -/
theorem follows_inQuotes
    (hGrave : grave ∉ chars) (hEnds : Ends (doubleQuoteStep chars) s s')
    (hComplete : s'.complete = true) (hi : s'.i < chars.length)
    (hIn : InQuotes chars s t) :
    chars[s'.i]? = some '"' ∧ Follows chars (view s') true t := by
  induction hEnds generalizing t with
  | @last s b hBody =>
    have hSafe := doubleQuoteStep_ok chars s
    rw [hBody] at hSafe
    have hSame : b = s := hSafe
    rcases hSame with rfl
    have hc : chars[b.i]? = some chars[b.i] := List.getElem?_eq_getElem hi
    rw [doubleQuoteStep_of_lt hc] at hBody
    split at hBody
    next hDouble =>
      rw [hDouble] at hc
      exact ⟨hc, .here (hIn.inStep hc rfl)⟩
    next =>
      split at hBody
      next hSubst =>
        rcases stepOver_ok hi hSubst.2 with ⟨u, hOver, _, _⟩
        rw [hOver] at hBody
        cases hBody
      next =>
        split at hBody
        next hEscape =>
          rcases (Option.any_eq_true _ _).mp hEscape.2
            with ⟨d, hd, _⟩
          rw [Checked.get_of_getElem? hd] at hBody
          cases hBody
        next => cases hBody
  | @next s u b hBody hRest ih =>
    have hNow : u.complete = true :=
      (moves_of_doubleQuoteStep hRest).complete hComplete
    rcases follows_doubleQuoteStep hGrave hBody hNow hIn with ⟨w, hEnds, hIn'⟩
    rcases ih hComplete hi hIn' with ⟨hQuote, x, hEnds', hAt⟩
    exact ⟨hQuote, x, fun c => (hEnds c).trans (hEnds' c), hAt⟩

theorem follows_doubleQuote
    (hGrave : grave ∉ chars) (hc : chars[s.i]? = some '"')
    (hArm : doubleQuote chars s = .ok s') (hComplete : s'.complete = true)
    (hIn : InStep chars (view s) false t) :
    Follows chars (view s') false t := by
  have hSame : t.i = s.i := hIn.same (List.getElem?_eq_some_iff.mp hc).1
  have hOpen : InStep chars
      (view ((s.push []).goto (s.i + 1) true)) true
      { t.goto (t.i + 1) with inDouble := !t.inDouble } := by
    have hGoto := hIn.goto (s.i + 1)
    refine ⟨?_, hGoto.heredocs, hGoto.skipped, hGoto.bodies, .inl ?_⟩
    · change (!t.inDouble) = true
      rw [hIn.inDouble]
      rfl
    · change t.i + 1 = s.i + 1
      rw [hSame]
  unfold doubleQuote at hArm
  cases hLoop : loop (doubleQuoteStep chars)
      (chars.length + 1) ((s.push []).goto (s.i + 1) true) with
  | error e =>
    rw [hLoop] at hArm
    cases hArm
  | ok u =>
    rw [hLoop, Checked.ok_bind] at hArm
    rcases Except.ok.inj hArm with rfl
    rcases Bool.and_eq_true_iff.mp hComplete with ⟨hNow, hClosed⟩
    have hi : u.i < chars.length := of_decide_eq_true hClosed
    rcases follows_inQuotes hGrave (ends_of_loop hLoop) hNow
      hi (.inl hOpen) with ⟨hQuote, hFollows⟩
    refine .next (step_double (hSame ▸ hc)) ?_
    refine hFollows.bind ?_
    intro w hAt
    have hHere : w.i = u.i := hAt.same hi
    have hGoto := hAt.goto (u.i + 1)
    refine .next (step_double (hHere ▸ hQuote)) (.here ?_)
    refine ⟨?_, hGoto.heredocs, hGoto.skipped, hGoto.bodies, .inl ?_⟩
    · change (!w.inDouble) = false
      rw [hAt.inDouble]
      rfl
    · change w.i + 1 = u.i + 1
      rw [hHere]

-- Every Arm

theorem follows_separatorChar
    (hc : chars[s.i]? = some c) (hSep : c = ';' ∨ c = '&' ∨ c = '(' ∨ c = ')')
    (hIn : InStep chars (view s) false t) :
    Follows chars (view (separator s (s.i + 1))) false t := by
  have hOp : c = ';' ∨ c = '&' ∨ c = '(' ∨ c = ')' ∨ c = '|' ∨ c = '>' := by
    rcases hSep with hc | hc | hc | hc
    all_goals simp [hc]
  exact follows_separator (follows_plain hc (plainAt_of_op hOp _) hIn)

/- A round that leaves the text complete. -/
theorem follows_runArm
    (hGrave : grave ∉ chars) (hOut : s.out ≠ []) (hc : chars[s.i]? = some c)
    (hHash : c = '#' → s.inWord = !wordStart chars s.i)
    (hArm : runArm chars s c (armOf chars s c) = .ok s')
    (hComplete : s'.complete = true) (hIn : InStep chars (view s) false t) :
    Follows chars (view s') false t := by
  have hStarts := starts_armOf chars s c
  generalize armOf chars s c = arm at hStarts hArm
  cases arm with
  | singleQuote =>
    rcases (hStarts : c = _) with rfl
    exact follows_singleQuote hc hArm hIn
  | ansiC =>
    rcases hStarts with ⟨rfl, hNext⟩
    exact follows_ansiC hc hNext hArm hComplete hIn
  | doubleQuote =>
    rcases (hStarts : c = _) with rfl
    exact follows_doubleQuote hGrave hc hArm hComplete hIn
  | backslash =>
    rcases (hStarts : c = _) with rfl
    rcases Except.ok.inj hArm with rfl
    exact follows_backslash hc hIn
  | substitution =>
    rcases hStarts with ⟨rfl, hNext⟩
    exact follows_stepOver hc hNext hArm hComplete hIn
  | backtick =>
    rcases (hStarts : c = _) with rfl
    exact absurd (List.mem_of_getElem? hc) hGrave
  | comment =>
    rcases hStarts with ⟨rfl, hOutside⟩
    have hStart := hHash rfl
    rw [hOutside] at hStart
    exact follows_comment hc (by simpa using hStart.symm) hArm hIn
  | hereString =>
    rcases hStarts with ⟨rfl, hNext, hThird⟩
    rcases Except.ok.inj hArm with rfl
    exact follows_hereString hc hNext hThird hIn
  | heredoc =>
    rcases hStarts with ⟨⟨rfl, hNext⟩, hThird⟩
    exact follows_heredoc hc hNext hThird hOut hArm hIn
  | ampRedirect =>
    rcases hStarts with ⟨rfl, hNext⟩
    rcases Except.ok.inj hArm with rfl
    exact follows_ampRedirect hc hNext hIn
  | redirect =>
    rcases Except.ok.inj hArm with rfl
    exact follows_redirect hc (plainAt_of_plain hStarts.2 hHash) hIn
  | newline =>
    rcases (hStarts : c = _) with rfl
    exact follows_newline hc hOut hArm hIn
  | pipe =>
    rcases (hStarts : c = _) with rfl
    rcases Except.ok.inj hArm with rfl
    exact follows_pipe hc hIn
  | orElse =>
    rcases hStarts with ⟨rfl, hNext⟩
    rcases Except.ok.inj hArm with rfl
    exact follows_orElse hc hNext hIn
  | separator =>
    rcases Except.ok.inj hArm with rfl
    exact follows_separatorChar hc hStarts hIn
  | whitespace =>
    rcases Except.ok.inj hArm with rfl
    rw [view_goto, view_endWord]
    exact follows_plain hc (plainAt_of_plain hStarts.2 hHash) hIn
  | letter =>
    rcases Except.ok.inj hArm with rfl
    rw [view_goto, view_push]
    exact follows_plain hc (plainAt_of_plain hStarts hHash) hIn

end TailFollow
