import Mathlib.Data.List.Infix
import Amplihack.Shell.Tokenise
import Amplihack.Base.Loop

/-
  The tokeniser ends on every text, and reads no character
  outside of it.

  The program that a simple command runs.
-/

-- What A Round Keeps

namespace Shell

open Base

variable {chars : Text}
variable {s t u : State}
variable {c : Char}

/- What every round of the tokeniser does to its state. -/
structure Moves (s t : State) : Prop where
  out : s.out ≠ [] → t.out ≠ []
  complete : t.complete = true → s.complete = true
  skipped : ∃ more, t.skipped = s.skipped ++ more ∧ ∀ r ∈ more, s.i ≤ r.start
  le : s.i ≤ t.i

theorem Moves.refl (s : State) : Moves s s where
  out := id
  complete := id
  skipped := ⟨[], (List.append_nil _).symm, nofun⟩
  le := Nat.le_refl _

theorem Moves.trans
    (hLeft : Moves s t) (hRight : Moves t u) :
    Moves s u where
  out hOut := hRight.out (hLeft.out hOut)
  complete hComplete :=
    hLeft.complete (hRight.complete hComplete)
  skipped := by
    rcases hLeft.skipped with ⟨more, hMore, hFrom⟩
    rcases hRight.skipped with ⟨more', hMore', hFrom'⟩
    refine ⟨more ++ more', ?_, ?_⟩
    · rw [hMore', hMore, List.append_assoc]
    · intro r hr
      rcases List.mem_append.mp hr with hOld | hNew
      · exact hFrom r hOld
      · exact Nat.le_trans hLeft.le (hFrom' r hNew)
  le := Nat.le_trans hLeft.le hRight.le

theorem goto_moves
    {i : ℕ} (hLe : s.i ≤ i) (found : Bool) :
    Moves s (s.goto i found) where
  out := id
  complete hComplete := (Bool.and_eq_true_iff.mp hComplete).1
  skipped := ⟨[], (List.append_nil _).symm, nofun⟩
  le := hLe

theorem push_moves (s : State) (text : Text) :
    Moves s (s.push text) :=
  ⟨id, id, ⟨[], (List.append_nil _).symm, nofun⟩, Nat.le_refl _⟩

theorem skip_moves
    (s : State) (kind : RegionKind) (last : ℕ) :
    Moves s (s.skip kind last) where
  out := id
  complete := id
  skipped := by
    refine ⟨[⟨kind, s.i, last⟩], rfl, ?_⟩
    intro r hr
    rcases List.mem_singleton.mp hr with rfl
    exact Nat.le_refl _
  le := Nat.le_refl _

theorem changeLast_out
    (s : State) (change : SimpleCommand → SimpleCommand) (hOut : s.out ≠ []) :
    (s.changeLast change).out ≠ [] := by
  unfold State.changeLast
  rw [← List.length_pos_iff, List.length_modify]
  exact List.length_pos_iff.mpr hOut

theorem endWord_moves (s : State) : Moves s s.endWord := by
  unfold State.endWord
  split
  · dsimp only
    split
    · exact ⟨id, id, ⟨[], (List.append_nil _).symm, nofun⟩, Nat.le_refl _⟩
    · split
      · exact ⟨fun hOut => changeLast_out _ _ hOut, id,
          ⟨[], (List.append_nil _).symm, nofun⟩,
          Nat.le_refl _⟩
      · exact ⟨fun hOut => changeLast_out _ _ hOut, id,
          ⟨[], (List.append_nil _).symm, nofun⟩,
          Nat.le_refl _⟩
  · exact Moves.refl s

theorem endCommand_moves (s : State) :
    Moves s s.endCommand := by
  unfold State.endCommand
  split
  · exact ⟨id, nofun, ⟨[], (List.append_nil _).symm, nofun⟩, Nat.le_refl _⟩
  · exact Moves.refl s

theorem newCommand_moves (s : State) :
    Moves s s.newCommand where
  out _ := List.append_ne_nil_of_right_ne_nil _ (List.cons_ne_nil _ _)
  complete := id
  skipped := ⟨[], (List.append_nil _).symm, nofun⟩
  le := Nat.le_refl _

theorem nextPipeline_moves (s : State) :
    Moves s s.nextPipeline := by
  have hNew := newCommand_moves { s with pipeline := s.pipeline + 1 }
  exact ⟨hNew.out, hNew.complete, hNew.skipped, hNew.le⟩

-- Every Arm Ends

/- Without a fault, in a state further on. -/
def Advances (s : State) (r : Checked State) : Prop :=
  ∃ t, r = .ok t ∧ Moves s t ∧ s.i < t.i

theorem stepOver_ok
    (hi : s.i < chars.length)
    (hOpen : chars[s.i + 1]? = some '(') :
    Advances s (stepOver chars s) := by
  rcases substClose_ok hOpen with ⟨close, hClose, hLater⟩
  unfold stepOver
  rw [hClose, Checked.ok_bind]
  cases close with
  | some last =>
    rcases hLater last rfl with ⟨hFirst, hLast⟩
    dsimp only
    rw [Checked.ok_bind, Checked.slice_of_le (by omega) (by omega),
      Checked.ok_bind]
    refine ⟨_, rfl, ?_, ?_⟩
    · exact ((skip_moves s _ _).trans
        (push_moves _ _)).trans (goto_moves (by change s.i ≤ _; omega) _)
    · change s.i < last + 1
      omega
  | none =>
    dsimp only
    rw [Checked.sub, if_pos (by omega), Checked.ok_bind,
      Checked.slice_of_le (by omega) (by omega), Checked.ok_bind]
    refine ⟨_, rfl, ?_, ?_⟩
    · exact ((skip_moves s _ _).trans
        (push_moves _ _)).trans (goto_moves (by change s.i ≤ _; omega) _)
    · change s.i < chars.length - 1 + 1
      omega

theorem doubleQuoteStep_ok (chars : Text) (s : State) :
    Safe (fun t => Moves s t ∧ s.i < t.i ∧
        s.i < chars.length)
      (fun t => t = s) (doubleQuoteStep chars s) := by
  unfold doubleQuoteStep
  by_cases hi : s.i < chars.length
  · rw [if_pos hi, get_of_lt hi, Checked.ok_bind]
    split
    · exact .inr rfl
    split
    next hSubst =>
      rcases stepOver_ok hi hSubst.2 with ⟨t, hStep, hMoves, hLess⟩
      rw [hStep, Checked.ok_bind]
      exact .inl ⟨hMoves, hLess, hi⟩
    next =>
      have hPlain : ∀ j c, s.i ≤ j →
          Moves s ((s.push [c]).goto (j + 1) true) ∧ s.i < j + 1 := by
        intro j c hj
        refine ⟨?_, by omega⟩
        exact (push_moves s [c]).trans
          (goto_moves (by change s.i ≤ _; omega) _)
      split
      next hEscape =>
        have hNext : s.i + 1 < chars.length := by
          by_contra hEnd
          rw [List.getElem?_eq_none (by omega)] at hEscape
          simp at hEscape
        dsimp only
        rw [get_of_lt hNext, Checked.ok_bind]
        rcases hPlain (s.i + 1) chars[s.i + 1] (by omega)
          with ⟨hMoves, hLess⟩
        exact .inl ⟨hMoves, hLess, hi⟩
      next =>
        dsimp only
        rw [get_of_lt hi, Checked.ok_bind]
        rcases hPlain s.i chars[s.i] (Nat.le_refl _)
          with ⟨hMoves, hLess⟩
        exact .inl ⟨hMoves, hLess, hi⟩
  · rw [if_neg hi]
    exact .inr rfl

theorem doubleQuote_ok (chars : Text) (s : State) :
    Advances s (doubleQuote chars s) := by
  have hFirst : Moves s ((s.push []).goto (s.i + 1) true) :=
    (push_moves s []).trans (goto_moves (by change s.i ≤ _; omega) _)
  have hLoop : ∃ t,
      loop (doubleQuoteStep chars) (chars.length + 1)
        ((s.push []).goto (s.i + 1) true) = .ok t ∧
      Moves ((s.push []).goto (s.i + 1) true) t := by
    refine loop_ok (Moves ((s.push []).goto (s.i + 1) true))
      (Moves ((s.push []).goto (s.i + 1) true))
      (fun t => chars.length - t.i) ?_ (by omega)
      (Moves.refl _)
    intro t hInv
    apply (doubleQuoteStep_ok chars t).mono
    · rintro u ⟨hMoves, hLess, hi⟩
      exact ⟨hInv.trans hMoves, by omega⟩
    · rintro u rfl
      exact hInv
  rcases hLoop with ⟨t, hDone, hMoves⟩
  have hLe : s.i + 1 ≤ t.i := hMoves.le
  unfold doubleQuote
  rw [hDone, Checked.ok_bind]
  refine ⟨_, rfl, ?_, by change s.i < t.i + 1; omega⟩
  exact (hFirst.trans hMoves).trans (goto_moves (Nat.le_succ _) _)

theorem Advances.goto
    {i : ℕ} {found : Bool} (hMoves : Moves s t)
    (hSame : t.i = s.i) (hLess : s.i < i) :
    Advances s (return t.goto i found) :=
  ⟨_, rfl, hMoves.trans (goto_moves (by omega) found), hLess⟩

theorem singleQuote_ok (chars : Text) (s : State) :
    Advances s (singleQuote chars s) := by
  unfold singleQuote
  rw [readUntil_eq, Checked.ok_bind]
  have hSkip := skip_moves s .single
    (s.i + 1 + (before chars '\'' (s.i + 1)).length)
  refine Advances.goto ?_ rfl (by omega)
  exact ⟨hSkip.out, hSkip.complete, hSkip.skipped, hSkip.le⟩

theorem ansiC_ok (hi : s.i + 1 < chars.length) :
    Advances s (ansiC chars s) := by
  rcases ansiCClose_ok chars (s.i + 1) with ⟨close, hClose, hLater⟩
  have hLast : s.i < close.getD (chars.length - 1) := by
    cases close with
    | none =>
      change s.i < chars.length - 1
      omega
    | some last =>
      have hLess := (hLater last rfl).1
      change s.i < last
      omega
  rcases ansiCDecode_ok (sliceOrEmpty chars (s.i + 2)
    (close.getD (chars.length - 1))) with ⟨decoded, hDecoded⟩
  unfold ansiC
  rw [hClose, Checked.ok_bind]
  dsimp only
  rw [hDecoded, Checked.ok_bind]
  exact .goto ((skip_moves s _ _).trans (push_moves _ _)) rfl (by omega)

theorem backslash_ok (chars : Text) (s : State) :
    Advances s (return backslash chars s) := by
  unfold backslash
  split
  · split
    · exact .goto (push_moves s _) rfl (by omega)
    · exact .goto (Moves.refl s) rfl (by omega)
  · exact .goto (push_moves s []) rfl (Nat.lt_succ_self s.i)

theorem backtick_ok (chars : Text) (s : State) :
    Advances s (backtick chars s) := by
  unfold backtick
  rw [readUntil_eq, Checked.ok_bind]
  refine Advances.goto ?_ rfl (by omega)
  exact ⟨id, id, ⟨[], (List.append_nil _).symm, nofun⟩, Nat.le_refl _⟩

theorem comment_ok (chars : Text) (s : State) :
    Advances s (comment chars s) := by
  unfold comment
  rw [skipComment_eq, Checked.ok_bind]
  exact .goto (skip_moves s _ _) rfl (by omega)

@[simp]
theorem endWord_i (s : State) : s.endWord.i = s.i := by
  unfold State.endWord
  split
  · dsimp only
    split
    · rfl
    · split
      · rfl
      · rfl
  · rfl

@[simp]
theorem endCommand_i (s : State) : s.endCommand.i = s.i := by
  unfold State.endCommand
  split
  · rfl
  · rfl

theorem endLine_moves
    (s : State) (owner : ℕ) (last : SimpleCommand) :
    Moves s (s.endLine owner last) := by
  unfold State.endLine
  split
  · exact Moves.refl s
  · exact (endCommand_moves s).trans (nextPipeline_moves _)

@[simp]
theorem endLine_i
    (s : State) (owner : ℕ) (last : SimpleCommand) :
    (s.endLine owner last).i = s.i := by
  unfold State.endLine
  split
  · rfl
  · exact endCommand_i s

theorem heredoc_ok (hOut : s.out ≠ []) :
    Advances s (heredoc chars s) := by
  have hWord := endWord_moves s
  have hLength : 1 ≤ s.endWord.out.length :=
    List.length_pos_iff.mpr (hWord.out hOut)
  have hDelim := lt_heredocDelim chars s.endWord.i
  rw [endWord_i] at hDelim
  unfold heredoc
  dsimp only
  rw [Checked.sub, if_pos hLength, Checked.ok_bind, endWord_i]
  have hSkip := skip_moves s.endWord .delimiter
    ((heredocDelim chars s.i).2 - 1)
  refine Advances.goto (hWord.trans ?_) (endWord_i s) (by omega)
  exact ⟨hSkip.out, hSkip.complete, hSkip.skipped, hSkip.le⟩

theorem awaitTarget_ok
    {i : ℕ} (hMoves : Moves s t) (hSame : t.i = s.i) (hLess : s.i < i) :
    Advances s (return awaitTarget t i) := by
  have hGoto : Moves t (t.goto i (!t.target)) :=
    goto_moves (by omega) _
  refine ⟨_, rfl, hMoves.trans ?_, hLess⟩
  exact ⟨hGoto.out, hGoto.complete, hGoto.skipped, hGoto.le⟩

theorem ampRedirect_ok (chars : Text) (s : State) :
    Advances s (return ampRedirect chars s) := by
  unfold ampRedirect
  apply awaitTarget_ok (endWord_moves s) (endWord_i s)
  split
  · omega
  · omega

theorem lt_one_or_two (i : ℕ) (p : Prop) [Decidable p] :
    i < if p then i + 2 else i + 1 := by
  split
  · omega
  · omega

theorem redirect_ok (chars : Text) (s : State) (c : Char) :
    Advances s (return redirect chars s c) := by
  unfold redirect
  dsimp only
  split
  · refine awaitTarget_ok ?_ rfl (lt_one_or_two s.i _)
    exact ⟨id, id, ⟨[], (List.append_nil _).symm, nofun⟩, Nat.le_refl _⟩
  · refine awaitTarget_ok (endWord_moves s) (endWord_i s) ?_
    rw [endWord_i]
    exact lt_one_or_two s.i _

theorem length_deliver
    (out : List SimpleCommand) (bodies : List (Pending × Text)) :
    (deliver out bodies).length = out.length := by
  unfold deliver
  induction bodies generalizing out with
  | nil => rfl
  | cons body bodies ih => rw [List.foldl_cons, ih, List.length_modify]

theorem newline_ok (hOut : s.out ≠ []) :
    Advances s (newline chars s) := by
  have hWord := endWord_moves s
  have hLength : 1 ≤ s.endWord.out.length :=
    List.length_pos_iff.mpr (hWord.out hOut)
  have hLast :
      s.endWord.out[s.endWord.out.length - 1]? =
        some (s.endWord.out[s.endWord.out.length - 1]) :=
    List.getElem?_eq_getElem (by omega)
  unfold newline
  dsimp only
  rw [Checked.sub, if_pos hLength, Checked.ok_bind,
    Checked.get_of_getElem? hLast, Checked.ok_bind]
  have hMoves := hWord.trans (endLine_moves s.endWord
    (s.endWord.out.length - 1)
    s.endWord.out[s.endWord.out.length - 1])
  have hSame := endLine_i s.endWord (s.endWord.out.length - 1)
    s.endWord.out[s.endWord.out.length - 1]
  rw [endWord_i] at hSame
  generalize s.endWord.endLine _ _ = t at *
  rcases readHeredocBodies_ok chars t.i
    (t.heredocs.map (·.heredoc)) with ⟨⟨read, i⟩, hRead, hi⟩
  rw [hRead, Checked.ok_bind]
  have hSkip : Moves s
      (if t.heredocs = [] then t else t.skip .bodies i) ∧
        (if t.heredocs = [] then t
          else t.skip .bodies i).i = s.i := by
    split
    · exact ⟨hMoves, hSame⟩
    · exact ⟨hMoves.trans (skip_moves t _ _), hSame⟩
  rcases hSkip with ⟨hSkip, hIndex⟩
  refine Advances.goto ⟨?_, hSkip.complete, hSkip.skipped,
    hSkip.le⟩ hIndex (by dsimp only at hi; omega)
  intro hNone
  rw [← List.length_pos_iff, length_deliver]
  exact List.length_pos_iff.mpr (hMoves.out hNone)

theorem pipe_ok (chars : Text) (s : State) :
    Advances s (return pipe chars s) := by
  unfold pipe
  have hEnd := (endWord_moves s).trans (endCommand_moves _)
  have hLess := lt_one_or_two s.i (chars[s.i + 1]? = some '&')
  refine ⟨_, rfl, hEnd.trans (Moves.trans ?_ (newCommand_moves _)), hLess⟩
  apply goto_moves
  rw [endCommand_i, endWord_i]
  exact Nat.le_of_lt hLess

theorem separator_ok
    {i : ℕ} (hLess : s.i < i) :
    Advances s (return separator s i) := by
  unfold separator
  have hEnd := (endWord_moves s).trans (endCommand_moves _)
  have hGoto : Moves s.endWord.endCommand
      (s.endWord.endCommand.goto i true) := by
    apply goto_moves
    rw [endCommand_i, endWord_i]
    exact Nat.le_of_lt hLess
  exact ⟨_, rfl, (hEnd.trans hGoto).trans (nextPipeline_moves _), hLess⟩

-- The Tokeniser Ends

/- A character that starts nothing of its own. -/
structure Plain (chars : Text) (s : State) (c : Char) : Prop
where
  single : c ≠ '\''
  double : c ≠ '"'
  escape : c ≠ '\\'
  back : c ≠ grave
  line : c ≠ '\n'
  dollar : c = '$' → chars[s.i + 1]? ≠ some '\'' ∧ chars[s.i + 1]? ≠ some '('
  hash : c = '#' → s.inWord = true
  less : c = '<' → chars[s.i + 1]? ≠ some '<'

/- The characters that start an arm. -/
def Starts (chars : Text) (s : State) (c : Char) : Arm → Prop
| .singleQuote => c = '\''
| .ansiC => c = '$' ∧ chars[s.i + 1]? = some '\''
| .doubleQuote => c = '"'
| .backslash => c = '\\'
| .substitution => c = '$' ∧ chars[s.i + 1]? = some '('
| .backtick => c = grave
| .comment => c = '#' ∧ s.inWord = false
| .hereString => c = '<' ∧ chars[s.i + 1]? = some '<' ∧
    chars[s.i + 2]? = some '<'
| .heredoc => (c = '<' ∧ chars[s.i + 1]? = some '<') ∧
    chars[s.i + 2]? ≠ some '<'
| .ampRedirect => c = '&' ∧ chars[s.i + 1]? = some '>'
| .redirect => (c = '<' ∨ c = '>') ∧ Plain chars s c
| .newline => c = '\n'
| .pipe => c = '|'
| .orElse => c = '|' ∧ chars[s.i + 1]? = some '|'
| .separator => c = ';' ∨ c = '&' ∨ c = '(' ∨ c = ')'
| .whitespace => isWhitespace c = true ∧ Plain chars s c
| .letter => Plain chars s c

theorem starts_armOf (chars : Text) (s : State) (c : Char) :
    Starts chars s c (armOf chars s c) := by
  unfold armOf
  dsimp only
  by_cases hSingle : c = '\''
  · rw [if_pos hSingle]
    exact hSingle
  rw [if_neg hSingle]
  by_cases hAnsi : c = '$' ∧ chars[s.i + 1]? = some '\''
  · rw [if_pos hAnsi]
    exact hAnsi
  rw [if_neg hAnsi]
  by_cases hDouble : c = '"'
  · rw [if_pos hDouble]
    exact hDouble
  rw [if_neg hDouble]
  by_cases hEscape : c = '\\'
  · rw [if_pos hEscape]
    exact hEscape
  rw [if_neg hEscape]
  by_cases hSubst : c = '$' ∧ chars[s.i + 1]? = some '('
  · rw [if_pos hSubst]
    exact hSubst
  rw [if_neg hSubst]
  by_cases hBack : c = grave
  · rw [if_pos hBack]
    exact hBack
  rw [if_neg hBack]
  by_cases hComment : c = '#' ∧ s.inWord = false
  · rw [if_pos hComment]
    exact hComment
  rw [if_neg hComment]
  by_cases hThird : c = '<' ∧ chars[s.i + 1]? = some '<' ∧
      chars[s.i + 2]? = some '<'
  · rw [if_pos hThird]
    exact hThird
  rw [if_neg hThird]
  by_cases hLess : c = '<' ∧ chars[s.i + 1]? = some '<'
  · rw [if_pos hLess]
    exact ⟨hLess, fun hNext => hThird ⟨hLess.1, hLess.2, hNext⟩⟩
  rw [if_neg hLess]
  by_cases hAmp : c = '&' ∧ chars[s.i + 1]? = some '>'
  · rw [if_pos hAmp]
    exact hAmp
  rw [if_neg hAmp]
  have plain : c ≠ '\n' → Plain chars s c := by
    intro hNotLine
    constructor
    case single => exact hSingle
    case double => exact hDouble
    case escape => exact hEscape
    case back => exact hBack
    case line => exact hNotLine
    case dollar =>
      intro hDollar
      exact ⟨fun hNext => hAnsi ⟨hDollar, hNext⟩,
        fun hNext => hSubst ⟨hDollar, hNext⟩⟩
    case hash =>
      intro hHash
      exact Bool.of_not_eq_false fun hOut =>
        hComment ⟨hHash, hOut⟩
    case less =>
      intro hLeft hNext
      exact hLess ⟨hLeft, hNext⟩
  by_cases hRedirect : (c = '<' ∨ c = '>') ∧ chars[s.i + 1]? ≠ some '('
  · rw [if_pos hRedirect]
    have hNotLine : c ≠ '\n' := by
      rintro rfl
      exact absurd hRedirect.1 (by decide)
    exact ⟨hRedirect.1, plain hNotLine⟩
  rw [if_neg hRedirect]
  by_cases hLine : c = '\n'
  · rw [if_pos hLine]
    exact hLine
  rw [if_neg hLine]
  by_cases hPipe : c = '|' ∧ chars[s.i + 1]? ≠ some '|'
  · rw [if_pos hPipe]
    exact hPipe.1
  rw [if_neg hPipe]
  by_cases hOr : c = '|'
  · rw [if_pos hOr]
    exact ⟨hOr, by_contra fun hNext => hPipe ⟨hOr, hNext⟩⟩
  rw [if_neg hOr]
  by_cases hEnd : c = ';' ∨ c = '&' ∨ c = '(' ∨ c = ')'
  · rw [if_pos hEnd]
    exact hEnd
  rw [if_neg hEnd]
  by_cases hSpace : isWhitespace c = true
  · rw [if_pos hSpace]
    exact ⟨hSpace, plain hLine⟩
  rw [if_neg hSpace]
  exact plain hLine

/- Every round ends without a fault, further on. -/
theorem runArm_moves
    (hi : s.i < chars.length) (hOut : s.out ≠ []) :
    Advances s (runArm chars s c (armOf chars s c)) := by
  cases hArm : armOf chars s c with
  | singleQuote => exact singleQuote_ok chars s
  | ansiC =>
    have hNext := starts_armOf chars s c
    rw [hArm] at hNext
    exact ansiC_ok (List.getElem?_eq_some_iff.mp hNext.2).1
  | doubleQuote => exact doubleQuote_ok chars s
  | backslash => exact backslash_ok chars s
  | substitution =>
    have hNext := starts_armOf chars s c
    rw [hArm] at hNext
    exact stepOver_ok hi hNext.2
  | backtick => exact backtick_ok chars s
  | comment => exact comment_ok chars s
  | hereString => exact .goto (endWord_moves s) (endWord_i s) (by omega)
  | heredoc => exact heredoc_ok hOut
  | ampRedirect => exact ampRedirect_ok chars s
  | redirect => exact redirect_ok chars s c
  | newline => exact newline_ok hOut
  | pipe => exact pipe_ok chars s
  | orElse | separator => exact separator_ok (by omega)
  | whitespace => exact .goto (endWord_moves s) (endWord_i s) (by omega)
  | letter => exact .goto (push_moves s [c]) rfl (by omega)

theorem step_ok
    (hOut : s.out ≠ []) :
    Safe (fun t => Moves s t ∧ s.i < t.i ∧ s.i < chars.length)
      (fun t => t = s) (step chars s) := by
  unfold step
  by_cases hi : s.i < chars.length
  · rcases runArm_moves (c := chars[s.i]) hi hOut with
      ⟨t, hArm, hMoves, hLess⟩
    rw [if_pos hi, get_of_lt hi, Checked.ok_bind, hArm, Checked.ok_bind]
    exact .inl ⟨hMoves, hLess, hi⟩
  · rw [if_neg hi]
    exact .inr rfl

theorem scanned_ok (chars : Text) :
    ∃ s, scanned chars = .ok s ∧ Moves start s := by
  refine loop_ok (Moves start) (Moves start)
    (fun s => chars.length - s.i) ?_ (by omega)
    (Moves.refl start)
  intro s hInv
  have hOut : s.out ≠ [] := hInv.out (List.cons_ne_nil _ _)
  apply (step_ok hOut).mono
  · rintro t ⟨hMoves, hLess, hi⟩
    exact ⟨hInv.trans hMoves, by omega⟩
  · rintro t rfl
    exact hInv

theorem tokenise_ok (chars : Text) :
    ∃ parsed, tokenise chars = .ok parsed := by
  rcases scanned_ok chars with ⟨s, hScanned, _⟩
  unfold tokenise
  rw [hScanned, Checked.ok_bind]
  exact ⟨_, rfl⟩

end Shell

-- Texts

namespace Shell

open Base

def isOneOf (names : List String) (text : Text) : Bool :=
  names.any fun name => name.toList == text

def startsWith (text : Text) (start : String) : Bool :=
  start.toList.isPrefixOf text

def contains (text : Text) (part : String) : Bool :=
  decide (part.toList <:+: text)

/- `text.to_ascii_lowercase()` -/
def lower (text : Text) : Text :=
  text.map Char.toLower

/- `text.split_once(c)` -/
def splitOnce (c : Char) (text : Text) : Option (Text × Text) :=
  if text.contains c then
    some (text.takeWhile (· ≠ c), (text.dropWhile (· ≠ c)).drop 1)
  else none

/- What comes after the last `/`. -/
def basename (word : Text) : Text :=
  (word.reverse.takeWhile (· ≠ '/')).reverse

def isAssignment (word : Text) : Bool :=
  match splitOnce '=' word with
  | some (name, _) =>
    !name.isEmpty && name.all (fun c => c == '_' || c.isAlphanum) &&
      !name.head?.any Char.isDigit
  | none => false

-- The Program Word

/- A program that runs the command after it. -/
structure Wrapper where
  name : String
  valueOpts : List String
  positionals : ℕ

def wrappers : List Wrapper :=
  [⟨"env", ["-u", "--unset", "-C", "--chdir", "-S", "--split-string"], 0⟩,
    ⟨"exec", ["-a"], 0⟩,
    ⟨"command", [], 0⟩,
    ⟨"nohup", [], 0⟩,
    ⟨"time", [], 0⟩,
    ⟨"nice", ["-n", "--adjustment"], 0⟩,
    ⟨"timeout", ["-s", "--signal", "-k", "--kill-after"], 1⟩,
    ⟨"sudo", ["-u", "-g", "-C", "-D", "-h", "-p", "-r", "-t", "-U"], 0⟩]

/- Words that may come before the program word. -/
def reserved : List String :=
  ["!", "\x7b", "\x7d", "if", "then", "elif", "else", "while", "until", "do"]

variable (words : List Text)

/- The index and the positionals still to skip. -/
def wrapperStep
    (valueOpts : List String) (s : ℕ × ℕ) :
    Checked ((ℕ × ℕ) ⊕ ℕ) :=
  if s.1 < words.length then do
    let w ← Checked.get words s.1
    if isOneOf valueOpts w then return .inl (s.1 + 2, s.2)
    else if startsWith w "-" || isAssignment w then
      return .inl (s.1 + 1, s.2)
    else if 0 < s.2 then return .inl (s.1 + 1, s.2 - 1)
    else return .inr s.1
  else return .inr s.1

def programStep (i : ℕ) :
    Checked (ℕ ⊕ Option (List Text)) :=
  if i < words.length then do
    let w ← Checked.get words i
    if isOneOf reserved w || isAssignment w then
      return .inl (i + 1)
    else
      match wrappers.find?
          (fun wrapper => wrapper.name.toList == basename w) with
      | none => do
          let rest ← Checked.slice words i words.length
          return .inr (some rest)
      | some wrapper => do
          let i ← loop (wrapperStep words wrapper.valueOpts)
            (words.length + 1) (i + 1, wrapper.positionals)
          return .inl i
  else return .inr none

/- The words from the program on. -/
def program : Checked (Option (List Text)) :=
  loop (programStep words) (words.length + 1) 0

-- The Program Is Found

variable {words}

theorem wrapper_ok
    (words : List Text) (valueOpts : List String) (i skip : ℕ) :
    ∃ j, loop (wrapperStep words valueOpts) (words.length + 1)
      (i, skip) = .ok j ∧ i ≤ j := by
  refine loop_ok (fun s : ℕ × ℕ => i ≤ s.1) (fun j => i ≤ j)
    (fun s => words.length - s.1) ?_ (by omega)
    (Nat.le_refl i)
  rintro ⟨j, skip⟩ hInv
  unfold wrapperStep
  dsimp only at hInv ⊢
  by_cases hj : j < words.length
  · rw [if_pos hj, Checked.get_of_getElem?
      (List.getElem?_eq_getElem hj), Checked.ok_bind]
    split
    · exact .inl ⟨by omega, by omega⟩
    split
    · exact .inl ⟨by omega, by omega⟩
    split
    · exact .inl ⟨by omega, by omega⟩
    · exact .inr hInv
  · rw [if_neg hj]
    exact .inr hInv

/- The program and its arguments end the words. -/
theorem program_ok (words : List Text) :
    ∃ rest, program words = .ok rest ∧ ∀ r ∈ rest, r <:+ words := by
  refine loop_ok (fun _ => True)
    (fun rest => ∀ r ∈ rest, r <:+ words)
    (fun i => words.length - i) ?_ (by omega) trivial
  intro i _
  unfold programStep
  by_cases hi : i < words.length
  · rw [if_pos hi, Checked.get_of_getElem?
      (List.getElem?_eq_getElem hi), Checked.ok_bind]
    split
    · exact .inl ⟨trivial, by omega⟩
    split
    · rw [Checked.slice_of_le (by omega) (Nat.le_refl _), Checked.ok_bind]
      refine .inr ?_
      intro r hr
      rcases Option.mem_some_iff.mp hr with rfl
      rw [List.take_length]
      exact List.drop_suffix i words
    next wrapper _ =>
      rcases wrapper_ok words wrapper.valueOpts (i + 1)
        wrapper.positionals with ⟨j, hLoop, hj⟩
      rw [hLoop, Checked.ok_bind]
      exact .inl ⟨trivial, by omega⟩
  · rw [if_neg hi]
    exact .inr nofun

theorem program_total (words : List Text) :
    Total (program words) := by
  rcases program_ok words with ⟨rest, hRest, _⟩
  exact ⟨rest, hRest⟩

end Shell
