import Amplihack.TailFollow.Substitutions

/-
  The two shell scanners step over the same regions of a text,
  if they agree on where a comment starts.
-/

-- What Both Scanners See

namespace TailFollow

open Base Shell

variable {chars : Text}
variable {s p : State}
variable {t u : Cursor}
variable {c : Char}
variable {i : ℕ}

/- The texts inside the substitutions stepped over. -/
def bodiesOf (chars : Text) (skipped : List Region) :
    List Text :=
  (skipped.filter fun r => r.kind = .substitution).map fun r =>
    sliceOrEmpty chars (r.start + 2) r.last

/-
  Every `#` outside of quotes is in a word for the tokeniser
  exactly if no word may start there for the other scanner.
-/
def HashesAgree (chars : Text) : Prop :=
  ∀ s, Visits (Shell.step chars) Shell.start s →
    chars[s.i]? = some '#' →
    s.inWord = !wordStart chars s.i

/- The part of a state that the other scanner has too. -/
structure View where
  i : ℕ
  heredocs : List Heredoc
  skipped : List Region

def view (s : State) : View where
  i := s.i
  heredocs := s.heredocs.map (·.heredoc)
  skipped := s.skipped

@[simp]
theorem view_endWord (s : State) : view s.endWord = view s := by
  unfold State.endWord
  split
  · dsimp only
    split
    · rfl
    · split
      · rfl
      · rfl
  · rfl

@[simp]
theorem view_endCommand (s : State) :
    view s.endCommand = view s := by
  unfold State.endCommand
  split
  · rfl
  · rfl

@[simp]
theorem view_newCommand (s : State) :
    view s.newCommand = view s :=
  rfl

@[simp]
theorem view_nextPipeline (s : State) :
    view s.nextPipeline = view s :=
  rfl

@[simp]
theorem view_endLine
    (s : State) (owner : ℕ) (last : SimpleCommand) :
    view (s.endLine owner last) = view s := by
  unfold State.endLine
  split
  · rfl
  · rw [view_nextPipeline, view_endCommand]

@[simp]
theorem view_push (s : State) (text : Text) :
    view (s.push text) = view s :=
  rfl

@[simp]
theorem view_goto (s : State) (i : ℕ) (found : Bool) :
    view (s.goto i found) = { view s with i } :=
  rfl

@[simp]
theorem view_awaitTarget (s : State) (i : ℕ) :
    view (awaitTarget s i) = { view s with i } :=
  rfl

/- Both scanners at one place, having skipped the same. -/
structure InStep
    (chars : Text) (v : View) (inDouble : Bool) (t : Cursor) :
    Prop where
  inDouble : t.inDouble = inDouble
  heredocs : t.heredocs = v.heredocs
  skipped : t.skipped = v.skipped
  bodies : t.bodies = bodiesOf chars t.skipped
  i : t.i = v.i ∨ chars.length ≤ v.i ∧ chars.length ≤ t.i

/- `t` leads to a cursor in step with `v`. -/
def Follows
    (chars : Text) (v : View) (inDouble : Bool) (t : Cursor) :
    Prop :=
  ∃ u, (∀ b, Ends (step chars) t b ↔ Ends (step chars) u b) ∧
    InStep chars v inDouble u

theorem Follows.here
    {v : View} {inDouble : Bool} (hIn : InStep chars v inDouble t) :
    Follows chars v inDouble t :=
  ⟨t, fun _ => Iff.rfl, hIn⟩

theorem Follows.next
    {v : View} {inDouble : Bool} (hStep : step chars t = .ok (.inl u))
    (hFollows : Follows chars v inDouble u) :
    Follows chars v inDouble t := by
  rcases hFollows with ⟨w, hEnds, hIn⟩
  exact ⟨w, fun b => (ends_next_iff hStep).trans (hEnds b), hIn⟩

theorem Follows.bind
    {v w : View} {inDouble inDouble' : Bool}
    (hFollows : Follows chars v inDouble t)
    (hOnward : ∀ u, InStep chars v inDouble u → Follows chars w inDouble' u) :
    Follows chars w inDouble' t := by
  rcases hFollows with ⟨u, hEnds, hIn⟩
  rcases hOnward u hIn with ⟨x, hEnds', hIn'⟩
  exact ⟨x, fun b => (hEnds b).trans (hEnds' b), hIn'⟩

-- Rounds Of The Other Scanner

variable {v : View}
variable {inDouble : Bool}

theorem InStep.same
    (hIn : InStep chars v inDouble t) (hi : v.i < chars.length) :
    t.i = v.i := by
  rcases hIn.i with hSame | ⟨hEnd, _⟩
  · exact hSame
  · omega

theorem bodiesOf_append_of_ne
    {r : Region} (hKind : r.kind ≠ .substitution) (skipped : List Region) :
    bodiesOf chars (skipped ++ [r]) = bodiesOf chars skipped := by
  unfold bodiesOf
  rw [List.filter_append, List.filter_cons_of_neg (by simpa),
    List.filter_nil, List.append_nil]

/- A character that the other scanner passes over. -/
structure PlainAt (chars : Text) (i : ℕ) (c : Char) : Prop
where
  single : c ≠ '\''
  double : c ≠ '"'
  escape : c ≠ '\\'
  back : c ≠ grave
  line : c ≠ '\n'
  dollar : c = '$' → chars[i + 1]? ≠ some '\'' ∧ chars[i + 1]? ≠ some '('
  hash : c = '#' → wordStart chars i = false
  less : c = '<' → chars[i + 1]? ≠ some '<'

theorem step_plain
    (hc : chars[t.i]? = some c) (hOut : t.inDouble = false)
    (hPlain : PlainAt chars t.i c) :
    step chars t = .ok (.inl (t.goto (t.i + 1))) := by
  rw [step_of_getElem? hc]
  unfold arm
  dsimp only
  rw [if_neg hPlain.escape, if_neg hPlain.double,
    if_neg fun hSubst => (hPlain.dollar hSubst.1).2 hSubst.2,
    if_neg hPlain.back, if_neg (by simp [hOut]),
    if_neg fun hAnsi => (hPlain.dollar hAnsi.1).1 hAnsi.2,
    if_neg hPlain.single,
    if_neg fun hHash => by simp [hPlain.hash hHash.1] at hHash,
    if_neg fun hThird => hPlain.less hThird.1 hThird.2.1,
    if_neg fun hLess => hPlain.less hLess.1 hLess.2, if_neg hPlain.line]
  rfl

theorem step_plain_double
    (hc : chars[t.i]? = some c) (hIn : t.inDouble = true)
    (hEscape : c ≠ '\\') (hDouble : c ≠ '"') (hBack : c ≠ grave)
    (hSubst : ¬(c = '$' ∧ chars[t.i + 1]? = some '(')) :
    step chars t = .ok (.inl (t.goto (t.i + 1))) := by
  rw [step_of_getElem? hc]
  unfold arm
  dsimp only
  rw [if_neg hEscape, if_neg hDouble, if_neg hSubst, if_neg hBack, if_pos hIn]
  rfl

theorem step_escape (hc : chars[t.i]? = some '\\') :
    step chars t = .ok (.inl (t.goto (t.i + 2))) := by
  rw [step_of_getElem? hc]
  rfl

theorem step_double (hc : chars[t.i]? = some '"') :
    step chars t =
      .ok (.inl { t.goto (t.i + 1) with
        inDouble := !t.inDouble }) := by
  rw [step_of_getElem? hc]
  rfl

theorem step_subst
    {last : ℕ} (hc : chars[t.i]? = some '$')
    (hNext : chars[t.i + 1]? = some '(')
    (hClose : substClose chars t.i = .ok (some last)) :
    step chars t =
      .ok (.inl (((t.skip .substitution last).addBody
        (sliceOrEmpty chars (t.i + 2) last)).goto (last + 1))) := by
  rcases substClose_ok hNext with ⟨close, hFound, hLater⟩
  rw [hClose] at hFound
  rcases Except.ok.inj hFound with rfl
  rcases hLater last rfl with ⟨hFirst, hLast⟩
  rw [step_of_getElem? hc]
  unfold arm
  dsimp only
  rw [if_neg (by decide), if_neg (by decide),
    if_pos ⟨rfl, hNext⟩, hClose, Checked.ok_bind]
  dsimp only
  rw [Checked.slice_of_le hFirst (by omega), Checked.ok_bind]
  unfold sliceOrEmpty
  rw [if_pos ⟨hFirst, by omega⟩]
  rfl

theorem step_ansiC
    {last : ℕ} (hc : chars[t.i]? = some '$')
    (hNext : chars[t.i + 1]? = some '\'') (hOut : t.inDouble = false)
    (hClose : ansiCClose chars (t.i + 1) = .ok (some last)) :
    step chars t = .ok (.inl ((t.skip .ansiC last).goto (last + 1))) := by
  rw [step_of_getElem? hc]
  unfold arm
  dsimp only
  rw [if_neg (by decide), if_neg (by decide), if_neg (by simp [hNext]),
    if_neg (by decide), if_neg (by simp [hOut]), if_pos ⟨rfl, hNext⟩, hClose]
  rfl

theorem step_single
    (hc : chars[t.i]? = some '\'') (hOut : t.inDouble = false) :
    step chars t =
      .ok (.inl ((t.skip .single
        (t.i + 1 + (before chars '\'' (t.i + 1)).length)).goto
          (t.i + 1 + (before chars '\'' (t.i + 1)).length + 1))) := by
  rw [step_of_getElem? hc]
  unfold arm
  dsimp only
  rw [if_neg (by decide), if_neg (by decide), if_neg (by simp),
    if_neg (by decide), if_neg (by simp [hOut]), if_neg (by simp),
    if_pos rfl, skipTo_eq]
  rfl

theorem step_comment
    (hc : chars[t.i]? = some '#') (hOut : t.inDouble = false)
    (hStart : wordStart chars t.i = true) :
    step chars t =
      .ok (.inl ((t.skip .comment
        (t.i + (before chars '\n' (t.i + 1)).length)).goto
          (t.i + (before chars '\n' (t.i + 1)).length + 1))) := by
  rw [step_of_getElem? hc]
  unfold arm
  dsimp only
  rw [if_neg (by decide), if_neg (by decide), if_neg (by simp),
    if_neg (by decide), if_neg (by simp [hOut]), if_neg (by simp),
    if_neg (by decide), if_pos ⟨rfl, hStart⟩, skipComment_eq]
  rfl

theorem step_less
    (hc : chars[t.i]? = some '<') (hNext : chars[t.i + 1]? = some '<')
    (hOut : t.inDouble = false) :
    step chars t =
      if chars[t.i + 2]? = some '<' then
        .ok (.inl (t.goto (t.i + 3)))
      else
        .ok (.inl
          { (t.skip .delimiter
              ((heredocDelim chars t.i).2 - 1)).goto
                (heredocDelim chars t.i).2 with
            heredocs :=
              t.heredocs ++ [(heredocDelim chars t.i).1] }) := by
  rw [step_of_getElem? hc]
  unfold arm
  dsimp only
  rw [if_neg (by decide), if_neg (by decide), if_neg (by simp),
    if_neg (by decide), if_neg (by simp [hOut]), if_neg (by simp),
    if_neg (by decide), if_neg (by simp)]
  by_cases hThird : chars[t.i + 2]? = some '<'
  · rw [if_pos ⟨rfl, hNext, hThird⟩, if_pos hThird]
    rfl
  · rw [if_neg (by simp [hThird]), if_pos ⟨rfl, hNext⟩, if_neg hThird]
    rfl

theorem step_newline
    {read : List Text × Bool} {last : ℕ}
    (hc : chars[t.i]? = some '\n') (hOut : t.inDouble = false)
    (hRead : readHeredocBodies chars t.i t.heredocs = .ok (read, last)) :
    step chars t =
      .ok (.inl
        { (if t.heredocs = [] then t
            else t.skip .bodies last).goto (last + 1) with
          heredocs := [] }) := by
  rw [step_of_getElem? hc]
  unfold arm
  dsimp only
  rw [if_neg (by decide), if_neg (by decide), if_neg (by simp),
    if_neg (by decide), if_neg (by simp [hOut]), if_neg (by simp),
    if_neg (by decide), if_neg (by simp), if_neg (by simp),
    if_neg (by simp), if_pos rfl, hRead]
  rfl

end TailFollow
