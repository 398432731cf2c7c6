import Amplihack.Shell.Program

/-
  The substitutions that the shell runs when it reads a text,
  as the tail-follow guard finds them.

  The state also keeps the regions that were stepped over, in
  the order they were met.
-/

-- The Scanner

namespace TailFollow

open Base Shell

structure Cursor where
  bodies : List Text
  heredocs : List Heredoc
  inDouble : Bool
  i : ℕ
  skipped : List Region

def start : Cursor where
  bodies := []
  heredocs := []
  inDouble := false
  i := 0
  skipped := []

namespace Cursor

def goto (s : Cursor) (i : ℕ) : Cursor :=
  { s with i }

def skip (s : Cursor) (kind : RegionKind) (last : ℕ) :
    Cursor :=
  { s with skipped := s.skipped ++ [⟨kind, s.i, last⟩] }

def addBody (s : Cursor) (body : Text) : Cursor :=
  { s with bodies := s.bodies ++ [body] }

end Cursor

variable (chars : Text)

/- Whether a word may start at an index. -/
def wordStart (i : ℕ) : Bool :=
  if i = 0 then true
  else chars[i - 1]?.any fun c =>
    isWhitespace c || ";&|(".toList.contains c

/- The same, with the character before the index read. -/
def wordStartAt (i : ℕ) : Checked Bool :=
  if i = 0 then return true
  else do
    let c ← Checked.get chars (i - 1)
    return isWhitespace c || ";&|(".toList.contains c

def backtickStep (last : ℕ) : Checked (ℕ ⊕ ℕ) :=
  if last < chars.length then do
    let c ← Checked.get chars last
    if c = grave then return .inr last
    else if c = '\\' then return .inl (last + 2)
    else return .inl (last + 1)
  else return .inr last

/- The closing backtick of the one at `i`, or past the end. -/
def backtickClose (i : ℕ) : Checked ℕ :=
  loop (backtickStep chars) (chars.length + 1) (i + 1)

/- What a character starts, at the start of a word or not. -/
def arm (start : Bool) (c : Char) (s : Cursor) :
    Checked (Cursor ⊕ Cursor) :=
  let next := chars[s.i + 1]?
  if c = '\\' then return .inl (s.goto (s.i + 2))
  else if c = '"' then
    return .inl { s.goto (s.i + 1) with
      inDouble := !s.inDouble }
  else if c = '$' ∧ next = some '(' then do
    let close ← substClose chars s.i
    match close with
    | none => return .inr s
    | some last =>
      let body ← Checked.slice chars (s.i + 2) last
      return .inl (((s.skip .substitution last).addBody body).goto (last + 1))
  else if c = grave then do
    let last ← backtickClose chars s.i
    if chars.length ≤ last then return .inr s
    else do
      let body ← Checked.slice chars (s.i + 1) last
      return .inl ((s.addBody body).goto (last + 1))
  else if s.inDouble then return .inl (s.goto (s.i + 1))
  else if c = '$' ∧ next = some '\'' then do
    let close ← ansiCClose chars (s.i + 1)
    match close with
    | none => return .inr s
    | some last =>
      return .inl ((s.skip .ansiC last).goto (last + 1))
  else if c = '\'' then do
    let last ← skipTo chars '\'' (s.i + 1)
    return .inl ((s.skip .single last).goto (last + 1))
  else if c = '#' ∧ start then do
    let last ← skipComment chars s.i
    return .inl ((s.skip .comment last).goto (last + 1))
  else if c = '<' ∧ next = some '<' ∧
      chars[s.i + 2]? = some '<' then
    return .inl (s.goto (s.i + 3))
  else if c = '<' ∧ next = some '<' then
    let (heredoc, i) := heredocDelim chars s.i
    return .inl
      { (s.skip .delimiter (i - 1)).goto i with
        heredocs := s.heredocs ++ [heredoc] }
  else if c = '\n' then do
    let (_, last) ← readHeredocBodies chars s.i s.heredocs
    let t := if s.heredocs = [] then s else s.skip .bodies last
    return .inl { t.goto (last + 1) with heredocs := [] }
  else return .inl (s.goto (s.i + 1))

def step (s : Cursor) : Checked (Cursor ⊕ Cursor) :=
  if s.i < chars.length then do
    let c ← Checked.get chars s.i
    let start ← wordStartAt chars s.i
    arm chars start c s
  else return .inr s

/- The state where the scan ends. -/
def scanned : Checked Cursor :=
  loop (step chars) (chars.length + 1) start

def substitutionBodies : Checked (List Text) := do
  let s ← scanned chars
  return s.bodies

-- The Scanner Ends

variable {chars}
variable {s t : Cursor}

theorem wordStartAt_of_lt
    {i : ℕ} (hi : i < chars.length) :
    wordStartAt chars i = .ok (wordStart chars i) := by
  unfold wordStartAt wordStart
  split
  · rfl
  · have hBefore : i - 1 < chars.length := by omega
    rw [get_of_lt hBefore, Checked.ok_bind, List.getElem?_eq_getElem hBefore]
    rfl

theorem step_of_lt (hi : s.i < chars.length) :
    step chars s = arm chars (wordStart chars s.i) chars[s.i] s := by
  unfold step
  rw [if_pos hi, get_of_lt hi, Checked.ok_bind,
    wordStartAt_of_lt hi, Checked.ok_bind]

theorem step_of_getElem?
    {c : Char} (hc : chars[s.i]? = some c) :
    step chars s = arm chars (wordStart chars s.i) c s := by
  rcases List.getElem?_eq_some_iff.mp hc with ⟨hi, rfl⟩
  exact step_of_lt hi

theorem backtickClose_ok (chars : Text) (i : ℕ) :
    ∃ last, backtickClose chars i = .ok last ∧ i < last := by
  refine loop_ok (fun last => i < last) (fun last => i < last)
    (fun last => chars.length - last) ?_ (by omega)
    (Nat.lt_succ_self i)
  intro last hInv
  unfold backtickStep
  by_cases hLast : last < chars.length
  · rw [if_pos hLast, get_of_lt hLast, Checked.ok_bind]
    split
    · exact .inr hInv
    · split
      · exact .inl ⟨by omega, by omega⟩
      · exact .inl ⟨by omega, by omega⟩
  · rw [if_neg hLast]
    exact .inr hInv

/- What every round does to the regions stepped over. -/
structure Moves (s t : Cursor) : Prop where
  skipped : ∃ more, t.skipped = s.skipped ++ more ∧ ∀ r ∈ more, s.i ≤ r.start
  lt : s.i < t.i

theorem moves_goto
    {i : ℕ} (hSkipped : t.skipped = s.skipped) (hLess : s.i < i) :
    Moves s (t.goto i) :=
  ⟨⟨[], hSkipped.trans (List.append_nil _).symm, nofun⟩, hLess⟩

theorem moves_skip
    {kind : RegionKind} {last : ℕ}
    (hSkipped : t.skipped = s.skipped ++ [⟨kind, s.i, last⟩])
    (hLess : s.i < t.i) :
    Moves s t := by
  refine ⟨⟨[⟨kind, s.i, last⟩], hSkipped, ?_⟩, hLess⟩
  intro r hr
  rcases List.mem_singleton.mp hr with rfl
  exact Nat.le_refl _

/- Every round ends without a fault, further on. -/
theorem step_ok (chars : Text) (s : Cursor) :
    Safe (fun t => Moves s t ∧ s.i < chars.length)
      (fun t => t = s) (step chars s) := by
  by_cases hi : s.i < chars.length
  · rw [step_of_lt hi]
    unfold arm
    dsimp only
    by_cases hEscape : chars[s.i] = '\\'
    · rw [if_pos hEscape]
      exact .inl ⟨moves_goto rfl (by omega), hi⟩
    rw [if_neg hEscape]
    by_cases hDouble : chars[s.i] = '"'
    · rw [if_pos hDouble]
      have hGoto : Moves s (s.goto (s.i + 1)) :=
        moves_goto rfl (Nat.lt_succ_self _)
      exact .inl ⟨⟨hGoto.skipped, hGoto.lt⟩, hi⟩
    rw [if_neg hDouble]
    by_cases hSubst : chars[s.i] = '$' ∧ chars[s.i + 1]? = some '('
    · rw [if_pos hSubst]
      rcases substClose_ok hSubst.2 with ⟨close, hClose, hLater⟩
      rw [hClose, Checked.ok_bind]
      cases close with
      | none => exact .inr rfl
      | some last =>
        rcases hLater last rfl with ⟨hFirst, hLast⟩
        dsimp only
        rw [Checked.slice_of_le hFirst (by omega), Checked.ok_bind]
        refine .inl ⟨moves_skip rfl ?_, hi⟩
        change s.i < last + 1
        omega
    rw [if_neg hSubst]
    by_cases hBack : chars[s.i] = grave
    · rw [if_pos hBack]
      rcases backtickClose_ok chars s.i with ⟨last, hClose, hLess⟩
      rw [hClose, Checked.ok_bind]
      split
      · exact .inr rfl
      · rw [Checked.slice_of_le hLess (by omega), Checked.ok_bind]
        exact .inl ⟨moves_goto rfl (by omega), hi⟩
    rw [if_neg hBack]
    by_cases hIn : s.inDouble = true
    · rw [if_pos hIn]
      exact .inl ⟨moves_goto rfl (by omega), hi⟩
    rw [if_neg hIn]
    by_cases hAnsi : chars[s.i] = '$' ∧ chars[s.i + 1]? = some '\''
    · rw [if_pos hAnsi]
      rcases ansiCClose_ok chars (s.i + 1) with ⟨close, hClose, hLater⟩
      rw [hClose, Checked.ok_bind]
      cases close with
      | none => exact .inr rfl
      | some last =>
        have hFirst := (hLater last rfl).1
        refine .inl ⟨moves_skip rfl ?_, hi⟩
        change s.i < last + 1
        omega
    rw [if_neg hAnsi]
    by_cases hSingle : chars[s.i] = '\''
    · rw [if_pos hSingle, skipTo_eq, Checked.ok_bind]
      refine .inl ⟨moves_skip rfl ?_, hi⟩
      change s.i < s.i + 1 + _ + 1
      omega
    rw [if_neg hSingle]
    by_cases hHash : chars[s.i] = '#' ∧ wordStart chars s.i = true
    · rw [if_pos hHash, skipComment_eq, Checked.ok_bind]
      refine .inl ⟨moves_skip rfl ?_, hi⟩
      change s.i < s.i + _ + 1
      omega
    rw [if_neg hHash]
    by_cases hThird :
      chars[s.i] = '<' ∧ chars[s.i + 1]? = some '<' ∧
        chars[s.i + 2]? = some '<'
    · rw [if_pos hThird]
      exact .inl ⟨moves_goto rfl (by omega), hi⟩
    rw [if_neg hThird]
    by_cases hLess : chars[s.i] = '<' ∧ chars[s.i + 1]? = some '<'
    · rw [if_pos hLess]
      have hDelim := lt_heredocDelim chars s.i
      refine .inl ⟨moves_skip rfl ?_, hi⟩
      change s.i < (heredocDelim chars s.i).2
      omega
    rw [if_neg hLess]
    by_cases hLine : chars[s.i] = '\n'
    · rw [if_pos hLine]
      rcases readHeredocBodies_ok chars s.i s.heredocs with
        ⟨⟨read, last⟩, hRead, hLast⟩
      rw [hRead, Checked.ok_bind]
      dsimp only at hLast ⊢
      split
      · have hGoto : Moves s (s.goto (last + 1)) :=
          moves_goto rfl (by omega)
        exact .inl ⟨⟨hGoto.skipped, hGoto.lt⟩, hi⟩
      · refine .inl ⟨moves_skip rfl ?_, hi⟩
        change s.i < last + 1
        omega
    rw [if_neg hLine]
    exact .inl ⟨moves_goto rfl (by omega), hi⟩
  · unfold step
    rw [if_neg hi]
    exact .inr rfl

theorem scanned_ok (chars : Text) :
    ∃ s, scanned chars = .ok s := by
  have hLoop : ∃ s, scanned chars = .ok s ∧ True := by
    refine loop_ok (fun _ => True) (fun _ => True)
      (fun s => chars.length - s.i) ?_ (by omega) trivial
    intro s _
    apply (step_ok chars s).mono
    · rintro t ⟨hMoves, hi⟩
      have hLess := hMoves.lt
      exact ⟨trivial, by omega⟩
    · exact fun _ _ => trivial
  rcases hLoop with ⟨s, hScanned, _⟩
  exact ⟨s, hScanned⟩

theorem substitutionBodies_ok (chars : Text) :
    ∃ bodies, substitutionBodies chars = .ok bodies := by
  rcases scanned_ok chars with ⟨s, hScanned⟩
  unfold substitutionBodies
  rw [hScanned, Checked.ok_bind]
  exact ⟨_, rfl⟩

end TailFollow
