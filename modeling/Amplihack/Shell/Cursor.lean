import Amplihack.Base.Loop
import Mathlib.Data.List.Basic

/-
  The scans of the shell tokeniser over the characters of a
  command line. A text is a list of characters, and each scan
  takes the index it starts from.
-/

-- Characters

namespace Shell

open Base

abbrev Text := List Char

def isWhitespace (c : Char) : Bool :=
  (9 ≤ c.toNat && c.toNat ≤ 13) || c.toNat == 0x20 ||
    c.toNat == 0x85 || c.toNat == 0xa0 || c.toNat == 0x1680 ||
    (0x2000 ≤ c.toNat && c.toNat ≤ 0x200a) ||
    c.toNat == 0x2028 || c.toNat == 0x2029 ||
    c.toNat == 0x202f || c.toNat == 0x205f || c.toNat == 0x3000

variable (chars : Text)

/- `chars.get(start..stop).unwrap_or_default()` -/
def sliceOrEmpty (start stop : ℕ) : Text :=
  if start ≤ stop ∧ stop ≤ chars.length then
    (chars.take stop).drop start
  else []

-- Plain Scans

def readUntilStep
    (stop : Char) (s : ℕ × Text) :
    Checked ((ℕ × Text) ⊕ (ℕ × Text)) :=
  if s.1 < chars.length then do
    let c ← Checked.get chars s.1
    if c = stop then return .inr s
    else return .inl (s.1 + 1, s.2 ++ [c])
  else return .inr s

/- Adds the characters before the next `stop` to a word. -/
def readUntil
    (stop : Char) (i : ℕ) (word : Text) :
    Checked (ℕ × Text) :=
  loop (readUntilStep chars stop) (chars.length + 1) (i, word)

/- The index of the next `stop`, or of the end. -/
def skipTo (stop : Char) (i : ℕ) : Checked ℕ := do
  let read ← readUntil chars stop i []
  return read.1

def skipCommentStep (i : ℕ) : Checked (ℕ ⊕ ℕ) :=
  if i + 1 < chars.length then do
    let c ← Checked.get chars (i + 1)
    if c = '\n' then return .inr i else return .inl (i + 1)
  else return .inr i

/- The last index of the line. -/
def skipComment (i : ℕ) : Checked ℕ :=
  loop (skipCommentStep chars) (chars.length + 1) i

-- ANSI-C Quoting

def ansiCCloseStep (i : ℕ) : Checked (ℕ ⊕ Option ℕ) :=
  if i < chars.length then do
    let c ← Checked.get chars i
    if c = '\\' then return .inl (i + 2)
    else if c = '\'' then return .inr (some i)
    else return .inl (i + 1)
  else return .inr none

/- The closing quote of the `$'…'` whose quote is at `opened`. -/
def ansiCClose (opened : ℕ) : Checked (Option ℕ) :=
  loop (ansiCCloseStep chars) (chars.length + 1) (opened + 1)

/- The value of a digit up to `radix`, as `char::to_digit`. -/
def toDigit (radix : ℕ) (c : Char) : Option ℕ :=
  let digit :=
    if '0' ≤ c ∧ c ≤ '9' then some (c.toNat - 48)
    else if 'a' ≤ c ∧ c ≤ 'z' then some (c.toNat - 87)
    else if 'A' ≤ c ∧ c ≤ 'Z' then some (c.toNat - 55)
    else none
  digit.filter (· < radix)

def u32Max : ℕ :=
  0xffffffff

/- Up to `max` more digits after the value so far. -/
def radixDigits
    (body : Text) (radix : ℕ) :
    ℕ → ℕ → Option ℕ → Option ℕ × ℕ
| 0, i, value => (value, i)
| max + 1, i, value =>
  match body[i]?.bind (toDigit radix) with
  | none => (value, i)
  | some d =>
    let times := min (value.getD 0 * radix) u32Max
    radixDigits body radix max (i + 1) (some (min (times + d) u32Max))

/- `char::from_u32(code).unwrap_or('\u{fffd}')` -/
def charOrReplacement (code : ℕ) : Char :=
  if code < 0xd800 ∨ 0xdfff < code ∧ code < 0x110000 then
    Char.ofNat code
  else Char.ofNat 0xfffd

def simpleEscape (e : Char) : Option Char :=
  if e = 'a' then some (Char.ofNat 7)
  else if e = 'b' then some (Char.ofNat 8)
  else if e = 'e' ∨ e = 'E' then some (Char.ofNat 0x1b)
  else if e = 'f' then some (Char.ofNat 0xc)
  else if e = 'n' then some '\n'
  else if e = 'r' then some '\r'
  else if e = 't' then some '\t'
  else if e = 'v' then some (Char.ofNat 0xb)
  else if e = '\\' ∨ e = '\'' ∨ e = '"' ∨ e = '?' then some e
  else none

/- The code of the escape of `e`, with `i` after it. -/
def escapeCode (body : Text) (e : Char) (i : ℕ) :
    Option ℕ × ℕ :=
  if e = 'x' then radixDigits body 16 2 i none
  else if e = 'u' then radixDigits body 16 4 i none
  else if e = 'U' then radixDigits body 16 8 i none
  else if '0' ≤ e ∧ e ≤ '7' then
    radixDigits body 8 3 (i - 1) none
  else if e = 'c' then
    match body[i]? with
    | some x => (some (x.toNat % 32), i + 1)
    | none => (none, i)
  else (none, i)

def ansiCDecodeStep
    (body : Text) (s : ℕ × Text) :
    Checked ((ℕ × Text) ⊕ Text) :=
  match body[s.1]? with
  | none => return .inr s.2
  | some c =>
    if c ≠ '\\' then return .inl (s.1 + 1, s.2 ++ [c])
    else
      match body[s.1 + 1]? with
      | none => return .inr (s.2 ++ ['\\'])
      | some e =>
        match simpleEscape e with
        | some decoded =>
          return .inl (s.1 + 2, s.2 ++ [decoded])
        | none =>
          let (code, i) := escapeCode body e (s.1 + 2)
          match code with
          | some code =>
            return .inl (i, s.2 ++ [charOrReplacement code])
          | none => return .inl (i, s.2 ++ ['\\', e])

def ansiCDecode (body : Text) : Checked Text :=
  loop (ansiCDecodeStep body) (body.length + 1) (0, [])

-- Heredocs

/- A delimiter and whether leading tabs are stripped. -/
abbrev Heredoc := Text × Bool

def isBlank (c : Char) : Bool :=
  c == ' ' || c == '\t'

def endsDelim (c : Char) : Bool :=
  isWhitespace c || ";&|()<>".toList.contains c

def isQuoting (c : Char) : Bool :=
  "'\"\\".toList.contains c

/- Where the word of the `<<` at `i` starts. -/
def delimStart (i : ℕ) : ℕ :=
  let i := if chars[i + 2]? = some '-' then i + 3 else i + 2
  i + ((chars.drop i).takeWhile isBlank).length

/- The word of the `<<` at `i`. -/
def delimWord (i : ℕ) : Text :=
  (chars.drop (delimStart chars i)).takeWhile (!endsDelim ·)

def delimQuoted (i : ℕ) : Bool :=
  (delimWord chars i).any isQuoting

/- The delimiter of the `<<` at `i` and the index after it. -/
def heredocDelim (i : ℕ) : Heredoc × ℕ :=
  (((delimWord chars i).filter (!isQuoting ·), chars[i + 2]? == some '-'),
    delimStart chars i + (delimWord chars i).length)

/- A line as it is compared and kept. -/
def stripped (heredoc : Heredoc) (line : Text) : Text :=
  if heredoc.2 then line.dropWhile (· = '\t') else line

/- The lines so far, with `i` at the last newline. -/
def readBodyStep
    (heredoc : Heredoc) (s : ℕ × List Text) :
    Checked ((ℕ × List Text) ⊕ (Text × Bool) × ℕ) :=
  let start := s.1 + 1
  if chars.length ≤ start then
    return .inr ((['\n'].intercalate s.2, false), s.1)
  else do
    let stop :=
      start + ((chars.drop start).takeWhile (· ≠ '\n')).length
    let line ← Checked.slice chars start stop
    if stripped heredoc line = heredoc.1 then
      return .inr ((['\n'].intercalate s.2, true), stop)
    else return .inl (stop, s.2 ++ [stripped heredoc line])

/- The body and whether its delimiter line was found. -/
def readBody (heredoc : Heredoc) (i : ℕ) :
    Checked ((Text × Bool) × ℕ) :=
  loop (readBodyStep chars heredoc) (chars.length + 1) (i, [])

def readHeredocBodies :
    ℕ → List Heredoc → Checked ((List Text × Bool) × ℕ)
| i, [] => return (([], true), i)
| i, heredoc :: rest => do
    let (body, i) ← readBody chars heredoc i
    let (bodies, i) ← readHeredocBodies i rest
    return ((body.1 :: bodies.1, body.2 && bodies.2), i)

-- Substitutions

inductive Frame where
  | subst (depth : ℕ) (heredocs : List Heredoc)
  | quote
deriving DecidableEq

def substCloseStep
    (s : List Frame × ℕ) :
    Checked ((List Frame × ℕ) ⊕ Option ℕ) :=
  let (stack, i) := s
  if i < chars.length then do
    let c ← Checked.get chars i
    match stack with
    | [] => return .inr none
    | .quote :: below =>
      if c = '"' then return .inl (below, i + 1)
      else if c = '\\' then return .inl (stack, i + 2)
      else if c = '$' ∧ chars[i + 1]? = some '(' then
        return .inl (.subst 0 [] :: stack, i + 1)
      else return .inl (stack, i + 1)
    | .subst depth heredocs :: below =>
      if c = '(' then
        return .inl (.subst (depth + 1) heredocs :: below, i + 1)
      else if c = ')' then
        if depth - 1 = 0 then
          if below = [] then return .inr (some i)
          else return .inl (below, i + 1)
        else
          return .inl (.subst (depth - 1) heredocs :: below, i + 1)
      else if c = '\\' then return .inl (stack, i + 2)
      else if c = '$' ∧ chars[i + 1]? = some '\'' then do
        let close ← ansiCClose chars (i + 1)
        match close with
        | none => return .inr none
        | some close => return .inl (stack, close + 1)
      else if c = '\'' then do
        let close ← skipTo chars '\'' (i + 1)
        return .inl (stack, close + 1)
      else if c = '"' then
        return .inl (.quote :: stack, i + 1)
      else if c = '<' ∧ chars[i + 1]? = some '<' ∧
          chars[i + 2]? = some '<' then
        return .inl (stack, i + 3)
      else if c = '<' ∧ chars[i + 1]? = some '<' then
        let (heredoc, j) := heredocDelim chars i
        return .inl (.subst depth (heredocs ++ [heredoc]) :: below, j)
      else if c = '\n' then do
        let (_, j) ← readHeredocBodies chars i heredocs
        return .inl (.subst depth [] :: below, j + 1)
      else return .inl (stack, i + 1)
  else return .inr none

/- The `)` that closes the `$(` at `start`. -/
def substClose (start : ℕ) : Checked (Option ℕ) :=
  loop (substCloseStep chars) (chars.length + 1) ([.subst 0 []], start + 1)

-- What The Scans Read

section Scans

variable {chars}
variable {i : ℕ}
variable {c stop : Char}
variable {word : Text}

theorem get_of_lt (hi : i < chars.length) :
    Checked.get chars i = .ok chars[i] :=
  Checked.get_of_getElem? (List.getElem?_eq_getElem hi)

theorem takeWhile_drop
    (p : Char → Bool) (hi : i < chars.length) :
    (chars.drop i).takeWhile p =
      if p chars[i] then
        chars[i] :: (chars.drop (i + 1)).takeWhile p
      else [] := by
  rw [List.drop_eq_getElem_cons hi, List.takeWhile_cons]

theorem takeWhile_drop_of_le
    (p : Char → Bool) (hi : chars.length ≤ i) :
    (chars.drop i).takeWhile p = [] := by
  rw [List.drop_of_length_le hi]
  rfl

theorem length_takeWhile_drop_le
    (p : Char → Bool) (hi : i ≤ chars.length) :
    i + ((chars.drop i).takeWhile p).length ≤
      chars.length := by
  have hPart := (List.takeWhile_prefix p (l := chars.drop i)).length_le
  rw [List.length_drop] at hPart
  omega

/- The characters before the next `stop`. -/
def before (chars : Text) (stop : Char) (i : ℕ) : Text :=
  (chars.drop i).takeWhile (· ≠ stop)

theorem before_of_ne
    (hi : i < chars.length) (hc : chars[i] ≠ stop) :
    before chars stop i = chars[i] :: before chars stop (i + 1) := by
  unfold before
  rw [takeWhile_drop _ hi, if_pos (decide_eq_true hc)]

theorem before_of_eq
    (hi : i < chars.length) (hc : chars[i] = stop) :
    before chars stop i = [] := by
  unfold before
  rw [takeWhile_drop _ hi, if_neg]
  simpa using hc

theorem before_of_le (hi : chars.length ≤ i) :
    before chars stop i = [] :=
  takeWhile_drop_of_le _ hi

theorem readUntilStep_of_ne
    (hi : i < chars.length) (hc : chars[i] ≠ stop) :
    readUntilStep chars stop (i, word) =
      .ok (.inl (i + 1, word ++ [chars[i]])) := by
  unfold readUntilStep
  rw [if_pos hi, get_of_lt hi, Checked.ok_bind, if_neg hc]
  rfl

theorem readUntilStep_of_eq
    (hi : i < chars.length) (hc : chars[i] = stop) :
    readUntilStep chars stop (i, word) = .ok (.inr (i, word)) := by
  unfold readUntilStep
  rw [if_pos hi, get_of_lt hi, Checked.ok_bind, if_pos hc]
  rfl

theorem readUntilStep_of_le (hi : chars.length ≤ i) :
    readUntilStep chars stop (i, word) = .ok (.inr (i, word)) := by
  unfold readUntilStep
  rw [if_neg (Nat.not_lt.mpr hi)]
  rfl

theorem loop_readUntilStep
    {fuel : ℕ} (hFuel : chars.length - i < fuel) :
    loop (readUntilStep chars stop) fuel (i, word) =
      .ok (i + (before chars stop i).length,
        word ++ before chars stop i) := by
  induction fuel generalizing i word with
  | zero => exact absurd hFuel (Nat.not_lt_zero _)
  | succ fuel ih =>
    by_cases hi : i < chars.length
    · by_cases hc : chars[i] = stop
      · rw [loop_last (readUntilStep_of_eq hi hc),
          before_of_eq hi hc, List.append_nil]
        rfl
      · rw [loop_next (readUntilStep_of_ne hi hc), before_of_ne hi hc,
          ih (by omega), List.length_cons, List.append_assoc,
          Nat.add_right_comm]
        rfl
    · have hEnd := Nat.le_of_not_lt hi
      rw [loop_last (readUntilStep_of_le hEnd),
        before_of_le hEnd, List.append_nil]
      rfl

theorem readUntil_eq
    (chars : Text) (stop : Char) (i : ℕ) (word : Text) :
    readUntil chars stop i word =
      .ok (i + (before chars stop i).length, word ++ before chars stop i) :=
  loop_readUntilStep (by omega)

theorem skipTo_eq (chars : Text) (stop : Char) (i : ℕ) :
    skipTo chars stop i = .ok (i + (before chars stop i).length) := by
  unfold skipTo
  rw [readUntil_eq]
  rfl

theorem loop_skipCommentStep
    {fuel : ℕ} (hFuel : chars.length - i < fuel) :
    loop (skipCommentStep chars) fuel i =
      .ok (i + (before chars '\n' (i + 1)).length) := by
  induction fuel generalizing i with
  | zero => exact absurd hFuel (Nat.not_lt_zero _)
  | succ fuel ih =>
    by_cases hi : i + 1 < chars.length
    · by_cases hc : chars[i + 1] = '\n'
      · have hStep : skipCommentStep chars i = .ok (.inr i) := by
          unfold skipCommentStep
          rw [if_pos hi, get_of_lt hi, Checked.ok_bind, if_pos hc]
          rfl
        rw [loop_last hStep, before_of_eq hi hc]
        rfl
      · have hStep : skipCommentStep chars i = .ok (.inl (i + 1)) := by
          unfold skipCommentStep
          rw [if_pos hi, get_of_lt hi, Checked.ok_bind, if_neg hc]
          rfl
        rw [loop_next hStep, before_of_ne hi hc, ih (by omega),
          List.length_cons, Nat.add_right_comm]
        rfl
    · have hStep : skipCommentStep chars i = .ok (.inr i) := by
        unfold skipCommentStep
        rw [if_neg hi]
        rfl
      rw [loop_last hStep, before_of_le (Nat.le_of_not_lt hi)]
      rfl

theorem skipComment_eq (chars : Text) (i : ℕ) :
    skipComment chars i = .ok (i + (before chars '\n' (i + 1)).length) :=
  loop_skipCommentStep (by omega)

-- Where The Scans End

/- A closing quote comes after its opening one. -/
theorem ansiCClose_ok (chars : Text) (opened : ℕ) :
    ∃ close, ansiCClose chars opened = .ok close ∧
      ∀ k ∈ close, opened < k ∧ k < chars.length := by
  refine loop_ok (fun i => opened < i)
    (fun close =>
      ∀ k ∈ close, opened < k ∧ k < chars.length)
    (fun i => chars.length - i) ?_ (by omega)
    (Nat.lt_succ_self _)
  intro i hInv
  unfold ansiCCloseStep
  by_cases hi : i < chars.length
  · rw [if_pos hi, get_of_lt hi, Checked.ok_bind]
    split
    · exact .inl ⟨by omega, by omega⟩
    · split
      · refine .inr ?_
        intro k hk
        rw [Option.mem_some_iff] at hk
        omega
      · exact .inl ⟨by omega, by omega⟩
  · rw [if_neg hi]
    exact .inr nofun

theorem le_radixDigits
    (body : Text) (radix max i : ℕ) (value : Option ℕ) :
    i ≤ (radixDigits body radix max i value).2 := by
  induction max generalizing i value with
  | zero => exact Nat.le_refl _
  | succ max ih =>
    unfold radixDigits
    split
    · exact Nat.le_refl _
    · exact Nat.le_trans (Nat.le_succ i) (ih _ _)

theorem le_escapeCode (body : Text) (e : Char) (i : ℕ) :
    i - 1 ≤ (escapeCode body e i).2 := by
  have hLess : i - 1 ≤ i := Nat.sub_le i 1
  unfold escapeCode
  split
  · exact Nat.le_trans hLess (le_radixDigits _ _ _ _ _)
  · split
    · exact Nat.le_trans hLess (le_radixDigits _ _ _ _ _)
    · split
      · exact Nat.le_trans hLess (le_radixDigits _ _ _ _ _)
      · split
        · exact le_radixDigits _ _ _ _ _
        · split
          · split
            · exact Nat.le_trans hLess (Nat.le_succ i)
            · exact hLess
          · exact hLess

theorem ansiCDecode_ok (body : Text) :
    ∃ out, ansiCDecode body = .ok out := by
  have hLoop : ∃ out, ansiCDecode body = .ok out ∧ True := by
    refine loop_ok (fun _ => True) (fun _ => True)
      (fun s : ℕ × Text => body.length - s.1) ?_ (by omega)
      trivial
    rintro ⟨i, out⟩ _
    unfold ansiCDecodeStep
    simp only
    split
    next => exact .inr trivial
    next c hc =>
      have hi := (List.getElem?_eq_some_iff.mp hc).1
      split
      · exact .inl ⟨trivial, by omega⟩
      · split
        next => exact .inr trivial
        next e _ =>
          have hNext := le_escapeCode body e (i + 2)
          split
          next => exact .inl ⟨trivial, by omega⟩
          next =>
            split
            next =>
              exact .inl ⟨trivial, by omega⟩
            next =>
              exact .inl ⟨trivial, by omega⟩
  rcases hLoop with ⟨out, hOut, _⟩
  exact ⟨out, hOut⟩

/- A body is read up to its delimiter line or the end. -/
theorem readBody_ok
    (chars : Text) (heredoc : Heredoc) (i : ℕ) :
    ∃ read, readBody chars heredoc i = .ok read ∧ i ≤ read.2 := by
  refine loop_ok (fun s : ℕ × List Text => i ≤ s.1)
    (fun read : (Text × Bool) × ℕ => i ≤ read.2)
    (fun s => chars.length - s.1) ?_ (by omega)
    (Nat.le_refl _)
  rintro ⟨j, lines⟩ hInv
  unfold readBodyStep
  simp only
  by_cases hj : chars.length ≤ j + 1
  · rw [if_pos hj]
    exact .inr hInv
  · have hStop : j + 1 + ((chars.drop (j + 1)).takeWhile
        (· ≠ '\n')).length ≤ chars.length :=
      length_takeWhile_drop_le _ (Nat.le_of_not_le hj)
    rw [if_neg hj, Checked.slice_of_le (Nat.le_add_right _ _) hStop,
      Checked.ok_bind]
    split
    · exact .inr (by simp only; omega)
    · exact .inl ⟨by omega, by omega⟩

theorem readHeredocBodies_ok
    (chars : Text) (i : ℕ) (heredocs : List Heredoc) :
    ∃ read, readHeredocBodies chars i heredocs = .ok read ∧ i ≤ read.2 := by
  induction heredocs generalizing i with
  | nil => exact ⟨_, rfl, Nat.le_refl i⟩
  | cons heredoc rest ih =>
    rcases readBody_ok chars heredoc i with ⟨⟨body, j⟩, hBody, hj⟩
    rcases ih j with ⟨⟨bodies, k⟩, hRest, hk⟩
    unfold readHeredocBodies
    rw [hBody, Checked.ok_bind]
    simp only
    rw [hRest, Checked.ok_bind]
    exact ⟨_, rfl, Nat.le_trans hj hk⟩

theorem lt_heredocDelim (chars : Text) (i : ℕ) :
    i + 2 ≤ (heredocDelim chars i).2 := by
  unfold heredocDelim delimStart
  simp only
  split
  · omega
  · omega

/- Each round of `substClose` moves the index on. -/
theorem substCloseStep_ok
    (chars : Text) (stack : List Frame) (i : ℕ) :
    Safe (fun t : List Frame × ℕ =>
        i < t.2 ∧ i < chars.length)
      (fun close => ∀ k ∈ close, k = i ∧ k < chars.length)
      (substCloseStep chars (stack, i)) := by
  unfold substCloseStep
  simp only
  by_cases hi : i < chars.length
  · rw [if_pos hi, get_of_lt hi, Checked.ok_bind]
    have hOne : i < i + 1 := Nat.lt_succ_self i
    have hTwo : i < i + 2 := by omega
    cases stack with
    | nil => exact .inr nofun
    | cons frame below =>
      cases frame with
      | quote =>
        simp only
        split
        · exact .inl ⟨hOne, hi⟩
        · split
          · exact .inl ⟨hTwo, hi⟩
          · split
            · exact .inl ⟨hOne, hi⟩
            · exact .inl ⟨hOne, hi⟩
      | subst depth heredocs =>
        dsimp only
        split
        · exact .inl ⟨hOne, hi⟩
        split
        · split
          · split
            · refine .inr ?_
              intro k hk
              rw [Option.mem_some_iff] at hk
              exact ⟨hk.symm, hk ▸ hi⟩
            · exact .inl ⟨hOne, hi⟩
          · exact .inl ⟨hOne, hi⟩
        split
        · exact .inl ⟨hTwo, hi⟩
        split
        · rcases ansiCClose_ok chars (i + 1) with
            ⟨close, hClose, hLater⟩
          rw [hClose, Checked.ok_bind]
          cases close with
          | none => exact .inr nofun
          | some close =>
            have hk := (hLater close rfl).1
            exact .inl ⟨by omega, hi⟩
        split
        · rw [skipTo_eq, Checked.ok_bind]
          exact .inl ⟨by omega, hi⟩
        split
        · exact .inl ⟨hOne, hi⟩
        split
        · exact .inl ⟨by omega, hi⟩
        split
        · have hDelim := lt_heredocDelim chars i
          exact .inl ⟨by omega, hi⟩
        split
        · rcases readHeredocBodies_ok chars i heredocs with
            ⟨⟨bodies, j⟩, hRead, hj⟩
          rw [hRead, Checked.ok_bind]
          exact .inl ⟨by omega, hi⟩
        · exact .inl ⟨hOne, hi⟩
  · rw [if_neg hi]
    exact .inr nofun

theorem substClose_total (chars : Text) (start : ℕ) :
    ∃ close, substClose chars start = .ok close := by
  have hLoop : ∃ close, substClose chars start = .ok close ∧ True := by
    refine loop_ok (fun _ => True) (fun _ => True)
      (fun s : List Frame × ℕ => chars.length - s.2) ?_
      (by omega) trivial
    rintro ⟨stack, i⟩ _
    apply (substCloseStep_ok chars stack i).mono
    · rintro t ⟨hNext, hi⟩
      exact ⟨trivial, by simp only; omega⟩
    · exact fun _ _ => trivial
  rcases hLoop with ⟨close, hClose, _⟩
  exact ⟨close, hClose⟩

/- The closing parenthesis comes after the opening one. -/
theorem substClose_ok
    {start : ℕ}
    (hOpen : chars[start + 1]? = some '(') :
    ∃ close, substClose chars start = .ok close ∧
      ∀ k ∈ close, start + 2 ≤ k ∧ k < chars.length := by
  refine loop_ok
    (fun s : List Frame × ℕ =>
      s = ([.subst 0 []], start + 1) ∨ start + 2 ≤ s.2)
    (fun close =>
      ∀ k ∈ close, start + 2 ≤ k ∧ k < chars.length)
    (fun s => chars.length - s.2) ?_ (by omega)
    (.inl rfl)
  rintro ⟨stack, i⟩ hInv
  rcases hInv with hFirst | hLater
  · cases hFirst
    rcases List.getElem?_eq_some_iff.mp hOpen with ⟨hi, hc⟩
    have hStep :
        substCloseStep chars ([.subst 0 []], start + 1) =
          .ok (.inl ([.subst 1 []], start + 2)) := by
      unfold substCloseStep
      dsimp only
      rw [if_pos hi, get_of_lt hi, Checked.ok_bind, hc]
      rfl
    rw [hStep]
    exact .inl ⟨.inr (Nat.le_refl _), by simp only; omega⟩
  · apply (substCloseStep_ok chars stack i).mono
    · rintro t ⟨hNext, hi⟩
      simp only at hLater ⊢
      exact ⟨.inr (by omega), by omega⟩
    · intro close hClose k hk
      rcases hClose k hk with ⟨rfl, hLess⟩
      exact ⟨hLater, hLess⟩

end Scans

end Shell
