import Amplihack.Shell.Program

/-
  The tokens of a text that no shell has read yet, in the
  readings that a shell or `printf` may give it.

  Which characters are letters or digits is left open.

  What one tmux invocation does: its global options, with
  their scope, and whether its commands kill.
-/

-- Substitutions

namespace TmuxGuard

open Base Shell

/- Stands in for a substitution in the text around it. -/
def placeholder : Text :=
  " $_ ".toList

/- The bodies and the rest so far, with the index. -/
structure Pieces where
  bodies : List Text
  rest : Text
  i : ℕ

/- Steps over a substitution that ends at `last`. -/
def Pieces.take (s : Pieces) (body : Text) (last : ℕ) :
    Pieces where
  bodies := s.bodies ++ [body]
  rest := s.rest ++ placeholder
  i := last + 1

def substitutionsStep
    (chars : Text) (s : Pieces) :
    Checked (Pieces ⊕ List Text × Text) :=
  match chars[s.i]? with
  | none => return .inr (s.bodies, s.rest)
  | some c =>
    if c = '$' ∧ chars[s.i + 1]? = some '(' then do
      let close ← substClose chars s.i
      let last := close.getD chars.length
      return .inl (s.take (sliceOrEmpty chars (s.i + 2) last) last)
    else if c = grave then
      let last := s.i + 1 + ((chars.drop (s.i + 1)).takeWhile
        (· ≠ grave)).length
      return .inl (s.take (sliceOrEmpty chars (s.i + 1) last) last)
    else
      return .inl { s with rest := s.rest ++ [c], i := s.i + 1 }

/- The bodies of the substitutions, and the text around. -/
def substitutions (text : Text) : Checked (List Text × Text) :=
  loop (substitutionsStep text) (text.length + 1) ⟨[], [], 0⟩

theorem substitutions_total (text : Text) :
    Total (substitutions text) := by
  have hLoop : ∃ pieces, substitutions text = .ok pieces ∧ True := by
    refine loop_ok (fun _ => True) (fun _ => True)
      (fun s : Pieces => text.length - s.i) ?_ (by simp)
      trivial
    intro s _
    unfold substitutionsStep
    split
    next => exact .inr trivial
    next c hc =>
      have hi := (List.getElem?_eq_some_iff.mp hc).1
      split
      next hSubst =>
        rcases substClose_ok hSubst.2 with ⟨close, hClose, hLater⟩
        have hLast : s.i < close.getD text.length := by
          cases close with
          | none => exact hi
          | some last =>
            have hFirst := (hLater last rfl).1
            change s.i < last
            omega
        rw [hClose, Checked.ok_bind]
        refine .inl ⟨trivial, ?_⟩
        change text.length - (_ + 1) < _
        omega
      next =>
        split
        · refine .inl ⟨trivial, ?_⟩
          change text.length - (s.i + 1 + _ + 1) < _
          omega
        · refine .inl ⟨trivial, ?_⟩
          change text.length - (s.i + 1) < _
          omega
  rcases hLoop with ⟨pieces, hRun, _⟩
  exact ⟨pieces, hRun⟩

-- Readings

/- Each one-letter printf escape is read as a separator. -/
def printfSplit : Text → Text
| [] => []
| [c] => [c]
| c :: e :: rest =>
  if c ≠ '\\' then c :: printfSplit (e :: rest)
  else if "abefnrtv".toList.contains e then
    ' ' :: printfSplit rest
  else c :: e :: printfSplit rest

/- The end of the `$'…'` at the index, if there is one. -/
def ansiCAt (chars : Text) (i : ℕ) : Checked (Option ℕ) :=
  if chars[i]? = some '$' ∧ chars[i + 1]? = some '\'' then
    ansiCClose chars (i + 1)
  else return none

def unquotedStep
    (chars : Text) (s : ℕ × Text) :
    Checked ((ℕ × Text) ⊕ Text) :=
  match chars[s.1]? with
  | none => return .inr s.2
  | some c => do
      let close ← ansiCAt chars s.1
      match close with
      | some close => do
          let decoded ←
            ansiCDecode (sliceOrEmpty chars (s.1 + 2) close)
          return .inl (close + 1, s.2 ++ decoded)
      | none =>
        if isQuoting c then return .inl (s.1 + 1, s.2)
        else return .inl (s.1 + 1, s.2 ++ [c])

/- The quoting that a shell removes from a word undone. -/
def unquoted (text : Text) : Checked Text :=
  loop (unquotedStep text) (text.length + 1) (0, [])

theorem ansiCAt_ok (chars : Text) (i : ℕ) :
    ∃ close, ansiCAt chars i = .ok close ∧ ∀ k ∈ close, i < k := by
  unfold ansiCAt
  split
  · rcases ansiCClose_ok chars (i + 1) with
      ⟨close, hClose, hLater⟩
    refine ⟨close, hClose, ?_⟩
    intro k hk
    have hLess := (hLater k hk).1
    omega
  · exact ⟨none, rfl, nofun⟩

theorem unquoted_total (text : Text) :
    Total (unquoted text) := by
  have hLoop : ∃ out, unquoted text = .ok out ∧ True := by
    refine loop_ok (fun _ => True) (fun _ => True)
      (fun s : ℕ × Text => text.length - s.1) ?_ (by simp)
      trivial
    rintro ⟨i, out⟩ _
    unfold unquotedStep
    dsimp only
    split
    next => exact .inr trivial
    next c hc =>
      have hi := (List.getElem?_eq_some_iff.mp hc).1
      rcases ansiCAt_ok text i with ⟨close, hClose, hLater⟩
      rw [hClose, Checked.ok_bind]
      cases close with
      | none =>
        dsimp only
        split
        · exact .inl ⟨trivial, by dsimp only; omega⟩
        · exact .inl ⟨trivial, by dsimp only; omega⟩
      | some k =>
        have hLess := hLater k rfl
        rcases ansiCDecode_ok
          (sliceOrEmpty text (i + 2) k) with
            ⟨decoded, hDecoded⟩
        dsimp only
        rw [hDecoded, Checked.ok_bind]
        exact .inl ⟨trivial, by dsimp only; omega⟩
  rcases hLoop with ⟨out, hRun, _⟩
  exact ⟨out, hRun⟩

variable (isAlphanumeric : Char → Bool)

def tokens (text : Text) : List Text :=
  (text.splitOnP fun c =>
    !(isAlphanumeric c || "_.-/".toList.contains c)).filter (!·.isEmpty)

/-
  Whether the test holds for the tokens of the text as it is
  written, with printf escapes or with its quoting undone.
-/
def anyReading (text : Text) (test : List Text → Bool) :
    Checked Bool :=
  if test (tokens isAlphanumeric text) then return true
  else if text.contains '\\' &&
      test (tokens isAlphanumeric (printfSplit text)) then
    return true
  else if text.any isQuoting then do
    let bare ← unquoted text
    return test (tokens isAlphanumeric bare)
  else return false

theorem anyReading_total
    (text : Text) (test : List Text → Bool) :
    Total (anyReading isAlphanumeric text test) := by
  unfold anyReading
  split
  · exact .pure true
  · split
    · exact .pure true
    · split
      · exact (unquoted_total text).bind fun _ => .pure _
      · exact .pure false

-- Candidates

def eqIgnoreCase (text : Text) (name : String) : Bool :=
  lower text == lower name.toList

/- `text.get(..n)`: none if a character is cut in two. -/
def getTo : ℕ → Text → Option Text
| 0, _ => some []
| _ + 1, [] => none
| n + 1, c :: rest =>
  if c.utf8Size ≤ n + 1 then
    (getTo (n + 1 - c.utf8Size) rest).map (c :: ·)
  else none

def startsKillS (word : Text) : Bool :=
  (getTo 6 word).any (eqIgnoreCase · "kill-s")

def isTmux (word : Text) : Bool :=
  eqIgnoreCase (basename word) "tmux"

/- The last component is `tmux` or ends in `-tmux`. -/
def isTmuxToken (token : Text) : Bool :=
  let last := basename token
  isTmux last ||
    (last.contains '-' &&
      eqIgnoreCase (last.reverse.takeWhile (· ≠ '-')).reverse "tmux")

def isExpansion (word : Text) : Bool :=
  word.contains '$' || word.contains grave

/- A `tmux` token and a `kill-s` token. -/
def hasCandidate (text : Text) : Checked Bool :=
  anyReading isAlphanumeric text fun tokens =>
    tokens.any isTmuxToken && tokens.any fun w => startsKillS (basename w)

/- A `tmux` token and what may expand to its subcommand. -/
def expandsNearTmux (text : Text) : Checked Bool :=
  if isExpansion text then
    anyReading isAlphanumeric text fun tokens =>
      tokens.any isTmuxToken
  else return false

def mentionsKillS (word : Text) : Checked Bool :=
  anyReading isAlphanumeric word fun tokens =>
    tokens.any startsKillS

def needsReparse (text : Text) : Checked Bool := do
  let candidate ← hasCandidate isAlphanumeric text
  if candidate then return true
  else expandsNearTmux isAlphanumeric text

/- The program that it runs is not known here. -/
def unknownProgram (word : Text) : Bool :=
  [word, basename word].any fun w =>
    w.head?.any fun c => c = '$' || c = grave

theorem expandsNearTmux_total (text : Text) :
    Total (expandsNearTmux isAlphanumeric text) := by
  unfold expandsNearTmux
  split
  · exact anyReading_total isAlphanumeric text _
  · exact .pure false

theorem needsReparse_total (text : Text) :
    Total (needsReparse isAlphanumeric text) := by
  unfold needsReparse
  refine (anyReading_total isAlphanumeric text _).bind ?_
  intro candidate
  split
  · exact .pure true
  · exact expandsNearTmux_total isAlphanumeric text

end TmuxGuard

-- Kill Commands

namespace TmuxGuard

open Base Shell

/- `kill-server` or a prefix of it from `kill-s` on. -/
def killsServer (name : Text) : Bool :=
  let name := lower name
  "kill-s".length ≤ name.length && name.isPrefixOf "kill-server".toList

/- `kill-session` or a prefix of it from `kill-ses` on. -/
def isKillSession (name : Text) : Bool :=
  let name := lower name
  "kill-ses".length ≤ name.length && name.isPrefixOf "kill-session".toList

/-
  Whether `-a` was given, and whether the next word is the
  value of `-t`; nothing at an unknown flag.
-/
def sessionCluster : Bool → Text → Option (Bool × Bool)
| all, [] => some (all, false)
| all, flag :: rest =>
  if flag = 'a' then sessionCluster true rest
  else if flag = 'C' then sessionCluster all rest
  else if flag = 't' then some (all, rest.isEmpty)
  else none

/- From a word that may be the value of the one before. -/
def sessionFlagsFrom :
    Bool → ℕ → Bool → List Text → Bool × ℕ
| all, i, _, [] => (all, i)
| all, i, true, _ :: rest =>
  sessionFlagsFrom all (i + 1) false rest
| all, i, false, w :: rest =>
  if w = ['-', '-'] then (all, i)
  else
    match w with
    | '-' :: opt :: opts =>
      match sessionCluster all (opt :: opts) with
      | none => (true, i)
      | some (all, takesNext) =>
        sessionFlagsFrom all (i + 1) takesNext rest
    | _ => (all, i)

/- Whether `-a` is set, and how many words were options. -/
def sessionFlags (flags : List Text) : Bool × ℕ :=
  sessionFlagsFrom false 0 false flags

def killsAllSessions (flags : List Text) : Bool :=
  (sessionFlags flags).1

/- From the token at `j`, with those before `readTo` read. -/
def killsFrom : ℕ → ℕ → List Text → Bool
| _, _, [] => false
| j, readTo, token :: rest =>
  if killsServer token then true
  else if readTo ≤ j && isKillSession token then
    let (all, taken) := sessionFlags rest
    if all then true
    else killsFrom (j + 1) (j + 1 + taken) rest
  else killsFrom (j + 1) readTo rest

/- Whether a run of the tokens kills. -/
def killsIn (tokens : List Text) : Bool :=
  killsFrom 0 0 tokens

-- The Search in One Pass

/- Every token is tried, with the tokens after it. -/
def KillsPlainly (tokens : List Text) : Prop :=
  (∃ token ∈ tokens, killsServer token = true) ∨
    ∃ j token, tokens[j]? = some token ∧
      isKillSession token = true ∧
      (sessionFlags (tokens.drop (j + 1))).1 = true

@[simp] theorem not_killsPlainly_nil : ¬ KillsPlainly [] := by
  simp [KillsPlainly]

theorem killsPlainly_cons
    (token : Text) (rest : List Text) :
    KillsPlainly (token :: rest) ↔
      killsServer token = true ∨
        (isKillSession token = true ∧ (sessionFlags rest).1 = true) ∨
        KillsPlainly rest := by
  constructor
  · intro hKills
    rcases hKills with ⟨t, hMem, hServer⟩ | ⟨j, t, hAt, hSession, hAll⟩
    · rcases List.mem_cons.mp hMem with hHere | hLater
      · subst hHere
        exact .inl hServer
      · exact .inr (.inr (.inl ⟨t, hLater, hServer⟩))
    · cases j with
      | zero =>
        cases hAt
        exact .inr (.inl ⟨hSession, hAll⟩)
      | succ j => exact .inr (.inr (.inr ⟨j, t, hAt, hSession, hAll⟩))
  · intro hKills
    rcases hKills with hServer | ⟨hSession, hAll⟩ | hRest
    · exact .inl ⟨token, List.mem_cons_self, hServer⟩
    · exact .inr ⟨0, token, rfl, hSession, hAll⟩
    · rcases hRest with
        ⟨t, hMem, hServer⟩ | ⟨j, t, hAt, hSession, hAll⟩
      · exact .inl ⟨t, List.mem_cons_of_mem _ hMem, hServer⟩
      · exact .inr ⟨j + 1, t, hAt, hSession, hAll⟩

theorem sessionCluster_true
    {flags : Text} {all takesNext : Bool}
    (hRead : sessionCluster true flags = some (all, takesNext)) :
    all = true := by
  induction flags with
  | nil =>
    cases hRead
    rfl
  | cons flag rest ih =>
    rw [sessionCluster] at hRead
    split at hRead
    · exact ih hRead
    · split at hRead
      · exact ih hRead
      · split at hRead
        · cases hRead
          rfl
        · cases hRead

/- An `-a` that was read stays. -/
theorem sessionFlagsFrom_true
    (i : ℕ) (takesNext : Bool) (flags : List Text) :
    (sessionFlagsFrom true i takesNext flags).1 = true := by
  induction flags generalizing i takesNext with
  | nil => rfl
  | cons w rest ih =>
    cases takesNext with
    | true => exact ih (i + 1) false
    | false =>
      unfold sessionFlagsFrom
      split
      · rfl
      · split
        · split
          · rfl
          · next hRead =>
              rw [sessionCluster_true hRead]
              exact ih _ _
        · rfl

theorem sessionFlagsFrom_succ
    (all : Bool) (i : ℕ) (takesNext : Bool) (flags : List Text) :
    sessionFlagsFrom all (i + 1) takesNext flags =
      ((sessionFlagsFrom all i takesNext flags).1,
        (sessionFlagsFrom all i takesNext flags).2 + 1) := by
  induction flags generalizing all i takesNext with
  | nil => rfl
  | cons w rest ih =>
    cases takesNext with
    | true => exact ih all (i + 1) false
    | false =>
      unfold sessionFlagsFrom
      split
      · rfl
      · split
        · split
          · rfl
          · exact ih _ _ _
        · rfl

theorem isKillSession_dash (word : Text) :
    isKillSession ('-' :: word) = false := by
  have hFirst : ('-' :: lower word).isPrefixOf
      "kill-session".toList = false := rfl
  have hLower : lower ('-' :: word) = '-' :: lower word := rfl
  unfold isKillSession
  dsimp only
  rw [hLower, hFirst, Bool.and_false]

variable {rest : List Text}

/-
  A reading that found no `-a` goes on in the words after
  one that it read; `kill-session` it read as a value only.
-/
theorem quiet_tail
    {takesNext : Bool} {w : Text} {n : ℕ}
    (hQuiet : sessionFlagsFrom false 0 takesNext (w :: rest) =
      (false, n + 1)) :
    ∃ next, sessionFlagsFrom false 0 next rest = (false, n) ∧
      (isKillSession w = true → next = false) := by
  cases takesNext with
  | true =>
    rw [sessionFlagsFrom, sessionFlagsFrom_succ] at hQuiet
    refine ⟨false, ?_, fun _ => rfl⟩
    rw [Prod.mk.injEq, Nat.add_right_cancel_iff] at hQuiet
    exact Prod.ext hQuiet.1 hQuiet.2
  | false =>
    unfold sessionFlagsFrom at hQuiet
    split at hQuiet
    · cases hQuiet
    · split at hQuiet
      · next opt opts =>
          split at hQuiet
          · cases hQuiet
          · next all next hRead =>
              rw [sessionFlagsFrom_succ, Prod.mk.injEq,
                Nat.add_right_cancel_iff] at hQuiet
              cases all with
              | true =>
                rw [sessionFlagsFrom_true] at hQuiet
                cases hQuiet.1
              | false =>
                refine ⟨next, Prod.ext hQuiet.1 hQuiet.2, ?_⟩
                rw [isKillSession_dash]
                intro hSession
                cases hSession
      · cases hQuiet

/-
  The words before `readTo` are those of a reading that
  found no `-a`.
-/
def ReadQuietly (j readTo : ℕ) (tokens : List Text) : Prop :=
  readTo ≤ j ∨
    ∃ takesNext n, readTo = j + (n + 1) ∧
      sessionFlagsFrom false 0 takesNext tokens = (false, n + 1)

variable {j readTo : ℕ} {token : Text}

theorem ReadQuietly.tail
    (hRead : ReadQuietly j readTo (token :: rest)) :
    ReadQuietly (j + 1) readTo rest := by
  rcases hRead with hDone | ⟨takesNext, n, hTo, hQuiet⟩
  · exact .inl (by omega)
  · rcases quiet_tail hQuiet with ⟨next, hNext, -⟩
    cases n with
    | zero => exact .inl (by omega)
    | succ n => exact .inr ⟨next, n, by omega, hNext⟩

/- What is skipped would not have been found to kill. -/
theorem ReadQuietly.skipped
    (hRead : ReadQuietly j readTo (token :: rest)) (hLess : j < readTo)
    (hSession : isKillSession token = true) :
    (sessionFlags rest).1 = false := by
  rcases hRead with hDone | ⟨takesNext, n, hTo, hQuiet⟩
  · omega
  · rcases quiet_tail hQuiet with ⟨next, hNext, hValue⟩
    rw [hValue hSession] at hNext
    rw [sessionFlags, hNext]

theorem readQuietly_of_taken
    (j : ℕ) (hAll : (sessionFlags rest).1 = false) :
    ReadQuietly j (j + (sessionFlags rest).2) rest := by
  cases hTaken : (sessionFlags rest).2 with
  | zero => exact .inl (Nat.le_refl _)
  | succ n => exact .inr ⟨false, n, rfl, Prod.ext hAll hTaken⟩

theorem killsFrom_iff
    {tokens : List Text} (hRead : ReadQuietly j readTo tokens) :
    killsFrom j readTo tokens = true ↔ KillsPlainly tokens := by
  induction tokens generalizing j readTo with
  | nil => simp [killsFrom]
  | cons token rest ih =>
    rw [killsPlainly_cons, killsFrom]
    by_cases hServer : killsServer token = true
    · rw [if_pos hServer]
      exact ⟨fun _ => .inl hServer, fun _ => rfl⟩
    rw [if_neg hServer, or_iff_right hServer]
    by_cases hTried : (decide (readTo ≤ j) && isKillSession token) = true
    · rw [if_pos hTried]
      have hSession := (Bool.and_eq_true_iff.mp hTried).2
      dsimp only
      by_cases hAll : (sessionFlags rest).1 = true
      · rw [if_pos hAll]
        exact ⟨fun _ => .inl ⟨hSession, hAll⟩, fun _ => rfl⟩
      · rw [if_neg hAll, or_iff_right fun h => hAll h.2]
        exact ih (readQuietly_of_taken (j + 1) (Bool.eq_false_iff.mpr hAll))
    · rw [if_neg hTried, ih hRead.tail, or_iff_right]
      intro hKills
      have hLess : j < readTo := by
        by_contra hDone
        exact hTried (Bool.and_eq_true_iff.mpr
          ⟨decide_eq_true (by omega), hKills.1⟩)
      have hQuiet := hRead.skipped hLess hKills.1
      rw [hKills.2] at hQuiet
      cases hQuiet

/-
  The search in one pass finds what the plain one finds: a
  `kill-session` that it skips is the value of a `-t`.
-/
theorem killsIn_iff (tokens : List Text) :
    killsIn tokens = true ↔
      (∃ token ∈ tokens, killsServer token = true) ∨
        ∃ j token, tokens[j]? = some token ∧
          isKillSession token = true ∧
          (sessionFlags (tokens.drop (j + 1))).1 = true :=
  killsFrom_iff (.inl (Nat.le_refl 0))

-- Sequences

/- The commands of a sequence, the last of them in progress. -/
def sequenceCommands :
    List (List Text) → List Text → List Text → List (List Text)
| commands, current, [] => commands ++ [current]
| commands, current, word :: rest =>
  if word.getLast? = some ';' then
    let head := word.dropLast
    let current :=
      if head.isEmpty then current else current ++ [head]
    sequenceCommands (commands ++ [current]) [] rest
  else sequenceCommands commands (current ++ [word]) rest

def sequenceDangerous (rest : List Text) : Bool :=
  (sequenceCommands [] [] rest).any fun cmd =>
    match cmd with
    | [] => false
    | name :: flags =>
      isExpansion name || killsServer name ||
        (isKillSession name && killsAllSessions flags)

/- `words.join(" ")` -/
def joinWords (words : List Text) : Text :=
  [' '].intercalate words

variable (isAlphanumeric : Char → Bool)

def textKills (text : Text) : Checked Bool :=
  anyReading isAlphanumeric text killsIn

/- The subcommand may start anywhere. -/
def looseDangerous (rest : List Text) : Checked Bool :=
  if rest.any isExpansion then return true
  else textKills isAlphanumeric (joinWords rest)

-- Scope

/- Whether a text expands a variable of the names. -/
def refersToAny (names : List Text) : Text → Bool
| [] => false
| c :: after =>
  if c = '$' then
    let body := (after.dropPrefix? ['\x7b']).getD after
    let name :=
      body.takeWhile fun c => c == '_' || c.isAlphanum
    if names.contains name then true
    else refersToAny names after
  else refersToAny names after

def substitutesTmuxOutput (value : Text) : Checked Bool :=
  if contains value "$(" || value.contains grave then do
    let (bodies, _) ← substitutions value
    bodies.anyM fun body =>
      anyReading isAlphanumeric body fun tokens =>
        tokens.any isTmuxToken
  else return false

/- Whether the value of `-S` or `-L` is a private server. -/
def scopeValueOk (tainted : List Text) (value : Text) :
    Checked Bool :=
  if value.isEmpty || refersToAny tainted value then
    return false
  else do
    let taken ← substitutesTmuxOutput isAlphanumeric value
    if taken then return false
    else
      let path := (value.reverse.dropWhile fun c =>
        c = '/' || c = '\x7d').reverse
      return !eqIgnoreCase (basename path) "default"

/- Global options of tmux that take no value. -/
def globalFlags : Text :=
  "2CDlNuVv".toList

/- Global options of tmux that take a value. -/
def globalValueOpts : Text :=
  "cfLST".toList

/-
  A cluster of global options: whether the next word is its
  value, and whether a socket that it gives is private. There
  is nothing at an unknown option.
-/
def globalCluster (tainted : List Text) (next : Option Text) :
    Text → Checked (Option (Bool × Option Bool))
| [] => return some (false, none)
| flag :: joined =>
  if globalFlags.contains flag then
    globalCluster tainted next joined
  else if !globalValueOpts.contains flag then return none
  else
    let value := if joined.isEmpty then next else some joined
    if flag = 'S' ∨ flag = 'L' then
      match value with
      | none => return some (joined.isEmpty, some false)
      | some value => do
          let ok ← scopeValueOk isAlphanumeric tainted value
          return some (joined.isEmpty, some ok)
    else return some (joined.isEmpty, none)

structure Global where
  isScoped : Bool
  rest : ℕ
  uncertain : Bool

/- The global options read so far. -/
structure Options where
  isScoped : Bool
  badScope : Bool
  i : ℕ
  takesNext : Bool

def Options.finish (s : Options) : Global where
  isScoped := s.isScoped && !s.badScope
  rest := s.i
  uncertain := false

def globalFrom (tainted : List Text) :
    Options → List Text → Checked Global
| s, [] => return s.finish
| s, w :: rest =>
  if s.takesNext then
    globalFrom tainted { s with i := s.i + 1, takesNext := false } rest
  else if w = ['-', '-'] then
    return { s with i := s.i + 1 }.finish
  else
    match w with
    | '-' :: flag :: flags => do
        let found ← globalCluster isAlphanumeric tainted
          rest.head? (flag :: flags)
        match found with
        | none => return ⟨false, s.i, true⟩
        | some (takesNext, socket) =>
          globalFrom tainted
            { isScoped := s.isScoped || socket == some true
              badScope := s.badScope || socket == some false
              i := s.i + 1
              takesNext }
            rest
    | _ => return s.finish

def globalScope (tainted args : List Text) : Checked Global :=
  globalFrom isAlphanumeric tainted ⟨false, false, 0, false⟩ args

structure Invocation where
  isScoped : Bool
  dangerous : Bool

/- The arguments after a `tmux` word. -/
def invocation (tainted args : List Text) :
    Checked Invocation := do
  let globals ← globalScope isAlphanumeric tainted args
  let rest := args.drop globals.rest
  if globals.isScoped then return ⟨true, false⟩
  else if globals.uncertain then do
    let dangerous ← looseDangerous isAlphanumeric rest
    return ⟨false, dangerous⟩
  else if sequenceDangerous rest then return ⟨false, true⟩
  else do
    let nested ←
      textKills isAlphanumeric (joinWords (rest.drop 1))
    return ⟨false, nested⟩

-- An Invocation Is Read

variable {isAlphanumeric}

theorem textKills_total (text : Text) :
    Total (textKills isAlphanumeric text) :=
  anyReading_total isAlphanumeric text killsIn

theorem substitutesTmuxOutput_total (value : Text) :
    Total (substitutesTmuxOutput isAlphanumeric value) := by
  unfold substitutesTmuxOutput
  split
  · refine (substitutions_total value).bind ?_
    intro pieces
    exact .anyM (fun body => anyReading_total _ body _) _
  · exact .pure false

theorem scopeValueOk_total (tainted : List Text) (value : Text) :
    Total (scopeValueOk isAlphanumeric tainted value) := by
  unfold scopeValueOk
  split
  · exact .pure false
  · refine (substitutesTmuxOutput_total value).bind ?_
    intro taken
    split
    · exact .pure false
    · exact .pure _

theorem globalCluster_total
    (tainted : List Text) (next : Option Text) (cluster : Text) :
    Total (globalCluster isAlphanumeric tainted next cluster) := by
  induction cluster with
  | nil => exact .pure _
  | cons flag joined ih =>
    unfold globalCluster
    split
    · exact ih
    · split
      · exact .pure none
      · dsimp only
        split
        · split
          · exact .pure _
          · exact (scopeValueOk_total tainted _).bind fun _ => .pure _
        · exact .pure _

theorem globalFrom_total
    (tainted : List Text) (s : Options) (args : List Text) :
    Total (globalFrom isAlphanumeric tainted s args) := by
  induction args generalizing s with
  | nil => exact .pure _
  | cons w rest ih =>
    unfold globalFrom
    split
    · exact ih _
    · split
      · exact .pure _
      · split
        · refine (globalCluster_total tainted _ _).bind ?_
          intro found
          split
          · exact .pure _
          · exact ih _
        · exact .pure _

theorem invocation_total (tainted args : List Text) :
    Total (invocation isAlphanumeric tainted args) := by
  unfold invocation
  refine (globalFrom_total tainted _ args).bind ?_
  intro globals
  dsimp only
  split
  · exact .pure _
  · split
    · refine Total.bind ?_ fun _ => .pure _
      unfold looseDangerous
      split
      · exact .pure true
      · exact textKills_total _
    · split
      · exact .pure _
      · exact (textKills_total _).bind fun _ => .pure _

end TmuxGuard
