import Amplihack.Shell.Cursor

/-
  Splitting a command line into simple commands.

  The state also keeps the regions that were stepped over, in
  the order they were met.
-/

-- State

namespace Shell

open Base

structure SimpleCommand where
  words : List Text
  redirects : List Text
  heredocs : List Text
  heredocExpands : List Bool
  pipeline : ℕ
deriving DecidableEq

def SimpleCommand.empty (pipeline : ℕ) : SimpleCommand where
  words := []
  redirects := []
  heredocs := []
  heredocExpands := []
  pipeline := pipeline

/- A heredoc whose body is read at the end of the line. -/
structure Pending where
  heredoc : Heredoc
  expands : Bool
  owner : ℕ

inductive RegionKind where
  | single
  | ansiC
  | substitution
  | comment
  | delimiter
  | bodies
deriving DecidableEq

/- What a scanner steps over, from its first to its last. -/
structure Region where
  kind : RegionKind
  start : ℕ
  last : ℕ
deriving DecidableEq

structure State where
  out : List SimpleCommand
  pipeline : ℕ
  complete : Bool
  word : Text
  inWord : Bool
  heredocs : List Pending
  target : Bool
  i : ℕ
  skipped : List Region

def start : State where
  out := [.empty 0]
  pipeline := 0
  complete := true
  word := []
  inWord := false
  heredocs := []
  target := false
  i := 0
  skipped := []

namespace State

/- Changes the last command, if there is one. -/
def changeLast
    (s : State) (change : SimpleCommand → SimpleCommand) :
    State :=
  { s with out := s.out.modify (s.out.length - 1) change }

def endWord (s : State) : State :=
  if s.inWord then
    let s := { s with inWord := false }
    if s.out = [] then s
    else
      let word := s.word
      let s := { s with word := [] }
      if s.target then
        { s with target := false }.changeLast fun cmd =>
          { cmd with redirects := cmd.redirects ++ [word] }
      else
        s.changeLast fun cmd =>
          { cmd with words := cmd.words ++ [word] }
  else s

/- A redirection may still wait for its target. -/
def endCommand (s : State) : State :=
  if s.target then
    { s with target := false, complete := false }
  else s

def newCommand (s : State) : State :=
  { s with out := s.out ++ [.empty s.pipeline] }

/- A new command in a new pipeline. -/
def nextPipeline (s : State) : State :=
  { s with pipeline := s.pipeline + 1 }.newCommand

/- Nothing was read since the last separator. -/
def isEmpty (s : State) (owner : ℕ) (last : SimpleCommand) :
    Bool :=
  !s.target && last.words.isEmpty && last.redirects.isEmpty &&
    !s.heredocs.any fun pending => pending.owner == owner

/- A newline ends the command in progress, if there is one. -/
def endLine (s : State) (owner : ℕ) (last : SimpleCommand) :
    State :=
  if s.isEmpty owner last then s
  else s.endCommand.nextPipeline

def push (s : State) (text : Text) : State :=
  { s with inWord := true, word := s.word ++ text }

def skip (s : State) (kind : RegionKind) (last : ℕ) :
    State :=
  { s with skipped := s.skipped ++ [⟨kind, s.i, last⟩] }

/- Goes on at an index; `found` is false at a missing end. -/
def goto (s : State) (i : ℕ) (found : Bool) : State :=
  { s with i, complete := s.complete && found }

end State

-- Arms

/- The character of backtick substitutions. -/
def grave : Char :=
  Char.ofNat 0x60

/- What a character starts outside of quotes. -/
inductive Arm where
  | singleQuote
  | ansiC
  | doubleQuote
  | backslash
  | substitution
  | backtick
  | comment
  | hereString
  | heredoc
  | ampRedirect
  | redirect
  | newline
  | pipe
  | orElse
  | separator
  | whitespace
  | letter
deriving DecidableEq

variable (chars : Text)

def armOf (s : State) (c : Char) : Arm :=
  let next := chars[s.i + 1]?
  if c = '\'' then .singleQuote
  else if c = '$' ∧ next = some '\'' then .ansiC
  else if c = '"' then .doubleQuote
  else if c = '\\' then .backslash
  else if c = '$' ∧ next = some '(' then .substitution
  else if c = grave then .backtick
  else if c = '#' ∧ s.inWord = false then .comment
  else if c = '<' ∧ next = some '<' ∧
      chars[s.i + 2]? = some '<' then .hereString
  else if c = '<' ∧ next = some '<' then .heredoc
  else if c = '&' ∧ next = some '>' then .ampRedirect
  else if (c = '<' ∨ c = '>') ∧ next ≠ some '(' then .redirect
  else if c = '\n' then .newline
  else if c = '|' ∧ next ≠ some '|' then .pipe
  else if c = '|' then .orElse
  else if c = ';' ∨ c = '&' ∨ c = '(' ∨ c = ')' then .separator
  else if isWhitespace c then .whitespace
  else .letter

def singleQuote (s : State) : Checked State := do
  let (i, word) ← readUntil chars '\'' (s.i + 1) s.word
  return { s.skip .single i with inWord := true, word }.goto
    (i + 1) (i < chars.length)

def ansiC (s : State) : Checked State := do
  let close ← ansiCClose chars (s.i + 1)
  let last := close.getD (chars.length - 1)
  let decoded ←
    ansiCDecode (sliceOrEmpty chars (s.i + 2) last)
  return ((s.skip .ansiC last).push decoded).goto (last + 1) close.isSome

/- Steps over the `$(…)` at the index. -/
def stepOver (s : State) : Checked State := do
  let close ← substClose chars s.i
  let last ← match close with
    | some last => Except.ok last
    | none => Checked.sub chars.length 1
  let part ← Checked.slice chars s.i (last + 1)
  return ((s.skip .substitution last).push part).goto (last + 1) close.isSome

/- What a backslash inside double quotes escapes. -/
def isEscapable (c : Char) : Bool :=
  "$`\"\\\n".toList.contains c

def doubleQuoteStep (s : State) : Checked (State ⊕ State) :=
  if s.i < chars.length then do
    let c ← Checked.get chars s.i
    if c = '"' then return .inr s
    else if c = '$' ∧ chars[s.i + 1]? = some '(' then do
      let s ← stepOver chars s
      return .inl s
    else do
      let i :=
        if c = '\\' ∧ chars[s.i + 1]?.any isEscapable then
          s.i + 1
        else s.i
      let c ← Checked.get chars i
      return .inl ((s.push [c]).goto (i + 1) true)
  else return .inr s

def doubleQuote (s : State) : Checked State := do
  let s ← loop (doubleQuoteStep chars) (chars.length + 1)
    ((s.push []).goto (s.i + 1) true)
  return s.goto (s.i + 1) (s.i < chars.length)

def backslash (s : State) : State :=
  match chars[s.i + 1]? with
  | some next =>
    if next ≠ '\n' then (s.push [next]).goto (s.i + 2) true
    else s.goto (s.i + 2) true
  | none => (s.push []).goto (s.i + 1) true

def backtick (s : State) : Checked State := do
  let (i, word) ←
    readUntil chars grave (s.i + 1) (s.word ++ [grave])
  return { s with inWord := true, word := word ++ [grave] }.goto
    (i + 1) (i < chars.length)

def comment (s : State) : Checked State := do
  let last ← skipComment chars s.i
  return (s.skip .comment last).goto (last + 1) true

def heredoc (s : State) : Checked State := do
  let s := s.endWord
  let expands := !delimQuoted chars s.i
  let (heredoc, i) := heredocDelim chars s.i
  let owner ← Checked.sub s.out.length 1
  let pending : Pending := ⟨heredoc, expands, owner⟩
  return { s.skip .delimiter (i - 1) with
    heredocs := s.heredocs ++ [pending] }.goto i
      (heredoc.1 ≠ [])

/- A target is awaited, and none may be awaited already. -/
def awaitTarget (s : State) (i : ℕ) : State :=
  { s.goto i (!s.target) with target := true }

def ampRedirect (s : State) : State :=
  let i :=
    if chars[s.i + 2]? = some '>' then s.i + 3 else s.i + 2
  awaitTarget s.endWord i

def redirect (s : State) (c : Char) : State :=
  let fd := !s.target && s.inWord && s.word ≠ [] &&
    s.word.all Char.isDigit
  let s :=
    if fd then { s with word := [], inWord := false }
    else s.endWord
  let second := if c = '>' then ">|&".toList else ">&".toList
  let i :=
    if chars[s.i + 1]?.any second.contains then s.i + 2
    else s.i + 1
  awaitTarget s i

/- Each body goes to the command of its `<<`. -/
def deliver
    (out : List SimpleCommand) (bodies : List (Pending × Text)) :
    List SimpleCommand :=
  bodies.foldl
    (fun out (pending, body) =>
      out.modify pending.owner fun cmd =>
        { cmd with
          heredocs := cmd.heredocs ++ [body]
          heredocExpands :=
            cmd.heredocExpands ++ [pending.expands] })
    out

def newline (s : State) : Checked State := do
  let s := s.endWord
  let owner ← Checked.sub s.out.length 1
  let last ← Checked.get s.out owner
  let s := s.endLine owner last
  let (read, i) ←
    readHeredocBodies chars s.i (s.heredocs.map (·.heredoc))
  let t := if s.heredocs = [] then s else s.skip .bodies i
  return { t with
    heredocs := []
    out := deliver s.out (s.heredocs.zip read.1) }.goto (i + 1)
      read.2

def pipe (s : State) : State :=
  let i :=
    if chars[s.i + 1]? = some '&' then s.i + 2 else s.i + 1
  (s.endWord.endCommand.goto i true).newCommand

def separator (s : State) (i : ℕ) : State :=
  (s.endWord.endCommand.goto i true).nextPipeline

def runArm (s : State) (c : Char) : Arm → Checked State
| .singleQuote => singleQuote chars s
| .ansiC => ansiC chars s
| .doubleQuote => doubleQuote chars s
| .backslash => return backslash chars s
| .substitution => stepOver chars s
| .backtick => backtick chars s
| .comment => comment chars s
| .hereString => return s.endWord.goto (s.i + 3) true
| .heredoc => heredoc chars s
| .ampRedirect => return ampRedirect chars s
| .redirect => return redirect chars s c
| .newline => newline chars s
| .pipe => return pipe chars s
| .orElse => return separator s (s.i + 2)
| .separator => return separator s (s.i + 1)
| .whitespace => return s.endWord.goto (s.i + 1) true
| .letter => return (s.push [c]).goto (s.i + 1) true

-- The Tokeniser

def step (s : State) : Checked (State ⊕ State) :=
  if s.i < chars.length then do
    let c ← Checked.get chars s.i
    let s ← runArm chars s c (armOf chars s c)
    return .inl s
  else return .inr s

/- The state at the end of the text. -/
def scanned : Checked State :=
  loop (step chars) (chars.length + 1) start

structure Parsed where
  commands : List SimpleCommand
  complete : Bool
deriving DecidableEq

/- Ends the last word and command of the text. -/
def finish (s : State) : Parsed :=
  let s := s.endWord.endCommand
  let out := deliver s.out
    (s.heredocs.map fun pending => (pending, []))
  { commands := out.filter fun cmd =>
      !cmd.words.isEmpty || !cmd.heredocs.isEmpty
    complete := s.complete && s.heredocs.isEmpty }

def tokenise : Checked Parsed := do
  let s ← scanned chars
  return finish s

-- Quoting

def isSafe (c : Char) : Bool :=
  c.isAlphanum || "_@%+=:,./-".toList.contains c

/- `'` in quotes: the string ends, `\'`, and a new one. -/
def quoteChar (c : Char) : Text :=
  if c = '\'' then ['\'', '\\', '\'', '\''] else [c]

def quoteArg (arg : Text) : Text :=
  if !arg.isEmpty && arg.all isSafe then arg
  else '\'' :: arg.flatMap quoteChar ++ ['\'']

def joinArgv (args : List Text) : Text :=
  [' '].intercalate (args.map quoteArg)

end Shell
