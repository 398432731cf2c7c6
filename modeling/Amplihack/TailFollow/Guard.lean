import Amplihack.Base.Utf8
import Amplihack.Shell.Program
import Amplihack.TailFollow.Substitutions

/-
  The guard against a `tail` that follows a device that never
  ends.

  The state of a check is the re-parses that are left, and
  counts the scans made.
-/

-- Launch Wrappers

namespace TailFollow

open Base Shell

/- What a walk over option words does with a word. -/
inductive Walk where
  /- The command starts here. -/
  | here
  /- The command starts at the next word. -/
  | after
  /- No command is started. -/
  | nothing
  /- An option, with so many words as its value. -/
  | option (values : ℕ)
deriving DecidableEq

/- The words after the options, with `skip` values to pass. -/
def skipOptions (next : Text → Walk) :
    ℕ → List Text → List Text
| _, [] => []
| skip + 1, _ :: rest => skipOptions next skip rest
| 0, w :: rest =>
  match next w with
  | .here => w :: rest
  | .after => rest
  | .nothing => []
  | .option values => skipOptions next values rest

def skipSetsidOptions (args : List Text) : List Text :=
  args.dropWhile fun w => startsWith w "-"

def skipStdbufOptions : List Text → List Text :=
  skipOptions (fun w =>
    if !startsWith w "-" then .here
    else if isOneOf ["-i", "-o", "-e", "--input", "--output",
      "--error"] w then .option 1
    else .option 0) 0

/- The name of an `ionice` option, and whether it is joined. -/
def ioniceOption (w : Text) : Option (Text × Bool) :=
  match w.dropPrefix? ['-', '-'] with
  | some long =>
    match splitOnce '=' long with
    | some (name, _) => some (name, true)
    | none => some (long, false)
  | none =>
    match w.drop 1 with
    | [] => none
    | c :: rest =>
      let name :=
        if c = 'c' then "class"
        else if c = 'n' then "classdata"
        else if c = 'p' then "pid"
        else if c = 'P' then "pgid"
        else if c = 'u' then "uid"
        else ""
      some (name.toList, !rest.isEmpty)

def skipIoniceOptions : List Text → List Text :=
  skipOptions (fun w =>
    if !startsWith w "-" || w == ['-'] then .here
    else if w = ['-', '-'] then .after
    else
      match ioniceOption w with
      | none => .after
      | some (name, joined) =>
        if isOneOf ["pid", "pgid", "uid"] name then .nothing
        else if !joined &&
            isOneOf ["class", "classdata"] name then
          .option 1
        else .option 0) 0

/- A `-p` or `--pid`, which acts on a running process. -/
def actsOnProcess (w : Text) : Bool :=
  isOneOf ["--pid"] w || (!startsWith w "--" && w.contains 'p')

def skipChrtOptions (args : List Text) : List Text :=
  let rest := skipOptions (fun w =>
    if !startsWith w "-" || w == ['-'] then .here
    else if w = ['-', '-'] then .after
    else if actsOnProcess w then .nothing
    else if isOneOf ["-T", "-P", "-D", "--sched-runtime",
      "--sched-period", "--sched-deadline"] w then .option 1
    else .option 0) 0 args
  if rest.head?.any
      (fun w => !w.isEmpty && w.all Char.isDigit) then
    rest.drop 1
  else rest

def skipTasksetOptions (args : List Text) : List Text :=
  let rest := skipOptions (fun w =>
    if !startsWith w "-" || w == ['-'] then .here
    else if w = ['-', '-'] then .after
    else if actsOnProcess w then .nothing
    else .option 0) 0 args
  rest.drop 1

def skipUnbufferOptions (args : List Text) : List Text :=
  args.dropWhile fun w => w == ['-', 'p']

-- Following A Device

def devices : List String :=
  ["/dev/null", "/dev/zero", "/dev/random", "/dev/urandom",
    "/dev/full", "/dev/stdin", "/dev/tty", "/dev/fd/0",
    "/proc/self/fd/0"]

def tailLongValueOpts : List String :=
  ["lines", "bytes", "pid", "sleep-interval", "max-unchanged-stats"]

def tailShortValueOpts : Text :=
  ['n', 'c', 's']

/- Without empty and `.` segments. -/
def normalise (word : Text) : Option Text :=
  if !startsWith word "/" then none
  else
    some (((word.splitOn '/').filter fun segment =>
      !segment.isEmpty && segment != ['.']).flatMap ('/' :: ·))

def isDevice (word : Text) : Bool :=
  (normalise word).any (isOneOf devices)

/- The flags after a digit-free start of a cluster. -/
def clusterFlags : Bool → Text → Bool × Bool
| follow, [] => (follow, false)
| follow, c :: rest =>
  if c = 'f' ∨ c = 'F' then clusterFlags true rest
  else if tailShortValueOpts.contains c then
    (follow, rest.isEmpty)
  else clusterFlags follow rest

/- Whether it follows, and whether a value comes next. -/
def shortCluster (cluster : Text) : Bool × Bool :=
  if cluster.head?.any Char.isDigit then
    ((cluster.dropWhile Char.isDigit).contains 'f', false)
  else clusterFlags false cluster

structure TailArgs where
  follow : Bool
  device : Bool
  optionsDone : Bool

/- An argument, and whether the next word is its value. -/
def tailArg (s : TailArgs) (w : Text) : TailArgs × Bool :=
  if s.optionsDone then
    ({ s with device := s.device || isDevice w }, false)
  else if w = ['-', '-'] then
    ({ s with optionsDone := true }, false)
  else
    match w.dropPrefix? ['-', '-'] with
    | some long =>
      let (name, joined) :=
        match splitOnce '=' long with
        | some (name, _) => (name, true)
        | none => (long, false)
      if !name.isEmpty &&
          name.isPrefixOf "follow".toList then
        ({ s with follow := true }, false)
      else (s, !joined && isOneOf tailLongValueOpts name)
    | none =>
      match w with
      | '-' :: c :: cluster =>
        let (follows, valueNext) :=
          shortCluster (c :: cluster)
        ({ s with follow := s.follow || follows }, valueNext)
      | _ =>
        ({ s with device := s.device || isDevice w }, false)

/- Reads the arguments, the first of them only if not a value. -/
def tailArgs : TailArgs → Bool → List Text → TailArgs
| s, _, [] => s
| s, true, _ :: rest => tailArgs s false rest
| s, false, w :: rest =>
  let (t, valueNext) := tailArg s w
  tailArgs t valueNext rest

def tailFollowsDevice (args : List Text) : Bool :=
  let s := tailArgs ⟨false, false, false⟩ false args
  s.follow && s.device

-- Scans

def maxDepth : ℕ := 4

def maxInput : ℕ := 64 * 1024

def maxReparses : ℕ := 256

def maxUnwrap : ℕ := 8

def shells : List String :=
  ["sh", "bash", "zsh", "dash", "ksh"]

structure Meter where
  budget : ℕ
  scans : ℕ

abbrev Scanning :=
  Metered Meter

/- What a shell runs. -/
inductive Script where
  | operand (text : Text)
  | heredocs
  | nothing
deriving DecidableEq

/- The options read so far, and whether a value is next. -/
def shellScript : Bool → Bool → Bool → List Text → Script
| hasC, _, _, [] => if hasC then .nothing else .heredocs
| hasC, hasS, true, _ :: rest => shellScript hasC hasS false rest
| hasC, hasS, false, w :: rest =>
  if isOneOf ["--rcfile", "--init-file"] w then
    shellScript hasC hasS true rest
  else if startsWith w "--" then
    shellScript hasC hasS false rest
  else if (startsWith w "-" || startsWith w "+") &&
      1 < w.length then
    let named := startsWith w "-"
    shellScript
      (hasC || named && (w.drop 1).contains 'c')
      (hasS || named && (w.drop 1).contains 's')
      (w.getLast?.any ['o', 'O'].contains) rest
  else if hasC then .operand w
  else if !hasS then .nothing
  else .heredocs

variable (reparse : Text → Scanning Bool)

def scanShell (args heredocs : List Text) : Scanning Bool :=
  match shellScript false false false args with
  | .operand text => reparse text
  | .nothing => return false
  | .heredocs => heredocs.anyM reparse

/- The words that a launch wrapper starts. -/
def unwrapped (name : Text) (args : List Text) :
    Option (List Text) :=
  if isOneOf ["setsid"] name then some (skipSetsidOptions args)
  else if isOneOf ["stdbuf"] name then
    some (skipStdbufOptions args)
  else if isOneOf ["ionice"] name then
    some (skipIoniceOptions args)
  else if isOneOf ["chrt"] name then
    some (skipChrtOptions args)
  else if isOneOf ["taskset"] name then
    some (skipTasksetOptions args)
  else if isOneOf ["unbuffer"] name then
    some (skipUnbufferOptions args)
  else if isOneOf ["function"] name then some (args.drop 1)
  else none

/- So many rounds of unwrapping, and then the command runs. -/
def scanCommand (heredocs : List Text) :
    ℕ → List Text → Scanning Bool
| 0, _ => return false
| rounds + 1, words => do
    let found ← StateT.lift (program words)
    match found.getD [] with
    | [] => return false
    | first :: args =>
      let name := basename first
      match unwrapped name args with
      | some rest => scanCommand heredocs rounds rest
      | none =>
        if isOneOf ["tail"] name then
          return tailFollowsDevice args
        else if isOneOf shells name then
          scanShell reparse args heredocs
        else return false

/- Scans one level deeper, spending one unit of the budget. -/
def spend (scanDeeper : Text → Scanning Bool) (script : Text) :
    Scanning Bool := do
  let meter ← get
  if meter.budget = 0 then return false
  else do
    set { meter with budget := meter.budget - 1 }
    scanDeeper script

/- What is done with a text that is not too deep. -/
def scanText (text : Text) : Scanning Bool := do
  let parsed ← StateT.lift (tokenise text)
  if !parsed.complete then return false
  else do
    let found ← parsed.commands.anyM fun command =>
      scanCommand reparse command.heredocs (maxUnwrap + 1) command.words
    if found then return true
    else do
      let bodies ← StateT.lift (substitutionBodies text)
      bodies.anyM reparse

def count : Scanning Unit :=
  modify fun meter => { meter with scans := meter.scans + 1 }

/- So many levels of recursion, at a depth. -/
def scan : ℕ → ℕ → Text → Scanning Bool
| 0, _, _ => StateT.lift (.error .outOfFuel)
| levels + 1, depth, text => do
    count
    if maxDepth ≤ depth then return false
    else scanText (spend (scan levels (depth + 1))) text

/- Whether the command is denied, and the state at the end. -/
def check (command : Text) : Checked (Bool × Meter) :=
  let meter : Meter := ⟨maxReparses, 0⟩
  if maxInput < (utf8 command).length then
    return (false, meter)
  else scan (maxDepth + 1) 0 command meter

-- The Guard Ends

/- The scans made and those that may still be made. -/
def Meter.total (meter : Meter) : ℕ :=
  meter.budget + meter.scans

variable {reparse}

theorem scanShell_keeps
    (hReparse : ∀ text, Keeps Meter.total (reparse text))
    (args heredocs : List Text) :
    Keeps Meter.total (scanShell reparse args heredocs) := by
  unfold scanShell
  split
  · exact hReparse _
  · exact .pure false
  · exact .anyM hReparse heredocs

theorem scanCommand_keeps
    (hReparse : ∀ text, Keeps Meter.total (reparse text))
    (heredocs : List Text) (rounds : ℕ) (words : List Text) :
    Keeps Meter.total (scanCommand reparse heredocs rounds words) := by
  induction rounds generalizing words with
  | zero => exact .pure false
  | succ rounds ih =>
    unfold scanCommand
    refine (Keeps.lift (program_total words)).bind ?_
    intro found
    split
    · exact .pure false
    · dsimp only
      split
      · exact ih _
      · split
        · exact .pure _
        · split
          · exact scanShell_keeps hReparse _ _
          · exact .pure false

theorem scanText_keeps
    (hReparse : ∀ text, Keeps Meter.total (reparse text)) (text : Text) :
    Keeps Meter.total (scanText reparse text) := by
  unfold scanText
  refine (Keeps.lift (tokenise_ok text)).bind ?_
  intro parsed
  split
  · exact .pure false
  · refine (Keeps.anyM (fun command => scanCommand_keeps
      hReparse _ _ _) _).bind ?_
    intro found
    split
    · exact .pure true
    · refine (Keeps.lift (substitutionBodies_ok text)).bind ?_
      intro bodies
      exact .anyM hReparse bodies

/- One unit of the budget pays for one scan. -/
theorem spend_keeps
    {scanDeeper : Text → Scanning Bool} {text : Text}
    (hDeeper : ∀ meter : Meter, ∃ found later,
      scanDeeper text meter = .ok (found, later) ∧
        later.total ≤ meter.total + 1) :
    Keeps Meter.total (spend scanDeeper text) := by
  intro meter
  by_cases hBudget : meter.budget = 0
  · refine ⟨false, meter, ?_, Nat.le_refl _⟩
    change (if meter.budget = 0 then _ else _ : Scanning Bool) meter = _
    rw [if_pos hBudget]
    rfl
  · rcases hDeeper { meter with budget := meter.budget - 1 }
      with ⟨found, later, hRun, hLe⟩
    refine ⟨found, later, ?_, ?_⟩
    · change (if meter.budget = 0 then _ else _ : Scanning Bool) meter = _
      rw [if_neg hBudget]
      exact hRun
    · have hSpent : later.total ≤ meter.budget - 1 + meter.scans + 1 := hLe
      change later.total ≤ meter.budget + meter.scans
      omega

/- A scan is one more of the scans made. -/
theorem scan_ok
    {levels depth : ℕ} (hDepth : depth ≤ maxDepth)
    (hLevels : maxDepth < levels + depth) (text : Text) (meter : Meter) :
    ∃ found later,
      scan levels depth text meter = .ok (found, later) ∧
        later.total ≤ meter.total + 1 := by
  induction levels generalizing depth text meter with
  | zero => omega
  | succ levels ih =>
    have hBody : Keeps Meter.total
        (if maxDepth ≤ depth then
          (return false : Scanning Bool)
        else
          scanText (spend (scan levels (depth + 1))) text) := by
      split
      · exact .pure false
      · apply scanText_keeps
        intro script
        apply spend_keeps
        intro meter
        exact ih (by omega) (by omega) script meter
    rcases hBody { meter with scans := meter.scans + 1 } with
      ⟨found, later, hRun, hLe⟩
    refine ⟨found, later, hRun, ?_⟩
    have hCounted : later.total ≤ meter.budget + (meter.scans + 1) := hLe
    change later.total ≤ meter.budget + meter.scans + 1
    omega

/- The guard ends, after so many scans at most. -/
theorem check_ok (command : Text) :
    ∃ denied meter, check command = .ok (denied, meter) ∧
      meter.scans ≤ maxReparses + 1 := by
  unfold check
  dsimp only
  split
  · exact ⟨false, _, rfl, Nat.zero_le _⟩
  · have hLevels : maxDepth < maxDepth + 1 + 0 :=
      Nat.lt_succ_self _
    rcases scan_ok (Nat.zero_le _) hLevels command
      ⟨maxReparses, 0⟩ with ⟨denied, meter, hScan, hLe⟩
    refine ⟨denied, meter, hScan, ?_⟩
    have hTotal : meter.budget + meter.scans ≤ maxReparses + 0 + 1 := hLe
    omega

end TailFollow
