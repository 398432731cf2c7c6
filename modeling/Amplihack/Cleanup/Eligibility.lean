import Mathlib.Data.List.Infix
import Mathlib.Data.List.Sort
import Mathlib.Data.String.Basic
import Amplihack.Base.Utf8
import Amplihack.Base.Json.Record
import Amplihack.Base.Json.Text
import Amplihack.Base.Search

/-
  What cleanup sees of the machine, and the folders of the
  runs.

  When the owned paths of an inactive run may be removed.
-/

-- Paths

namespace Cleanup

open Base

/- The components of an absolute path. -/
abbrev Path := List String

namespace Path

def parent : Path → Option Path
| [] => none
| name :: rest => some (name :: rest).dropLast

def fileName (path : Path) : Option String :=
  path.getLast?

def join (path : Path) (name : String) : Path :=
  path ++ [name]

/- Empty and `.` components are dropped. -/
def ofText (text : List Char) : Path :=
  ((text.splitOn '/').filter fun part =>
    part ≠ [] ∧ part ≠ ['.']).map String.ofList

end Path

-- The World

inductive FileKind where
| dir
| file
| symlink
| other
deriving DecidableEq

/- The `owned-paths` file of a run folder. -/
inductive OwnedFile where
| missing
| unreadable (bytes : List UInt8)
| readable (bytes : List UInt8)

/- `/proc/<pid>/stat`, with the start ticks it gives. -/
inductive ProcStat where
| missing
| unreadable
| running (startTicks : Option ℕ)

structure RunReport where
  schemaVersion : ℕ
  pid : ℕ
  pidStartTicks : Option ℕ
  endedAt : Option String

/- The answers of the file system, git, gh and the process
   table at one moment. -/
structure World where
  /- `symlink_metadata` -/
  kind : Path → Option FileKind
  canonicalize : Path → Option Path
  readDir : Path → Option (List String)
  /- `RunReport::read` of a run folder -/
  runReport : Path → Option RunReport
  ownedFile : Path → OwnedFile
  /- when the `run.json` of a run folder changed -/
  runJsonMtime : Path → ℤ
  hasProc : Bool
  procStat : ℕ → ProcStat
  gitCommonDir : Path → Option Path
  worktreeList : Path → Option (List Path)
  /- `git symbolic-ref HEAD`; no name when detached -/
  symbolicRef : Path → Option (Option String)
  /- `gh pr list` for a branch in a folder -/
  ghPrList : String → Path → Option (List UInt8)
  gitHasDirtyState : Path → Bool
  hasUnpushed : Path → Bool
  lockIsHeld : Path → Bool
  inUse : Path → Bool
  hasLivePidMarker : Path → Bool
  tempDir : Path
  /- the clock, as `Utc::now` and as `SystemTime::now` -/
  utcNow : ℤ
  now : ℤ
  /- whether the sweep's deadline is past at a run -/
  pastDeadline : String → Bool
  parseRfc3339 : String → Option ℤ

namespace World

variable (w : World)

def canonicalOrSelf (path : Path) : Path :=
  (w.canonicalize path).getD path

def isRealDir (path : Path) : Bool :=
  w.kind path = some .dir

/- The folder's lock, and those one level below. -/
def cargoLockHeld (dir : Path) : Bool :=
  match w.readDir dir with
  | none => true
  | some names =>
    let below := names.filter fun name =>
      w.kind (dir.join name) = some .dir
    (dir :: below.map dir.join).any fun folder =>
      w.lockIsHeld (folder.join ".cargo-lock")

end World

-- Settings

inductive Category where
| runTmp
| runWorktree
| runTarget
| untaggedTarget
| tmpLeftover
deriving DecidableEq

structure Settings where
  workRoot : Path
  keep : ℕ
  categories : List Category
  hookCacheBase : Option Path

namespace Settings

variable (s : Settings)

def runsDir : Path := s.workRoot.join "runs"
def targetsDir : Path := s.workRoot.join "targets"
def worktreesDir : Path := s.workRoot.join "worktrees"
def shortRuntimeDir : Path := s.workRoot.join "r"

def wants (category : Category) : Bool :=
  s.categories.contains category

end Settings

-- Owned Paths

inductive OwnedKind where
| worktree
| target
deriving DecidableEq

structure OwnedPath where
  kind : OwnedKind
  path : Path
  branch : Option String
deriving DecidableEq

def ownedPathsMaxBytes : ℕ := 1024 * 1024
def ownedPathsMaxLines : ℕ := 10000

/- Tabs separate fields; no other control character. -/
def isBadByte (b : UInt8) : Bool :=
  b != 9 && (b < 0x20 || b == 0x7f)

def parseKind (field : List Char) : Option OwnedKind :=
  if field = "worktree".toList then some .worktree
  else if field = "target".toList then some .target
  else none

/- The branch field, which may be missing or empty. -/
def parseBranch : List (List Char) → Option (Option String)
| [] => some none
| [branch] =>
  if branch = [] then some none
  else some (some (String.ofList branch))
| _ :: _ :: _ => none

def parseOwnedLine (line : List UInt8) : Option OwnedPath :=
  if line.isEmpty || line.any isBadByte then none
  else do
    let text ← decodeUtf8 line
    match text.splitOn '\t' with
    | kind :: path :: rest =>
      let kind ← parseKind kind
      if path.head? = some '/' then
        let branch ← parseBranch rest
        some ⟨kind, .ofText path, branch⟩
      else none
    | _ => none

/- Only the first lines are read. -/
def parseOwnedPaths (bytes : List UInt8) : List OwnedPath :=
  ((bytes.splitOn 10).take ownedPathsMaxLines).filterMap parseOwnedLine

/- None when the file is there and cannot be read. -/
def readOwnedPaths : OwnedFile → Option (List OwnedPath)
| .missing => some []
| .unreadable _ => none
| .readable bytes =>
  if ownedPathsMaxBytes < bytes.length then none
  else some (parseOwnedPaths bytes)

-- Runs

def isValidId (id : String) : Bool :=
  !id.isEmpty && id.utf8ByteSize ≤ 64 &&
    id.toList.all fun c =>
      c.isDigit || ('a' ≤ c && c ≤ 'f') || c == '-'

/- Whether the run's process may still be alive. -/
def runIsActive (w : World) (report : RunReport) : Bool :=
  if report.endedAt.any (· ≠ "") then false
  else if report.pid = 0 then false
  else if !w.hasProc then true
  else
    match w.procStat report.pid with
    | .missing => false
    | .unreadable => true
    | .running startTicks =>
      match startTicks, report.pidStartTicks with
      | some actual, some recorded => actual == recorded
      | _, _ => true

structure RunInfo where
  id : String
  dir : Path
  report : Option RunReport
  /- none when `owned-paths` cannot be read -/
  ownedPaths : Option (List OwnedPath)
  runJsonMtime : ℤ

def RunInfo.owned (run : RunInfo) : List OwnedPath :=
  run.ownedPaths.getD []

def runInfo (w : World) (s : Settings) (id : String) : RunInfo :=
  let dir := s.runsDir.join id
  { id
    dir
    report := w.runReport dir
    ownedPaths := readOwnedPaths (w.ownedFile dir)
    runJsonMtime := w.runJsonMtime dir }

def isRun (w : World) (s : Settings) (id : String) : Bool :=
  isValidId id && w.isRealDir (s.runsDir.join id)

/- The runs by id; none when they cannot be listed. -/
def scanRuns (w : World) (s : Settings) : Option (List RunInfo) :=
  if w.isRealDir s.runsDir then
    (w.readDir s.runsDir).map fun names =>
      ((names.filter (isRun w s)).insertionSort (· ≤ ·)).map (runInfo w s)
  else some []

theorem eq_runInfo_of_mem_scanRuns
    {w : World} {s : Settings} {runs : List RunInfo}
    {run : RunInfo} (hScan : scanRuns w s = some runs) (hMem : run ∈ runs) :
    run = runInfo w s run.id := by
  unfold scanRuns at hScan
  split at hScan
  · obtain ⟨names, -, rfl⟩ := Option.map_eq_some_iff.mp hScan
    obtain ⟨id, -, rfl⟩ := List.mem_map.mp hMem
    rfl
  · cases hScan
    cases hMem

end Cleanup

-- Verdicts

namespace Cleanup

open Base

inductive Verdict where
| eligible
| skip
deriving DecidableEq

structure PrInfo where
  number : UInt64
  state : String
  closedAt : Option ℤ
  mergedAt : Option ℤ

/- The time the pull request was closed. -/
def PrInfo.closed (pr : PrInfo) : Option ℤ :=
  pr.closedAt.or pr.mergedAt

def prVerdict (pr : PrInfo) (now : ℤ) (keep : ℕ) : Verdict :=
  if pr.state = "MERGED" ∨ pr.state = "CLOSED" then
    match pr.closed with
    | none => .skip
    | some closed =>
      if closed ≤ now ∧ keep ≤ now - closed then .eligible
      else .skip
  else .skip

/- Dated by the later of the run's end and its last write. -/
def noPrVerdict
    (endedAt : Option ℤ) (runJsonMtime now : ℤ) (keep : ℕ) :
    Verdict :=
  let latest :=
    match endedAt with
    | some ended => max ended runJsonMtime
    | none => runJsonMtime
  if latest ≤ now ∧ keep ≤ now - latest then .eligible
  else .skip

-- Pull Requests

def ghMaxStdout : ℕ := 1024 * 1024

/- An empty text is no time; a text that is none, an error. -/
def parseTime
    (w : World) (value : Option String) :
    Option (Option ℤ) :=
  match value.filter (· ≠ "") with
  | none => some none
  | some text => (w.parseRfc3339 text).map some

def readPr (w : World) (j : Json) : Option PrInfo := do
  let members ← j.toObj?
  let number ← Json.required members "number" Json.readUInt64
  let state ← Json.required members "state" Json.toStr?
  let closedAt ← Json.optional members "closedAt" Json.toStr?
  let mergedAt ← Json.optional members "mergedAt" Json.toStr?
  let closedAt ← parseTime w closedAt
  let mergedAt ← parseTime w mergedAt
  some ⟨number, state.map Char.toUpper, closedAt, mergedAt⟩

/- A missing time is before every time. -/
def isAtLeast (a b : Option ℤ) : Bool :=
  match a, b with
  | _, none => true
  | none, some _ => false
  | some a, some b => b ≤ a

/- The last of the latest closed ones. -/
def latestClosed : List PrInfo → Option PrInfo
| [] => none
| pr :: rest =>
  match latestClosed rest with
  | none => some pr
  | some later =>
    if isAtLeast later.closed pr.closed then some later
    else some pr

/- An open one wins, then the latest closed. -/
def choosePr (prs : List PrInfo) : Option PrInfo :=
  (prs.find? fun pr => pr.state = "OPEN").or (latestClosed prs)

def parsePrList
    (w : World) (stdout : List UInt8) :
    Option (Option PrInfo) :=
  if ghMaxStdout < stdout.length then none
  else do
    let text ← decodeUtf8 stdout
    let j ← Json.parse text
    let prs ← Json.readList (readPr w) j
    some (choosePr prs)

-- Branches

def hasText (text : List Char) (pattern : String) : Bool :=
  (find pattern.toList text).isSome

def isRefusedChar (c : Char) : Bool :=
  c.toNat < 0x20 || c.toNat == 0x7f || " ~^:?*[\\".toList.contains c

def isValidPart (part : List Char) : Bool :=
  !part.isEmpty && part.head? != some '.' && !(".lock".toList.isSuffixOf part)

/- A name that git accepts and that is no option. -/
def isValidBranch (branch : String) : Bool :=
  let text := branch.toList
  !text.isEmpty && branch.utf8ByteSize ≤ 255 &&
    branch != "@" &&
    text.head? != some '-' && text.head? != some '/' &&
    text.getLast? != some '/' && text.getLast? != some '.' &&
    !(hasText text "..") && !(hasText text "@\x7b") &&
    !(hasText text "//") && !(text.any isRefusedChar) &&
    (text.splitOn '/').all isValidPart

/- None when gh gives no answer. -/
def lookupPr
    (w : World) (branch : String) (repoDir : Path) :
    Option (Option PrInfo) :=
  if isValidBranch branch then
    (w.ghPrList branch repoDir).bind (parsePrList w)
  else none

/- The branch checked out; none when git fails. -/
def checkedOutBranch
    (w : World) (worktree : Path) :
    Option (Option String) :=
  (w.symbolicRef worktree).map fun full =>
    full.bind fun name =>
      ("refs/heads/".toList.isPrefixOf? name.toList).map String.ofList

-- Eligible Paths

end Cleanup
