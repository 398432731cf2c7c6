import Amplihack.Agent.Entry

/-
  The field rules of an entry, which a load and a write of the
  registry both check.

  What the supervisor writes about an agent: the results of a
  pass, the recovery lines and the last recovery of an entry.

  Loading the registry, and the update under its lock.
-/

-- Characters and names

namespace Agent

def isAlphanumeric (c : Char) : Bool :=
  ('a' ≤ c && c ≤ 'z') || ('A' ≤ c && c ≤ 'Z') || ('0' ≤ c && c ≤ '9')

def isControl (c : Char) : Bool :=
  c.toNat ≤ 0x1f || (0x7f ≤ c.toNat && c.toNat ≤ 0x9f)

/- A control or a direction-changing or invisible character. -/
def unsafeChar (c : Char) : Bool :=
  isControl c ||
    (0x200b ≤ c.toNat && c.toNat ≤ 0x200f) ||
    (0x202a ≤ c.toNat && c.toNat ≤ 0x202e) ||
    (0x2066 ≤ c.toNat && c.toNat ≤ 0x2069) ||
    c.toNat == 0xfeff

def leadingAlnum
    (s : String) (most : ℕ) (rest : Char → Bool) :
    Bool :=
  match s.toList with
  | [] => false
  | first :: later =>
    isAlphanumeric first && s.utf8ByteSize ≤ most && later.all rest

def agentName (s : String) : Bool :=
  leadingAlnum s 64 fun c =>
    isAlphanumeric c || c == '_' || c == '.' || c == '-'

def conversationId (s : String) : Bool :=
  leadingAlnum s 64 fun c => isAlphanumeric c || c == '-'

def tmuxName (s : String) (banned : List Char) : Bool :=
  1 ≤ s.toList.length && s.toList.length ≤ 64 &&
    !(s.toList.any fun c => unsafeChar c || banned.contains c)

def sessionName (s : String) : Bool :=
  tmuxName s [':', '.', '#']

def windowName (s : String) : Bool :=
  tmuxName s ['#']

def reservedNames : List String :=
  ["CON", "PRN", "AUX", "NUL", "CONIN$", "CONOUT$"]

def isWindowsReserved (name : String) : Bool :=
  let stem := (name.toList.takeWhile (· ≠ '.')).map Char.toUpper
  reservedNames.contains (String.ofList stem) ||
    ["COM", "LPT"].any fun p =>
      match stem with
      | [a, b, c, d] =>
        [a, b, c] == p.toList && '1' ≤ d && d ≤ '9'
      | _ => false

/- `valid_live_name` -/
def profileName (s : String) : Bool :=
  leadingAlnum s 64 (fun c =>
      isAlphanumeric c || c == '.' || c == '_' || c == '-') &&
    !(s.toList.tails.any fun tail =>
      ['.', '.'].isPrefixOf tail) &&
    s.toList.getLast? ≠ some '.' && !isWindowsReserved s

-- Values

def optionValue (v : String) : Bool :=
  v ≠ "" && v.utf8ByteSize ≤ 256 &&
    v.toList.head? ≠ some '-' && !v.toList.any unsafeChar

def envValue (v : String) : Bool :=
  v.utf8ByteSize ≤ 4096 && !v.toList.any isControl

def envAllowlist : List String :=
  ["ANTHROPIC_MODEL", "ANTHROPIC_SMALL_FAST_MODEL",
    "ANTHROPIC_DEFAULT_OPUS_MODEL",
    "ANTHROPIC_DEFAULT_SONNET_MODEL",
    "ANTHROPIC_DEFAULT_HAIKU_MODEL",
    "CLAUDE_CODE_SUBAGENT_MODEL",
    "CLAUDE_CODE_EFFORT_LEVEL",
    "CLAUDE_CODE_MAX_OUTPUT_TOKENS",
    "MAX_THINKING_TOKENS",
    "AMPLIHACK_DEFAULT_MODEL",
    "AMPLIHACK_AGENT_BINARY"]

/- The names that are their own canonical binary name. -/
def allowedBinaries : List String :=
  ["amplifier", "claude", "codex", "copilot"]

def envOk (pair : String × String) : Bool :=
  envAllowlist.contains pair.1 &&
    if pair.1 = "AMPLIHACK_AGENT_BINARY" then
      allowedBinaries.contains pair.2
    else envValue pair.2

def launchIdOk (s : String) : Bool :=
  s.toList.length == 32 &&
    s.toList.all fun c =>
      ('0' ≤ c && c ≤ '9') || ('a' ≤ c && c ≤ 'f')

def isAbsolute (path : String) : Bool :=
  path.toList.head? == some '/'

def socketPath (path : String) : Bool :=
  isAbsolute path && path.utf8ByteSize ≤ 107 && !path.toList.any unsafeChar

/- The rule of a launch directory and of an added one. -/
def directoryLexical (path : String) : Bool :=
  isAbsolute path && !(path.toList.any fun c => c == '#' || unsafeChar c)

-- Entries

def isTs (c : Chrono) (s : String) : Bool :=
  (parseTs c s).isSome

/- Every field with its rule, in the order of the checks. -/
def fieldChecks (c : Chrono) (name : String) (e : Entry) :
    List (String × Bool) :=
  [("name", agentName name),
    ("tmux_session", sessionName e.tmuxSession),
    ("tmux_window", windowName e.tmuxWindow),
    ("tmux_socket", e.tmuxSocket.all socketPath),
    ("launch_dir", directoryLexical e.launchDir),
    ("conversation_id", e.conversationId.all conversationId),
    ("model", e.model.all optionValue),
    ("effort", e.effort.all optionValue),
    ("permission_mode", e.permissionMode.all optionValue),
    ("amplihack_flags.profile", e.amplihackFlags.profile.all profileName),
    ("add_dirs", e.addDirs.all directoryLexical),
    ("env", e.env.all envOk),
    ("registered_at", isTs c e.registeredAt),
    ("launched_at", isTs c e.launchedAt),
    ("launch_id", launchIdOk e.launchId),
    ("lost_at", e.lostAt.all (isTs c)),
    ("ended_at", e.endedAt.all (isTs c)),
    ("restarts", e.restarts.all (isTs c))] ++
  match e.lastRecovery with
  | none => []
  | some r =>
    [("last_recovery.logged_at", isTs c r.loggedAt),
      ("last_recovery.conversation_id", r.conversationId.all conversationId),
      ("last_recovery.lost", r.lost.all (isTs c)),
      ("last_recovery.resumed", r.resumed.all (isTs c))]

/- `validate::entry`: the first field that breaks its rule. -/
def invalidField (c : Chrono) (name : String) (e : Entry) :
    Option String :=
  ((fieldChecks c name e).find? fun check => !check.2).map Prod.fst

end Agent

-- Results

namespace Agent

def maxText : ℕ := 200
def maxLine : ℕ := 4096

def sanitize (s : String) (most : ℕ) : String :=
  String.ofList ((s.toList.take most).map fun c =>
    if unsafeChar c then '?' else c)

/- The result of one agent in a pass. -/
inductive Outcome where
| resumed
| alreadyRunning
| livenessUnknown (reason : String)
| sessionExists
| tmuxUnknown (reason : String)
| noConversation
| noLaunchDir
| noTranscript
| tmux (line : String)
| restartLimit
deriving DecidableEq

def Outcome.text : Outcome → String
| .resumed => "resumed"
| .alreadyRunning => "skipped: already running"
| .livenessUnknown reason =>
  "skipped: already running (liveness unknown: " ++ reason ++ ")"
| .sessionExists => "skipped: tmux session exists"
| .tmuxUnknown reason =>
  "skipped: tmux session exists (tmux state unknown: " ++ reason ++ ")"
| .noConversation => "failed: no conversation id"
| .noLaunchDir => "failed: launch directory missing"
| .noTranscript => "failed: no transcript"
| .tmux line => "failed: tmux: " ++ sanitize line maxText
| .restartLimit => "stopped: restart limit"

-- Lines

def recoveryLine
    (c : Chrono) (now : ℤ) (name : String)
    (conv lost resumed : Option String) (result : String) :
    String :=
  sanitize
    (fmtTs c now ++ " agent=" ++ name ++
      " conversation=" ++ conv.getD "-" ++
      " lost=" ++ lost.getD "-" ++
      " resumed=" ++ resumed.getD "-" ++
      " result=" ++ result)
    maxLine

def alertText (n : ℕ) : String :=
  "stopped: restart limit (" ++ toString n ++ " restarts in the last hour)"

def alertLine (c : Chrono) (now : ℤ) (name : String) (n : ℕ) :
    String :=
  sanitize
    (fmtTs c now ++ " ALERT: agent " ++ name ++ " " ++ alertText n)
    maxLine

/- `last_recovery` -/
def lastRecoveryOf
    (c : Chrono) (now : ℤ) (conv lost resumed : Option String)
    (result : String) :
    LastRecovery where
  loggedAt := fmtTs c now
  conversationId := conv
  lost := lost
  resumed := resumed
  result := sanitize result maxLine

/- A repeated result is not written, except a resume. -/
def suppressed
    (last : Option LastRecovery) (conv : Option String) (result : String) :
    Bool :=
  last.any fun l =>
    result ≠ "resumed" && l.conversationId == conv && l.result == result

/- A skip or a failure goes once its agent is healthy. -/
def clearsWhenHealthy (result : String) : Bool :=
  "skipped:".toList.isPrefixOf result.toList ||
    "failed:".toList.isPrefixOf result.toList

/- The line of a result, and the entry with it recorded. -/
def recordLine
    (c : Chrono) (name : String) (now : ℤ) (outcome : Outcome) (e : Entry) :
    Option String × Entry :=
  if outcome ≠ .restartLimit &&
      suppressed e.lastRecovery e.conversationId
        outcome.text then
    (none, e)
  else
    (some (recoveryLine c now name e.conversationId e.lostAt
        none outcome.text),
      { e with
        lastRecovery := some (lastRecoveryOf c now
          e.conversationId e.lostAt none outcome.text) })

/- Only the last recovery is written. -/
theorem recordLine_snd
    (c : Chrono) (name : String) (now : ℤ) (outcome : Outcome) (e : Entry) :
    (recordLine c name now outcome e).2 =
      { e with
        lastRecovery :=
          (recordLine c name now outcome e).2.lastRecovery } := by
  rw [recordLine]
  split
  · rfl
  · rfl

end Agent

-- Loading

namespace Agent

open Base

inductive LoadError where
| notPrivate
| corrupt (message : String)
| tooNew (version : ℕ)
| io
deriving DecidableEq

/-
  What is at the registry's path: nothing, something that no
  version 1 registry is read from, or a registry with the
  size of its text and whether the file is private.
-/
inductive RegistryFile where
| missing
| foreign (e : LoadError)
| stored (reg : Registry) (bytes : ℕ) (isPrivate : Bool)

def maxBytes : ℕ := 8 * 1024 * 1024

/-
  The parameters of the registry's text: how times are
  written and how long the printed registry is.
-/
structure Text where
  chrono : Chrono
  printed : Registry → ℕ

/- The first entry, by name, with an invalid field. -/
def invalidEntry (t : Text) (reg : Registry) :
    Option (String × String) :=
  (byName reg).findSome? fun (name, e) =>
    (invalidField t.chrono name e).map fun field =>
      (name, field)

def loadRefusal (bad : String × String) : String :=
  if bad.2 = "name" then
    "an agent name is not valid; it was not changed"
  else
    "agent " ++ bad.1 ++ ": field " ++ bad.2 ++
      " is not valid; it was not changed"

def writeRefusal (bad : String × String) : String :=
  if bad.2 = "name" then
    "refusing to write an agent with an invalid name; " ++
      "it was not changed"
  else
    "refusing to write agent " ++ bad.1 ++ ": field " ++
      bad.2 ++ " is not valid; it was not changed"

def load (t : Text) : RegistryFile → Except LoadError Registry
| .missing => .ok Dict.empty
| .foreign e => .error e
| .stored reg bytes isPrivate =>
  if maxBytes < bytes then
    .error (.corrupt "larger than 8 MiB; it was not changed")
  else if isPrivate then
    match invalidEntry t reg with
    | some bad => .error (.corrupt (loadRefusal bad))
    | none => .ok reg
  else .error .notPrivate

-- Updating

/- Whether the lock is had in time and the file is replaced. -/
structure UpdateAnswers where
  locked : Bool
  replaced : Bool

def prunedEntries (t : Text) (now : ℤ) (reg : Registry) :
    Registry :=
  reg.mapValues fun _ e =>
    { e with
      restarts := pruneRestarts t.chrono e.restarts now }

inductive UpdateError where
| locked
| load (e : LoadError)
| refused (message : String)
| replace
deriving DecidableEq

/-
  The only writer. A registry that prints as the file is not
  written again, which leaves the same file.
-/
def update
    {α : Type} (t : Text) (ans : UpdateAnswers) (now : ℤ)
    (f : Registry → Except String (α × Registry)) (file : RegistryFile) :
    Except UpdateError α × RegistryFile :=
  if ans.locked then
    match load t file with
    | .error e => (.error (.load e), file)
    | .ok reg =>
      match f reg with
      | .error message => (.error (.refused message), file)
      | .ok (out, changed) =>
        let next := prunedEntries t now changed
        match invalidEntry t next with
        | some bad =>
          (.error (.refused (writeRefusal bad)), file)
        | none =>
          if maxBytes < t.printed next then
            (.error (.refused
              ("the registry would exceed 8 MiB; " ++
                "it was not changed")), file)
          else if ans.replaced then
            (.ok out, .stored next (t.printed next) true)
          else (.error .replace, file)
  else (.error .locked, file)

variable {α : Type}
variable {t : Text}
variable {ans : UpdateAnswers}
variable {now : ℤ}
variable {f : Registry → Except String (α × Registry)}
variable {file : RegistryFile}

/- What an update whose closure succeeded comes to. -/
theorem update_of_run
    {reg changed : Registry} {out : α} (hLocked : ans.locked = true)
    (hLoad : load t file = .ok reg) (hRun : f reg = .ok (out, changed)) :
    (update t ans now f file).2 = file ∨
      (update t ans now f file).1 = .ok out ∧
        load t (update t ans now f file).2 =
          .ok (prunedEntries t now changed) := by
  cases hValid :
      invalidEntry t (prunedEntries t now changed) with
  | some bad => exact Or.inl (by simp [update, hLocked, hLoad, hRun, hValid])
  | none =>
    by_cases hSize : maxBytes < t.printed (prunedEntries t now changed)
    · exact Or.inl (by
        simp [update, hLocked, hLoad, hRun, hValid, hSize])
    · by_cases hReplaced : ans.replaced = true
      · have hRan :
            update t ans now f file =
              (.ok out, .stored (prunedEntries t now changed)
                (t.printed (prunedEntries t now changed))
                true) := by
          simp [update, hLocked, hLoad, hRun, hValid, hSize, hReplaced]
        rw [hRan]
        exact Or.inr ⟨rfl, by simp [load, hSize, hValid]⟩
      · exact Or.inl (by
          simp [update, hLocked, hLoad, hRun, hValid, hSize, hReplaced])

/- An update leaves the file or writes a loadable registry. -/
theorem update_cases :
    (update t ans now f file).2 = file ∨
      ∃ reg out changed, load t file = .ok reg ∧
        f reg = .ok (out, changed) ∧
        (update t ans now f file).1 = .ok out ∧
        load t (update t ans now f file).2 =
          .ok (prunedEntries t now changed) := by
  by_cases hLocked : ans.locked = true
  · cases hLoad : load t file with
    | error e => exact Or.inl (by simp [update, hLocked, hLoad])
    | ok reg =>
      cases hRun : f reg with
      | error message => exact Or.inl (by simp [update, hLocked, hLoad, hRun])
      | ok result =>
        rcases result with ⟨out, changed⟩
        have hWrite :
            (update t ans now f file).2 = file ∨
              (update t ans now f file).1 = .ok out ∧
                load t (update t ans now f file).2 =
                  .ok (prunedEntries t now changed) :=
          update_of_run hLocked hLoad hRun
        rcases hWrite with hSame | ⟨hOut, hNext⟩
        · exact Or.inl hSame
        · exact Or.inr ⟨reg, out, changed, rfl, hRun, hOut, hNext⟩
  · exact Or.inl (by simp [update, hLocked])

/- An update never makes a loadable registry unreadable. -/
theorem load_of_update
    {reg : Registry} (hLoad : load t file = .ok reg) :
    load t (update t ans now f file).2 = .ok reg ∨
      ∃ out changed, f reg = .ok (out, changed) ∧
        load t (update t ans now f file).2 =
          .ok (prunedEntries t now changed) := by
  have hCases :
      (update t ans now f file).2 = file ∨
        ∃ reg out changed, load t file = .ok reg ∧
          f reg = .ok (out, changed) ∧
          (update t ans now f file).1 = .ok out ∧
          load t (update t ans now f file).2 =
            .ok (prunedEntries t now changed) := update_cases
  rcases hCases with
    hSame | ⟨reg', out, changed, hLoad', hRun, -, hNext⟩
  · rw [hSame]
    exact Or.inl hLoad
  · rw [hLoad] at hLoad'
    rw [← Except.ok.inj hLoad'] at hRun
    exact Or.inr ⟨out, changed, hRun, hNext⟩

end Agent
