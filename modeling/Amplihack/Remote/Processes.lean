import Amplihack.Remote.VmPool
import Amplihack.Base.Runs
import Amplihack.Remote.PoolAccounts

/-
  Remote sessions and the manager that keeps them.

  Processes that work on one state file, each with its own
  copies of what it read.
-/

-- Records

namespace Remote

open Base

inductive SessionStatus where
| pending
| running
| completed
| failed
| killed
deriving DecidableEq

/- The instants are nanoseconds since the epoch. -/
structure Session where
  sessionId : String
  vmName : String
  workspace : String
  tmuxSession : String
  prompt : String
  command : String
  maxTurns : ℕ
  status : SessionStatus
  memoryMb : ℕ
  createdAt : ℤ
  startedAt : Option ℤ
  completedAt : Option ℤ
  exitCode : Option ℤ

structure SessionManager where
  sessions : Dict String Session
  usedIds : List String

namespace SessionManager

def defaultMemoryMb : ℕ := 32768
def defaultCommand : String := "auto"
def defaultMaxTurns : ℕ := 10

/- `load_state` on the entries that were read. -/
def ofEntries (sessions : Dict String Session) :
    SessionManager where
  sessions := sessions
  usedIds := sessions.keys

end SessionManager

/- What one creation sees: the clock and the random suffixes. -/
structure IdAnswers where
  now : ℤ
  date : String
  time : String
  suffix : ℕ → Fin 65536
  micro : String

-- Operations on the manager's map

/- Four lower-case hexadecimal digits. -/
def hex4 (n : Fin 65536) : String :=
  String.ofList
    ([n.val / 4096, n.val / 256 % 16, n.val / 16 % 16,
      n.val % 16].map Nat.digitChar)

def sessionIdOf (ans : IdAnswers) (ending : String) : String :=
  "sess-" ++ ans.date ++ "-" ++ ans.time ++ "-" ++ ending

/- The first of a hundred candidates that is not in use. -/
def generateSessionId
    (ans : IdAnswers) (m : SessionManager) :
    String × SessionManager :=
  let candidates := (List.range 100).map fun i =>
    sessionIdOf ans (hex4 (ans.suffix i))
  match candidates.find? fun id =>
      !m.usedIds.contains id && (m.sessions.get? id).isNone with
  | some id => (id, { m with usedIds := id :: m.usedIds })
  | none => (sessionIdOf ans ans.micro, m)

structure CreateRequest where
  vmName : String
  prompt : String
  command : Option String
  maxTurns : Option ℕ
  memoryMb : Option ℕ

def newSession
    (ans : IdAnswers) (request : CreateRequest) (id : String) :
    Session where
  sessionId := id
  vmName := request.vmName
  workspace := "/workspace/" ++ id
  tmuxSession := id
  prompt := request.prompt
  command :=
    request.command.getD SessionManager.defaultCommand
  maxTurns :=
    request.maxTurns.getD SessionManager.defaultMaxTurns
  status := .pending
  memoryMb :=
    request.memoryMb.getD SessionManager.defaultMemoryMb
  createdAt := ans.now
  startedAt := none
  completedAt := none
  exitCode := none

/- The id of the new session and the manager that has it. -/
def createSession
    (ans : IdAnswers) (request : CreateRequest) (m : SessionManager) :
    Except String (String × SessionManager) :=
  if isBlank request.vmName then
    .error "vm_name cannot be empty"
  else if isBlank request.prompt then
    .error "prompt cannot be empty"
  else if request.maxTurns.getD
      SessionManager.defaultMaxTurns = 0 then
    .error "max_turns must be positive"
  else if request.memoryMb.getD
      SessionManager.defaultMemoryMb = 0 then
    .error "memory_mb must be positive"
  else
    let (id, m) := generateSessionId ans m
    .ok (id,
      { m with
        sessions :=
          m.sessions.insert id (newSession ans request id) })

def notFound (id : String) : String :=
  "Session " ++ id ++ " not found"

def debugStatus : SessionStatus → String
| .pending => "Pending"
| .running => "Running"
| .completed => "Completed"
| .failed => "Failed"
| .killed => "Killed"

/- Replace the stored session, leaving the others alone. -/
def SessionManager.put
    (m : SessionManager) (id : String) (session : Session) :
    SessionManager :=
  { m with sessions := m.sessions.insert id session }

def startSession
    (now : ℤ) (id : String) (m : SessionManager) :
    Except String SessionManager :=
  match m.sessions.get? id with
  | none => .error (notFound id)
  | some session =>
    if session.status ≠ .pending then
      .error ("Session " ++ id ++ " is not PENDING (current: " ++
        debugStatus session.status ++ ")")
    else
      .ok (m.put id
        { session with
          status := .running
          startedAt := some now })

def updateSessionVm
    (vmName : String) (id : String) (m : SessionManager) :
    Except String SessionManager :=
  match m.sessions.get? id with
  | none => .error (notFound id)
  | some session =>
    if isBlank vmName then
      .error "vm_name cannot be empty"
    else
      .ok (m.put id { session with vmName := vmName })

/- `false` stands for a session that is not there. -/
def killSession
    (now : ℤ) (id : String) (m : SessionManager) :
    Option SessionManager :=
  match m.sessions.get? id with
  | none => none
  | some session =>
    some (m.put id
      { session with
        status := .killed
        completedAt := some now })

-- Calls

inductive SessionCall where
| create (request : CreateRequest) (ans : IdAnswers)
| start (id : String) (now : ℤ)
| updateVm (id : String) (vmName : String)
| kill (id : String) (now : ℤ)

/- The id and the map of a call that goes on to save it. -/
def SessionCall.inMemory (m : SessionManager) :
    SessionCall → Option (String × SessionManager)
| .create request ans => (createSession ans request m).toOption
| .start id now =>
  (startSession now id m).toOption.map fun m => (id, m)
| .updateVm id vmName =>
  (updateSessionVm vmName id m).toOption.map fun m => (id, m)
| .kill id now => (killSession now id m).map fun m => (id, m)

theorem sessions_generateSessionId
    (ans : IdAnswers) (m : SessionManager) :
    (generateSessionId ans m).2.sessions = m.sessions := by
  rw [generateSessionId]
  split <;> rfl

variable {id k : String}

theorem get?_put
    (m : SessionManager) (session : Session) (hNe : k ≠ id) :
    (m.put id session).sessions.get? k = m.sessions.get? k := by
  rw [SessionManager.put, Dict.get?_insert, if_neg hNe]

theorem ok_of_toOption
    {ε α : Type} {result : Except ε α} {a : α}
    (hSome : result.toOption = some a) :
    result = .ok a := by
  cases result with
  | error e => simp [Except.toOption] at hSome
  | ok b =>
    simp only [Except.toOption, Option.some.injEq] at hSome
    rw [hSome]

variable {m m' : SessionManager}

theorem get?_createSession
    {ans : IdAnswers} {request : CreateRequest}
    (hCall : createSession ans request m = .ok (id, m')) (hNe : k ≠ id) :
    m'.sessions.get? k = m.sessions.get? k := by
  rw [createSession] at hCall
  split_ifs at hCall
  simp only [Except.ok.injEq, Prod.mk.injEq] at hCall
  rcases hCall with ⟨rfl, rfl⟩
  rw [Dict.get?_insert, if_neg hNe, sessions_generateSessionId]

variable {now : ℤ}

theorem get?_startSession
    (hCall : startSession now id m = .ok m') (hNe : k ≠ id) :
    m'.sessions.get? k = m.sessions.get? k := by
  rw [startSession] at hCall
  split at hCall
  · simp at hCall
  · split_ifs at hCall
    rw [← Except.ok.inj hCall]
    exact get?_put m _ hNe

theorem get?_updateSessionVm
    {vmName : String} (hCall : updateSessionVm vmName id m = .ok m')
    (hNe : k ≠ id) :
    m'.sessions.get? k = m.sessions.get? k := by
  rw [updateSessionVm] at hCall
  split at hCall
  · simp at hCall
  · split_ifs at hCall
    rw [← Except.ok.inj hCall]
    exact get?_put m _ hNe

theorem get?_killSession
    (hCall : killSession now id m = some m') (hNe : k ≠ id) :
    m'.sessions.get? k = m.sessions.get? k := by
  rw [killSession] at hCall
  split at hCall
  · simp at hCall
  · rw [← Option.some.inj hCall]
    exact get?_put m _ hNe

/- A call changes the entry of its own session only. -/
theorem get?_inMemory
    {call : SessionCall}
    (hCall : call.inMemory m = some (id, m')) (hNe : k ≠ id) :
    m'.sessions.get? k = m.sessions.get? k := by
  cases call with
  | create request ans => exact get?_createSession (ok_of_toOption hCall) hNe
  | start id' now =>
    rcases Option.map_eq_some_iff.mp hCall with ⟨made, hMade, hPair⟩
    cases hPair
    exact get?_startSession (ok_of_toOption hMade) hNe
  | updateVm id' vmName =>
    rcases Option.map_eq_some_iff.mp hCall with ⟨made, hMade, hPair⟩
    cases hPair
    exact get?_updateSessionVm (ok_of_toOption hMade) hNe
  | kill id' now =>
    rcases Option.map_eq_some_iff.mp hCall with ⟨made, hMade, hPair⟩
    cases hPair
    exact get?_killSession hMade hNe

end Remote

-- The release outside the lock

namespace Remote

open Base

abbrev RemoteFile := StateFile Session VMPoolEntry

def withoutSession (sessionId : String) (pool : VMPool) :
    VMPool :=
  pool.mapValues (fun _ e => e.without sessionId)

/-
  What `release_session_in_state` writes after its read; it
  returns without a write when there is no object of pool
  entries, and with an error when the file does not parse.
  A missing or blank file is read as two empty maps.
-/
def releaseInState (sessionId : String) :
    RemoteFile → Option RemoteFile
| .missing | .blank =>
  some (.object (.entries Dict.empty) (.entries Dict.empty))
| .corrupt | .notObject => none
| .object sessions vmPool =>
  match vmPool with
  | .absent | .malformed false => none
  | .malformed true =>
    some (.object sessions (.malformed true))
  | .entries pool =>
    some (.object sessions (.entries (withoutSession sessionId pool)))

-- Processes and their actions

/-
  What a process holds: the session map and the pool of its
  managers, and the text of a release that was read and is
  not yet written.
-/
structure Process where
  sessions : Option SessionManager := none
  pool : Option VMPool := none
  pending : Option (String × RemoteFile) := none

structure System where
  file : RemoteFile
  processes : ℕ → Process

def System.update
    (s : System) (p : ℕ) (process : Process) :
    System :=
  { s with
    processes := Function.update s.processes p process }

/-
  The `kill` command is `openSessions`, a `kill` call,
  `releaseRead` and `releaseWrite` of one process.
-/
inductive Action where
| openSessions (p : ℕ) (readFails : Bool)
| openPool (p : ℕ) (readFails : Bool)
| session (p : ℕ) (call : SessionCall) (io : IoAnswer)
| pool (p : ℕ) (username : String) (call : PoolCall)
| releaseRead (p : ℕ) (sessionId : String) (readFails : Bool)
| releaseWrite (p : ℕ) (io : IoAnswer)
| crash (p : ℕ)

/- The map of a pool call that goes on to save it. -/
def PoolCall.inMemory (username : String) (pool : VMPool) :
    PoolCall → Option VMPool
| .allocate sessionId size region ans =>
  (allocateInMemory username ans sessionId size region
    pool).toOption.map Prod.snd
| .release sessionId ans =>
  releaseInMemory ans.order sessionId pool

def PoolCall.io : PoolCall → IoAnswer
| .allocate _ _ _ ans => ans.io
| .release _ ans => ans.io

/- A call on the process's session manager, then its save. -/
def System.sessionCall
    (s : System) (p : ℕ) (call : SessionCall) (io : IoAnswer) :
    System :=
  match (s.processes p).sessions with
  | none => s
  | some m =>
    match call.inMemory m with
    | none => s
    | some (_, m') =>
      { s.update p { s.processes p with
          sessions := some m' } with
        file := (mergeKeyIntoState io
          (.sessions m'.sessions) s.file).2 }

/- A call on the process's pool manager, then its save. -/
def System.poolCall
    (s : System) (p : ℕ) (username : String) (call : PoolCall) :
    System :=
  match (s.processes p).pool with
  | none => s
  | some pool =>
    match call.inMemory username pool with
    | none => s
    | some pool' =>
      { s.update p { s.processes p with
          pool := some pool' } with
        file := (savePool call.io pool' s.file).2 }

def System.step (s : System) : Action → System
| .openSessions p readFails =>
  match readFails, readSessions s.file with
  | false, .ok sessions =>
    s.update p { s.processes p with
      sessions := some (.ofEntries sessions) }
  | _, _ => s
| .openPool p readFails =>
  match readFails, readVmPool s.file with
  | false, .ok pool =>
    s.update p { s.processes p with pool := some pool }
  | _, _ => s
| .session p call io => s.sessionCall p call io
| .pool p username call => s.poolCall p username call
| .releaseRead p sessionId readFails =>
  match readFails, releaseInState sessionId s.file with
  | false, some text =>
    s.update p { s.processes p with
      pending := some (sessionId, text) }
  | _, _ => s
| .releaseWrite p io =>
  match (s.processes p).pending with
  | none => s
  | some (_, text) =>
    { s.update p { s.processes p with
        pending := none } with
      file := (write io s.file text).2 }
| .crash p => s.update p {}

end Remote
