import Amplihack.Remote.Updates

/-
  The life of a session over the operations of one manager
  at a time.
-/

-- Operations and their replies

namespace Remote

open Base

/- A manager and the file it saves to. -/
structure SessionState where
  manager : SessionManager
  file : RemoteFile

/- `SessionManager::new`, when the file can be read. -/
def openManager (file : RemoteFile) :
    Except StateReadError SessionState := do
  let sessions ← readSessions file
  pure ⟨.ofEntries sessions, file⟩

/-
  What an operation gives back. A failed save carries its
  error; the save can also panic.
-/
inductive Reply where
| session (found : Option Session)
| listed (found : List Session)
| killed (saved : Bool)
| refused (message : String)
| saveFailed (e : StateWriteError)
| opened
| openFailed

/- The replies that are errors, or `false`. -/
def Reply.isFailure : Reply → Bool
| .killed saved => !saved
| .refused _ | .saveFailed _ | .openFailed => true
| _ => false

/-
  A call of the manager; the `kill` command, which gives up
  when the terminal session cannot be killed and nothing
  forces it; a read; or the manager of the next command.
-/
inductive Operation where
| call (call : SessionCall) (io : IoAnswer)
| kill
    (id : String)
    (force : Bool)
    (tmux : Except String Unit)
    (now : ℤ)
    (io : IoAnswer)
| getSession (id : String)
| listSessions (status : Option SessionStatus)
| reopen (readFails : Bool)

/- The id and the changed map, or the reply of a refusal. -/
def SessionCall.attempt (m : SessionManager) :
    SessionCall → Except Reply (String × SessionManager)
| .create request ans =>
  (createSession ans request m).mapError .refused
| .start id now =>
  match startSession now id m with
  | .error message => .error (.refused message)
  | .ok m' => .ok (id, m')
| .updateVm id vmName =>
  match updateSessionVm vmName id m with
  | .error message => .error (.refused message)
  | .ok m' => .ok (id, m')
| .kill id now =>
  match killSession now id m with
  | none => .error (.killed false)
  | some m' => .ok (id, m')

/- The reply after the save. -/
def SessionCall.reply
    (call : SessionCall) (found : Option Session)
    (saved : Except StateWriteError Unit) :
    Reply :=
  match call, saved with
  | .kill _ _, .ok () => .killed true
  | .kill _ _, .error _ => .killed false
  | _, .ok () => .session found
  | _, .error e => .saveFailed e

/- The map is changed first; then it is saved. -/
def SessionCall.run
    (call : SessionCall) (io : IoAnswer) (s : SessionState) :
    Reply × SessionState :=
  match call.attempt s.manager with
  | .error reply => (reply, s)
  | .ok (id, m) =>
    let saved :=
      mergeKeyIntoState io (.sessions m.sessions) s.file
    (call.reply (m.sessions.get? id) saved.1, ⟨m, saved.2⟩)

/- Up to the release of the VM, which is not the manager's. -/
def killCommand
    (id : String) (force : Bool) (tmux : Except String Unit)
    (now : ℤ) (io : IoAnswer) (s : SessionState) :
    Reply × SessionState :=
  match s.manager.sessions.get? id with
  | none => (.refused (notFound id), s)
  | some _ =>
    match tmux, force with
    | .error message, false => (.refused message, s)
    | _, _ => (SessionCall.kill id now).run io s

def SessionManager.list
    (m : SessionManager) (status : Option SessionStatus) :
    List Session :=
  (m.sessions.entries.map Prod.snd).filter fun session =>
    status.isNone || some session.status == status

def reopenManager (readFails : Bool) (s : SessionState) :
    Reply × SessionState :=
  match readFails, openManager s.file with
  | false, .ok s' => (.opened, s')
  | _, _ => (.openFailed, s)

def Operation.run (s : SessionState) :
    Operation → Reply × SessionState
| .call made io => made.run io s
| .kill id force tmux now io =>
  killCommand id force tmux now io s
| .getSession id => (.session (s.manager.sessions.get? id), s)
| .listSessions status => (.listed (s.manager.list status), s)
| .reopen readFails => reopenManager readFails s

def Operation.next (s : SessionState) (op : Operation) :
    SessionState :=
  (op.run s).2

-- The law of a session's life

def SessionStatus.isFinished : SessionStatus → Bool
| .completed | .failed | .killed => true
| _ => false

/- The status changes that a session may go through. -/
inductive SessionStatus.MovesTo :
    SessionStatus → SessionStatus → Prop where
| same (status : SessionStatus) : MovesTo status status
| starts : MovesTo .pending .running
| killedPending : MovesTo .pending .killed
| killedRunning : MovesTo .running .killed

/- A finished session stays as it is. -/
structure Session.Advances (before after : Session) : Prop where
  moves : before.status.MovesTo after.status
  kept : before.status.isFinished = true → after = before

/- Every session of a map is still there, advanced. -/
def AllAdvance (before after : Dict String Session) : Prop :=
  ∀ id session, before.get? id = some session →
    ∃ session', after.get? id = some session' ∧ session.Advances session'

/- The sessions that the manager or the file has. -/
def SessionState.has (s : SessionState) (id : String) : Prop :=
  (s.manager.sessions.get? id).isSome = true ∨
    (s.file.sessions.get? id).isSome = true

/- What both maps of `s` have lives on in `t`. -/
structure SessionState.Evolves (s t : SessionState) : Prop where
  memory : AllAdvance s.manager.sessions t.manager.sessions
  stored : AllAdvance s.file.sessions t.file.sessions

/-
  What one operation must do. A creation returns an id that
  was free; sessions only advance; a failure changes nothing.
-/
structure Lawful (s : SessionState) (op : Operation) :
    Prop where
  fresh : ∀ request ans io session, op = .call (.create request ans) io →
    (op.run s).1 = .session (some session) →
    ¬ s.has session.sessionId
  evolves : s.Evolves (op.next s)
  unchanged : (op.run s).1.isFailure = true → op.next s = s

-- When the operations keep it

/- The save goes through. -/
def CanSave (io : IoAnswer) (file : RemoteFile) : Prop :=
  io = .fine ∧ file.Mergeable = true

/- The request passes the checks that come before the id. -/
def CreateRequest.Valid (request : CreateRequest) : Prop :=
  isBlank request.vmName = false ∧
    isBlank request.prompt = false ∧
    request.maxTurns ≠ some 0 ∧
    request.memoryMb ≠ some 0

def SessionManager.isFree
    (m : SessionManager) (id : String) :
    Bool :=
  !m.usedIds.contains id && (m.sessions.get? id).isNone

/-
  One of the hundred random ids is free, or the last resort
  is the id of no session.
-/
def IdAnswers.Free
    (ans : IdAnswers) (m : SessionManager) :
    Prop :=
  (∃ i < 100, m.isFree (sessionIdOf ans (hex4 (ans.suffix i))) = true) ∨
    m.sessions.get? (sessionIdOf ans ans.micro) = none

def SessionCall.InOrder
    (io : IoAnswer) (s : SessionState) :
    SessionCall → Prop
| .create request ans =>
  request.Valid → ans.Free s.manager ∧ CanSave io s.file
| .start id _ =>
  ∀ session, s.manager.sessions.get? id = some session →
    session.status = .pending → CanSave io s.file
| .updateVm id vmName =>
  ∀ session, s.manager.sessions.get? id = some session →
    isBlank vmName = false →
    session.status.isFinished = false ∧ CanSave io s.file
| .kill id _ =>
  ∀ session, s.manager.sessions.get? id = some session →
    session.status.isFinished = false ∧ CanSave io s.file

/-
  No kill or change of a finished session, no taken id, and
  no save that fails.
-/
def InOrder (s : SessionState) : Operation → Prop
| .call made io => made.InOrder io s
| .kill id force tmux now io =>
  force = true ∨ tmux = .ok () → (SessionCall.kill id now).InOrder io s
| _ => True

-- Single operations

theorem SessionStatus.MovesTo.trans
    {a b c : SessionStatus} (hLeft : a.MovesTo b) (hRight : b.MovesTo c) :
    a.MovesTo c := by
  cases hLeft with
  | same => exact hRight
  | starts =>
    cases hRight with
    | same => exact .starts
    | killedRunning => exact .killedPending
  | killedPending =>
    cases hRight with
    | same => exact .killedPending
  | killedRunning =>
    cases hRight with
    | same => exact .killedRunning

namespace Session.Advances

variable {a b c : Session}

theorem refl (a : Session) : a.Advances a :=
  ⟨.same _, fun _ => rfl⟩

theorem trans
    (hLeft : a.Advances b) (hRight : b.Advances c) :
    a.Advances c := by
  refine ⟨hLeft.moves.trans hRight.moves, ?_⟩
  intro hFinished
  have hSame := hLeft.kept hFinished
  subst hSame
  exact hRight.kept hFinished

/- An unfinished session may change in other ways, too. -/
theorem of_unfinished
    (hMoves : a.status.MovesTo b.status)
    (hOpen : a.status.isFinished = false) :
    a.Advances b := by
  refine ⟨hMoves, ?_⟩
  intro hFinished
  rw [hOpen] at hFinished
  exact absurd hFinished (by simp)

end Session.Advances

namespace AllAdvance

variable {d e f : Dict String Session}

theorem refl (d : Dict String Session) : AllAdvance d d :=
  fun _ session hGet => ⟨session, hGet, .refl session⟩

theorem trans
    (hLeft : AllAdvance d e) (hRight : AllAdvance e f) :
    AllAdvance d f := by
  intro id session hGet
  rcases hLeft id session hGet with ⟨between, hNext, hFirst⟩
  rcases hRight id between hNext with ⟨last, hLast, hSecond⟩
  exact ⟨last, hLast, hFirst.trans hSecond⟩

theorem insert
    {id : String} {session : Session}
    (hAdvances : ∀ old, d.get? id = some old → old.Advances session) :
    AllAdvance d (d.insert id session) := by
  intro k old hGet
  by_cases hKey : k = id
  · subst hKey
    exact ⟨session, by simp, hAdvances old hGet⟩
  · exact ⟨old, by simp [hKey, hGet], .refl old⟩

end AllAdvance

variable {ans : IdAnswers} {m : SessionManager}

/- The id of a creation in order belongs to no session. -/
theorem get?_generateSessionId
    (hFree : ans.Free m) :
    m.sessions.get? (generateSessionId ans m).1 = none := by
  unfold generateSessionId
  dsimp only
  split
  · next id hFind =>
      have hHolds := List.find?_some hFind
      simp only [Bool.and_eq_true, Option.isNone_iff_eq_none]
        at hHolds
      exact hHolds.2
  · next hFind =>
      rcases hFree with ⟨i, hBound, hIsFree⟩ | hLast
      · have hTaken := List.find?_eq_none.mp hFind
          (sessionIdOf ans (hex4 (ans.suffix i)))
          (List.mem_map.mpr ⟨i, List.mem_range.mpr hBound, rfl⟩)
        exact absurd hIsFree hTaken
      · exact hLast

/-
  What a call in order does to the map: it stores one session
  that the old one of its id, if there is one, advances to.
-/
structure Stores
    (m m' : SessionManager) (id : String) (session : Session) :
    Prop where
  insert : m'.sessions = m.sessions.insert id session
  advances : ∀ old, m.sessions.get? id = some old → old.Advances session

variable {request : CreateRequest} {io : IoAnswer}
variable {s : SessionState} {id : String}

theorem stores_create
    (hInOrder : (SessionCall.create request ans).InOrder io s)
    (hMade : createSession ans request s.manager = .ok (id, m)) :
    CanSave io s.file ∧
      s.manager.sessions.get? id = none ∧
      Stores s.manager m id (newSession ans request id) := by
  unfold createSession at hMade
  split_ifs at hMade with hVm hPrompt hTurns hMemory
  have hValid : request.Valid := by
    refine ⟨by simpa using hVm, by simpa using hPrompt, ?_, ?_⟩
    · intro hSome
      exact hTurns (by rw [hSome]; rfl)
    · intro hSome
      exact hMemory (by rw [hSome]; rfl)
  rcases hInOrder hValid with ⟨hFree, hSave⟩
  have hNone := get?_generateSessionId hFree
  simp only [Except.ok.injEq, Prod.mk.injEq] at hMade
  rcases hMade with ⟨rfl, rfl⟩
  refine ⟨hSave, hNone, ?_, ?_⟩
  · dsimp only
    rw [sessions_generateSessionId]
  · intro old hOld
    rw [hNone] at hOld
    cases hOld

variable {now : ℤ}

theorem stores_start
    (hInOrder : (SessionCall.start id now).InOrder io s)
    (hMade : startSession now id s.manager = .ok m) :
    CanSave io s.file ∧ ∃ session, Stores s.manager m id session := by
  unfold startSession at hMade
  split at hMade
  · cases hMade
  · next session hGet =>
      split_ifs at hMade with hPending
      have hStatus : session.status = .pending := not_not.mp hPending
      rw [← Except.ok.inj hMade]
      refine ⟨hInOrder session hGet hStatus, _, rfl, ?_⟩
      intro old hOld
      cases hGet.symm.trans hOld
      refine .of_unfinished ?_ (by rw [hStatus]; rfl)
      rw [hStatus]
      exact .starts

theorem stores_updateVm
    {vmName : String}
    (hInOrder : (SessionCall.updateVm id vmName).InOrder io s)
    (hMade : updateSessionVm vmName id s.manager = .ok m) :
    CanSave io s.file ∧ ∃ session, Stores s.manager m id session := by
  unfold updateSessionVm at hMade
  split at hMade
  · cases hMade
  · next session hGet =>
      split_ifs at hMade with hBlank
      rcases hInOrder session hGet (by simpa using hBlank) with ⟨hOpen, hSave⟩
      rw [← Except.ok.inj hMade]
      refine ⟨hSave, _, rfl, ?_⟩
      intro old hOld
      cases hGet.symm.trans hOld
      exact .of_unfinished (.same _) hOpen

theorem stores_kill
    (hInOrder : (SessionCall.kill id now).InOrder io s)
    (hMade : killSession now id s.manager = some m) :
    CanSave io s.file ∧ ∃ session, Stores s.manager m id session := by
  unfold killSession at hMade
  split at hMade
  · cases hMade
  · next session hGet =>
      rcases hInOrder session hGet with ⟨hOpen, hSave⟩
      rw [← Option.some.inj hMade]
      refine ⟨hSave, _, rfl, ?_⟩
      intro old hOld
      cases hGet.symm.trans hOld
      refine .of_unfinished ?_ hOpen
      cases hStatus : session.status with
      | pending => exact .killedPending
      | running => exact .killedRunning
      | completed | failed | killed => rw [hStatus] at hOpen; cases hOpen

variable {call : SessionCall}

theorem stores_of_attempt
    (hInOrder : call.InOrder io s)
    (hMade : call.attempt s.manager = .ok (id, m)) :
    CanSave io s.file ∧ ∃ session, Stores s.manager m id session := by
  cases call with
  | create request ans =>
    have hCreated : createSession ans request s.manager = .ok (id, m) := by
      cases hCreate : createSession ans request s.manager with
      | error message =>
        simp [SessionCall.attempt, hCreate, Except.mapError] at hMade
      | ok made =>
        simpa [SessionCall.attempt, hCreate, Except.mapError] using hMade
    have hStores := stores_create hInOrder hCreated
    exact ⟨hStores.1, _, hStores.2.2⟩
  | start k now =>
    cases hStart : startSession now k s.manager with
    | error message => simp [SessionCall.attempt, hStart] at hMade
    | ok made =>
      simp only [SessionCall.attempt, hStart,
        Except.ok.injEq, Prod.mk.injEq] at hMade
      rcases hMade with ⟨rfl, rfl⟩
      exact stores_start hInOrder hStart
  | updateVm k vmName =>
    cases hUpdate : updateSessionVm vmName k s.manager with
    | error message => simp [SessionCall.attempt, hUpdate] at hMade
    | ok made =>
      simp only [SessionCall.attempt, hUpdate,
        Except.ok.injEq, Prod.mk.injEq] at hMade
      rcases hMade with ⟨rfl, rfl⟩
      exact stores_updateVm hInOrder hUpdate
  | kill k now =>
    cases hKill : killSession now k s.manager with
    | none => simp [SessionCall.attempt, hKill] at hMade
    | some made =>
      simp only [SessionCall.attempt, hKill,
        Except.ok.injEq, Prod.mk.injEq] at hMade
      rcases hMade with ⟨rfl, rfl⟩
      exact stores_kill hInOrder hKill

/- The maps of the manager and of the file are the same. -/
def SessionState.Current (s : SessionState) : Prop :=
  s.file.sessions = s.manager.sessions

variable {file : RemoteFile}

theorem sessions_of_readSessions
    {sessions : Dict String Session}
    (hRead : readSessions file = .ok sessions) :
    file.sessions = sessions := by
  cases file with
  | missing | blank => cases hRead; rfl
  | corrupt => cases hRead
  | notObject => cases hRead; rfl
  | object stored vmPool => cases stored <;> cases hRead <;> rfl

theorem openManager_ok
    (hOpen : openManager file = .ok s) :
    s.file = file ∧ s.manager.sessions = file.sessions := by
  unfold openManager at hOpen
  cases hRead : readSessions file with
  | error e =>
    rw [hRead] at hOpen
    cases hOpen
  | ok sessions =>
    rw [hRead] at hOpen
    cases hOpen
    exact ⟨rfl, (sessions_of_readSessions hRead).symm⟩

theorem current_of_openManager
    (hOpen : openManager file = .ok s) :
    s.Current := by
  rcases openManager_ok hOpen with ⟨hFile, hSame⟩
  rw [SessionState.Current, hFile, hSame]

theorem SessionState.Evolves.refl (s : SessionState) :
    s.Evolves s :=
  ⟨.refl _, .refl _⟩

theorem SessionState.Evolves.trans
    {s t u : SessionState} (hLeft : s.Evolves t) (hRight : t.Evolves u) :
    s.Evolves u :=
  ⟨hLeft.memory.trans hRight.memory, hLeft.stored.trans hRight.stored⟩

variable {t : SessionState}

/- Current states with the same manager's map evolve. -/
theorem evolves_of_memory
    (hBefore : s.Current) (hAfter : t.Current)
    (hMemory : AllAdvance s.manager.sessions t.manager.sessions) :
    s.Evolves t := by
  refine ⟨hMemory, ?_⟩
  rw [hBefore, hAfter]
  exact hMemory

/- What a call in order gives, and the state it leaves. -/
structure Saved
    (call : SessionCall) (io : IoAnswer) (s : SessionState) :
    Prop where
  current : (call.run io s).2.Current
  memory : AllAdvance s.manager.sessions (call.run io s).2.manager.sessions
  unchanged : (call.run io s).1.isFailure = true → (call.run io s).2 = s

theorem saved_of_inOrder
    (hCurrent : s.Current) (hInOrder : call.InOrder io s) :
    Saved call io s := by
  cases hMade : call.attempt s.manager with
  | error reply =>
    have hRun : call.run io s = (reply, s) := by
      simp only [SessionCall.run, hMade]
    exact ⟨by rw [hRun]; exact hCurrent,
      by rw [hRun]; exact .refl _, fun _ => by rw [hRun]⟩
  | ok made =>
    rcases made with ⟨id, m⟩
    rcases stores_of_attempt hInOrder hMade with
      ⟨⟨hIo, hFile⟩, session, hStores⟩
    have hOk := (mergeKeyIntoState_ok_iff io
      (.sessions m.sessions) s.file).mpr ⟨hIo, hFile⟩
    have hWritten : mergeOutcome io s.file = .written := by
      rw [hIo, mergeOutcome, if_pos hFile]
    have hRun : call.run io s =
        (call.reply (m.sessions.get? id) (.ok ()),
          ⟨m, (mergeKeyIntoState io (.sessions m.sessions) s.file).2⟩) := by
      simp only [SessionCall.run, hMade, hOk]
    refine ⟨?_, ?_, ?_⟩
    · rw [hRun]
      exact (mergeSessions_of_written hWritten).1
    · rw [hRun]
      simp only [hStores.insert]
      exact .insert hStores.advances
    · intro hFailure
      rw [hRun] at hFailure
      cases call <;> cases hFailure

/- A creation in order returns an id that no session has. -/
theorem fresh_of_inOrder
    {session : Session} (hCurrent : s.Current)
    (hInOrder : (SessionCall.create request ans).InOrder io s)
    (hReply : ((SessionCall.create request ans).run io s).1 =
      .session (some session)) :
    ¬ s.has session.sessionId := by
  cases hCreate : createSession ans request s.manager with
  | error message =>
    simp [SessionCall.run, SessionCall.attempt, hCreate,
      Except.mapError] at hReply
  | ok made =>
    rcases made with ⟨id, m⟩
    rcases stores_create hInOrder hCreate with ⟨⟨hIo, hFile⟩, hNone, hStores⟩
    have hOk := (mergeKeyIntoState_ok_iff io
      (.sessions m.sessions) s.file).mpr ⟨hIo, hFile⟩
    simp only [SessionCall.run, SessionCall.attempt, hCreate, Except.mapError,
      hOk, SessionCall.reply, Reply.session.injEq] at hReply
    rw [hStores.insert, Dict.get?_insert, if_pos rfl] at hReply
    have hId : session.sessionId = id := by
      rw [← Option.some.inj hReply]
      rfl
    rw [SessionState.has, hCurrent, hId, hNone]
    simp

/- One operation in order obeys the law. -/
theorem lawful_of_inOrder
    {op : Operation} (hCurrent : s.Current) (hInOrder : InOrder s op) :
    Lawful s op ∧ (op.next s).Current := by
  have hStill : ∀ reply, op.run s = (reply, s) →
      (∀ made io, op ≠ .call made io) →
      Lawful s op ∧ (op.next s).Current := by
    intro reply hRun hOther
    have hNext : op.next s = s := by rw [Operation.next, hRun]
    refine ⟨⟨?_, ?_, fun _ => hNext⟩, ?_⟩
    · intro request ans io session hOp
      exact absurd hOp (hOther _ _)
    · rw [hNext]
      exact .refl s
    · rw [hNext]
      exact hCurrent
  cases op with
  | call made io =>
    have hSaved := saved_of_inOrder hCurrent hInOrder
    refine ⟨⟨?_, ?_, hSaved.unchanged⟩, hSaved.current⟩
    · intro request ans io' session hOp hReply
      cases hOp
      exact fresh_of_inOrder hCurrent hInOrder hReply
    · exact evolves_of_memory hCurrent hSaved.current hSaved.memory
  | kill id force tmux now io =>
    cases hGet : s.manager.sessions.get? id with
    | none =>
      refine hStill (.refused (notFound id)) ?_ (by simp)
      simp only [Operation.run, killCommand, hGet]
    | some session =>
      by_cases hGoes : force = true ∨ tmux = .ok ()
      · have hRun : (Operation.kill id force tmux now
            io).run s = (SessionCall.kill id now).run io s := by
          simp only [Operation.run, killCommand, hGet]
          rcases hGoes with rfl | rfl
          · cases tmux <;> rfl
          · cases force <;> rfl
        have hSaved := saved_of_inOrder hCurrent (hInOrder hGoes)
        have hCurrent' : (Operation.next s (.kill id force
            tmux now io)).Current := by
          rw [Operation.next, hRun]
          exact hSaved.current
        refine ⟨⟨?_, ?_, ?_⟩, hCurrent'⟩
        · intro request ans io' session' hOp
          cases hOp
        · refine evolves_of_memory hCurrent hCurrent' ?_
          rw [Operation.next, hRun]
          exact hSaved.memory
        · rw [Operation.next, hRun]
          exact hSaved.unchanged
      · push Not at hGoes
        cases tmux with
        | ok value => exact absurd rfl hGoes.2
        | error message =>
          have hForce : force = false := by simpa using hGoes.1
          subst hForce
          refine hStill (.refused message) ?_ (by simp)
          simp only [Operation.run, killCommand, hGet]
  | getSession _ | listSessions _ => exact hStill _ rfl (by simp)
  | reopen readFails =>
    cases readFails with
    | true => exact hStill .openFailed rfl (by simp)
    | false =>
      cases hOpen : openManager s.file with
      | error e =>
        refine hStill .openFailed ?_ (by simp)
        simp only [Operation.run, reopenManager, hOpen]
      | ok t =>
        have hNext : Operation.next s (.reopen false) =
            t := by
          simp only [Operation.next, Operation.run, reopenManager, hOpen]
        have hCurrent' := current_of_openManager hOpen
        have hSame := (openManager_ok hOpen).2
        refine ⟨⟨?_, ?_, ?_⟩,
          by rw [hNext]; exact hCurrent'⟩
        · intro request ans io session hOp
          cases hOp
        · rw [hNext]
          refine evolves_of_memory hCurrent hCurrent' ?_
          rw [hSame, hCurrent]
          exact .refl _
        · intro hFailure
          simp [Operation.run, reopenManager, hOpen,
            Reply.isFailure] at hFailure

-- Runs

/- What every state of an orderly run has evolved from. -/
theorem current_and_evolves
    (hCurrent : s.Current) (hRun : Reaches Operation.next InOrder s t) :
    t.Current ∧ s.Evolves t := by
  refine hRun.invariant (fun t => t.Current ∧ s.Evolves t)
    ?_ ⟨hCurrent, .refl s⟩
  rintro u op ⟨hHere, hEvolves⟩ hInOrder
  rcases lawful_of_inOrder hHere hInOrder with ⟨hLawful, hNext⟩
  exact ⟨hNext, hEvolves.trans hLawful.evolves⟩

theorem not_has_of_evolves
    (hEvolves : s.Evolves t) (hAbsent : ¬ t.has id) :
    ¬ s.has id := by
  rintro (hMemory | hStored)
  · rcases Option.isSome_iff_exists.mp hMemory with
      ⟨session, hGet⟩
    rcases hEvolves.memory id session hGet with ⟨_, hNext, -⟩
    exact hAbsent (.inl (by rw [hNext]; rfl))
  · rcases Option.isSome_iff_exists.mp hStored with
      ⟨session, hGet⟩
    rcases hEvolves.stored id session hGet with ⟨_, hNext, -⟩
    exact hAbsent (.inr (by rw [hNext]; rfl))

/-
  From any file that opens, in every run of operations that
  are in order: what was there earlier has only advanced,
  each further operation obeys the law, and a new id is the
  id of no session at any earlier time.
-/
theorem sessions_lawful_of_reaches
    {file : RemoteFile} {start earlier s : SessionState}
    (hOpen : openManager file = .ok start)
    (hBefore : Reaches Operation.next InOrder start earlier)
    (hRun : Reaches Operation.next InOrder earlier s) :
    earlier.Evolves s ∧
      ∀ op, InOrder s op →
        Lawful s op ∧
          ∀ request ans io session, op = .call (.create request ans) io →
            (op.run s).1 = .session (some session) →
            ¬ earlier.has session.sessionId := by
  have hStart := current_of_openManager hOpen
  have hEarlier := (current_and_evolves hStart hBefore).1
  rcases current_and_evolves hEarlier hRun with ⟨hCurrent, hEvolves⟩
  refine ⟨hEvolves, ?_⟩
  intro op hInOrder
  have hLawful := (lawful_of_inOrder hCurrent hInOrder).1
  refine ⟨hLawful, ?_⟩
  intro request ans io session hOp hReply
  exact not_has_of_evolves hEvolves
    (hLawful.fresh request ans io session hOp hReply)

def noSessions : SessionState where
  manager := .ofEntries Dict.empty
  file := .missing

def sampleId : String := "sess-20260101-000000-0001"

theorem one_lt_suffixes : 1 < 65536 := by
  decide

def creation (io : IoAnswer) : Operation :=
  .call (.create sampleRequest (sampleIds ⟨1, one_lt_suffixes⟩)) io

def oneSession : SessionState :=
  (creation .fine).next noSessions

theorem sessions_lawful_of_one_creation :
    noSessions.Evolves oneSession ∧
      Lawful oneSession (.kill sampleId true (.error "no tmux") 5 .fine) := by
  have hCreation : InOrder noSessions (creation .fine) := by
    intro hValid
    exact ⟨.inr rfl, rfl, rfl⟩
  have hKill : InOrder oneSession
      (.kill sampleId true (.error "no tmux") 5 .fine) := by
    intro hGoes session hGet
    cases hGet
    exact ⟨rfl, rfl, rfl⟩
  have hOpen : openManager .missing = .ok noSessions := rfl
  have hLaw := sessions_lawful_of_reaches hOpen
    (Reaches.refl noSessions)
    ((Reaches.refl noSessions).tail (creation .fine) hCreation)
  exact ⟨hLaw.1, (hLaw.2 _ hKill).1⟩

/- The killed session is killed again, at a later time. -/
def killAt (now : ℤ) : Operation :=
  .call (.kill sampleId now) .fine

/-
  The second kill moves the time of completion; a creation
  that cannot be saved stays in the map; and the third
  creation of one instant is given the second one's id.
-/
theorem finished_session_killed_again :
    openManager .missing = .ok noSessions ∧
      ¬ Lawful ((killAt 5).next oneSession) (killAt 6) ∧
      ¬ Lawful noSessions (creation .lockFails) ∧
      ¬ Lawful ((creation .fine).next oneSession) (creation .fine) := by
  refine ⟨rfl, ?_, ?_, ?_⟩
  · intro hLawful
    rcases hLawful.evolves.memory sampleId _ rfl with
      ⟨session, hGet, hAdvances⟩
    cases hGet
    have hSame := congrArg Session.completedAt (hAdvances.kept rfl)
    exact absurd hSame (by decide)
  · intro hLawful
    have hSame := congrArg
      (fun s => (s.manager.sessions.get? sampleId).isSome)
      (hLawful.unchanged rfl)
    exact absurd hSame (by decide)
  · intro hLawful
    exact hLawful.fresh sampleRequest (sampleIds 1) .fine _ rfl
      rfl (.inl rfl)

end Remote
