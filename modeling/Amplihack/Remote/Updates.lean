import Amplihack.Remote.Processes

/-
  Which steps of the processes keep what the others stored in
  the state file.
-/

-- Agreement up to a named entry

namespace Remote

open Base

/- Every other entry of the first map is in the second. -/
def SessionsAgree
    (named : Option String) (stored next : Dict String Session) :
    Prop :=
  ∀ k v, named ≠ some k → stored.get? k = some v → next.get? k = some v

/- The entry without the named session. -/
def VMPoolEntry.apart
    (named : Option String) (e : VMPoolEntry) :
    VMPoolEntry :=
  match named with
  | none => e
  | some sessionId => e.without sessionId

/-
  Every entry of the first pool is in the second with the
  same sessions, up to the named one, and all else equal
  unless the entry is the replaced one.
-/
def PoolAgree
    (named replaced : Option String) (stored next : VMPool) :
    Prop :=
  ∀ k e, stored.get? k = some e →
    ∃ e', next.get? k = some e' ∧
      (e'.apart named).activeSessions = (e.apart named).activeSessions ∧
      (replaced ≠ some k → e'.apart named = e.apart named)

/- The file stores nothing but the named session. -/
def Bare (named : Option String) (file : RemoteFile) : Prop :=
  (∀ k v, named ≠ some k → file.sessions.get? k ≠ some v) ∧
    ∀ k e, file.vmPool.get? k ≠ some e

theorem sessionsAgree_refl
    (named : Option String) (stored : Dict String Session) :
    SessionsAgree named stored stored :=
  fun _ _ _ hGet => hGet

theorem poolAgree_refl
    (named replaced : Option String) (stored : VMPool) :
    PoolAgree named replaced stored stored :=
  fun _ e hGet => ⟨e, hGet, rfl, fun _ => rfl⟩

variable {named : Option String}

theorem sessionsAgree_congr
    {stored next next' : Dict String Session}
    (hSame : ∀ k, named ≠ some k →
      next'.get? k = next.get? k) :
    SessionsAgree named stored next' ↔ SessionsAgree named stored next := by
  constructor
  · intro hAgree k v hOther hGet
    rw [← hSame k hOther]
    exact hAgree k v hOther hGet
  · intro hAgree k v hOther hGet
    rw [hSame k hOther]
    exact hAgree k v hOther hGet

/- Nothing is kept in an emptied file but nothing. -/
theorem bare_iff
    (named released replaced : Option String) (file : RemoteFile) :
    (SessionsAgree named file.sessions Dict.empty ∧
        PoolAgree released replaced file.vmPool Dict.empty) ↔
      Bare named file := by
  constructor
  · rintro ⟨hSessions, hPool⟩
    refine ⟨?_, ?_⟩
    · intro k v hOther hGet
      simpa using hSessions k v hOther hGet
    · intro k e hGet
      rcases hPool k e hGet with ⟨e', hNext, -⟩
      simp at hNext
  · rintro ⟨hSessions, hPool⟩
    refine ⟨?_, ?_⟩
    · intro k v hOther hGet
      exact absurd hGet (hSessions k v hOther)
    · intro k e hGet
      exact absurd hGet (hPool k e)

-- What an action names

def PoolCall.sessionId : PoolCall → String
| .allocate sessionId _ _ _ => sessionId
| .release sessionId _ => sessionId

/- The machine that a call provisions. -/
def PoolCall.provisioned (username : String) (pool : VMPool) :
    PoolCall → Option String
| .allocate _ size region ans =>
  match reusableEntry ans region pool with
  | some _ => none
  | none =>
    (provisionOrReuse username ans.azlin
      (poolOptions size region)).toOption.map VM.name
| .release _ _ => none

/- The session entry that the action writes. -/
def Action.session? (s : System) : Action → Option String
| .session p call _ =>
  (s.processes p).sessions.bind fun m =>
    (call.inMemory m).map Prod.fst
| _ => none

/- The session that the action records or releases. -/
def Action.released? (s : System) : Action → Option String
| .pool _ _ call => some call.sessionId
| .releaseWrite p _ => (s.processes p).pending.map Prod.fst
| _ => none

/- The pool entry that the action writes anew. -/
def Action.replaced? (s : System) : Action → Option String
| .pool p username call =>
  (s.processes p).pool.bind (call.provisioned username)
| _ => none

/- The step keeps every entry that it does not name. -/
def KeepsOthers (s : System) (a : Action) : Prop :=
  SessionsAgree (a.session? s) s.file.sessions (s.step a).file.sessions ∧
    PoolAgree (a.released? s) (a.replaced? s)
      s.file.vmPool (s.step a).file.vmPool

/- When a save of the session map keeps the others. -/
def SessionsCurrent
    (io : IoAnswer) (id : String) (m : SessionManager) (file : RemoteFile) :
    Prop :=
  match mergeOutcome io file with
  | .unchanged => True
  | .cut => Bare (some id) file
  | .written => SessionsAgree (some id) file.sessions m.sessions

/-
  When the copy of a pool has what the file stores, up to the
  session of the call. A machine that is written anew has no
  other session in the file.
-/
def PoolCovers
    (username : String) (call : PoolCall) (stored pool : VMPool) :
    Prop :=
  ∀ k e, stored.get? k = some e →
    if call.provisioned username pool = some k then
      (e.without call.sessionId).activeSessions = []
    else
      ∃ e', pool.get? k = some e' ∧
        e'.without call.sessionId = e.without call.sessionId

/- When a save of the pool keeps the others. -/
def PoolCurrent
    (username : String) (call : PoolCall) (pool : VMPool)
    (file : RemoteFile) :
    Prop :=
  match mergeOutcome call.io file with
  | .unchanged => True
  | .cut => Bare none file
  | .written => PoolCovers username call file.vmPool pool

/- When the write of a release outside the lock does. -/
def TextCurrent
    (io : IoAnswer) (sessionId : String) (text file : RemoteFile) :
    Prop :=
  match io with
  | .fine =>
    SessionsAgree none file.sessions text.sessions ∧
      PoolAgree (some sessionId) none file.vmPool text.vmPool
  | .writeFails _ => Bare none file
  | _ => True

/-
  The copy that a write starts from has what the file stores,
  up to what the action names, and no write is cut short while
  the file stores something else.
-/
def Current (s : System) : Action → Prop
| .session p call io =>
  ∀ m id m', (s.processes p).sessions = some m →
    call.inMemory m = some (id, m') →
    SessionsCurrent io id m s.file
| .pool p username call =>
  ∀ pool pool', (s.processes p).pool = some pool →
    call.inMemory username pool = some pool' →
    PoolCurrent username call pool s.file
| .releaseWrite p io =>
  ∀ sessionId text,
    (s.processes p).pending = some (sessionId, text) →
    TextCurrent io sessionId text s.file
| _ => True

-- Pool calls on a copy

theorem without_push
    (sessionId : String) (e : VMPoolEntry) :
    (e.push sessionId).without sessionId = e.without sessionId := by
  simp [VMPoolEntry.push, VMPoolEntry.without]

theorem filter_erase
    (sessionId : String) (sessions : List String) :
    (sessions.erase sessionId).filter
        (fun s => s ≠ sessionId) =
      sessions.filter (fun s => s ≠ sessionId) := by
  induction sessions with
  | nil => rfl
  | cons s sessions ih =>
    by_cases hEq : s = sessionId
    · subst hEq
      simp
    · rw [List.erase_cons_tail (by simpa using hEq),
        List.filter_cons, List.filter_cons, ih]

theorem without_erase
    (sessionId : String) (e : VMPoolEntry) :
    (e.erase sessionId).without sessionId = e.without sessionId := by
  rw [VMPoolEntry.erase, VMPoolEntry.without, VMPoolEntry.without]
  simp only [filter_erase]

variable {sessionId : String}

/- A changed entry is equal up to the session. -/
theorem map_without_modify
    {pool : VMPool} {f : VMPoolEntry → VMPoolEntry}
    (hSame : ∀ e, (f e).without sessionId = e.without sessionId)
    (name k : String) :
    ((pool.modify name f).get? k).map
        (VMPoolEntry.without sessionId) =
      (pool.get? k).map (VMPoolEntry.without sessionId) := by
  rw [Dict.get?_modify]
  split
  · rw [Option.map_map]
    congr 1
    funext e
    exact hSame e
  · rfl

variable {username : String} {call : PoolCall}

/-
  A pool call leaves every entry as it was up to its session,
  except the entry of a machine that it provisions, which then
  holds that session alone.
-/
theorem get?_poolInMemory
    {pool pool' : VMPool} (hCall : call.inMemory username pool = some pool')
    (k : String) :
    (call.provisioned username pool = some k ∧
        ∃ e, pool'.get? k = some e ∧ e.activeSessions = [call.sessionId]) ∨
      (call.provisioned username pool ≠ some k ∧
        (pool'.get? k).map
            (VMPoolEntry.without call.sessionId) =
          (pool.get? k).map (VMPoolEntry.without call.sessionId)) := by
  cases call with
  | release sessionId ans =>
    refine Or.inr ⟨by simp [PoolCall.provisioned], ?_⟩
    simp only [PoolCall.inMemory, releaseInMemory] at hCall
    split at hCall
    · simp at hCall
    · rw [← Option.some.inj hCall]
      exact map_without_modify (without_erase sessionId) _ k
  | allocate sessionId size region ans =>
    simp only [PoolCall.inMemory] at hCall
    rcases Option.map_eq_some_iff.mp hCall with ⟨⟨vm, next⟩, hMade, hNext⟩
    simp only at hNext
    subst hNext
    have hAlloc := ok_of_toOption hMade
    rcases (allocateInMemory_cases hAlloc).2 with
      ⟨name, e, hFirst, hGet, -, hSelf, hOthers⟩ |
        ⟨hFirst, hVm, hSelf, hOthers⟩
    · refine Or.inr ⟨by simp [PoolCall.provisioned, hFirst], ?_⟩
      by_cases hKey : k = name
      · subst hKey
        rw [hSelf, hGet, Option.map_some, Option.map_some]
        exact congrArg some (without_push sessionId e)
      · rw [hOthers k hKey]
    · by_cases hKey : vm.name = k
      · subst hKey
        refine Or.inl ⟨?_, _, hSelf, rfl⟩
        simp [PoolCall.provisioned, hFirst, hVm, Except.toOption]
      · refine Or.inr ⟨?_, ?_⟩
        · simpa [PoolCall.provisioned, hFirst, hVm,
            Except.toOption] using hKey
        · rw [hOthers k (Ne.symm hKey)]

-- One step

variable {s : System} {a : Action}

theorem kept_of_unchanged
    (hFile : (s.step a).file = s.file) :
    KeepsOthers s a := by
  rw [KeepsOthers, hFile]
  exact ⟨sessionsAgree_refl _ _, poolAgree_refl _ _ _⟩

theorem kept_iff_bare
    {left : Remains} (hFile : (s.step a).file = .ofRemains left) :
    KeepsOthers s a ↔ Bare (a.session? s) s.file := by
  rw [KeepsOthers, hFile, sessions_ofRemains, vmPool_ofRemains]
  exact bare_iff _ _ _ _

theorem kept_iff_session
    (s : System) (p : ℕ) (call : SessionCall) (io : IoAnswer) :
    KeepsOthers s (.session p call io) ↔ Current s (.session p call io) := by
  cases hManager : (s.processes p).sessions with
  | none =>
    refine iff_of_true (kept_of_unchanged ?_) ?_
    · simp [System.step, System.sessionCall, hManager]
    · intro m id m' hSome
      simp [hManager] at hSome
  | some m =>
    cases hCall : call.inMemory m with
    | none =>
      refine iff_of_true (kept_of_unchanged ?_) ?_
      · simp [System.step, System.sessionCall, hManager, hCall]
      · intro m₂ id m' hSome hSaved
        rw [hManager] at hSome
        rw [← Option.some.inj hSome, hCall] at hSaved
        simp at hSaved
    | some saved =>
      rcases saved with ⟨id, m'⟩
      have hFile :
          (s.step (.session p call io)).file =
            (mergeKeyIntoState io (.sessions m'.sessions) s.file).2 := by
        simp [System.step, System.sessionCall, hManager, hCall]
      have hNamed : Action.session? s (.session p call io) = some id := by
        simp [Action.session?, hManager, hCall]
      have hCurrent :
          Current s (.session p call io) ↔
            SessionsCurrent io id m s.file := by
        constructor
        · intro hAll
          exact hAll m id m' hManager hCall
        · intro hHere m₂ id₂ m₂' hSome hSaved
          rw [hManager] at hSome
          cases hSome
          rw [hCall] at hSaved
          cases hSaved
          exact hHere
      rw [hCurrent, SessionsCurrent]
      cases hOutcome : mergeOutcome io s.file with
      | unchanged =>
        refine iff_of_true (kept_of_unchanged ?_) trivial
        rw [hFile, mergeKeyIntoState_of_unchanged hOutcome]
      | cut =>
        rcases mergeKeyIntoState_of_cut hOutcome with ⟨left, hLeft⟩
        rw [kept_iff_bare (hFile.trans hLeft), hNamed]
      | written =>
        rcases mergeSessions_of_written hOutcome with ⟨hSessions, hPool⟩
        rw [KeepsOthers, hFile, hSessions, hPool, hNamed]
        rw [and_iff_left (poolAgree_refl _ _ _)]
        refine sessionsAgree_congr ?_
        intro k hOther
        refine get?_inMemory hCall ?_
        rintro rfl
        exact hOther rfl

theorem poolAgree_poolInMemory_iff
    {pool pool' stored : VMPool}
    (hCall : call.inMemory username pool = some pool') :
    PoolAgree (some call.sessionId)
        (call.provisioned username pool) stored pool' ↔
      PoolCovers username call stored pool := by
  refine forall_congr' fun k => forall_congr' fun e => ?_
  refine imp_congr_right fun _ => ?_
  simp only [VMPoolEntry.apart]
  rcases get?_poolInMemory hCall k with
    ⟨hNew, e', hGet, hAlone⟩ | ⟨hOld, hSame⟩
  · rw [if_pos hNew, hGet]
    have hNone : (e'.without call.sessionId).activeSessions = [] := by
      simp [VMPoolEntry.without, hAlone]
    constructor
    · rintro ⟨e₂, hSome, hOthers, -⟩
      rw [← Option.some.inj hSome, hNone] at hOthers
      exact hOthers.symm
    · intro hEmpty
      exact ⟨e', rfl, by rw [hNone, hEmpty], fun hNe => absurd hNew hNe⟩
  · rw [if_neg hOld]
    have hIff : ∀ p : VMPool,
        (∃ e', p.get? k = some e' ∧
            e'.without call.sessionId = e.without call.sessionId) ↔
          (p.get? k).map
              (VMPoolEntry.without call.sessionId) =
            some (e.without call.sessionId) := by
      intro p
      rw [Option.map_eq_some_iff]
    rw [hIff pool, ← hSame, ← hIff pool']
    constructor
    · rintro ⟨e', hGet, -, hAll⟩
      exact ⟨e', hGet, hAll hOld⟩
    · rintro ⟨e', hGet, hAll⟩
      exact ⟨e', hGet, by rw [hAll], fun _ => hAll⟩

theorem kept_iff_pool
    (s : System) (p : ℕ) (username : String) (call : PoolCall) :
    KeepsOthers s (.pool p username call) ↔
      Current s (.pool p username call) := by
  cases hManager : (s.processes p).pool with
  | none =>
    refine iff_of_true (kept_of_unchanged ?_) ?_
    · simp [System.step, System.poolCall, hManager]
    · intro m m' hSome
      simp [hManager] at hSome
  | some pool =>
    cases hCall : call.inMemory username pool with
    | none =>
      refine iff_of_true (kept_of_unchanged ?_) ?_
      · simp [System.step, System.poolCall, hManager, hCall]
      · intro m m' hSome hSaved
        rw [hManager] at hSome
        rw [← Option.some.inj hSome, hCall] at hSaved
        simp at hSaved
    | some pool' =>
      have hFile :
          (s.step (.pool p username call)).file =
            (mergeKeyIntoState call.io (.vmPool pool') s.file).2 := by
        simp [System.step, System.poolCall, hManager, hCall, savePool]
      have hReplaced :
          Action.replaced? s (.pool p username call) =
            call.provisioned username pool := by
        simp [Action.replaced?, hManager]
      have hCurrent :
          Current s (.pool p username call) ↔
            PoolCurrent username call pool s.file := by
        constructor
        · intro hAll
          exact hAll pool pool' hManager hCall
        · intro hHere pool₂ pool₂' hSome _
          rw [hManager] at hSome
          cases hSome
          exact hHere
      rw [hCurrent, PoolCurrent]
      cases hOutcome : mergeOutcome call.io s.file with
      | unchanged =>
        refine iff_of_true (kept_of_unchanged ?_) trivial
        rw [hFile, mergeKeyIntoState_of_unchanged hOutcome]
      | cut =>
        rcases mergeKeyIntoState_of_cut hOutcome with ⟨left, hLeft⟩
        exact kept_iff_bare (hFile.trans hLeft)
      | written =>
        rcases mergeVmPool_of_written hOutcome with ⟨hSessions, hPool⟩
        rw [KeepsOthers, hFile, hSessions, hPool, hReplaced,
          and_iff_right (sessionsAgree_refl _ _)]
        exact poolAgree_poolInMemory_iff hCall

theorem kept_iff_releaseWrite
    (s : System) (p : ℕ) (io : IoAnswer) :
    KeepsOthers s (.releaseWrite p io) ↔ Current s (.releaseWrite p io) := by
  cases hPending : (s.processes p).pending with
  | none =>
    refine iff_of_true (kept_of_unchanged ?_) ?_
    · simp [System.step, hPending]
    · intro sessionId text hSome
      simp [hPending] at hSome
  | some pending =>
    rcases pending with ⟨sessionId, text⟩
    have hFile :
        (s.step (.releaseWrite p io)).file = (write io s.file text).2 := by
      simp [System.step, hPending]
    have hReleased :
        Action.released? s (.releaseWrite p io) = some sessionId := by
      simp [Action.released?, hPending]
    have hCurrent :
        Current s (.releaseWrite p io) ↔
          TextCurrent io sessionId text s.file := by
      constructor
      · intro hAll
        exact hAll sessionId text hPending
      · intro hHere sessionId₂ text₂ hSome
        rw [hPending] at hSome
        cases hSome
        exact hHere
    rw [hCurrent, TextCurrent.eq_def]
    cases io with
    | fine =>
      rw [KeepsOthers, hFile, hReleased]
      exact Iff.rfl
    | writeFails left => exact kept_iff_bare hFile
    | lockFails => exact iff_of_true (kept_of_unchanged hFile) trivial
    | dirFails => exact iff_of_true (kept_of_unchanged hFile) trivial
    | readFails => exact iff_of_true (kept_of_unchanged hFile) trivial

theorem kept_iff_current (s : System) (a : Action) :
    KeepsOthers s a ↔ Current s a := by
  cases a with
  | session p call io => exact kept_iff_session s p call io
  | pool p username call => exact kept_iff_pool s p username call
  | releaseWrite p io => exact kept_iff_releaseWrite s p io
  | openSessions _ _ | openPool _ _ | releaseRead _ _ _ =>
    refine iff_of_true (kept_of_unchanged ?_) trivial
    simp only [System.step]
    split <;> rfl
  | crash p => exact iff_of_true (kept_of_unchanged rfl) trivial

-- Runs

/- The file records the session on the machine. -/
def Recorded
    (file : RemoteFile) (vmName sessionId : String) :
    Prop :=
  ∃ e, file.vmPool.get? vmName = some e ∧ sessionId ∈ e.activeSessions

theorem mem_apart_iff
    {e : VMPoolEntry} (hOther : named ≠ some sessionId) :
    sessionId ∈ (e.apart named).activeSessions ↔
      sessionId ∈ e.activeSessions := by
  cases named with
  | none => rfl
  | some id =>
    have hNe : sessionId ≠ id := by
      rintro rfl
      exact hOther rfl
    simp [VMPoolEntry.apart, VMPoolEntry.without, hNe]

theorem recorded_step
    {vmName sessionId : String} (hKeeps : KeepsOthers s a)
    (hOther : a.released? s ≠ some sessionId)
    (hRecorded : Recorded s.file vmName sessionId) :
    Recorded (s.step a).file vmName sessionId := by
  rcases hRecorded with ⟨e, hGet, hMem⟩
  rcases hKeeps.2 vmName e hGet with ⟨e', hNext, hSame, -⟩
  refine ⟨e', hNext, ?_⟩
  rw [← mem_apart_iff hOther, hSame, mem_apart_iff hOther]
  exact hMem

/- An entry that no step of such a run names is still there. -/
theorem stored_of_current
    {start : System} {actions : List Action}
    (hCurrent : Admits System.step Current start actions) :
    (∀ k v, start.file.sessions.get? k = some v →
      Admits System.step (fun s a => a.session? s ≠ some k) start actions →
      (actions.foldl System.step start).file.sessions.get? k = some v) ∧
    ∀ vmName sessionId, Recorded start.file vmName sessionId →
      Admits System.step
        (fun s a => a.released? s ≠ some sessionId)
        start actions →
      Recorded (actions.foldl System.step start).file vmName sessionId := by
  refine ⟨?_, ?_⟩
  · intro k v hGet hOthers
    refine Admits.invariant
      (fun s : System => s.file.sessions.get? k = some v)
      ?_ (hCurrent.and hOthers) hGet
    rintro s a hHere ⟨hStep, hOther⟩
    exact ((kept_iff_current s a).mpr hStep).1 k v hOther hHere
  · intro vmName sessionId hRecorded hOthers
    refine Admits.invariant
      (fun s : System => Recorded s.file vmName sessionId)
      ?_ (hCurrent.and hOthers) hRecorded
    rintro s a hHere ⟨hStep, hOther⟩
    exact recorded_step ((kept_iff_current s a).mpr hStep) hOther hHere

/-
  A run keeps what its steps do not name exactly when each
  write starts from a current copy.
-/
theorem keeps_updates_iff
    (start : System) (actions : List Action) :
    (Admits System.step KeepsOthers start actions ↔
      Admits System.step Current start actions) ∧
    (Admits System.step Current start actions →
      (∀ k v, start.file.sessions.get? k = some v →
        Admits System.step (fun s a => a.session? s ≠ some k) start actions →
        (actions.foldl System.step start).file.sessions.get? k = some v) ∧
      ∀ vmName sessionId, Recorded start.file vmName sessionId →
        Admits System.step
          (fun s a => a.released? s ≠ some sessionId)
          start actions →
        Recorded (actions.foldl System.step start).file
          vmName sessionId) := by
  refine ⟨⟨?_, ?_⟩, stored_of_current⟩
  · exact Admits.mono fun s a => (kept_iff_current s a).mp
  · exact Admits.mono fun s a => (kept_iff_current s a).mpr

def noFile : System where
  file := .missing
  processes := fun _ => {}

def sampleRequest : CreateRequest where
  vmName := "pending"
  prompt := "fix the build"
  command := none
  maxTurns := none
  memoryMb := none

def sampleIds (suffix : Fin 65536) : IdAnswers where
  now := 0
  date := "20260101"
  time := "000000"
  suffix := fun _ => suffix
  micro := "0000"

/- Two managers read the file before either of them saves. -/
def twoManagers : List Action :=
  [.openSessions 0 false, .openSessions 1 false,
    .session 0 (.create sampleRequest (sampleIds 1)) .fine,
    .session 1 (.create sampleRequest (sampleIds 2)) .fine]

theorem stale_manager_drops_session :
    ¬Admits System.step KeepsOthers noFile twoManagers := by
  rintro ⟨-, -, -, hLast, -⟩
  have hStored := hLast.1 "sess-20260101-000000-0001"
    (newSession (sampleIds 1) sampleRequest
      "sess-20260101-000000-0001") (by decide) rfl
  have hGone :
      (twoManagers.foldl System.step noFile).file.sessions.get?
        "sess-20260101-000000-0001" = none := rfl
  exact Option.some_ne_none _ (hStored.symm.trans hGone)

end Remote
