import Amplihack.Multitask.Workstream
import Amplihack.Base.Sweep

/-
  The launch of the workstreams, in waves.

  The passes of the monitor over the workstreams.

  A pass visits the workstreams in order, each at a moment of
  its own; the world moves on between two visits.
-/

-- One Launch

namespace Multitask

structure Started where
  pid : ℕ
  now : ℕ
  processStartedAt : String
  recordedAt : String
  persisted : Bool

/-
  What a launch sees of the world: the children that have
  exited by then, and the process it starts.
-/
structure Spawn where
  exits : ℤ → Option (Option ℤ)
  started : Option Started

inductive LaunchError where
| notSpawned
| notPersisted
  deriving DecidableEq

abbrev Launched := Except LaunchError

def launched (s : Started) (ws : Workstream) : Workstream :=
  { ws with
    pid := some s.pid
    startTime := some s.now
    endTime := none
    exitCode := none
    lifecycleState := "running"
    cleanupEligible := false
    attempt := ws.attempt + 1
    processScope :=
      { pid := some s.pid
        repository := ws.workstreamScope.repository
        repoRoot := ws.workstreamScope.repoRoot
        workdir := ws.workstreamScope.workdir
        branch := ws.workstreamScope.branch
        issueId := ws.workstreamScope.issueId
        workItemId := ws.workstreamScope.workItemId
        recipeRunId := ws.workstreamScope.recipeRunId
        treeId := ws.workstreamScope.treeId
        workstreamId := ws.workstreamScope.workstreamId
        processStartedAt := s.processStartedAt
        recordedAt := s.recordedAt } }

def launchWorkstream
    (spawn : Spawn) (ws : Workstream) (p : Processes) :
    Launched (Workstream × Processes) :=
  match spawn.started with
  | none => .error .notSpawned
  | some s =>
    if s.persisted then
      .ok (launched s ws,
        (p.exiting spawn.exits).insert ws.issue ⟨s.pid, .alive, false⟩)
    else
      .error .notPersisted

-- Waves

/- `configured` is the number of the environment, if any. -/
def limitFrom (configured : Option ℕ) (cpus : ℕ) : ℕ :=
  configured.getD (max 1 (min 8 (cpus / 2)))

def waveSize (count limit : ℕ) : ℕ :=
  if limit = 0 then max count 1 else limit

def launchEach
    (spawns : ℕ → Spawn) :
    ℕ → List Workstream → Processes → Launched (List Workstream × Processes)
| _, [], p => pure ([], p)
| k, ws :: rest, p => do
  let first ← launchWorkstream (spawns k) ws p
  let others ← launchEach spawns (k + 1) rest first.2
  pure (first.1 :: others.1, others.2)

/- One round for each start of a wave; `rounds` are left. -/
def launchWaves
    (wave : ℕ) (spawns : ℕ → Spawn) :
    ℕ → ℕ → List Workstream → Processes →
      Launched (List Workstream × Processes)
| 0, _, ws, p => pure (ws, p)
| rounds + 1, k, ws, p =>
  if ws.isEmpty then
    pure (ws, p)
  else do
    let started ← launchEach spawns k (ws.take wave) p
    let others ← launchWaves wave spawns rounds (k + wave)
      (ws.drop wave) started.2
    pure (started.1 ++ others.1, others.2)

def launchAll
    (limit : ℕ) (spawns : ℕ → Spawn) (ws : List Workstream) (p : Processes) :
    Launched (List Workstream × Processes) :=
  launchWaves (waveSize ws.length limit) spawns ws.length 0 ws p

theorem waveSize_pos (count limit : ℕ) :
    0 < waveSize count limit := by
  rw [waveSize]
  split
  · omega
  · omega

variable {spawns : ℕ → Spawn}

theorem launchEach_append (as bs : List Workstream) :
    ∀ (k : ℕ) (p : Processes),
      launchEach spawns k (as ++ bs) p = (do
        let first ← launchEach spawns k as p
        let rest ←
          launchEach spawns (k + as.length) bs first.2
        pure (first.1 ++ rest.1, rest.2)) := by
  induction as with
  | nil =>
    intro k p
    simp [launchEach]
  | cons a as ih =>
    intro k p
    simp only [List.cons_append, launchEach, ih, bind_assoc,
      pure_bind, List.length_cons]
    rw [Nat.add_assoc, Nat.add_comm 1]

/- Waves large enough to move on launch one after the other. -/
theorem launchWaves_eq
    {wave : ℕ} (hWave : 0 < wave) :
    ∀ (rounds k : ℕ) (ws : List Workstream) (p : Processes),
      ws.length ≤ rounds →
      launchWaves wave spawns rounds k ws p = launchEach spawns k ws p := by
  intro rounds
  induction rounds with
  | zero =>
    intro k ws p hRounds
    have hEmpty : ws = [] :=
      List.eq_nil_of_length_eq_zero (by omega)
    rw [hEmpty]
    rfl
  | succ rounds ih =>
    intro k ws p hRounds
    rw [launchWaves]
    split
    · next hEmpty =>
        rw [List.isEmpty_iff.mp hEmpty]
        rfl
    · have hWhole : launchEach spawns k
          (ws.take wave ++ ws.drop wave) p = _ :=
        launchEach_append (ws.take wave) (ws.drop wave) k p
      rw [List.take_append_drop] at hWhole
      rw [hWhole]
      have hRest : ∀ q, launchWaves wave spawns rounds
          (k + wave) (ws.drop wave) q =
            launchEach spawns (k + (ws.take wave).length)
              (ws.drop wave) q := by
        intro q
        rw [ih _ _ _ (by rw [List.length_drop]; omega)]
        by_cases hAll : wave ≤ ws.length
        · rw [List.length_take, Nat.min_eq_left hAll]
        · rw [List.drop_eq_nil_of_le (by omega)]
          rfl
      simp only [hRest]

/- The waves launch every workstream, in the order given. -/
theorem launchAll_eq
    (limit : ℕ) (ws : List Workstream) (p : Processes) :
    launchAll limit spawns ws p = launchEach spawns 0 ws p :=
  launchWaves_eq (waveSize_pos ws.length limit) ws.length 0 ws p le_rfl

-- Launched Workstreams

structure IsLaunched (p : Processes) (ws : Workstream) : Prop
where
  exitCode : ws.exitCode = none
  lifecycleState : ws.lifecycleState = "running"
  cleanupEligible : ws.cleanupEligible = false
  held : (p ws.issue).isSome

theorem isSome_exiting
    (p : Processes) (exits : ℤ → Option (Option ℤ)) (i : ℤ) :
    (p.exiting exits i).isSome = (p i).isSome := by
  rw [Processes.exiting]
  split
  · rw [Option.isSome_map]
  · rfl

theorem launchWorkstream_ok
    {spawn : Spawn} {ws : Workstream} {p : Processes}
    {r : Workstream × Processes} (hOk : launchWorkstream spawn ws p = .ok r) :
    IsLaunched r.2 r.1 ∧ r.1.issue = ws.issue ∧
      ∀ i, (p i).isSome → (r.2 i).isSome := by
  rw [launchWorkstream] at hOk
  split at hOk
  · cases hOk
  · split at hOk
    · cases hOk
      refine ⟨⟨rfl, rfl, rfl, ?_⟩, rfl, ?_⟩
      · simp [Processes.insert, launched]
      · intro i hHeld
        simp only [Processes.insert]
        split
        · rfl
        · rwa [isSome_exiting]
    · cases hOk

theorem launchEach_ok
    {ws : List Workstream} :
    ∀ {k : ℕ} {p : Processes}
        {r : List Workstream × Processes},
      launchEach spawns k ws p = .ok r →
      (∀ w ∈ r.1, IsLaunched r.2 w) ∧
        r.1.map Workstream.issue = ws.map Workstream.issue ∧
        ∀ i, (p i).isSome → (r.2 i).isSome := by
  induction ws with
  | nil =>
    intro k p r hOk
    cases hOk
    exact ⟨by simp, rfl, fun _ h => h⟩
  | cons w rest ih =>
    intro k p r hOk
    rw [launchEach] at hOk
    cases hFirst : launchWorkstream (spawns k) w p with
    | error e =>
      rw [hFirst] at hOk
      cases hOk
    | ok first =>
      rw [hFirst] at hOk
      cases hRest : launchEach spawns (k + 1) rest
          first.2 with
      | error e =>
        change (launchEach spawns (k + 1) rest first.2 >>= _) = _ at hOk
        rw [hRest] at hOk
        cases hOk
      | ok others =>
        change (launchEach spawns (k + 1) rest first.2 >>= _) = _ at hOk
        rw [hRest] at hOk
        cases hOk
        rcases launchWorkstream_ok hFirst with ⟨hLaunched, hIssue, hKept⟩
        rcases ih hRest with ⟨hOthers, hIssues, hStill⟩
        refine ⟨?_, ?_, fun i h => hStill i (hKept i h)⟩
        · intro v hMem
          rcases List.mem_cons.mp hMem with rfl | hMem
          · exact ⟨hLaunched.exitCode, hLaunched.lifecycleState,
              hLaunched.cleanupEligible,
              hStill _ hLaunched.held⟩
          · exact hOthers v hMem
        · rw [List.map_cons, List.map_cons, hIssue, hIssues]

theorem launchAll_launched
    {limit : ℕ} {ws : List Workstream} {p : Processes}
    {r : List Workstream × Processes}
    (hOk : launchAll limit spawns ws p = .ok r) :
    (∀ w ∈ r.1, IsLaunched r.2 w) ∧
      r.1.map Workstream.issue = ws.map Workstream.issue := by
  rw [launchAll_eq] at hOk
  rcases launchEach_ok hOk with ⟨hLaunched, hIssues, _⟩
  exact ⟨hLaunched, hIssues⟩

end Multitask

-- Passes

namespace Multitask

open Base

def marked
    (lifecycleState : String) (now : ℕ) (ws : Workstream) :
    Workstream :=
  { ws with
    lifecycleState := lifecycleState
    endTime := some now }

def terminate
    (m : Moment) (ws : Workstream) (c : Child) (p : Processes) :
    Processes :=
  p.insert ws.issue (c.terminate m.waited)

def enforceTimeout
    (m : Moment) (ws : Workstream) (p : Processes) :
    Workstream × Processes :=
  let p := m.advance p
  let timedOut := marked "timed_out_resumable" m.now ws
  if ws.lifecycleState ≠ "running" then
    (ws, p)
  else
    match ws.startTime with
    | none => (ws, p)
    | some start =>
      if (m.now - start) / 1000000000 < ws.maxRuntime then
        (ws, p)
      else if ws.timeoutPolicy ≠
          interruptPreserveTimeoutPolicy then
        (timedOut, p)
      else
        match p ws.issue with
        | none => (timedOut, p)
        | some c =>
          if processScopeIsAuthoritative m ws c.pid then
            (timedOut, if m.idle then terminate m ws c p else p)
          else
            (ws, p)

def enforceTimeouts :
    (ℕ → Moment) → List Workstream → Processes →
      List Workstream × Processes :=
  fun moments => sweep enforceTimeout moments 0

def cleanupWorkstream
    (m : Moment) (ws : Workstream) (p : Processes) :
    Workstream × Processes :=
  let p := m.advance p
  let interrupted := marked "interrupted_resumable" m.now ws
  if ws.lifecycleState ≠ "running" then
    (ws, p)
  else
    match p ws.issue with
    | none => (interrupted, p)
    | some c =>
      if processScopeIsAuthoritative m ws c.pid then
        (interrupted, terminate m ws c p)
      else
        (ws, p)

def cleanupRunning :
    (ℕ → Moment) → List Workstream → Processes →
      List Workstream × Processes :=
  fun moments => sweep cleanupWorkstream moments 0

inductive Listing where
| running
| completed
| failed
  deriving DecidableEq

structure WorkstreamStatus where
  running : List ℤ
  completed : List ℤ
  failed : List ℤ

namespace WorkstreamStatus

def empty : WorkstreamStatus := ⟨[], [], []⟩

def push
    (s : WorkstreamStatus) (issue : ℤ) :
    Option Listing → WorkstreamStatus
| some .running => { s with running := s.running ++ [issue] }
| some .completed =>
  { s with completed := s.completed ++ [issue] }
| some .failed => { s with failed := s.failed ++ [issue] }
| none => s

end WorkstreamStatus

/- The listing is `none` for what is left display-only. -/
def lookAt
    (m : Moment) (ws : Workstream) (p : Processes) :
    Workstream × Option Listing :=
  let proc := p ws.issue
  let authoritative :=
    proc.any fun c => processScopeIsAuthoritative m ws c.pid
  let maybeCode :=
    if authoritative then proc.bind Child.tryWait else none
  match maybeCode with
  | some code =>
    let ws := finalizeWorkstream m.now ws code
    (ws, some
      (if ws.lifecycleState = "completed" then .completed
        else .failed))
  | none =>
    if proc.isSome ∧ authoritative ∧ ws.exitCode = none then
      ({ ws with lifecycleState := "running" }, some .running)
    else if proc.isSome ∧ ¬authoritative ∧
        ws.exitCode = none then
      (ws, none)
    else if ws.exitCode = some 0 ∨
        ws.lifecycleState = "completed" then
      (ws, some .completed)
    else
      (ws, some .failed)

def getStatusOf
    (m : Moment) (ws : Workstream) (s : Processes × WorkstreamStatus) :
    Workstream × Processes × WorkstreamStatus :=
  let p := m.advance s.1
  let looked := lookAt m ws p
  (looked.1, p, s.2.push ws.issue looked.2)

def getStatus
    (moments : ℕ → Moment) (ws : List Workstream) (p : Processes) :
    List Workstream × Processes × WorkstreamStatus :=
  sweep getStatusOf moments 0 ws (p, .empty)

-- What a Visit Does

variable {m : Moment} {ws : Workstream}
variable {p : Processes} {c : Child}

/- A visit that may mark a workstream whose child is held. -/
inductive Marks
    (m : Moment) (ws : Workstream) (p : Processes) (lifecycleState : String) :
    Workstream × Processes → Prop
| kept : Marks m ws p lifecycleState (ws, m.advance p)
| marked
    (hRunning : ws.lifecycleState = "running") :
    Marks m ws p lifecycleState (marked lifecycleState m.now ws, m.advance p)
| terminated
    (c : Child)
    (hRunning : ws.lifecycleState = "running")
    (hHeld : m.advance p ws.issue = some c) :
    Marks m ws p lifecycleState
      (marked lifecycleState m.now ws, terminate m ws c (m.advance p))

theorem enforceTimeout_marks
    (m : Moment) (ws : Workstream) (p : Processes) :
    Marks m ws p "timed_out_resumable" (enforceTimeout m ws p) := by
  rw [enforceTimeout]
  split
  · exact .kept
  · next hRunning =>
      have hRunning := not_not.mp hRunning
      split
      · exact .kept
      · split
        · exact .kept
        · split
          · exact .marked hRunning
          · split
            · exact .marked hRunning
            · next c hHeld =>
                split
                · split
                  · exact .terminated c hRunning hHeld
                  · exact .marked hRunning
                · exact .kept

theorem cleanupWorkstream_marks
    (m : Moment) (ws : Workstream) (p : Processes) :
    Marks m ws p "interrupted_resumable" (cleanupWorkstream m ws p) := by
  rw [cleanupWorkstream]
  split
  · exact .kept
  · next hRunning =>
      have hRunning := not_not.mp hRunning
      split
      · exact .marked hRunning
      · next c hHeld =>
          split
          · exact .terminated c hRunning hHeld
          · exact .kept

/- Cleanup terminates what runs under a valid scope. -/
theorem cleanupWorkstream_terminates
    (hRunning : ws.lifecycleState = "running")
    (hHeld : m.advance p ws.issue = some c)
    (hAuthoritative : processScopeIsAuthoritative m ws c.pid = true) :
    cleanupWorkstream m ws p =
      (marked "interrupted_resumable" m.now ws,
        terminate m ws c (m.advance p)) := by
  rw [cleanupWorkstream, if_neg (not_not.mpr hRunning)]
  simp only [hHeld, hAuthoritative, if_true]

/- A look at a workstream whose child is held. -/
inductive Looks
    (m : Moment) (ws : Workstream) (c : Child) :
    Workstream × Option Listing → Prop
| finalized
    (code : ℤ)
    (hAuthoritative : processScopeIsAuthoritative m ws c.pid = true)
    (hCode : c.tryWait = some code) :
    Looks m ws c
      (finalizeWorkstream m.now ws code,
        some
          (if (finalizeWorkstream m.now ws code).lifecycleState
              = "completed" then .completed
            else .failed))
| running
    (hAuthoritative : processScopeIsAuthoritative m ws c.pid = true)
    (hAlive : c.life = .alive)
    (hExit : ws.exitCode = none) :
    Looks m ws c ({ ws with lifecycleState := "running" }, some .running)
| displayOnly
    (hNot : processScopeIsAuthoritative m ws c.pid = false)
    (hExit : ws.exitCode = none) :
    Looks m ws c (ws, none)
| known
    (code : ℤ)
    (hExit : ws.exitCode = some code)
    (hNot : processScopeIsAuthoritative m ws c.pid = false ∨
      c.life = .alive) :
    Looks m ws c
      (ws, some
        (if code = 0 ∨ ws.lifecycleState = "completed" then
            .completed
          else .failed))

theorem lookAt_looks
    (hHeld : p ws.issue = some c) :
    Looks m ws c (lookAt m ws p) := by
  have hKnown : ∀ code, ws.exitCode = some code →
      (processScopeIsAuthoritative m ws c.pid = false ∨ c.life = .alive) →
      Looks m ws c
        (if ws.exitCode = some 0 ∨
            ws.lifecycleState = "completed" then
          (ws, some .completed)
        else (ws, some .failed)) := by
    intro code hExit hNot
    have hLooks := Looks.known code hExit hNot
    simp only [hExit, Option.some.injEq]
    by_cases hDone : code = 0 ∨ ws.lifecycleState = "completed"
    · rw [if_pos hDone] at hLooks ⊢
      exact hLooks
    · rw [if_neg hDone] at hLooks ⊢
      exact hLooks
  rw [lookAt, hHeld]
  simp only [Option.any_some, Option.bind_some, Option.isSome_some, true_and]
  cases hAuth : processScopeIsAuthoritative m ws c.pid with
  | true =>
    cases hCode : c.tryWait with
    | some code => exact .finalized code hAuth hCode
    | none =>
      have hAlive := Child.tryWait_eq_none_iff.mp hCode
      by_cases hExit : ws.exitCode = none
      · simp only [if_true, hExit, and_self]
        exact hExit ▸ .running hAuth hAlive hExit
      · rcases Option.ne_none_iff_exists'.mp hExit with
          ⟨code, hSome⟩
        simp only [if_true, hExit, and_false, if_false]
        exact hKnown code hSome (Or.inr hAlive)
  | false =>
    by_cases hExit : ws.exitCode = none
    · simp only [hExit, Bool.false_eq_true, if_false,
        false_and, not_false_eq_true, and_self, if_true]
      exact .displayOnly hAuth hExit
    · rcases Option.ne_none_iff_exists'.mp hExit with
        ⟨code, hSome⟩
      simp only [hExit, Bool.false_eq_true, if_false, and_false]
      exact hKnown code hSome (Or.inl hAuth)

end Multitask
