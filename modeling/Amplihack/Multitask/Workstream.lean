import Mathlib.Algebra.Order.Group.Int

/-
  Who owns a process: the scope recorded with a workstream
  and with its launch, checked against what is seen of the
  process now.

  A workstream, the child process that runs it, and what the
  world shows of both.
-/

-- Scopes

namespace Multitask

structure WorkstreamScope where
  repository : String
  repoRoot : String
  workdir : String
  branch : String
  issueId : String
  workItemId : String
  recipeRunId : String
  treeId : String
  workstreamId : String

structure ProcessScope where
  pid : Option ℕ
  repository : String
  repoRoot : String
  workdir : String
  branch : String
  issueId : String
  workItemId : String
  recipeRunId : String
  treeId : String
  workstreamId : String
  processStartedAt : String
  recordedAt : String

structure CurrentWorkflowScope where
  repository : String
  repoRoot : String
  workdir : String
  branch : String
  issueId : String
  workItemId : String
  recipeRunId : String
  treeId : String
  workstreamId : String

structure ProcessSnapshot where
  pid : ℕ
  alive : Bool
  workdir : String
  processStartedAt : String

inductive ProcessScopeValidation where
| valid
| missingScope
| dead
| pidReused
| tooOld
| repoMismatch
| workdirMismatch
| branchMismatch
| workstreamMismatch
  deriving DecidableEq

namespace ProcessScopeValidation

def isValid (validation : ProcessScopeValidation) : Bool :=
  validation = valid

end ProcessScopeValidation

-- Validation

/- `age` is `none` for a time that does not parse. -/
def isTooOld
    (age : String → Option ℤ) (recordedAt : String) (maxAgeSeconds : ℤ) :
    Bool :=
  match age recordedAt with
  | some seconds => maxAgeSeconds < seconds
  | none => true

def scopeTexts
    (workstream : WorkstreamScope) (process : ProcessScope) :
    List String :=
  [workstream.repository, workstream.repoRoot,
    workstream.workdir, workstream.branch,
    workstream.issueId, workstream.workstreamId,
    process.repository, process.repoRoot, process.workdir,
    process.branch, process.issueId, process.workstreamId,
    process.processStartedAt, process.recordedAt]

def validateProcessScope
    (current : CurrentWorkflowScope)
    (workstream : WorkstreamScope) (process : ProcessScope)
    (snapshot : ProcessSnapshot) (age : String → Option ℤ)
    (maxAgeSeconds : ℤ) :
    ProcessScopeValidation :=
  match process.pid with
  | none => .missingScope
  | some pid =>
    if "" ∈ scopeTexts workstream process then
      .missingScope
    else if ¬snapshot.alive then
      .dead
    else if snapshot.pid ≠ pid then
      .pidReused
    else if snapshot.processStartedAt ≠ "" ∧
        snapshot.processStartedAt ≠ process.processStartedAt then
      .pidReused
    else if isTooOld age process.recordedAt maxAgeSeconds then
      .tooOld
    else if current.repository ≠ workstream.repository ∨
        current.repository ≠ process.repository ∨
        current.repoRoot ≠ workstream.repoRoot ∨
        current.repoRoot ≠ process.repoRoot then
      .repoMismatch
    else if current.workdir ≠ workstream.workdir ∨
        current.workdir ≠ process.workdir ∨
        (snapshot.workdir ≠ "" ∧
          snapshot.workdir ≠ process.workdir) then
      .workdirMismatch
    else if current.branch ≠ workstream.branch ∨
        current.branch ≠ process.branch then
      .branchMismatch
    else if current.issueId ≠ workstream.issueId ∨
        current.issueId ≠ process.issueId ∨
        current.workItemId ≠ workstream.workItemId ∨
        current.workItemId ≠ process.workItemId ∨
        current.recipeRunId ≠ workstream.recipeRunId ∨
        current.recipeRunId ≠ process.recipeRunId ∨
        current.treeId ≠ workstream.treeId ∨
        current.treeId ≠ process.treeId ∨
        current.workstreamId ≠ workstream.workstreamId ∨
        current.workstreamId ≠ process.workstreamId then
      .workstreamMismatch
    else
      .valid

variable {current : CurrentWorkflowScope}
variable {workstream : WorkstreamScope}
variable {process : ProcessScope}
variable {snapshot : ProcessSnapshot}
variable {age : String → Option ℤ}
variable {maxAgeSeconds : ℤ}

end Multitask

-- Workstreams

namespace Multitask

def interruptPreserveTimeoutPolicy : String :=
  "interrupt-preserve"

def continuePreserveTimeoutPolicy : String :=
  "continue-preserve"

def defaultTimeoutPolicy : String :=
  continuePreserveTimeoutPolicy

def defaultMaxRuntime : ℕ := 7200

def cleanupEligibleStates : List String :=
  ["completed", "failed_terminal", "abandoned"]

/- Instants are nanoseconds of the monotonic clock. -/
structure Workstream where
  issue : ℤ
  branch : String
  pid : Option ℕ
  startTime : Option ℕ
  endTime : Option ℕ
  exitCode : Option ℤ
  lifecycleState : String
  cleanupEligible : Bool
  checkpointId : String
  attempt : ℕ
  timeoutPolicy : String
  maxRuntime : ℕ
  workstreamScope : WorkstreamScope
  processScope : ProcessScope

def deriveCleanupEligible (lifecycleState : String) : Bool :=
  cleanupEligibleStates.contains lifecycleState

def finalizeWorkstream
    (now : ℕ) (ws : Workstream) (exitCode : ℤ) :
    Workstream :=
  let ws :=
    { ws with
      endTime := some (ws.endTime.getD now)
      exitCode := some exitCode }
  if ws.lifecycleState = "interrupted_resumable" ∨
      (ws.lifecycleState = "timed_out_resumable" ∧
        ws.timeoutPolicy = interruptPreserveTimeoutPolicy) then
    ws
  else
    let lifecycleState :=
      if exitCode = 0 then "completed"
      else if ws.checkpointId ≠ "" then "failed_resumable"
      else "failed_terminal"
    { ws with
      lifecycleState := lifecycleState
      cleanupEligible := deriveCleanupEligible lifecycleState }

-- Children

/- The code of an exit is `none` when a signal was its cause. -/
inductive Life where
| alive
| exited (code : Option ℤ)
  deriving DecidableEq

/- `terminated`: the orchestrator has killed it. -/
structure Child where
  pid : ℕ
  life : Life
  terminated : Bool

namespace Child

/- The exit code, once there is one; it does not change. -/
def tryWait (c : Child) : Option ℤ :=
  match c.life with
  | .alive => none
  | .exited code => some (code.getD (-1))

def exit (code : Option ℤ) (c : Child) : Child :=
  match c.life with
  | .alive => { c with life := .exited code }
  | .exited _ => c

/- Kills the child and waits; `code` is what ends it. -/
def terminate (code : Option ℤ) (c : Child) : Child :=
  { c.exit code with terminated := true }

/- What can happen to a child: it exits, it is terminated. -/
structure Evolves (c d : Child) : Prop where
  pid : d.pid = c.pid
  exited : ∀ code, c.life = .exited code → d.life = .exited code
  terminated : c.terminated = true → d.terminated = true

theorem Evolves.refl (c : Child) : Evolves c c :=
  ⟨rfl, fun _ h => h, fun h => h⟩

theorem Evolves.trans
    {c d e : Child} (hFirst : Evolves c d) (hSecond : Evolves d e) :
    Evolves c e :=
  ⟨hSecond.pid.trans hFirst.pid,
    fun code h => hSecond.exited code (hFirst.exited code h),
    fun h => hSecond.terminated (hFirst.terminated h)⟩

theorem evolves_exit (code : Option ℤ) (c : Child) :
    Evolves c (c.exit code) := by
  rw [exit]
  split
  · next hAlive =>
      refine ⟨rfl, ?_, fun h => h⟩
      intro other hExited
      rw [hAlive] at hExited
      cases hExited
  · exact Evolves.refl c

theorem evolves_terminate (code : Option ℤ) (c : Child) :
    Evolves c (c.terminate code) :=
  (evolves_exit code c).trans ⟨rfl, fun _ h => h, fun _ => rfl⟩

theorem tryWait_eq_some_iff {c : Child} {code : ℤ} :
    c.tryWait = some code ↔
      ∃ exit, c.life = .exited exit ∧ exit.getD (-1) = code := by
  rw [tryWait]
  cases c.life with
  | alive | exited _ => simp

theorem tryWait_eq_none_iff {c : Child} :
    c.tryWait = none ↔ c.life = .alive := by
  rw [tryWait]
  cases c.life with
  | alive | exited _ => simp

theorem Evolves.tryWait
    {c d : Child} {code : ℤ} (hEvolves : Evolves c d)
    (hCode : c.tryWait = some code) :
    d.tryWait = some code := by
  rcases tryWait_eq_some_iff.mp hCode with ⟨exit, hLife, hGet⟩
  exact tryWait_eq_some_iff.mpr ⟨exit, hEvolves.exited exit hLife, hGet⟩

theorem Evolves.alive
    {c d : Child} (hEvolves : Evolves c d) (hAlive : d.life = .alive) :
    c.life = .alive := by
  cases hLife : c.life with
  | alive => rfl
  | exited code =>
    rw [hEvolves.exited code hLife] at hAlive
    cases hAlive

theorem life_terminate (code : Option ℤ) (c : Child) :
    (c.terminate code).life ≠ .alive := by
  rw [terminate, exit]
  cases hLife : c.life with
  | alive => simp
  | exited other => simp [hLife]

end Child

-- Processes

/- The child held for each issue. -/
abbrev Processes := ℤ → Option Child

namespace Processes

def insert
    (p : Processes) (issue : ℤ) (c : Child) :
    Processes :=
  fun i => if i = issue then some c else p i

/- The children that `exits` names exit, unless they have. -/
def exiting
    (p : Processes) (exits : ℤ → Option (Option ℤ)) :
    Processes :=
  fun i =>
    match exits i with
    | some code => (p i).map (Child.exit code)
    | none => p i

/- Each child that is held stays held, and evolves. -/
def Evolves (p q : Processes) : Prop :=
  ∀ i c, p i = some c → ∃ d, q i = some d ∧ c.Evolves d

variable {p q r : Processes}

theorem Evolves.refl (p : Processes) : Evolves p p :=
  fun _ c hHeld => ⟨c, hHeld, Child.Evolves.refl c⟩

theorem Evolves.trans
    (hFirst : Evolves p q) (hSecond : Evolves q r) :
    Evolves p r := by
  intro i c hHeld
  rcases hFirst i c hHeld with ⟨d, hMid, hTo⟩
  rcases hSecond i d hMid with ⟨e, hEnd, hOn⟩
  exact ⟨e, hEnd, hTo.trans hOn⟩

theorem evolves_insert
    {issue : ℤ} {c d : Child} (hHeld : p issue = some c)
    (hEvolves : c.Evolves d) :
    Evolves p (p.insert issue d) := by
  intro i e hAt
  by_cases hIssue : i = issue
  · subst hIssue
    rw [hHeld] at hAt
    rw [← Option.some.inj hAt]
    exact ⟨d, if_pos rfl, hEvolves⟩
  · exact ⟨e, (if_neg hIssue).trans hAt, Child.Evolves.refl e⟩

theorem evolves_exiting
    (exits : ℤ → Option (Option ℤ)) (p : Processes) :
    p.Evolves (p.exiting exits) := by
  intro i c hHeld
  rw [exiting]
  split
  · next code _ =>
      exact ⟨c.exit code, by rw [hHeld]; rfl, Child.evolves_exit code c⟩
  · exact ⟨c, hHeld, Child.Evolves.refl c⟩

end Processes

-- Moments

/-
  What one visit to a workstream sees of the world: the
  children that have exited since the last visit, by the issue
  they are held for, and the answers of clock, files and
  process table. `waited` is the exit of a child it terminates.
-/
structure Moment where
  exits : ℤ → Option (Option ℤ)
  now : ℕ
  workDir : String
  alive : Bool
  startedAt : Option String
  age : String → Option ℤ
  idle : Bool
  waited : Option ℤ

def Moment.advance (m : Moment) (p : Processes) : Processes :=
  p.exiting m.exits

/- `normalize_path` of the work dir answers all three paths. -/
def processScopeValidation
    (m : Moment) (ws : Workstream) (pid : ℕ) :
    ProcessScopeValidation :=
  let current : CurrentWorkflowScope :=
    { repository := ws.workstreamScope.repository
      repoRoot := m.workDir
      workdir := m.workDir
      branch := ws.branch
      issueId := toString ws.issue
      workItemId := toString ws.issue
      recipeRunId := ws.workstreamScope.recipeRunId
      treeId := ws.workstreamScope.treeId
      workstreamId := "ws-" ++ toString ws.issue }
  let snapshot : ProcessSnapshot :=
    { pid := pid
      alive := m.alive
      workdir := m.workDir
      processStartedAt := m.startedAt.getD "" }
  validateProcessScope current ws.workstreamScope
    ws.processScope snapshot m.age (ws.maxRuntime + 3600)

def processScopeIsAuthoritative
    (m : Moment) (ws : Workstream) (pid : ℕ) :
    Bool :=
  (processScopeValidation m ws pid).isValid

/- What the validation reads of a workstream. -/
structure SameScope (ws ws' : Workstream) : Prop where
  issue : ws'.issue = ws.issue
  branch : ws'.branch = ws.branch
  maxRuntime : ws'.maxRuntime = ws.maxRuntime
  checkpointId : ws'.checkpointId = ws.checkpointId
  workstreamScope : ws'.workstreamScope = ws.workstreamScope
  processScope : ws'.processScope = ws.processScope

theorem SameScope.authoritative
    {ws ws' : Workstream} (hSame : SameScope ws ws') (m : Moment) (pid : ℕ) :
    processScopeIsAuthoritative m ws' pid =
      processScopeIsAuthoritative m ws pid := by
  rw [processScopeIsAuthoritative, processScopeIsAuthoritative,
    processScopeValidation, processScopeValidation, hSame.issue, hSame.branch,
    hSame.maxRuntime, hSame.workstreamScope, hSame.processScope]

end Multitask
