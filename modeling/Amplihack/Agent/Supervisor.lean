import Amplihack.Agent.Writers

/-
  The supervisor's passes among the commands of users and the
  writes of wrappers.
-/

-- Observations

namespace Agent

open Base

inductive Liveness where
| running (signal : String)
| notRunning
| unknown (reason : String)
deriving DecidableEq

inductive SessionState where
| present
| absent
| unknown (reason : String)
deriving DecidableEq

/-
  Unknown liveness counts as running, and an unknown tmux
  state counts as a present session.
-/
def observe : Liveness → SessionState → Observation
| .notRunning, .present => .skipSession none
| .notRunning, .unknown why => .skipSession (some why)
| .notRunning, .absent => .lost
| .unknown why, .absent => .skipRunning (some why)
| .running _, .absent => .skipRunning none
| .unknown _, .present => .healthy
| .unknown _, .unknown _ => .healthy
| .running _, .present => .healthy
| .running _, .unknown _ => .healthy

theorem observe_eq_lost_iff
    {live : Liveness} {session : SessionState} :
    observe live session = .lost ↔
      live = .notRunning ∧ session = .absent := by
  cases live <;> cases session <;> simp [observe]

-- Launching

/- What one `systemd-run` call did. -/
inductive Scope where
| started
| missing
| failed (why : String)

/- How one launch ended. -/
inductive Launched where
| started (warning : Option String)
| failed (line : String)
| unknown (reason : String) (attempted : Bool)

/- The answers to the calls one launch may make. -/
structure LaunchAnswers where
  server : SessionState
  scope : Except String Scope
  hasSession : SessionState
  plain : Except String Unit

/- The sockets already checked in a pass. -/
abbrev Placement := Dict (Option String) (Option String)

def plain
    (ans : LaunchAnswers) (warning : Option String) :
    Launched :=
  match ans.plain with
  | .ok _ => .started warning
  | .error line => .failed line

def launchFirst (ans : LaunchAnswers) : Launched :=
  match ans.server with
  | .present => plain ans none
  | .unknown reason => .unknown reason false
  | .absent =>
    match ans.scope with
    | .error line => .failed line
    | .ok .started => .started none
    | .ok .missing =>
      plain ans (some "systemd-run is not on PATH")
    | .ok (.failed why) =>
      match ans.hasSession with
      | .present => .started none
      | .absent => plain ans (some why)
      | .unknown reason => .unknown reason true

/- Only the first launch on a socket checks its server. -/
def Placement.launch
    (socket : Option String) (ans : LaunchAnswers) (placement : Placement) :
    Launched × Placement :=
  match placement.get? socket with
  | some (some reason) => (.unknown reason false, placement)
  | some none => (plain ans none, placement)
  | none =>
    let reason := match ans.server with
      | .unknown reason => some reason
      | .present => none
      | .absent => none
    (launchFirst ans, placement.insert socket reason)

/- Whether a launch counts as an attempt. -/
def Launched.attempted : Launched → Bool
| .started _ => true
| .failed _ => true
| .unknown _ attempted => attempted

def Launched.isStarted : Launched → Bool
| .started _ => true
| .failed _ => false
| .unknown _ _ => false

-- Plans

/- The answers to the questions of a pass about its agents. -/
structure Answers where
  live : String → Liveness
  session : Option String → String → SessionState
  pre : String → Option Outcome

def Answers.observed (ans : Answers) (name : String) (e : Entry) :
    Observation :=
  observe (ans.live name) (ans.session e.tmuxSocket e.tmuxSession)

def planOf (ans : Answers) (name : String) (e : Entry) : Plan where
  name := name
  registeredAt := e.registeredAt
  launchId := e.launchId
  conv := e.conversationId
  obs := ans.observed name e
  pre :=
    if ans.observed name e = .lost then ans.pre name else none
  launchDir := e.launchDir

def activeAgents (reg : Registry) : List (String × Entry) :=
  (byName reg).filter fun pair => pair.2.state == .active

def plansOf (ans : Answers) (reg : Registry) : List Plan :=
  (activeAgents reg).map fun pair => planOf ans pair.1 pair.2

/- A pass with only healthy agents writes nothing. -/
def needsWrite (ans : Answers) (reg : Registry) : Bool :=
  (activeAgents reg).any fun (name, e) =>
    ans.observed name e ≠ .healthy || e.lostAt.isSome ||
      e.lastRecovery.any fun l => clearsWhenHealthy l.result

-- The System

/-
  A resume that passed its check: what the check read and was
  answered. `generation` counts the registrations of the name.
-/
structure Pending where
  name : String
  registeredAt : String
  generation : ℕ
  conversation : String
  seen : Entry
  live : Liveness
  session : SessionState

/- A launch that was made, or may have been. -/
structure Attempt where
  agent : Pending
  time : ℤ
  pass : ℕ
  started : Bool

inductive Phase where
| idle
| began
| planned (plans : List Plan) (write : Bool)
| resuming (candidates : List Candidate)
| checked (candidates : List Candidate) (p : Pending)
| settling
    (candidates : List Candidate)
    (name registeredAt : String) (outcome : Option Outcome)
    (attempted : Option Pending)
| recording
    (candidates : List Candidate) (p : Pending) (time : ℤ)

/-
  The registry, the clock, the supervisor and the launches so
  far. `reading` is the supervisor's last reading of the clock
  and `passNow` that at the start of its pass.
-/
structure System where
  registry : Registry
  generations : String → ℕ
  clock : ℤ
  reading : ℤ
  passNow : ℤ
  pass : ℕ
  phase : Phase
  resumed : List String
  placement : Placement
  log : List Attempt

def System.initial (reg : Registry) (clock : ℤ) : System where
  registry := reg
  generations := fun _ => 0
  clock := clock
  reading := clock
  passNow := clock
  pass := 0
  phase := .idle
  resumed := []
  placement := Dict.empty
  log := []

/- Every step of the supervisor is an action of its own. -/
inductive Action where
| tick (time : ℤ)
| command (command : Command) (reading : ℤ)
| beginPass
| refreshIds (changes : List IdChange)
| applyMarkers (ends : List MarkerEnd)
| plan (ans : Answers)
| classify
| check (name : String) (ans : Answers)
| settle (reading : ℤ)
| launch (ans : LaunchAnswers)
| record
| endPass

/- The registration a command makes. -/
def Command.registers (reg : Registry) :
    Command → Option String
| .register name _ _ _ => some name
| .start name _ _ _ =>
  if (reg.get? name).isNone then some name else none
| .unregister _ => none
| .recordClaude _ _ _ _ => none
| .markEnded _ _ => none

namespace System

variable (t : Text)
variable (defaultSocket : String)
variable (maxRestarts : ℕ)

/- A successful update, with what its closure returned. -/
def wrote
    {α : Type} (now : ℤ)
    (f : Registry → Except String (α × Registry)) (s : System) :
    Option (α × System) :=
  match f s.registry with
  | .ok (out, changed) =>
    some (out, { s with registry := prunedEntries t now changed })
  | .error _ => none

def bump (name : Option String) (s : System) : System :=
  match name with
  | some name =>
    { s with
      generations := Function.update s.generations name
        (s.generations name + 1) }
  | none => s

/- The clock is not read later than it stands. -/
def command (command : Command) (reading : ℤ) (s : System) :
    System :=
  let now := min reading s.clock
  match s.wrote t now
      (command.run t.chrono defaultSocket now) with
  | some (_, next) => next.bump (command.registers s.registry)
  | none => s

/- The supervisor's own updates, which are not refused. -/
def supervise
    {α : Type} (now : ℤ) (f : Registry → Except String (α × Registry))
    (next : α → Phase) (s : System) :
    System :=
  match s.wrote t now f with
  | some (out, s') => { s' with phase := next out }
  | none => s

/- What is written after a launch. -/
def afterLaunch
    (candidates : List Candidate) (p : Pending) (time : ℤ) :
    Launched → Phase
| .started _ => .recording candidates p time
| .failed line =>
  .settling candidates p.name p.registeredAt (some (.tmux line)) (some p)
| .unknown reason attempted =>
  .settling candidates p.name p.registeredAt
    (some (.tmuxUnknown reason))
    (if attempted then some p else none)

/- `resume_one` up to its launch, on the candidate's entry. -/
def checkEntry
    (candidates : List Candidate) (name : String)
    (ans : Answers) (e : Entry) (s : System) :
    Phase :=
  let obs := ans.observed name e
  if obs = .healthy then
    if e.lostAt = none then .resuming candidates
    else .settling candidates name e.registeredAt none none
  else
    let held := e.conversationId.bind fun id =>
      if id ∈ s.resumed then some Outcome.alreadyRunning
      else none
    match (outcomeOf obs).or ((ans.pre name).or held) with
    | some outcome =>
      .settling candidates name e.registeredAt (some outcome) none
    | none =>
      match e.conversationId with
      | none => .resuming candidates
      | some id =>
        .checked candidates
          { name := name
            registeredAt := e.registeredAt
            generation := s.generations name
            conversation := id
            seen := e
            live := ans.live name
            session :=
              ans.session e.tmuxSocket e.tmuxSession }

/- The next candidate is read again. -/
def check
    (candidates : List Candidate) (name : String)
    (ans : Answers) (s : System) :
    System :=
  match candidates.find? (·.name == name) with
  | none => s
  | some c =>
    let rest := candidates.filter (·.name != name)
    match s.registry.get? name with
    | none => { s with phase := .resuming rest }
    | some e =>
      if e.registeredAt == c.registeredAt &&
          e.state == .active then
        { s with phase := s.checkEntry rest name ans e }
      else { s with phase := .resuming rest }

/- The launch, at the supervisor's reading of the clock. -/
def launch
    (candidates : List Candidate) (p : Pending)
    (ans : LaunchAnswers) (s : System) :
    System :=
  let r := s.placement.launch p.seen.tmuxSocket ans
  { s with
    reading := s.clock
    placement := r.2
    phase := afterLaunch candidates p s.clock r.1
    resumed :=
      if r.1.isStarted then p.conversation :: s.resumed
      else s.resumed
    log :=
      if r.1.attempted then
        { agent := p
          time := s.clock
          pass := s.pass
          started := r.1.isStarted } :: s.log
      else s.log }

/- The write of a settled candidate, at a new reading. -/
def settle
    (candidates : List Candidate) (name registeredAt : String)
    (outcome : Option Outcome) (attempted : Option Pending)
    (reading : ℤ) (s : System) :
    System :=
  let now := max s.reading (min reading s.clock)
  { s with reading := now }.supervise t now
    (Agent.settle t.chrono now name registeredAt outcome attempted.isSome)
    fun _ => .resuming candidates

def record
    (candidates : List Candidate) (p : Pending) (time : ℤ) (s : System) :
    System :=
  s.supervise t time
    (recordResumed t.chrono time p.name p.registeredAt
      (some p.conversation) p.seen.lostAt
      (some (fmtTs t.chrono time)))
    fun _ => .resuming candidates

def beginPass (s : System) : System :=
  { s with
    reading := s.clock
    passNow := s.clock
    pass := s.pass + 1
    phase := .began
    resumed := []
    placement := Dict.empty }

/- An action at the wrong moment changes nothing. -/
def step (s : System) : Action → System
| .tick time => { s with clock := max s.clock time }
| .command command reading =>
  s.command t defaultSocket command reading
| .beginPass =>
  match s.phase with
  | .idle => s.beginPass
  | _ => s
| .refreshIds changes =>
  match s.phase with
  | .began =>
    s.supervise t s.passNow (Agent.refreshIds changes) fun _ => .began
  | _ => s
| .applyMarkers ends =>
  match s.phase with
  | .began =>
    s.supervise t s.passNow
      (Agent.applyMarkers t.chrono s.passNow ends)
      fun _ => .began
  | _ => s
| .plan ans =>
  match s.phase with
  | .began =>
    { s with
      phase := .planned (plansOf ans s.registry)
        (needsWrite ans s.registry) }
  | _ => s
| .classify =>
  match s.phase with
  | .planned plans true =>
    s.supervise t s.passNow
      (Agent.classify t.chrono s.passNow maxRestarts plans)
      fun out => .resuming out.2
  | .planned _ false => { s with phase := .idle }
  | _ => s
| .check name ans =>
  match s.phase with
  | .resuming candidates => s.check candidates name ans
  | _ => s
| .settle reading =>
  match s.phase with
  | .settling candidates name registeredAt outcome
      attempted =>
      s.settle t candidates name registeredAt outcome attempted reading
  | _ => s
| .launch ans =>
  match s.phase with
  | .checked candidates p => s.launch candidates p ans
  | _ => s
| .record =>
  match s.phase with
  | .recording candidates p time =>
    s.record t candidates p time
  | _ => s
| .endPass =>
  match s.phase with
  | .resuming _ => { s with phase := .idle }
  | _ => s

end System

end Agent
