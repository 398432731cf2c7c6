import Amplihack.Base.Runs
import Amplihack.Agent.Records
import Amplihack.Agent.Keeps

/-
  The supervisor's restart limit over whole runs.
-/

-- Heeded Steps

namespace Agent

open Base

/-
  When the limit is heeded: a launch is recorded while its
  agent is active, no conversation goes to a second candidate
  of the pass after a launch that did not start it, a command
  is written soon after it read the clock, and a pass
  classifies within the day it began.
-/
def Heeded (last : ℤ) (s : System) : Action → Prop
| .tick time => time ≤ last
| .command _ reading =>
  s.reading ≤ min reading s.clock + futureSlack
| .classify => s.clock ≤ s.passNow + (day - hour)
| .settle _ => RecordsLaunch s
| .launch _ => NoRetry s
| .record => RecordsLaunch s
| .beginPass => True
| .refreshIds _ => True
| .applyMarkers _ => True
| .plan _ => True
| .check _ _ => True
| .endPass => True

variable {t : Text}
variable {defaultSocket : String}
variable {maxRestarts : ℕ}
variable {first last : ℤ}
variable {s s' : System}

variable {a : Action}

theorem counted_moves
    (hExact : ∀ z, first ≤ z → z ≤ last → t.chrono.Exact z)
    (hCounted : Counted t maxRestarts s)
    (hClock : Clocked first last s) (hHeeded : Heeded last s a)
    (hMoves : Moves t defaultSocket maxRestarts s a s') :
    Counted t maxRestarts s' := by
  have hFirst : first ≤ s.reading := hClock.first.trans hClock.passNow
  cases hMoves with
  | tick time =>
    refine ⟨hCounted.generations, ?_, hCounted.plans,
      hCounted.distinct, hCounted.room, hCounted.checked,
      hCounted.pending, hCounted.settled, hCounted.bounded⟩
    intro name e hGet w hRecent
    apply hCounted.counted name e hGet w
    have hLater : s.clock ≤ max s.clock time := le_max_left _ _
    have hRecent' : max s.clock time - day ≤ w := hRecent
    omega
  | command command reading changed hRun =>
    exact hCounted.command (min_le_right _ _) hHeeded hRun
  | beginPass hPhase =>
    refine ⟨hCounted.generations, ?_, ?_, List.nodup_nil, ?_,
      ?_, ?_, ?_, hCounted.bounded⟩
    · intro name e hGet w hRecent
      have hLe := hCounted.counted name e hGet w hRecent
      rw [Counted.owes_eq_zero (by rw [hPhase]; rfl)] at hLe
      exact hLe.trans (restartsBetween_mono (le_refl _) hClock.reading)
    · intro plans write h
      cases h
    · intro candidate hMem
      cases hMem
    · intro candidates p h
      cases h
    · intro p h
      cases h
    · intro candidates name registeredAt outcome p h
      cases h
  | refreshIds changes hPhase =>
    exact hCounted.refreshIds changes hClock hPhase
  | applyMarkers ends hPhase => exact hCounted.applyMarkers ends hClock hPhase
  | plan ans hPhase =>
    refine hCounted.follow (by rw [hPhase]; rfl)
      ⟨rfl, rfl, ?_, List.nodup_nil⟩ ?_
    · intro plans write h
      cases h
      exact nodup_plansOf ans s.registry
    · intro candidate hMem
      cases hMem
  | classify plans hPhase => exact hCounted.classify hClock hPhase hHeeded
  | healthy plans hPhase =>
    refine hCounted.follow (by rw [hPhase]; rfl)
      ⟨rfl, rfl, ?_, List.nodup_nil⟩ ?_
    · intro plans write h
      cases h
    · intro candidate hMem
      cases hMem
  | drop candidates name ans hPhase =>
    have hNodup := hCounted.distinct
    rw [hPhase] at hNodup
    refine hCounted.follow (by rw [hPhase]; rfl)
      ⟨rfl, rfl, ?_, Counted.restOf_nodup hNodup name⟩ ?_
    · intro plans write h
      cases h
    · intro candidate hMem
      rw [hPhase]
      exact (Counted.mem_of_mem_restOf hMem).1
  | skip candidates name ans registeredAt outcome hPhase =>
    have hNodup := hCounted.distinct
    rw [hPhase] at hNodup
    refine hCounted.follow (by rw [hPhase]; rfl)
      ⟨rfl, rfl, ?_, Counted.restOf_nodup hNodup name⟩ ?_
    · intro plans write h
      cases h
    · intro candidate hMem
      rw [hPhase]
      exact (Counted.mem_of_mem_restOf hMem).1
  | check candidates name ans e id hPhase hCandidate hGet
      hActive hLost hId hFresh =>
      exact hCounted.check hPhase hCandidate hGet
  | settle candidates name registeredAt outcome attempted
      reading now out changed hPhase hNow hRun =>
      have hLe : s.reading ≤ now := by
        rw [hNow]
        exact le_max_left _ _
      have hAbove : now ≤ s.clock := by
        rw [hNow]
        exact max_le hClock.reading (min_le_right _ _)
      exact hCounted.settle hClock hHeeded
        (hExact now (hFirst.trans hLe)
          (hAbove.trans hClock.last)) hPhase hLe hAbove hRun
  | launch candidates p ans hPhase => exact hCounted.launch hClock hPhase ans
  | record candidates p time changed hPhase hRun =>
    have hTime : time = s.reading := hClock.recorded candidates p time hPhase
    refine hCounted.record hClock hHeeded ?_ hPhase hRun
    rw [hTime]
    exact hExact s.reading hFirst (hClock.reading.trans hClock.last)
  | endPass candidates hPhase =>
    refine hCounted.follow (by rw [hPhase]; rfl)
      ⟨rfl, rfl, ?_, List.nodup_nil⟩ ?_
    · intro plans write h
      cases h
    · intro candidate hMem
      cases hMem

-- Stopped Agents

/- The launches made for a name. -/
def attemptsOn (log : List Attempt) (name : String) :
    List Attempt :=
  log.filter (·.agent.name == name)

/- No resume of a stopped agent has passed its check. -/
def ChecksActive (s : System) : Prop :=
  ∀ candidates p, s.phase = .checked candidates p →
    ∀ e, s.registry.get? p.name = some e → e.state ≠ .stopped

theorem checksActive_of_phase
    (hPhase : ∀ candidates p, s'.phase ≠ .checked candidates p) :
    ChecksActive s' :=
  fun candidates p h => absurd h (hPhase candidates p)

theorem checksActive_moves
    (hChecks : ChecksActive s)
    (hMoves : Moves t defaultSocket maxRestarts s a s') :
    ChecksActive s' := by
  cases hMoves with
  | tick time => exact hChecks
  | command command reading changed hRun =>
    intro candidates p hPhase e hGet hStopped
    rw [(System.bump_frame _ _).2.2.2] at hPhase
    rw [System.bump_registry] at hGet
    rcases get?_prunedEntries hGet with ⟨e₁, hGet₁, -, -, hState⟩
    rw [hState] at hStopped
    rcases (carried_command hRun hGet₁).2 hStopped with ⟨e₀, hGet₀, hOld⟩
    exact hChecks candidates p hPhase e₀ hGet₀ hOld
  | check candidates name ans e id hPhase hCandidate hGet
      hActive hLost hId hFresh =>
      intro rest p hChecked e' hGet'
      cases hChecked
      have hSame : s.registry.get? name = some e' := hGet'
      rw [hGet] at hSame
      rw [← Option.some.inj hSame, hActive]
      decide
  | launch candidates p ans hPhase =>
    exact checksActive_of_phase fun _ _ => afterLaunch_ne_checked
  | beginPass hPhase => exact checksActive_of_phase fun _ _ h => by cases h
  | refreshIds changes hPhase =>
    exact checksActive_of_phase fun _ _ h => by cases h
  | applyMarkers ends hPhase =>
    exact checksActive_of_phase fun _ _ h => by cases h
  | plan ans hPhase => exact checksActive_of_phase fun _ _ h => by cases h
  | classify plans hPhase =>
    exact checksActive_of_phase fun _ _ h => by cases h
  | healthy plans hPhase =>
    exact checksActive_of_phase fun _ _ h => by cases h
  | drop candidates name ans hPhase =>
    exact checksActive_of_phase fun _ _ h => by cases h
  | skip candidates name ans registeredAt outcome hPhase =>
    exact checksActive_of_phase fun _ _ h => by cases h
  | settle candidates name registeredAt outcome attempted
      reading now out changed hPhase hNow hRun =>
      exact checksActive_of_phase fun _ _ h => by cases h
  | record _ _ _ _ _ _ | endPass _ _ =>
    exact checksActive_of_phase fun _ _ h => by cases h

/- The action is a command that activates the agent. -/
def Activates (name : String) (a : Action) : Prop :=
  ∃ command reading, a = .command command reading ∧
    command.activates = some name

/- The agent is stopped or gone, and has these launches. -/
structure Halted
    (name : String) (attempts : List Attempt) (s : System) :
    Prop where
  stopped : ∀ e, s.registry.get? name = some e → e.state = .stopped
  unchecked : ∀ candidates p, s.phase = .checked candidates p → p.name ≠ name
  attempts : attemptsOn s.log name = attempts

variable {name : String}

theorem registers_activates
    {command : Command} {reg : Registry}
    (hRegisters : command.registers reg = some name) :
    command.activates = some name := by
  cases command with
  | register other launch process freshId => exact hRegisters
  | unregister other => cases hRegisters
  | start other launchId launch freshId =>
    simp only [Command.registers] at hRegisters
    split at hRegisters
    · exact hRegisters
    · cases hRegisters
  | recordClaude other launchId found profile => cases hRegisters
  | markEnded other launchId => cases hRegisters

namespace Halted

variable {name : String}
variable {attempts : List Attempt}

variable {changed : Registry} {now : ℤ}

/- A write of the supervisor leaves the agent stopped. -/
theorem wrote
    (hHalted : Halted name attempts s)
    (hStays : ∀ e, changed.get? name = some e →
      ∃ e₀, s.registry.get? name = some e₀ ∧
        (e₀.state = .stopped → e.state = .stopped))
    (hRegistry : s'.registry = prunedEntries t now changed)
    (hLog : s'.log = s.log)
    (hPhase : ∀ candidates p, s'.phase ≠ .checked candidates p) :
    Halted name attempts s' where
  stopped := by
    intro e hGet
    rw [hRegistry] at hGet
    rcases get?_prunedEntries hGet with ⟨e₁, hGet₁, -, -, hState⟩
    rcases hStays e₁ hGet₁ with ⟨e₀, hGet₀, hStays⟩
    rw [hState]
    exact hStays (hHalted.stopped e₀ hGet₀)
  unchecked := fun candidates p h =>
    absurd h (hPhase candidates p)
  attempts := by
    rw [hLog]
    exact hHalted.attempts

theorem frame
    (hHalted : Halted name attempts s)
    (hRegistry : s'.registry = s.registry) (hLog : s'.log = s.log)
    (hPhase : ∀ candidates p, s'.phase ≠ .checked candidates p) :
    Halted name attempts s' where
  stopped := by
    rw [hRegistry]
    exact hHalted.stopped
  unchecked := fun candidates p h =>
    absurd h (hPhase candidates p)
  attempts := by
    rw [hLog]
    exact hHalted.attempts

theorem command
    {command : Command} (hHalted : Halted name attempts s)
    (hOther : command.activates ≠ some name)
    (hRun : command.run t.chrono defaultSocket now
      s.registry = .ok ((), changed)) :
    Halted name attempts
      (System.bump (command.registers s.registry)
        { s with
          registry := prunedEntries t now changed }) where
  stopped := by
    intro e hGet
    rw [System.bump_registry] at hGet
    rcases get?_prunedEntries hGet with ⟨e₁, hGet₁, -, -, hState⟩
    rw [hState]
    rcases (carried_command hRun hGet₁).1 with
      hRegisters | ⟨e₀, hGet₀, -, -, hStays⟩
    · exact absurd (registers_activates hRegisters) hOther
    · exact hStays (hHalted.stopped e₀ hGet₀) hOther
  unchecked := by
    rw [(System.bump_frame _ _).2.2.2]
    exact hHalted.unchecked
  attempts := by
    rw [(System.bump_frame _ _).1]
    exact hHalted.attempts

variable {candidates : List Candidate}

theorem check
    {other : String} {ans : Answers} {e : Entry} {id : String}
    (hHalted : Halted name attempts s)
    (hGet : s.registry.get? other = some e) (hActive : e.state = .active) :
    Halted name attempts
      { s with
        phase := .checked candidates
          (ans.pending s other e id) } where
  stopped := hHalted.stopped
  unchecked := by
    intro rest p hChecked hSame
    cases hChecked
    have hName : other = name := hSame
    rw [hName] at hGet
    rw [hHalted.stopped e hGet] at hActive
    cases hActive
  attempts := hHalted.attempts

theorem launch
    {p : Pending} (hHalted : Halted name attempts s)
    (hPhase : s.phase = .checked candidates p) (ans : LaunchAnswers) :
    Halted name attempts (s.launch candidates p ans) where
  stopped := hHalted.stopped
  unchecked := fun _ _ h => absurd h afterLaunch_ne_checked
  attempts := by
    have hNe : p.name ≠ name := hHalted.unchecked candidates p hPhase
    simp only [System.launch]
    split
    · rw [attemptsOn, List.filter_cons_of_neg (by simpa using hNe)]
      exact hHalted.attempts
    · exact hHalted.attempts

end Halted

/- Only an activation ends a stop. -/
theorem halted_moves
    {attempts : List Attempt} (hHalted : Halted name attempts s)
    (hOther : ¬Activates name a)
    (hMoves : Moves t defaultSocket maxRestarts s a s') :
    Halted name attempts s' := by
  have hOfCarried : ∀ changed,
      CarriedAll s.registry changed →
        ∀ e, changed.get? name = some e →
          ∃ e₀, s.registry.get? name = some e₀ ∧
            (e₀.state = .stopped → e.state = .stopped) := by
    intro changed hAll e hGet
    rcases hAll name e hGet with ⟨e₀, hGet₀, hCarried⟩
    exact ⟨e₀, hGet₀, hCarried.stopped⟩
  cases hMoves with
  | tick time => exact ⟨hHalted.stopped, hHalted.unchecked, hHalted.attempts⟩
  | command command reading changed hRun =>
    refine hHalted.command ?_ hRun
    intro hSame
    exact hOther ⟨command, reading, rfl, hSame⟩
  | beginPass hPhase => exact hHalted.frame rfl rfl fun _ _ h => by cases h
  | refreshIds changes hPhase =>
    exact hHalted.wrote
      (hOfCarried _ (carried_refreshIds changes _)) rfl rfl
      fun _ _ h => by cases h
  | applyMarkers ends hPhase =>
    exact hHalted.wrote
      (hOfCarried _ (carried_applyMarkers ends _)) rfl rfl
      fun _ _ h => by cases h
  | plan ans hPhase => exact hHalted.frame rfl rfl fun _ _ h => by cases h
  | classify plans hPhase =>
    exact hHalted.wrote
      (hOfCarried _ (carried_classify maxRestarts plans
        (([], []), s.registry))) rfl rfl
      fun _ _ h => by cases h
  | healthy _ _ | drop _ _ _ _ | skip _ _ _ _ _ _ =>
    exact hHalted.frame rfl rfl fun _ _ h => by cases h
  | check candidates other ans e id hPhase hCandidate hGet
      hActive hLost hId hFresh =>
      exact hHalted.check hGet hActive
  | settle candidates other registeredAt outcome attempted
      reading now out changed hPhase hNow hRun =>
      refine hHalted.wrote ?_ rfl rfl fun _ _ h => by cases h
      intro e hGet
      rcases settle_spec hRun hGet with ⟨e₀, hGet₀, hAppended, -⟩
      refine ⟨e₀, hGet₀, ?_⟩
      rw [hAppended.stopped]
      exact id
  | launch candidates p ans hPhase => exact hHalted.launch hPhase ans
  | record candidates p time changed hPhase hRun =>
    refine hHalted.wrote ?_ rfl rfl fun _ _ h => by cases h
    intro e hGet
    rcases recordResumed_spec hRun hGet with ⟨e₀, hGet₀, hAppended, -⟩
    refine ⟨e₀, hGet₀, ?_⟩
    rw [hAppended.stopped]
    exact id
  | endPass candidates hPhase =>
    exact hHalted.frame rfl rfl fun _ _ h => by cases h

-- Runs

/- What holds of the supervisor in every state of its runs. -/
structure Restrained
    (t : Text) (defaultSocket : String) (maxRestarts : ℕ) (s : System) :
    Prop where
  hourly : ∀ name generation w,
    attemptsWithin s.log name generation w ≤ maxRestarts
  oncePerPass : ∀ pass conversation, attemptsOf s.log pass conversation ≤ 1
  justified : ∀ a ∈ s.log, Justified a.agent
  stops : ∀ plans p e,
    s.phase = .planned plans true → p ∈ plans →
      s.registry.get? p.name = some e →
      sameAsPlanned p e = true → p.obs = .lost →
      p.pre = none →
      s.clock ≤ s.passNow + (day - hour) →
      maxRestarts ≤ attemptsSince s.log p.name
        (s.generations p.name) (s.passNow - hour) →
        ∃ e', (s.step t defaultSocket maxRestarts
            .classify).registry.get? p.name = some e' ∧
          e'.state = .stopped
  staysStopped : ∀ name e s',
    s.registry.get? name = some e → e.state = .stopped →
      Reaches (System.step t defaultSocket maxRestarts)
        (fun _ a => ¬Activates name a) s s' →
        attemptsOn s'.log name = attemptsOn s.log name ∧
          ∀ e', s'.registry.get? name = some e' → e'.state = .stopped

/- The invariants of a run whose steps are heeded. -/
structure Supervised
    (t : Text) (maxRestarts : ℕ) (first last : ℤ) (s : System) :
    Prop where
  clocked : Clocked first last s
  counted : Counted t maxRestarts s
  passes : PassInv s
  checks : ChecksActive s

theorem supervised_step
    (hExact : ∀ z, first ≤ z → z ≤ last → t.chrono.Exact z)
    (s : System) (a : Action) (hInv : Supervised t maxRestarts first last s)
    (hHeeded : Heeded last s a) :
    Supervised t maxRestarts first last
      (s.step t defaultSocket maxRestarts a) := by
  have hStep :
      s.step t defaultSocket maxRestarts a = s ∨
        Moves t defaultSocket maxRestarts s a
          (s.step t defaultSocket maxRestarts a) := step_moves s a
  rcases hStep with hSame | hMoves
  · rw [hSame]
    exact hInv
  · refine ⟨?_, ?_, ?_, ?_⟩
    · refine clocked_moves hInv.clocked ?_ hMoves
      intro time hTick
      rw [hTick] at hHeeded
      exact hHeeded
    · exact counted_moves hExact hInv.counted hInv.clocked hHeeded hMoves
    · refine passInv_moves hInv.passes ?_ hMoves
      intro ans hLaunch
      rw [hLaunch] at hHeeded
      exact hHeeded
    · exact checksActive_moves hInv.checks hMoves

variable {e : Entry}

/- The agent over the limit is stopped when it is lost. -/
theorem stops_of_supervised
    {plans : List Plan} {p : Plan}
    (hInv : Supervised t maxRestarts first last s)
    (hPhase : s.phase = .planned plans true) (hPlan : p ∈ plans)
    (hGet : s.registry.get? p.name = some e)
    (hSame : sameAsPlanned p e = true) (hLost : p.obs = .lost)
    (hPre : p.pre = none) (hInTime : s.clock ≤ s.passNow + (day - hour))
    (hFull : maxRestarts ≤ attemptsSince s.log p.name
      (s.generations p.name) (s.passNow - hour)) :
    ∃ e', (s.step t defaultSocket maxRestarts
        .classify).registry.get? p.name = some e' ∧
      e'.state = .stopped := by
  have hWithin : maxRestarts ≤
      restartsWithin t.chrono e.restarts s.passNow hour :=
    hFull.trans (hInv.counted.attemptsSince_le hInv.clocked
      hPhase hInTime hGet)
  rcases stopped_of_classifyAll
      (hInv.counted.plans plans true hPhase) hPlan hGet hSame
      hLost hPre hWithin with ⟨e₁, hGet₁, hStopped⟩
  have hStep :
      (s.step t defaultSocket maxRestarts .classify).registry =
      prunedEntries t s.passNow
        (classifyAll t.chrono s.passNow maxRestarts plans s.registry).2 := by
    simp [System.step, hPhase, System.supervise, System.wrote,
      Agent.classify, classifyAll]
  rw [hStep, prunedEntries, Dict.get?_mapValues, hGet₁]
  exact ⟨_, rfl, hStopped⟩

theorem staysStopped_of_supervised
    (hInv : Supervised t maxRestarts first last s)
    (hGet : s.registry.get? name = some e) (hStopped : e.state = .stopped)
    (hRun : Reaches (System.step t defaultSocket maxRestarts)
      (fun _ a => ¬Activates name a) s s') :
    attemptsOn s'.log name = attemptsOn s.log name ∧
      ∀ e', s'.registry.get? name = some e' → e'.state = .stopped := by
  have hHere : Halted name (attemptsOn s.log name) s := by
    refine ⟨?_, ?_, rfl⟩
    · intro e' hGet'
      rw [hGet] at hGet'
      rw [← Option.some.inj hGet']
      exact hStopped
    · intro candidates p hPhase hSame
      rw [← hSame] at hGet
      exact hInv.checks candidates p hPhase e hGet hStopped
  have hThere : Halted name (attemptsOn s.log name) s' := by
    refine hRun.invariant _ ?_ hHere
    intro u a hHalted hOther
    have hStep :
        u.step t defaultSocket maxRestarts a = u ∨
          Moves t defaultSocket maxRestarts u a
            (u.step t defaultSocket maxRestarts a) := step_moves u a
    rcases hStep with hSame | hMoves
    · rw [hSame]
      exact hHalted
    · exact halted_moves hHalted hOther hMoves
  exact ⟨hThere.attempts, hThere.stopped⟩

/-
  In a run whose steps are heeded the supervisor keeps to its
  restart limit.
-/
theorem restrained_of_reaches
    {reg : Registry} {clock : ℤ}
    (hExact : ∀ z, first ≤ z → z ≤ last → t.chrono.Exact z)
    (hFirst : first ≤ clock) (hLast : clock ≤ last)
    (hRun : Reaches (System.step t defaultSocket maxRestarts)
      (Heeded last) (System.initial reg clock) s) :
    Restrained t defaultSocket maxRestarts s := by
  have hStart :
      Supervised t maxRestarts first last (System.initial reg clock) :=
    ⟨clocked_initial hFirst hLast reg,
      counted_initial t maxRestarts reg clock,
      passInv_initial reg clock,
      checksActive_of_phase fun _ _ h => by cases h⟩
  have hInv : Supervised t maxRestarts first last s :=
    hRun.invariant (Supervised t maxRestarts first last)
      (supervised_step hExact) hStart
  refine ⟨hInv.counted.bounded, hInv.passes.once,
    hInv.passes.justified, ?_, ?_⟩
  · intro plans p e hPhase hPlan hGet hSame hLost hPre hInTime hFull
    exact stops_of_supervised hInv hPhase hPlan hGet hSame
      hLost hPre hInTime hFull
  · intro name e s' hGet hStopped hMore
    exact staysStopped_of_supervised hInv hGet hStopped hMore

/- The instants at three minutes, as they are written. -/
def minutes : List (ℤ × String) :=
  [(0, "1970-01-01T00:00:00Z"), (60, "1970-01-01T00:01:00Z"),
    (120, "1970-01-01T00:02:00Z")]

def minuteText : Text where
  chrono :=
    { format := fun z => minutes.lookup z
      parse := fun s =>
        (minutes.find? (·.2 == s)).map Prod.fst }
  printed := fun reg => 800 * reg.entries.length

/- One active agent, whose process and session are lost. -/
def builderRegistry : Registry :=
  Dict.empty.insert "builder"
    (builderLaunch.intoEntry unixEpoch "0123456789abcdef0123456789abcdef")

def lostAnswers : Answers where
  live := fun _ => .notRunning
  session := fun _ _ => .absent
  pre := fun _ => none

def startedAnswers : LaunchAnswers where
  server := .present
  scope := .ok .missing
  hasSession := .absent
  plain := .ok ()

/- A pass up to the launch of the lost agent. -/
def launchBuilder : List Action :=
  [.beginPass, .plan lostAnswers, .classify,
    .check "builder" lostAnswers, .launch startedAnswers]

def startBuilder (launchId : String) : Action :=
  .command (.start "builder" launchId builderLaunch launchId) 120

theorem restrained_of_first_launch :
    Restrained minuteText "/tmp/tmux-1000/default" 1
        (launchBuilder.foldl
          (System.step minuteText "/tmp/tmux-1000/default" 1)
          (System.initial builderRegistry 0)) ∧
      (launchBuilder.foldl
        (System.step minuteText "/tmp/tmux-1000/default" 1)
        (System.initial builderRegistry 0)).log.length = 1 := by
  refine ⟨?_, by decide +kernel⟩
  have hExact : ∀ z : ℤ, 0 ≤ z → z ≤ 0 → minuteText.chrono.Exact z := by
    intro z hLow hHigh
    have hZero : z = 0 := le_antisymm hHigh hLow
    rw [hZero]
    change parseTs minuteText.chrono (fmtTs minuteText.chrono 0) = some 0
    decide +kernel
  apply restrained_of_reaches hExact (le_refl 0) (le_refl 0)
  have hStart :
      Reaches
        (System.step minuteText "/tmp/tmux-1000/default" 1)
        (Heeded 0) (System.initial builderRegistry 0)
        (System.initial builderRegistry 0) := Reaches.refl _
  have hPlanned := (hStart.tail .beginPass trivial).tail
    (.plan lostAnswers) trivial
  refine ((hPlanned.tail .classify ?_).tail
    (.check "builder" lostAnswers) trivial).tail
    (.launch startedAnswers) ?_
  · change (0 : ℤ) ≤ 0 + (day - hour)
    decide
  · intro candidates p hPhase a ha
    cases ha

/-
  The wrapper of a resumed agent ends before its launch is
  recorded: the launch is not counted, and after a start by
  the user the agent is launched again within the hour.
-/
theorem unrecorded_launch_is_repeated :
    ∃ s, Reaches
        (System.step minuteText "/tmp/tmux-1000/default" 1)
        (fun _ _ => True) (System.initial builderRegistry 0)
        s ∧
      1 < attemptsWithin s.log "builder" 0 0 :=
  ⟨(launchBuilder ++
      [startBuilder "00000000000000000000000000000001",
        .command (.markEnded "builder" "00000000000000000000000000000001") 0,
        .record, .endPass, .tick 60,
        startBuilder "00000000000000000000000000000002",
        .tick 120] ++ launchBuilder).foldl
      (System.step minuteText "/tmp/tmux-1000/default" 1)
      (System.initial builderRegistry 0),
    Reaches.foldl _ (fun _ _ _ => trivial) _,
    by decide +kernel⟩

end Agent
