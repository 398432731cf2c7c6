import Amplihack.Agent.Carried

/-
  What a step of the supervisor's system can do.

  Every launch follows a check that found the agent lost, and
  a pass attempts each conversation at most once.
-/

-- Moves

namespace Agent

open Base

def classifyAll
    (c : Chrono) (now : ℤ) (maxRestarts : ℕ) (plans : List Plan)
    (reg : Registry) :
    Classified :=
  plans.foldl (classifyOne c now maxRestarts) (([], []), reg)

def restOf (candidates : List Candidate) (name : String) :
    List Candidate :=
  candidates.filter (·.name != name)

def Answers.pending
    (ans : Answers) (s : System) (name : String) (e : Entry) (id : String) :
    Pending where
  name := name
  registeredAt := e.registeredAt
  generation := s.generations name
  conversation := id
  seen := e
  live := ans.live name
  session := ans.session e.tmuxSocket e.tmuxSession

/-
  The steps that change something, with what is known when
  they are taken.
-/
inductive Moves
    (t : Text) (defaultSocket : String) (maxRestarts : ℕ) (s : System) :
    Action → System → Prop where
| tick (time : ℤ) :
    Moves t defaultSocket maxRestarts s (.tick time)
      { s with clock := max s.clock time }
| command
    (command : Command) (reading : ℤ) (changed : Registry)
    (hRun : command.run t.chrono defaultSocket
      (min reading s.clock) s.registry = .ok ((), changed)) :
    Moves t defaultSocket maxRestarts s
      (.command command reading)
      (System.bump (command.registers s.registry)
        { s with
          registry :=
            prunedEntries t (min reading s.clock) changed })
| beginPass (hPhase : s.phase = .idle) :
    Moves t defaultSocket maxRestarts s .beginPass s.beginPass
| refreshIds
    (changes : List IdChange) (hPhase : s.phase = .began) :
    Moves t defaultSocket maxRestarts s (.refreshIds changes)
      { s with
        registry := prunedEntries t s.passNow
          (changes.foldl refreshId s.registry)
        phase := .began }
| applyMarkers
    (ends : List MarkerEnd) (hPhase : s.phase = .began) :
    Moves t defaultSocket maxRestarts s (.applyMarkers ends)
      { s with
        registry := prunedEntries t s.passNow
          (ends.foldl (applyMarker t.chrono s.passNow) s.registry)
        phase := .began }
| plan (ans : Answers) (hPhase : s.phase = .began) :
    Moves t defaultSocket maxRestarts s (.plan ans)
      { s with
        phase := .planned (plansOf ans s.registry)
          (needsWrite ans s.registry) }
| classify
    (plans : List Plan) (hPhase : s.phase = .planned plans true) :
    Moves t defaultSocket maxRestarts s .classify
      { s with
        registry := prunedEntries t s.passNow
          (classifyAll t.chrono s.passNow maxRestarts plans s.registry).2
        phase := .resuming
          (classifyAll t.chrono s.passNow maxRestarts plans s.registry).1.2 }
| healthy
    (plans : List Plan)
    (hPhase : s.phase = .planned plans false) :
    Moves t defaultSocket maxRestarts s .classify { s with phase := .idle }
| drop
    (candidates : List Candidate) (name : String)
    (ans : Answers) (hPhase : s.phase = .resuming candidates) :
    Moves t defaultSocket maxRestarts s (.check name ans)
      { s with phase := .resuming (restOf candidates name) }
| skip
    (candidates : List Candidate) (name : String)
    (ans : Answers) (registeredAt : String)
    (outcome : Option Outcome)
    (hPhase : s.phase = .resuming candidates) :
    Moves t defaultSocket maxRestarts s (.check name ans)
      { s with
        phase := .settling (restOf candidates name) name
          registeredAt outcome none }
| check
    (candidates : List Candidate) (name : String)
    (ans : Answers) (e : Entry) (id : String)
    (hPhase : s.phase = .resuming candidates)
    (hCandidate : ∃ c ∈ candidates, c.name = name)
    (hGet : s.registry.get? name = some e)
    (hActive : e.state = .active)
    (hLost : ans.observed name e = .lost)
    (hId : e.conversationId = some id)
    (hFresh : id ∉ s.resumed) :
    Moves t defaultSocket maxRestarts s (.check name ans)
      { s with
        phase := .checked (restOf candidates name)
          (ans.pending s name e id) }
| settle
    (candidates : List Candidate) (name registeredAt : String)
    (outcome : Option Outcome) (attempted : Option Pending)
    (reading now : ℤ) (out : Option String)
    (changed : Registry)
    (hPhase : s.phase = .settling candidates name
      registeredAt outcome attempted)
    (hNow : now = max s.reading (min reading s.clock))
    (hRun : settle t.chrono now name registeredAt outcome
      attempted.isSome s.registry = .ok (out, changed)) :
    Moves t defaultSocket maxRestarts s (.settle reading)
      { s with
        reading := now
        registry := prunedEntries t now changed
        phase := .resuming candidates }
| launch
    (candidates : List Candidate) (p : Pending)
    (ans : LaunchAnswers)
    (hPhase : s.phase = .checked candidates p) :
    Moves t defaultSocket maxRestarts s (.launch ans)
      (s.launch candidates p ans)
| record
    (candidates : List Candidate) (p : Pending) (time : ℤ)
    (changed : Registry)
    (hPhase : s.phase = .recording candidates p time)
    (hRun : recordResumed t.chrono time p.name p.registeredAt
      (some p.conversation) p.seen.lostAt
      (some (fmtTs t.chrono time)) s.registry = .ok ((), changed)) :
    Moves t defaultSocket maxRestarts s .record
      { s with
        registry := prunedEntries t time changed
        phase := .resuming candidates }
| endPass
    (candidates : List Candidate)
    (hPhase : s.phase = .resuming candidates) :
    Moves t defaultSocket maxRestarts s .endPass { s with phase := .idle }

-- Steps

variable {t : Text}
variable {defaultSocket : String}
variable {maxRestarts : ℕ}

theorem settle_ok
    (c : Chrono) (now : ℤ) (name registeredAt : String)
    (outcome : Option Outcome) (restart : Bool) (reg : Registry) :
    ∃ out changed,
      settle c now name registeredAt outcome restart reg =
        .ok (out, changed) := by
  rw [settle]
  split
  · split
    · exact ⟨_, _, rfl⟩
    · exact ⟨_, _, rfl⟩
  · exact ⟨_, _, rfl⟩

theorem command_moves
    (s : System) (command : Command) (reading : ℤ) :
    s.command t defaultSocket command reading = s ∨
      Moves t defaultSocket maxRestarts s
        (.command command reading)
        (s.command t defaultSocket command reading) := by
  rw [System.command]
  cases hRun : command.run t.chrono defaultSocket
      (min reading s.clock) s.registry with
  | error message =>
    refine Or.inl ?_
    simp [System.wrote, hRun]
  | ok result =>
    refine Or.inr ?_
    have hWrote : s.wrote t (min reading s.clock)
        (command.run t.chrono defaultSocket (min reading s.clock)) =
        some (result.1, { s with
          registry := prunedEntries t (min reading s.clock)
            result.2 }) := by simp [System.wrote, hRun]
    simp only [hWrote]
    exact Moves.command command reading result.2 hRun

theorem lost_of_outcomeOf
    {obs : Observation} (hIll : obs ≠ .healthy)
    (hNone : outcomeOf obs = none) :
    obs = .lost := by
  cases obs with
  | healthy => exact absurd rfl hIll
  | skipRunning why => cases why <;> simp [outcomeOf] at hNone
  | skipSession why => cases why <;> simp [outcomeOf] at hNone
  | lost => rfl

/- An entry that is read again is left, settled or passed. -/
theorem checkEntry_cases
    (s : System) (rest : List Candidate) (name : String)
    (ans : Answers) (e : Entry) :
    s.checkEntry rest name ans e = .resuming rest ∨
      (∃ outcome, s.checkEntry rest name ans e =
        .settling rest name e.registeredAt outcome none) ∨
      ∃ id, ans.observed name e = .lost ∧
        e.conversationId = some id ∧ id ∉ s.resumed ∧
        s.checkEntry rest name ans e =
          .checked rest (ans.pending s name e id) := by
  rw [System.checkEntry]
  dsimp only
  split
  · split
    · exact Or.inl rfl
    · exact Or.inr (Or.inl ⟨none, rfl⟩)
  · next hIll =>
      split
      · next outcome hOutcome =>
          exact Or.inr (Or.inl ⟨some outcome, rfl⟩)
      · next hOutcome =>
          rw [Option.or_eq_none_iff, Option.or_eq_none_iff]
            at hOutcome
          have hLost : ans.observed name e = .lost :=
            lost_of_outcomeOf hIll hOutcome.1
          split
          · exact Or.inl rfl
          · next id hId =>
              have hFresh : id ∉ s.resumed := by
                have hHeld := hOutcome.2.2
                rw [hId] at hHeld
                simpa using hHeld
              exact Or.inr (Or.inr ⟨id, hLost, hId, hFresh, rfl⟩)

/- The check drops the candidate, settles it or passes it. -/
theorem check_moves
    {s : System} {candidates : List Candidate} (name : String)
    (ans : Answers) (hPhase : s.phase = .resuming candidates) :
    s.check candidates name ans = s ∨
      Moves t defaultSocket maxRestarts s (.check name ans)
        (s.check candidates name ans) := by
  rw [System.check]
  cases hFind : candidates.find? (·.name == name) with
  | none => exact Or.inl rfl
  | some c =>
    refine Or.inr ?_
    have hCandidate : ∃ c ∈ candidates, c.name = name :=
      ⟨c, List.mem_of_find?_eq_some hFind, by
        simpa using List.find?_some hFind⟩
    cases hGet : s.registry.get? name with
    | none => exact Moves.drop candidates name ans hPhase
    | some e =>
      simp only
      split
      · next hSame =>
          simp only [Bool.and_eq_true, beq_iff_eq]
            at hSame
          rcases checkEntry_cases s
              (restOf candidates name) name ans e with
            hDrop | ⟨outcome, hSkip⟩ |
            ⟨id, hLost, hId, hFresh, hCheck⟩
          · rw [← restOf, hDrop]
            exact Moves.drop candidates name ans hPhase
          · rw [← restOf, hSkip]
            exact Moves.skip candidates name ans _ outcome hPhase
          · rw [← restOf, hCheck]
            exact Moves.check candidates name ans e id
              hPhase hCandidate hGet hSame.2 hLost hId
              hFresh
      · exact Moves.drop candidates name ans hPhase

/- A step changes nothing or is one of the moves. -/
theorem step_moves
    (s : System) (a : Action) :
    s.step t defaultSocket maxRestarts a = s ∨
      Moves t defaultSocket maxRestarts s a
        (s.step t defaultSocket maxRestarts a) := by
  cases a with
  | tick time => exact Or.inr (Moves.tick time)
  | command command reading => exact command_moves s command reading
  | beginPass =>
    simp only [System.step]
    split
    · next hPhase => exact Or.inr (Moves.beginPass hPhase)
    · exact Or.inl rfl
  | refreshIds changes =>
    simp only [System.step]
    split
    · next hPhase =>
        exact Or.inr (Moves.refreshIds changes hPhase)
    · exact Or.inl rfl
  | applyMarkers ends =>
    simp only [System.step]
    split
    · next hPhase =>
        exact Or.inr (Moves.applyMarkers ends hPhase)
    · exact Or.inl rfl
  | plan ans =>
    simp only [System.step]
    split
    · next hPhase => exact Or.inr (Moves.plan ans hPhase)
    · exact Or.inl rfl
  | classify =>
    simp only [System.step]
    split
    · next plans hPhase =>
        exact Or.inr (Moves.classify plans hPhase)
    · next plans hPhase =>
        exact Or.inr (Moves.healthy plans hPhase)
    · exact Or.inl rfl
  | check name ans =>
    simp only [System.step]
    split
    · next candidates hPhase =>
        exact check_moves name ans hPhase
    · exact Or.inl rfl
  | settle reading =>
    simp only [System.step]
    split
    · next candidates name registeredAt outcome attempted
          hPhase =>
        refine Or.inr ?_
        rcases settle_ok t.chrono
            (max s.reading (min reading s.clock)) name
            registeredAt outcome attempted.isSome
            s.registry with ⟨out, changed, hRun⟩
        have hSettle :
            s.settle t candidates name registeredAt outcome
              attempted reading =
            { s with
              reading := max s.reading (min reading s.clock)
              registry := prunedEntries t
                (max s.reading (min reading s.clock)) changed
              phase := .resuming candidates } := by
          simp [System.settle, System.supervise, System.wrote, hRun]
        rw [hSettle]
        exact Moves.settle candidates name registeredAt
          outcome attempted reading _ out changed hPhase rfl
          hRun
    · exact Or.inl rfl
  | launch ans =>
    simp only [System.step]
    split
    · next candidates p hPhase =>
        exact Or.inr (Moves.launch candidates p ans hPhase)
    · exact Or.inl rfl
  | record =>
    simp only [System.step]
    split
    · next candidates p time hPhase =>
        exact Or.inr (Moves.record candidates p time _ hPhase rfl)
    · exact Or.inl rfl
  | endPass =>
    simp only [System.step]
    split
    · next candidates hPhase =>
        exact Or.inr (Moves.endPass candidates hPhase)
    · exact Or.inl rfl

end Agent

-- Launches And Their Checks

namespace Agent

open Base

/-
  What the check read was active, and it was answered that
  the agent is not running and its session is absent.
-/
structure Justified (p : Pending) : Prop where
  active : p.seen.state = .active
  notRunning : p.live = .notRunning
  absent : p.session = .absent
  conversation : p.seen.conversationId = some p.conversation
  registered : p.seen.registeredAt = p.registeredAt

/- The launches of one conversation in one pass. -/
def attemptsOf
    (log : List Attempt) (pass : ℕ) (conversation : String) :
    ℕ :=
  (log.filter fun a =>
    a.pass == pass && a.agent.conversation == conversation).length

theorem attemptsOf_cons
    (a : Attempt) (log : List Attempt) (pass : ℕ) (conversation : String) :
    attemptsOf (a :: log) pass conversation =
      (if a.pass = pass ∧ a.agent.conversation = conversation
        then 1 else 0) + attemptsOf log pass conversation := by
  by_cases hSame : a.pass = pass ∧ a.agent.conversation = conversation
  · rw [if_pos hSame, attemptsOf, List.filter_cons_of_pos
      (by simpa using hSame), List.length_cons, attemptsOf,
      Nat.add_comm]
  · rw [if_neg hSame, attemptsOf, List.filter_cons_of_neg
      (by simpa using hSame), attemptsOf, Nat.zero_add]

theorem afterLaunch_ne_checked
    {candidates rest : List Candidate} {p q : Pending}
    {time : ℤ} {result : Launched} :
    System.afterLaunch candidates p time result ≠ .checked rest q := by
  cases result with
  | started _ | failed _ | unknown _ _ => simp [System.afterLaunch]

/-
  The conversation about to be launched was not launched in
  this pass without being started.
-/
def NoRetry (s : System) : Prop :=
  ∀ candidates p, s.phase = .checked candidates p →
    ∀ a ∈ s.log, a.pass = s.pass →
      a.agent.conversation = p.conversation → a.started = true

structure PassInv (s : System) : Prop where
  passes : ∀ a ∈ s.log, a.pass ≤ s.pass
  resumed : ∀ a ∈ s.log, a.pass = s.pass →
    a.started = true → a.agent.conversation ∈ s.resumed
  justified : ∀ a ∈ s.log, Justified a.agent
  checked : ∀ candidates p,
    s.phase = .checked candidates p → Justified p ∧ p.conversation ∉ s.resumed
  once : ∀ pass conversation, attemptsOf s.log pass conversation ≤ 1

theorem passInv_initial (reg : Registry) (clock : ℤ) :
    PassInv (System.initial reg clock) where
  passes := by simp [System.initial]
  resumed := by simp [System.initial]
  justified := by simp [System.initial]
  checked := by simp [System.initial]
  once := by simp [System.initial, attemptsOf]

namespace PassInv

variable {s s' : System}

/- The registry and the clock play no part. -/
theorem frame
    (hInv : PassInv s) (hLog : s'.log = s.log) (hPass : s'.pass = s.pass)
    (hResumed : s'.resumed = s.resumed)
    (hPhase : ∀ candidates p,
      s'.phase = .checked candidates p → s.phase = .checked candidates p) :
    PassInv s' where
  passes := by
    rw [hLog, hPass]
    exact hInv.passes
  resumed := by
    rw [hLog, hPass, hResumed]
    exact hInv.resumed
  justified := by
    rw [hLog]
    exact hInv.justified
  checked := by
    rw [hResumed]
    intro candidates p hChecked
    exact hInv.checked candidates p (hPhase candidates p hChecked)
  once := by
    rw [hLog]
    exact hInv.once

theorem beginPass (hInv : PassInv s) :
    PassInv s.beginPass where
  passes := by
    intro a ha
    exact (hInv.passes a ha).trans (Nat.le_succ _)
  resumed := by
    intro a ha hPass
    have hLe : a.pass ≤ s.pass := hInv.passes a ha
    have hNew : a.pass = s.pass + 1 := hPass
    omega
  justified := hInv.justified
  checked := by
    intro candidates p hChecked
    cases hChecked
  once := hInv.once

/- The conversation of a launch is new to its pass. -/
theorem attemptsOf_eq_zero
    {candidates : List Candidate} {p : Pending} (hInv : PassInv s)
    (hPhase : s.phase = .checked candidates p) (hNoRetry : NoRetry s) :
    attemptsOf s.log s.pass p.conversation = 0 := by
  rw [attemptsOf, List.length_eq_zero_iff, List.filter_eq_nil_iff]
  intro a ha hSame
  simp only [Bool.and_eq_true, beq_iff_eq] at hSame
  have hStarted : a.started = true :=
    hNoRetry candidates p hPhase a ha hSame.1 hSame.2
  have hResumed : a.agent.conversation ∈ s.resumed :=
    hInv.resumed a ha hSame.1 hStarted
  rw [hSame.2] at hResumed
  exact (hInv.checked candidates p hPhase).2 hResumed

theorem launch
    {candidates : List Candidate} {p : Pending} (hInv : PassInv s)
    (hPhase : s.phase = .checked candidates p)
    (hNoRetry : NoRetry s) (ans : LaunchAnswers) :
    PassInv (s.launch candidates p ans) := by
  have hNone : attemptsOf s.log s.pass p.conversation = 0 :=
    hInv.attemptsOf_eq_zero hPhase hNoRetry
  have hJustified : Justified p := (hInv.checked candidates p hPhase).1
  cases hAttempted :
      (s.placement.launch p.seen.tmuxSocket ans).1.attempted with
  | false =>
    have hNotStarted :
        (s.placement.launch p.seen.tmuxSocket ans).1.isStarted =
          false := by
      cases hResult :
          (s.placement.launch p.seen.tmuxSocket ans).1 with
      | started warning =>
        rw [hResult] at hAttempted
        cases hAttempted
      | failed line => rfl
      | unknown reason attempted => rfl
    apply hInv.frame
    · simp [System.launch, hAttempted]
    · rfl
    · simp [System.launch, hNotStarted]
    · intro rest q hChecked
      exact absurd hChecked afterLaunch_ne_checked
  | true =>
    have hLog : ∀ a ∈ (s.launch candidates p ans).log,
        a ∈ s.log ∨
          a.agent = p ∧ a.pass = s.pass ∧
            a.started = (s.placement.launch
              p.seen.tmuxSocket ans).1.isStarted := by
      intro a ha
      simp only [System.launch, hAttempted, if_true, List.mem_cons] at ha
      rcases ha with rfl | hOld
      · exact Or.inr ⟨rfl, rfl, rfl⟩
      · exact Or.inl hOld
    have hResumed : ∀ id ∈ s.resumed,
        id ∈ (s.launch candidates p ans).resumed := by
      intro id hId
      simp only [System.launch]
      split
      · exact List.mem_cons_of_mem _ hId
      · exact hId
    refine ⟨?_, ?_, ?_, ?_, ?_⟩
    · intro a ha
      rcases hLog a ha with hOld | ⟨-, hPass, -⟩
      · exact hInv.passes a hOld
      · exact hPass.le
    · intro a ha hPass hStarted
      rcases hLog a ha with hOld | ⟨hAgent, -, hResult⟩
      · exact hResumed _ (hInv.resumed a hOld hPass hStarted)
      · rw [hStarted] at hResult
        simp [System.launch, ← hResult, hAgent]
    · intro a ha
      rcases hLog a ha with hOld | ⟨hAgent, -, -⟩
      · exact hInv.justified a hOld
      · rw [hAgent]
        exact hJustified
    · intro rest q hChecked
      exact absurd hChecked afterLaunch_ne_checked
    · intro pass conversation
      have hOnce : attemptsOf s.log pass conversation ≤ 1 :=
        hInv.once pass conversation
      simp only [System.launch, hAttempted, if_true]
      rw [attemptsOf_cons]
      split
      · next hSame =>
          rw [← hSame.1, ← hSame.2, hNone]
      · omega

end PassInv

-- Moves

variable {t : Text}
variable {defaultSocket : String}
variable {maxRestarts : ℕ}
variable {s s' : System}

theorem System.bump_frame
    (name : Option String) (s : System) :
    (s.bump name).log = s.log ∧
      (s.bump name).pass = s.pass ∧
      (s.bump name).resumed = s.resumed ∧
      (s.bump name).phase = s.phase := by
  cases name with
  | some _ | none => exact ⟨rfl, rfl, rfl, rfl⟩

theorem passInv_moves
    {a : Action} (hInv : PassInv s)
    (hNoRetry : ∀ ans, a = .launch ans → NoRetry s)
    (hMoves : Moves t defaultSocket maxRestarts s a s') :
    PassInv s' := by
  cases hMoves with
  | tick time => exact hInv.frame rfl rfl rfl fun _ _ h => h
  | command command reading changed hRun =>
    rcases System.bump_frame
        (command.registers s.registry)
        { s with
          registry := prunedEntries t (min reading s.clock)
            changed } with
      ⟨hLog, hPass, hResumed, hPhase⟩
    refine hInv.frame hLog hPass hResumed ?_
    intro candidates p hChecked
    rw [hPhase] at hChecked
    exact hChecked
  | beginPass hPhase => exact hInv.beginPass
  | refreshIds changes hPhase =>
    exact hInv.frame rfl rfl rfl fun _ _ h => by cases h
  | applyMarkers ends hPhase =>
    exact hInv.frame rfl rfl rfl fun _ _ h => by cases h
  | plan ans hPhase => exact hInv.frame rfl rfl rfl fun _ _ h => by cases h
  | classify plans hPhase =>
    exact hInv.frame rfl rfl rfl fun _ _ h => by cases h
  | healthy plans hPhase =>
    exact hInv.frame rfl rfl rfl fun _ _ h => by cases h
  | drop candidates name ans hPhase =>
    exact hInv.frame rfl rfl rfl fun _ _ h => by cases h
  | skip candidates name ans registeredAt outcome hPhase =>
    exact hInv.frame rfl rfl rfl fun _ _ h => by cases h
  | check candidates name ans e id hPhase hCandidate hGet
      hActive hLost hId hFresh =>
      rw [Answers.observed, observe_eq_lost_iff] at hLost
      refine ⟨hInv.passes, hInv.resumed, hInv.justified, ?_, hInv.once⟩
      intro rest p hChecked
      cases hChecked
      exact ⟨⟨hActive, hLost.1, hLost.2, hId, rfl⟩, hFresh⟩
  | settle candidates name registeredAt outcome attempted
      reading now out changed hPhase hNow hRun =>
      exact hInv.frame rfl rfl rfl fun _ _ h => by cases h
  | launch candidates p ans hPhase =>
    exact hInv.launch hPhase (hNoRetry ans rfl) ans
  | record _ _ _ _ _ _ | endPass _ _ =>
    exact hInv.frame rfl rfl rfl fun _ _ h => by cases h

end Agent
