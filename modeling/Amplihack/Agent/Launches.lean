import Amplihack.Agent.Counted

/-
  Commands, checks and launches keep the launches counted.
-/

-- Commands

namespace Agent

open Base

variable {t : Text}
variable {defaultSocket : String}
variable {maxRestarts : ℕ}
variable {first last : ℤ}
variable {s s' : System}

theorem System.bump_generations
    (name : Option String) (s : System) (other : String) :
    (s.bump name).generations other =
      if name = some other then s.generations other + 1
      else s.generations other := by
  cases name with
  | none => simp [System.bump]
  | some name =>
    by_cases hSame : name = other
    · simp [System.bump, hSame]
    · have hNe : other ≠ name := fun h => hSame h.symm
      simp [System.bump, hSame, hNe]

theorem System.bump_registry
    (name : Option String) (s : System) :
    (s.bump name).registry = s.registry := by
  cases name with
  | some _ | none => rfl

namespace Counted

/- A command counts its registration and owes nothing new. -/
theorem command
    {changed : Registry} {now : ℤ} {command : Command}
    (hCounted : Counted t maxRestarts s) (hNow : now ≤ s.clock)
    (hReading : s.reading ≤ now + futureSlack)
    (hRun : command.run t.chrono defaultSocket now
      s.registry = .ok ((), changed)) :
    Counted t maxRestarts
      (System.bump (command.registers s.registry)
        { s with registry := prunedEntries t now changed }) := by
  rcases System.bump_frame (command.registers s.registry)
      { s with registry := prunedEntries t now changed } with
    ⟨hLog, -, -, hPhase⟩
  rcases System.bump_clock (command.registers s.registry)
      { s with registry := prunedEntries t now changed } with
    ⟨hPassNow, hRead, hClock⟩
  have hGen := System.bump_generations
    (command.registers s.registry)
    { s with registry := prunedEntries t now changed }
  have hRegistry := System.bump_registry
    (command.registers s.registry)
    { s with registry := prunedEntries t now changed }
  simp only at hLog hPhase hPassNow hRead hClock hGen hRegistry
  -- a new registration has no launch yet
  have hNew : ∀ name w,
      command.registers s.registry = some name →
        attemptsSince s.log name (s.generations name + 1) w =
          0 := by
    intro name w _
    apply attemptsSince_eq_zero_of_new
    intro a ha hName
    have hLe := hCounted.generations a ha
    rw [hName] at hLe
    omega
  refine ⟨?_, ?_, ?_, ?_, ?_, ?_, ?_, ?_, ?_⟩
  · intro a ha
    rw [hLog] at ha
    rw [hGen]
    have hLe := hCounted.generations a ha
    split
    · omega
    · exact hLe
  · intro name e hGet w hRecent
    rw [hRegistry] at hGet
    rw [hClock] at hRecent
    rw [hLog, hPhase, hRead, hGen]
    rcases get?_prunedEntries hGet with ⟨e₁, hGet₁, hRestarts, -, -⟩
    rcases (carried_command hRun hGet₁).1 with
      hRegisters | ⟨e₀, hGet₀, hSame, -, -⟩
    · rw [if_pos hRegisters, hNew name w hRegisters]
      exact Nat.zero_le _
    · split
      · next hRegisters =>
          rw [hNew name w hRegisters]
          exact Nat.zero_le _
      · rw [hRestarts, restartsBetween_pruned hNow hReading hRecent, hSame]
        exact hCounted.counted name e₀ hGet₀ w hRecent
  · rw [hPhase]
    exact hCounted.plans
  · rw [hPhase]
    exact hCounted.distinct
  · rw [hPhase]
    intro candidate hMem
    have hRoom := hCounted.room candidate hMem
    rw [hLog, hPassNow, hGen]
    split
    · next hRegisters =>
        rw [hNew candidate.name _ hRegisters]
        omega
    · exact hRoom
  · rw [hPhase, hLog, hPassNow]
    exact hCounted.checked
  · rw [hPhase]
    intro p hPending
    rcases hCounted.pending p hPending with ⟨hLe, hSame⟩
    rw [hGen, hRegistry]
    split
    · exact ⟨by omega, fun hEq => by omega⟩
    · next hOther =>
        refine ⟨hLe, ?_⟩
        intro hEq e hGet
        rcases get?_prunedEntries hGet with ⟨e₁, hGet₁, -, hRegistered, -⟩
        rcases (carried_command hRun hGet₁).1 with
          hRegisters | ⟨e₀, hGet₀, -, hKept, -⟩
        · exact absurd hRegisters hOther
        · rw [hRegistered, hKept]
          exact hSame hEq e₀ hGet₀
  · rw [hPhase]
    exact hCounted.settled
  · rw [hLog]
    exact hCounted.bounded

-- Checks And Launches

variable {candidates : List Candidate}

theorem restOf_nodup
    (hNodup : (candidates.map Candidate.name).Nodup) (name : String) :
    ((restOf candidates name).map Candidate.name).Nodup :=
  hNodup.sublist (List.filter_sublist.map _)

variable {name : String}

theorem mem_of_mem_restOf
    {candidate : Candidate} (hMem : candidate ∈ restOf candidates name) :
    candidate ∈ candidates ∧ candidate.name ≠ name := by
  rw [restOf, List.mem_filter] at hMem
  simpa using hMem

/- The candidate whose check passed is about to launch. -/
theorem check
    {ans : Answers} {e : Entry} {id : String}
    (hCounted : Counted t maxRestarts s)
    (hPhase : s.phase = .resuming candidates)
    (hCandidate : ∃ c ∈ candidates, c.name = name)
    (hGet : s.registry.get? name = some e) :
    Counted t maxRestarts
      { s with
        phase := .checked (restOf candidates name)
          (ans.pending s name e id) } where
  generations := hCounted.generations
  counted := by
    intro other e' hOther w hRecent
    have hLe := hCounted.counted other e' hOther w hRecent
    rw [owes_eq_zero (by rw [hPhase]; rfl)] at hLe
    exact hLe
  plans := by
    intro plans write h
    cases h
  distinct := by
    have hNodup := hCounted.distinct
    rw [hPhase] at hNodup
    exact restOf_nodup hNodup name
  room := by
    intro candidate hMem
    apply hCounted.room candidate
    rw [hPhase]
    exact (mem_of_mem_restOf hMem).1
  checked := by
    intro rest p hChecked
    cases hChecked
    rcases hCandidate with ⟨c, hMem, rfl⟩
    refine ⟨hCounted.room c (by rw [hPhase]; exact hMem), ?_⟩
    intro hName
    rcases List.mem_map.mp hName with ⟨d, hd, hSame⟩
    exact (mem_of_mem_restOf hd).2 hSame
  pending := by
    intro p hPending
    cases hPending
    refine ⟨le_refl _, ?_⟩
    intro _ e' hGet'
    have hSame : s.registry.get? name = some e' := hGet'
    rw [hGet] at hSame
    rw [← Option.some.inj hSame]
    rfl
  settled := by
    intro rest other registeredAt outcome p h
    cases h
  bounded := hCounted.bounded

theorem afterLaunch_candidates
    (candidates : List Candidate) (p : Pending) (time : ℤ)
    (result : Launched) :
    (System.afterLaunch candidates p time
      result).candidates = candidates := by
  cases result with
  | started _ | failed _ | unknown _ _ => rfl

/- After a launch that counts, it is owed to its entry. -/
theorem afterLaunch_owed
    (candidates : List Candidate) (p : Pending) (time : ℤ)
    (result : Launched) :
    (System.afterLaunch candidates p time result).owed =
        (if result.attempted then some p else none) ∧
      (System.afterLaunch candidates p time result).pending =
        (if result.attempted then some p else none) := by
  cases result with
  | started _ | failed _ | unknown _ _ => exact ⟨rfl, rfl⟩

variable {time : ℤ} {result : Launched}

theorem afterLaunch_settled
    {candidates rest : List Candidate} {p q : Pending}
    {name registeredAt : String} {outcome : Option Outcome}
    (hPhase : System.afterLaunch candidates p time result =
      .settling rest name registeredAt outcome (some q)) :
    name = q.name ∧ registeredAt = q.registeredAt := by
  cases result with
  | started warning => cases hPhase
  | failed line =>
    cases hPhase
    exact ⟨rfl, rfl⟩
  | unknown reason attempted =>
    simp only [System.afterLaunch, Phase.settling.injEq]
      at hPhase
    rcases hPhase with ⟨-, rfl, rfl, -, hAttempted⟩
    cases attempted with
    | false => simp at hAttempted
    | true =>
      rw [if_pos rfl] at hAttempted
      rw [Option.some.inj hAttempted]
      exact ⟨rfl, rfl⟩

variable {p : Pending}

theorem afterLaunch_not_planned
    {plans : List Plan} {write : Bool} :
    System.afterLaunch candidates p time result ≠ .planned plans write := by
  cases result with
  | started _ | failed _ | unknown _ _ => simp [System.afterLaunch]

/- The launch of a registration with room is within bounds. -/
theorem launch
    (hCounted : Counted t maxRestarts s) (hClock : Clocked first last s)
    (hPhase : s.phase = .checked candidates p) (ans : LaunchAnswers) :
    Counted t maxRestarts (s.launch candidates p ans) := by
  rcases hCounted.checked candidates p hPhase with ⟨hRoom, hApart⟩
  have hPending := hCounted.pending p (by rw [hPhase]; rfl)
  rcases afterLaunch_owed candidates p s.clock
      (s.placement.launch p.seen.tmuxSocket ans).1 with
    ⟨hOwed, hNext⟩
  -- the log has one more launch, exactly when it counts
  have hLog : (s.launch candidates p ans).log =
      if (s.placement.launch p.seen.tmuxSocket
          ans).1.attempted then
        { agent := p
          time := s.clock
          pass := s.pass
          started := (s.placement.launch p.seen.tmuxSocket
            ans).1.isStarted } :: s.log
      else s.log := rfl
  refine ⟨?_, ?_, ?_, ?_, ?_, ?_, ?_, ?_, ?_⟩
  · intro a ha
    rw [hLog] at ha
    split at ha
    · rcases List.mem_cons.mp ha with rfl | hOld
      · exact hPending.1
      · exact hCounted.generations a hOld
    · exact hCounted.generations a ha
  · intro name e hGet w hRecent
    have hLe := hCounted.counted name e hGet w hRecent
    rw [owes_eq_zero (by rw [hPhase]; rfl), Nat.add_zero]
      at hLe
    have hMore :
        restartsBetween t.chrono e.restarts w s.reading ≤
          restartsBetween t.chrono e.restarts w s.clock :=
      restartsBetween_mono (le_refl _) hClock.reading
    change attemptsSince (s.launch candidates p ans).log name
        (s.generations name) w ≤
      restartsBetween t.chrono e.restarts w s.clock +
        owes (System.afterLaunch candidates p s.clock
          (s.placement.launch p.seen.tmuxSocket ans).1) name
          (s.generations name)
    rw [hLog, owes, hOwed]
    split
    · rw [attemptsSince_cons]
      by_cases hSame : p.name = name ∧ p.generation = s.generations name
      · simp only [hSame, true_and, and_self, if_true]
        split
        · omega
        · omega
      · have hOther : ¬(p.name = name ∧
            p.generation = s.generations name ∧
            w ≤ s.clock) := fun h => hSame ⟨h.1, h.2.1⟩
        simp only [hOther, hSame, if_false]
        omega
    · simp only
      omega
  · intro plans write h
    exact absurd h afterLaunch_not_planned
  · rw [System.launch, afterLaunch_candidates]
    have hNodup := hCounted.distinct
    rw [hPhase] at hNodup
    exact hNodup
  · intro candidate hMem
    rw [System.launch, afterLaunch_candidates] at hMem
    have hOld := hCounted.room candidate (by rw [hPhase]; exact hMem)
    have hNe : p.name ≠ candidate.name := by
      intro hSame
      apply hApart
      rw [hSame]
      exact List.mem_map_of_mem hMem
    rw [hLog]
    split
    · rw [attemptsSince_cons]
      simp only [hNe, false_and, if_false, Nat.zero_add]
      exact hOld
    · exact hOld
  · intro rest q h
    exact absurd h afterLaunch_ne_checked
  · intro q hq
    change (System.afterLaunch candidates p s.clock
      (s.placement.launch p.seen.tmuxSocket ans).1).pending = some q at hq
    rw [hNext] at hq
    split at hq
    · rw [← Option.some.inj hq]
      exact hPending
    · cases hq
  · intro rest name registeredAt outcome q h
    exact afterLaunch_settled h
  · intro name generation w
    have hOld := hCounted.bounded name generation w
    rw [hLog]
    split
    · rw [attemptsWithin_cons]
      split
      · next hSame =>
          have hStart : s.passNow - hour ≤ w := by
            have hPassNow := hClock.passNow
            have hReading := hClock.reading
            have hEnd : s.clock ≤ w + hour := hSame.2.2.2
            omega
          have hLess :
              attemptsWithin s.log name generation w ≤
                attemptsSince s.log name generation (s.passNow - hour) :=
            attemptsWithin_le hStart
          rw [hSame.1, hSame.2.1] at hRoom
          omega
      · omega
    · exact hOld

end Counted

end Agent
