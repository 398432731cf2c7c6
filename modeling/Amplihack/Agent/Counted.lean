import Amplihack.Agent.Accounts

/-
  Every launch of a registration is among the restarts of its
  entry, or is about to be.
-/

-- The Invariant

namespace Agent

open Base

structure Counted
    (t : Text) (maxRestarts : ℕ) (s : System) :
    Prop where
  generations : ∀ a ∈ s.log, a.agent.generation ≤ s.generations a.agent.name
  counted : ∀ name e, s.registry.get? name = some e →
    ∀ w, s.clock - day ≤ w →
      attemptsSince s.log name (s.generations name) w ≤
        restartsBetween t.chrono e.restarts w s.reading +
          owes s.phase name (s.generations name)
  plans : ∀ plans write, s.phase = .planned plans write →
    (plans.map Plan.name).Nodup
  distinct : (s.phase.candidates.map Candidate.name).Nodup
  room : ∀ candidate ∈ s.phase.candidates,
    attemptsSince s.log candidate.name
      (s.generations candidate.name) (s.passNow - hour) < maxRestarts
  checked : ∀ candidates p,
    s.phase = .checked candidates p →
      attemptsSince s.log p.name p.generation
          (s.passNow - hour) < maxRestarts ∧
        p.name ∉ candidates.map Candidate.name
  pending : ∀ p, s.phase.pending = some p →
    p.generation ≤ s.generations p.name ∧
      (p.generation = s.generations p.name →
        ∀ e, s.registry.get? p.name = some e →
          e.registeredAt = p.registeredAt)
  settled : ∀ candidates name registeredAt outcome p,
    s.phase = .settling candidates name registeredAt outcome
      (some p) →
      name = p.name ∧ registeredAt = p.registeredAt
  bounded : ∀ name generation w,
    attemptsWithin s.log name generation w ≤ maxRestarts

theorem counted_initial
    (t : Text) (maxRestarts : ℕ) (reg : Registry) (clock : ℤ) :
    Counted t maxRestarts (System.initial reg clock) where
  generations := by simp [System.initial]
  counted := by
    intro name e _ w _
    simp [System.initial, attemptsSince, attemptsFor]
  plans := by simp [System.initial]
  distinct := by simp [System.initial, Phase.candidates]
  room := by simp [System.initial, Phase.candidates]
  checked := by simp [System.initial]
  pending := by simp [System.initial, Phase.pending]
  settled := by simp [System.initial]
  bounded := by
    simp [System.initial, attemptsWithin, attemptsFor]

theorem get?_prunedEntries
    {t : Text} {now : ℤ} {reg : Registry} {name : String} {e : Entry}
    (hGet : (prunedEntries t now reg).get? name = some e) :
    ∃ e', reg.get? name = some e' ∧
      e.restarts = pruneRestarts t.chrono e'.restarts now ∧
      e.registeredAt = e'.registeredAt ∧
      e.state = e'.state := by
  rw [prunedEntries, Dict.get?_mapValues, Option.map_eq_some_iff] at hGet
  rcases hGet with ⟨e', hOld, rfl⟩
  exact ⟨e', hOld, rfl, rfl, rfl⟩

/- A write's pruning keeps what the counts are about. -/
theorem restartsBetween_pruned
    {c : Chrono} {restarts : List String}
    {clock reading now w : ℤ} (hNow : now ≤ clock)
    (hReading : reading ≤ now + futureSlack) (hRecent : clock - day ≤ w) :
    restartsBetween c (pruneRestarts c restarts now) w reading =
      restartsBetween c restarts w reading :=
  restartsBetween_pruneRestarts (by omega) hReading

-- Writes That Add No Launch

namespace Counted

variable {t : Text}
variable {maxRestarts : ℕ}
variable {s s' : System}

/- A phase that follows one without a launch to record. -/
structure Follows (s : System) (phase : Phase) : Prop where
  owed : phase.owed = none
  pending : phase.pending = none
  plans : ∀ plans write, phase = .planned plans write →
    (plans.map Plan.name).Nodup
  candidates : (phase.candidates.map Candidate.name).Nodup

variable {phase : Phase}

/- The supervisor goes on without a write of the registry. -/
theorem follow
    (hCounted : Counted t maxRestarts s)
    (hOwed : s.phase.owed = none) (hFollows : Follows s phase)
    (hRoom : ∀ candidate ∈ phase.candidates, candidate ∈ s.phase.candidates) :
    Counted t maxRestarts { s with phase := phase } where
  generations := hCounted.generations
  counted := by
    intro name e hGet w hRecent
    have hLe := hCounted.counted name e hGet w hRecent
    simp only [owes, hOwed, hFollows.owed] at hLe ⊢
    exact hLe
  plans := hFollows.plans
  distinct := hFollows.candidates
  room := by
    intro candidate hMem
    exact hCounted.room candidate (hRoom candidate hMem)
  checked := by
    intro candidates p hChecked
    have hNone := hFollows.pending
    change phase = _ at hChecked
    rw [hChecked] at hNone
    cases hNone
  pending := by
    intro p hPending
    have hNone := hFollows.pending
    change phase.pending = _ at hPending
    rw [hPending] at hNone
    cases hNone
  settled := by
    intro candidates name registeredAt outcome p hSettling
    have hNone := hFollows.pending
    change phase = _ at hSettling
    rw [hSettling] at hNone
    cases hNone
  bounded := hCounted.bounded

variable {changed : Registry}

/-
  The supervisor writes a registry whose restarts cover the
  launch that was owed.
-/
theorem wrote
    {now reading : ℤ} (hCounted : Counted t maxRestarts s)
    (hTimes : ∀ a ∈ s.log, a.time ≤ reading)
    (hCovers : ∀ name e, changed.get? name = some e →
      ∃ e₀, s.registry.get? name = some e₀ ∧
        ∀ w, w ≤ reading →
          restartsBetween t.chrono e₀.restarts w s.reading +
              owes s.phase name (s.generations name) ≤
            restartsBetween t.chrono e.restarts w reading)
    (hNow : now ≤ s.clock)
    (hReading : reading ≤ now + futureSlack)
    (hFollows : Follows s phase)
    (hRoom : ∀ candidate ∈ phase.candidates,
      attemptsSince s.log candidate.name
        (s.generations candidate.name) (s.passNow - hour) < maxRestarts) :
    Counted t maxRestarts
      { s with
        reading := reading
        registry := prunedEntries t now changed
        phase := phase } where
  generations := hCounted.generations
  counted := by
    intro name e hGet w hRecent
    rcases get?_prunedEntries hGet with ⟨e₁, hGet₁, hRestarts, -, -⟩
    rcases hCovers name e₁ hGet₁ with ⟨e₀, hGet₀, hCover⟩
    by_cases hLate : w ≤ reading
    · have hLe := hCounted.counted name e₀ hGet₀ w hRecent
      have hMore := hCover w hLate
      have hPruned :
          restartsBetween t.chrono e.restarts w reading =
            restartsBetween t.chrono e₁.restarts w
              reading := by
        rw [hRestarts]
        exact restartsBetween_pruned hNow hReading hRecent
      exact (hLe.trans hMore).trans
        (hPruned.symm.le.trans (Nat.le_add_right _ _))
    · have hNone :
          attemptsSince s.log name (s.generations name) w =
            0 :=
        attemptsSince_eq_zero_of_late hTimes (not_le.mp hLate)
      exact hNone.le.trans (Nat.zero_le _)
  plans := hFollows.plans
  distinct := hFollows.candidates
  room := hRoom
  checked := by
    intro candidates p hChecked
    have hNone := hFollows.pending
    change phase = _ at hChecked
    rw [hChecked] at hNone
    cases hNone
  pending := by
    intro p hPending
    have hNone := hFollows.pending
    change phase.pending = _ at hPending
    rw [hPending] at hNone
    cases hNone
  settled := by
    intro candidates name registeredAt outcome p hSettling
    have hNone := hFollows.pending
    change phase = _ at hSettling
    rw [hSettling] at hNone
    cases hNone
  bounded := hCounted.bounded

theorem owes_eq_zero
    (hOwed : phase.owed = none) (name : String) (generation : ℕ) :
    owes phase name generation = 0 := by
  simp [owes, hOwed]

variable {first last : ℤ}

/- A write of the pass itself, where nothing is owed. -/
theorem wrote_carried
    (hCounted : Counted t maxRestarts s) (hClock : Clocked first last s)
    (hEarly : s.phase.isEarly = true)
    (hCarried : CarriedAll s.registry changed)
    (hOwed : s.phase.owed = none) (hFollows : Follows s phase)
    (hRoom : ∀ candidate ∈ phase.candidates,
      attemptsSince s.log candidate.name
        (s.generations candidate.name) (s.passNow - hour) < maxRestarts) :
    Counted t maxRestarts
      { s with
        registry := prunedEntries t s.passNow changed
        phase := phase } := by
  have hPassNow : s.reading = s.passNow := hClock.early hEarly
  have hSlack : s.reading ≤ s.passNow + futureSlack := by
    rw [hPassNow, futureSlack]
    omega
  refine hCounted.wrote hClock.times ?_
    (hClock.passNow.trans hClock.reading) hSlack hFollows
    hRoom
  intro name e hGet
  rcases hCarried name e hGet with ⟨e₀, hGet₀, hCarry⟩
  refine ⟨e₀, hGet₀, ?_⟩
  intro w _
  rw [owes_eq_zero hOwed, hCarry.restarts]
  exact le_refl _

theorem refreshIds
    (changes : List IdChange) (hCounted : Counted t maxRestarts s)
    (hClock : Clocked first last s) (hPhase : s.phase = .began) :
    Counted t maxRestarts
      { s with
        registry := prunedEntries t s.passNow
          (changes.foldl refreshId s.registry)
        phase := .began } := by
  refine hCounted.wrote_carried hClock (by rw [hPhase]; rfl)
    (carried_refreshIds changes s.registry)
    (by rw [hPhase]; rfl) ⟨rfl, rfl, ?_, List.nodup_nil⟩ ?_
  · intro plans write h
    cases h
  · intro candidate hMem
    cases hMem

theorem applyMarkers
    (ends : List MarkerEnd) (hCounted : Counted t maxRestarts s)
    (hClock : Clocked first last s) (hPhase : s.phase = .began) :
    Counted t maxRestarts
      { s with
        registry := prunedEntries t s.passNow
          (ends.foldl (applyMarker t.chrono s.passNow) s.registry)
        phase := .began } := by
  refine hCounted.wrote_carried hClock (by rw [hPhase]; rfl)
    (carried_applyMarkers ends s.registry)
    (by rw [hPhase]; rfl) ⟨rfl, rfl, ?_, List.nodup_nil⟩ ?_
  · intro plans write h
    cases h
  · intro candidate hMem
    cases hMem

variable {plans : List Plan}

/- Launches of the last hour are counted when classifying. -/
theorem attemptsSince_le
    {write : Bool} {name : String} {e : Entry}
    (hCounted : Counted t maxRestarts s) (hClock : Clocked first last s)
    (hPhase : s.phase = .planned plans write)
    (hInTime : s.clock ≤ s.passNow + (day - hour))
    (hGet : s.registry.get? name = some e) :
    attemptsSince s.log name (s.generations name)
        (s.passNow - hour) ≤
      restartsWithin t.chrono e.restarts s.passNow hour := by
  have hLe := hCounted.counted name e hGet (s.passNow - hour) (by omega)
  have hEarly : s.reading = s.passNow :=
    hClock.early (by rw [hPhase]; rfl)
  rw [owes_eq_zero (by rw [hPhase]; rfl), Nat.add_zero, hEarly] at hLe
  refine hLe.trans (restartsBetween_mono (le_refl _) ?_)
  rw [futureSlack]
  omega

theorem classify
    (hCounted : Counted t maxRestarts s) (hClock : Clocked first last s)
    (hPhase : s.phase = .planned plans true)
    (hInTime : s.clock ≤ s.passNow + (day - hour)) :
    Counted t maxRestarts
      { s with
        registry := prunedEntries t s.passNow
          (classifyAll t.chrono s.passNow maxRestarts plans s.registry).2
        phase := .resuming
          (classifyAll t.chrono s.passNow maxRestarts plans
            s.registry).1.2 } := by
  refine hCounted.wrote_carried hClock (by rw [hPhase]; rfl)
    (carried_classify maxRestarts plans (([], []), s.registry))
    (by rw [hPhase]; rfl) ⟨rfl, rfl, ?_, ?_⟩ ?_
  · intro plans' write h
    cases h
  · exact (hCounted.plans plans true hPhase).sublist
      (sublist_classifyAll plans s.registry)
  · intro candidate hMem
    rcases room_of_classifyAll candidate hMem with ⟨e, hGet, hRoom⟩
    exact (hCounted.attemptsSince_le hClock hPhase hInTime
      hGet).trans_lt hRoom

end Counted

end Agent
