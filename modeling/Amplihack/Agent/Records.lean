import Amplihack.Agent.Launches

/-
  The records of launches: a launch that is recorded while its
  agent is active becomes one of its restarts.
-/

-- What A Record Adds

namespace Agent

open Base

variable {t : Text}
variable {maxRestarts : ℕ}
variable {first last : ℤ}
variable {s : System}

/- The entry keeps its restarts, and may have one more. -/
structure Appended (c : Chrono) (now : ℤ) (e e' : Entry) :
    Prop where
  restarts : e'.restarts = e.restarts ∨
    e'.restarts = e.restarts ++ [fmtTs c now]
  registeredAt : e'.registeredAt = e.registeredAt
  stopped : e'.state = e.state

variable {c : Chrono} {now : ℤ}

theorem Appended.refl
    (e : Entry) :
    Appended c now e e :=
  ⟨Or.inl rfl, rfl, rfl⟩

theorem settleEntry_restarts
    (c : Chrono) (now : ℤ) (name : String)
    (outcome : Option Outcome) (restart : Bool) (e : Entry) :
    Appended c now e
        (settleEntry c now name outcome restart e).2 ∧
      (restart = true →
        (settleEntry c now name outcome restart e).2.restarts =
          e.restarts ++ [fmtTs c now]) := by
  cases outcome with
  | none =>
    cases restart with
    | false => exact ⟨⟨Or.inl rfl, rfl, rfl⟩, fun h => by cases h⟩
    | true => exact ⟨⟨Or.inr rfl, rfl, rfl⟩, fun _ => rfl⟩
  | some o =>
    simp only [settleEntry]
    rw [recordLine_snd]
    cases restart with
    | false => exact ⟨⟨Or.inl rfl, rfl, rfl⟩, fun h => by cases h⟩
    | true => exact ⟨⟨Or.inr rfl, rfl, rfl⟩, fun _ => rfl⟩

variable {name registeredAt : String} {reg changed : Registry}
variable {other : String} {e : Entry}

/- An entry after a record has its restarts and maybe one. -/
theorem settle_spec
    {outcome : Option Outcome} {restart : Bool} {out : Option String}
    (hRun : settle c now name registeredAt outcome
      restart reg = .ok (out, changed))
    (hGet : changed.get? other = some e) :
    ∃ e₀, reg.get? other = some e₀ ∧ Appended c now e₀ e ∧
      (restart = true → other = name →
        e₀.registeredAt = registeredAt → e₀.state = .active →
          e.restarts = e₀.restarts ++ [fmtTs c now]) := by
  rw [settle] at hRun
  cases hOld : reg.get? name with
  | none =>
    rw [hOld] at hRun
    cases hRun
    refine ⟨e, hGet, Appended.refl e, ?_⟩
    intro _ hSame
    rw [hSame, hOld] at hGet
    cases hGet
  | some e₁ =>
    rw [hOld] at hRun
    simp only at hRun
    split at hRun
    · cases hRun
      rw [Dict.get?_insert] at hGet
      split at hGet
      · next hSame =>
          cases hGet
          rw [hSame]
          rcases settleEntry_restarts c now name outcome
              restart e₁ with ⟨hAppended, hPushed⟩
          exact ⟨e₁, hOld, hAppended, fun hRestart _ _ _ => hPushed hRestart⟩
      · next hOther =>
          exact ⟨e, hGet, Appended.refl e, fun _ hSame => absurd hSame hOther⟩
    · next hGuard =>
        cases hRun
        refine ⟨e, hGet, Appended.refl e, ?_⟩
        intro _ hSame hRegistered hActive
        rw [hSame, hOld] at hGet
        rw [← Option.some.inj hGet] at hRegistered hActive
        exact absurd (by simp [hRegistered, hActive]) hGuard

theorem recordResumed_spec
    {conv lost resumedAt : Option String}
    (hRun : recordResumed c now name registeredAt conv lost
      resumedAt reg = .ok ((), changed))
    (hGet : changed.get? other = some e) :
    ∃ e₀, reg.get? other = some e₀ ∧ Appended c now e₀ e ∧
      (other = name → e₀.registeredAt = registeredAt →
        e₀.state = .active → e.restarts = e₀.restarts ++ [fmtTs c now]) := by
  cases hRun
  rw [changeIf] at hGet
  cases hOld : reg.get? name with
  | none =>
    rw [hOld] at hGet
    refine ⟨e, hGet, Appended.refl e, ?_⟩
    intro hSame
    simp only at hGet
    rw [hSame, hOld] at hGet
    cases hGet
  | some e₁ =>
    rw [hOld] at hGet
    simp only at hGet
    split at hGet
    · rw [Dict.get?_insert] at hGet
      split at hGet
      · next hSame =>
          cases hGet
          rw [hSame]
          exact ⟨e₁, hOld, ⟨Or.inr rfl, rfl, rfl⟩, fun _ _ _ => rfl⟩
      · next hOther =>
          exact ⟨e, hGet, Appended.refl e, fun hSame => absurd hSame hOther⟩
    · next hGuard =>
        refine ⟨e, hGet, Appended.refl e, ?_⟩
        intro hSame hRegistered hActive
        rw [hSame, hOld] at hGet
        rw [← Option.some.inj hGet] at hRegistered hActive
        exact absurd (by simp [hRegistered, hActive]) hGuard

/- The restarts of a record cover the launch it is of. -/
theorem covers_of_appended
    {e₀ e : Entry} {reading w : ℤ} {owed : ℕ}
    (hExact : t.chrono.Exact reading)
    (hLe : s.reading ≤ reading) (hBelow : w ≤ reading)
    (hAppended : Appended t.chrono reading e₀ e) (hOne : owed ≤ 1)
    (hPushed : owed ≠ 0 →
      e.restarts = e₀.restarts ++ [fmtTs t.chrono reading]) :
    restartsBetween t.chrono e₀.restarts w s.reading + owed ≤
      restartsBetween t.chrono e.restarts w reading := by
  have hMore :
      restartsBetween t.chrono e₀.restarts w s.reading ≤
        restartsBetween t.chrono e₀.restarts w reading :=
    restartsBetween_mono (le_refl _) hLe
  have hPlus :
      restartsBetween t.chrono
          (e₀.restarts ++ [fmtTs t.chrono reading]) w reading =
        restartsBetween t.chrono e₀.restarts w reading + 1 :=
    restartsBetween_append hExact hBelow (le_refl _)
  by_cases hOwed : owed = 0
  · rcases hAppended.restarts with hSame | hPush
    · rw [hSame]
      omega
    · rw [hPush, hPlus]
      omega
  · rw [hPushed hOwed, hPlus]
    omega

-- Owed Launches

theorem owes_le_one
    (phase : Phase) (name : String) (generation : ℕ) :
    owes phase name generation ≤ 1 := by
  rw [owes]
  split
  · split
    · exact le_refl _
    · exact Nat.zero_le _
  · exact Nat.zero_le _

variable {phase : Phase}

theorem owed_of_owes
    {generation : ℕ} (hOwes : owes phase name generation ≠ 0) :
    ∃ p, phase.owed = some p ∧ p.name = name ∧ p.generation = generation := by
  rw [owes] at hOwes
  split at hOwes
  · next p hOwed =>
      split at hOwes
      · next hSame => exact ⟨p, hOwed, hSame.1, hSame.2⟩
      · exact absurd rfl hOwes
  · exact absurd rfl hOwes

/-
  A launch that is recorded now finds its agent active, when
  it is still registered.
-/
def RecordsLaunch (s : System) : Prop :=
  ∀ p, s.phase.owed = some p →
    ∀ e, s.registry.get? p.name = some e →
      e.registeredAt = p.registeredAt → e.state = .active

theorem pending_of_owed
    {p : Pending} (hOwed : phase.owed = some p) :
    phase.pending = some p := by
  cases phase with
  | idle | began | planned _ _ | resuming _ | checked _ _ => cases hOwed
  | settling candidates name registeredAt outcome attempted => exact hOwed
  | recording candidates q time => exact hOwed

namespace Counted

variable {p : Pending}

/- The entry of an owed launch is active and registered so. -/
theorem owed_entry
    {name : String} {e : Entry} (hCounted : Counted t maxRestarts s)
    (hRecords : RecordsLaunch s) (hOwed : s.phase.owed = some p)
    (hName : p.name = name) (hGeneration : p.generation = s.generations name)
    (hGet : s.registry.get? name = some e) :
    e.registeredAt = p.registeredAt ∧ e.state = .active := by
  subst hName
  have hRegistered : e.registeredAt = p.registeredAt :=
    (hCounted.pending p (pending_of_owed hOwed)).2 hGeneration e hGet
  exact ⟨hRegistered, hRecords p hOwed e hGet hRegistered⟩

variable {candidates : List Candidate}

theorem follows_resuming
    (hCounted : Counted t maxRestarts s)
    (hSame : s.phase.candidates = candidates) :
    Follows s (.resuming candidates) := by
  refine ⟨rfl, rfl, ?_, ?_⟩
  · intro plans write h
    cases h
  · have hNodup := hCounted.distinct
    rw [hSame] at hNodup
    exact hNodup

variable {changed : Registry}

theorem settle
    {name registeredAt : String} {outcome : Option Outcome}
    {attempted : Option Pending} {now : ℤ} {out : Option String}
    (hCounted : Counted t maxRestarts s)
    (hClock : Clocked first last s) (hRecords : RecordsLaunch s)
    (hExact : t.chrono.Exact now)
    (hPhase : s.phase = .settling candidates name registeredAt
      outcome attempted)
    (hLe : s.reading ≤ now)
    (hNow : now ≤ s.clock)
    (hRun : Agent.settle t.chrono now name registeredAt
      outcome attempted.isSome s.registry = .ok (out, changed)) :
    Counted t maxRestarts
      { s with
        reading := now
        registry := prunedEntries t now changed
        phase := .resuming candidates } := by
  have hSame : s.phase.candidates = candidates := by
    rw [hPhase]
    rfl
  have hSlack : now ≤ now + futureSlack := by
    rw [futureSlack]
    omega
  refine hCounted.wrote
    (fun a ha => (hClock.times a ha).trans hLe) ?_ hNow hSlack
    (hCounted.follows_resuming hSame) ?_
  · intro other e hGet
    rcases settle_spec hRun hGet with ⟨e₀, hGet₀, hAppended, hPushed⟩
    refine ⟨e₀, hGet₀, ?_⟩
    intro w hBelow
    apply covers_of_appended hExact hLe hBelow hAppended (owes_le_one _ _ _)
    intro hOwes
    rcases owed_of_owes hOwes with ⟨p, hOwed, hName, hGeneration⟩
    have hEntry := hCounted.owed_entry hRecords hOwed hName hGeneration hGet₀
    have hAttempted : attempted = some p := by
      rw [hPhase] at hOwed
      exact hOwed
    subst hAttempted
    have hAgree := hCounted.settled _ _ _ _ p hPhase
    exact hPushed rfl (hName.symm.trans hAgree.1.symm)
      (hEntry.1.trans hAgree.2.symm) hEntry.2
  · intro candidate hMem
    exact hCounted.room candidate (by rw [hSame]; exact hMem)

theorem record
    {time : ℤ} {conv lost resumedAt : Option String}
    (hCounted : Counted t maxRestarts s)
    (hClock : Clocked first last s) (hRecords : RecordsLaunch s)
    (hExact : t.chrono.Exact time)
    (hPhase : s.phase = .recording candidates p time)
    (hRun : recordResumed t.chrono time p.name p.registeredAt
      conv lost resumedAt s.registry = .ok ((), changed)) :
    Counted t maxRestarts
      { s with
        registry := prunedEntries t time changed
        phase := .resuming candidates } := by
  have hTime : time = s.reading := hClock.recorded candidates p time hPhase
  subst hTime
  have hSame : s.phase.candidates = candidates := by
    rw [hPhase]
    rfl
  have hSlack : s.reading ≤ s.reading + futureSlack := by
    rw [futureSlack]
    omega
  refine hCounted.wrote hClock.times ?_ hClock.reading hSlack
    (hCounted.follows_resuming hSame) ?_
  · intro other e hGet
    rcases recordResumed_spec hRun hGet with ⟨e₀, hGet₀, hAppended, hPushed⟩
    refine ⟨e₀, hGet₀, ?_⟩
    intro w hBelow
    apply covers_of_appended hExact (le_refl _) hBelow
      hAppended (owes_le_one _ _ _)
    intro hOwes
    rcases owed_of_owes hOwes with ⟨q, hOwed, hName, hGeneration⟩
    have hEntry := hCounted.owed_entry hRecords hOwed hName hGeneration hGet₀
    have hSamePending : p = q := by
      rw [hPhase] at hOwed
      exact Option.some.inj hOwed
    subst hSamePending
    exact hPushed hName.symm hEntry.1 hEntry.2
  · intro candidate hMem
    exact hCounted.room candidate (by rw [hSame]; exact hMem)

end Counted

end Agent
