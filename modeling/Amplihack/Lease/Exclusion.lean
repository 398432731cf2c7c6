import Amplihack.Lease.System

/-
  One session holds a key at a time.

  From the moment an acquire or a renew returns, the record
  that the session wrote last stays in place until it expires
  or the session removes it, as long as no handle recovering
  from an unreadable record overwrites a live one.

  Several handles of one session.

  A release matches the stored record by session, so a handle
  can remove what a later handle of its session wrote. Where
  no release does, a granted handle keeps the key for its
  session until it is released itself.
-/

-- The session's record stays in place

namespace Lease

open Base (Program Reaches)

namespace System

variable {η : Type}
variable {key : LeaseKey} {request : η → Request}
variable {σ : System η} {l : Event η} {s : String}

/- Unless expired, the session's latest record is stored. -/
def Kept (σ : System η) (s : String) : Prop :=
  ∀ h r, σ.world.latest s = some (h, r) →
    r.ownerSessionId = s ∧
      (r.isExpired σ.world.clock = false → σ.world.stored = .record (some r))

variable {call : Call} {op : LeaseOp}

/- A record that a handle writes names its own session. -/
theorem written_owner
    {owner : String} {record : LeaseRecord} (hOp : op.InCall owner call)
    (hWritten : op.written = some record) :
    record.ownerSessionId = owner := by
  cases op with
  | store r =>
    cases hWritten
    rcases hOp with hReads | hKind
    · exact hReads.elim
    · cases call with
      | acquire => exact hKind
      | renew => exact hKind
      | _ => exact hKind.elim
  | compareAndSet expected new =>
    cases hWritten
    rcases hOp with hReads | hKind
    · exact hReads.elim
    · cases call with
      | acquire => exact hKind
      | renew => exact hKind
      | assertOwned => exact hKind.elim
      | release => cases expected <;> exact hKind.elim
      | drop => cases expected <;> exact hKind.elim
  | _ => cases hWritten

variable {h : η} {r : LeaseRecord}

/- A landed write of nothing takes the live record away. -/
theorem removes_of_lands
    {fault : Fault} {lease : Option PrLease}
    {next : Reply op → Program Reply Outcome}
    (hStage : σ.stage h = .running call lease op next)
    (hLands : σ.world.lands fault op = true) (hWritten : op.written = none)
    (hStored : σ.world.stored = .record (some r)) :
    σ.Removes (.run h fault) h r := by
  cases op with
  | compareAndSet expected new =>
    cases hWritten
    simp only [World.lands, decide_eq_true_eq] at hLands
    rw [hStored, Stored.record.injEq] at hLands
    obtain ⟨hFault, rfl⟩ := hLands
    exact ⟨fault, call, lease, next, rfl, hFault, hStored, hStage⟩
  | store record => cases hWritten
  | _ => cases hLands

variable [DecidableEq η]

/-
  A session's record survives every step that is not its own
  removal, and a removal of a record that had expired.
-/
theorem Kept.step
    (hKept : σ.Kept s) (hSound : σ.Sound request) (hMonotone : σ.Monotone l)
    (hDead : σ.ReclaimsDead request l)
    (hRemoves : ∀ h r, (request h).ownerSessionId = s →
      σ.Removes l h r → r.isExpired σ.world.clock) :
    (σ.step key request l).Kept s := by
  cases l with
  | advance now =>
    intro h r hLatest
    have hOld := hKept h r hLatest
    refine ⟨hOld.1, fun hLive => hOld.2 ?_⟩
    cases hExpired : r.isExpired σ.world.clock with
    | false => rfl
    | true =>
      have hLater := LeaseRecord.isExpired_mono (hMonotone now rfl) hExpired
      exact hLater.symm.trans hLive
  | begin h call =>
    simp only [System.step]
    cases launch key (request h) (σ.stage h) call with
    | none => exact hKept
    | some program => exact hKept
  | run h fault =>
    cases hStage : σ.stage h with
    | running call lease op next =>
      rw [step_run fault hStage]
      intro q r hLatest
      dsimp only at hLatest ⊢
      have hRun := (hSound.run hDead hStage).1
      by_cases hWrites : ∃ record,
          σ.world.lands fault op = true ∧
            op.written = some record ∧
            record.ownerSessionId = s
      · obtain ⟨record, hLands, hWritten, rfl⟩ := hWrites
        rw [latest_of_lands hLands hWritten] at hLatest
        cases hLatest
        refine ⟨rfl, fun _ => ?_⟩
        rw [stored_of_lands hLands, hWritten]
      · rw [latest_of_not_written fun record hLands hWritten
          hOwner => hWrites ⟨record, hLands, hWritten, hOwner⟩] at hLatest
        have hOld := hKept q r hLatest
        refine ⟨hOld.1, fun hLive => ?_⟩
        have hStored := hOld.2 hLive
        -- Only a removal by the session's own handles
        -- could take the record away.
        by_cases hSession : (request h).ownerSessionId = s
        · cases hLands : σ.world.lands fault op with
          | false => exact (stored_of_not_lands hLands).trans hStored
          | true =>
            cases hWritten : op.written with
            | some record =>
              have hOwner := written_owner hRun.1 hWritten
              exact absurd ⟨record, hLands, hWritten,
                hOwner.trans hSession⟩ hWrites
            | none =>
              have hExpired := hRemoves h r hSession
                (removes_of_lands hStage hLands hWritten hStored)
              have hFalse : false = true := hLive.symm.trans hExpired
              cases hFalse
        · have hOther : r.ownerSessionId ≠ (request h).ownerSessionId :=
            fun hEq => hSession (hEq.symm.trans hOld.1)
          exact (hRun.2.2 r ⟨hStored, hLive⟩ hOther).trans hStored
    | _ => simpa only [System.step, hStage] using hKept

/- A session that has written a record has a latest one. -/
theorem latest_step
    (hLatest : σ.world.latest s = some (h, r)) :
    ∃ h' r', (σ.step key request l).world.latest s = some (h', r') := by
  cases l with
  | advance now => exact ⟨h, r, hLatest⟩
  | begin q call =>
    simp only [System.step]
    cases launch key (request q) (σ.stage q) call with
    | none => exact ⟨h, r, hLatest⟩
    | some program => exact ⟨h, r, hLatest⟩
  | run q fault =>
    cases hStage : σ.stage q with
    | running call lease op next =>
      rw [step_run fault hStage]
      by_cases hWrites : ∃ record,
          σ.world.lands fault op = true ∧
            op.written = some record ∧
            record.ownerSessionId = s
      · obtain ⟨record, hLands, hWritten, rfl⟩ := hWrites
        exact ⟨q, record, latest_of_lands hLands hWritten⟩
      · refine ⟨h, r, ?_⟩
        rw [← hLatest]
        exact latest_of_not_written
          fun record hLands hWritten hOwner =>
            hWrites ⟨record, hLands, hWritten, hOwner⟩
    | _ =>
      refine ⟨h, r, ?_⟩
      simpa only [System.step, hStage] using hLatest

/- A call only returns at an operation of its own handle. -/
omit [DecidableEq η] in
theorem returns_run
    {result : Except LeaseError Unit}
    (hReturns : σ.returns l = some (h, call, result)) :
    ∃ fault lease op next outcome,
      l = .run h fault ∧
        σ.stage h = .running call lease op next ∧
        next (σ.world.reply fault op) = .ret outcome ∧
        outcome.1 = result := by
  cases l with
  | advance _ | begin _ _ => cases hReturns
  | run q fault =>
    simp only [returns] at hReturns
    cases hStage : σ.stage q with
    | running call' lease op next =>
      simp only [hStage] at hReturns
      cases hNext : next (σ.world.reply fault op) with
      | ret outcome =>
        simp only [hNext] at hReturns
        cases hReturns
        exact ⟨fault, lease, op, next, outcome, rfl, hStage, hNext, rfl⟩
      | call op' next' =>
        simp only [hNext] at hReturns
        cases hReturns
    | _ =>
      simp only [hStage] at hReturns
      cases hReturns

omit [DecidableEq η] in
theorem Grants.returns
    (hGrant : σ.Grants l h) :
    ∃ call, (call = .acquire ∨ call = .renew) ∧
      σ.returns l = some (h, call, .ok ()) := by
  rcases hGrant with hGrant | hGrant
  · exact ⟨.acquire, Or.inl rfl, hGrant⟩
  · exact ⟨.renew, Or.inr rfl, hGrant⟩

omit [DecidableEq η] in
theorem Grants.run
    (hGrant : σ.Grants l h) :
    ∃ fault, l = .run h fault := by
  obtain ⟨call, _, hReturns⟩ := hGrant.returns
  obtain ⟨fault, _, _, _, _, hRun, _⟩ := returns_run hReturns
  exact ⟨fault, hRun⟩

/- What a grant wrote is stored when it returns. -/
theorem Grants.heldBy
    (key : LeaseKey) (hGrant : σ.Grants l h) (hSound : σ.Sound request)
    (hDead : σ.ReclaimsDead request l) :
    (σ.step key request l).world.HeldBy h (request h).ownerSessionId := by
  obtain ⟨call, hCall, hReturns⟩ := hGrant.returns
  obtain ⟨fault, lease, op, next, outcome, rfl, hStage, hNext,
    hResult⟩ := returns_run hReturns
  have hPost := (hSound.run hDead hStage).2
  rw [hNext] at hPost
  rw [step_run fault hStage]
  exact hPost.2 hCall hResult

/- No handle of another session touches a live record. -/
theorem stored_step
    (key : LeaseKey) (hSound : σ.Sound request)
    (hDead : σ.ReclaimsDead request l) (hLive : σ.world.Live r)
    (hOther : ∀ h fault, l = .run h fault →
      r.ownerSessionId ≠ (request h).ownerSessionId) :
    (σ.step key request l).world.stored = σ.world.stored := by
  cases l with
  | advance now => exact rfl
  | begin h call =>
    simp only [System.step]
    cases launch key (request h) (σ.stage h) call with
    | none => exact rfl
    | some program => exact rfl
  | run h fault =>
    cases hStage : σ.stage h with
    | running call lease op next =>
      rw [step_run fault hStage]
      exact (hSound.run hDead hStage).1.2.2 r hLive (hOther h fault rfl)
    | _ => simp only [System.step, hStage]

/- A live record of one session keeps others from a grant. -/
theorem not_grants
    (key : LeaseKey) (hSound : σ.Sound request)
    (hDead : σ.ReclaimsDead request l) (hLive : σ.world.Live r)
    (hOther : (request h).ownerSessionId ≠ r.ownerSessionId) :
    ¬ σ.Grants l h := by
  intro hGrant
  obtain ⟨r', hStored, hOwner, _⟩ :=
    hGrant.heldBy key hSound hDead
  obtain ⟨fault, rfl⟩ := hGrant.run
  have hSame := stored_step key hSound hDead hLive ?_
  · rw [hStored, hLive.1, Stored.record.injEq, Option.some.injEq] at hSame
    exact hOther (hOwner.symm.trans
      (congrArg LeaseRecord.ownerSessionId hSame))
  · intro q fault' hRun
    cases hRun
    exact fun hEq => hOther hEq.symm

end System

-- Exclusive leases

section Exclusive

variable {η : Type} [DecidableEq η]

/-
  The steps of runs in which no recovery from an unreadable
  record overwrites another session's live record.
-/
def Orderly
    (request : η → Request) (σ : System η) (l : Event η) :
    Prop :=
  σ.Monotone l ∧ σ.ReclaimsDead request l

/-
  From `σ₀` on, until a handle of `s` removes it, the record
  that `s` wrote last is stored as long as it is not expired;
  meanwhile only handles of `s` change what is stored, and no
  other session is granted the key.
-/
def KeepsKey
    (key : LeaseKey) (request : η → Request)
    (allowed : System η → Event η → Prop) (s : String) (σ₀ : System η) :
    Prop :=
  ∀ σ,
    Reaches (System.step key request)
      (fun σ l => allowed σ l ∧
        ∀ h r, (request h).ownerSessionId = s → ¬ σ.Removes l h r) σ₀ σ →
    ∃ h r,
      σ.world.latest s = some (h, r) ∧
        r.ownerSessionId = s ∧
        (r.isExpired σ.world.clock = false →
          σ.world.stored = .record (some r) ∧
          ∀ l, allowed σ l →
            ((σ.step key request l).world.stored = σ.world.stored ∨
              ∃ h fault, l = .run h fault ∧ (request h).ownerSessionId = s) ∧
            ∀ h, (request h).ownerSessionId ≠ s → ¬ σ.Grants l h)

theorem leases_exclude
    (key : LeaseKey) (request : η → Request) (stored : Stored)
    (clock : ℤ) (σ : System η) (l : Event η) (h : η)
    (hRun :
      Reaches (System.step key request) (Orderly request)
        (System.start stored clock) σ)
    (hStep : Orderly request σ l)
    (hGrant : σ.Grants l h) :
    KeepsKey key request (Orderly request)
      (request h).ownerSessionId (σ.step key request l) := by
  have hSound := System.sound (fun _ _ hAllowed => hAllowed) hRun
  obtain ⟨r, hStored, hOwner, hLatest⟩ :=
    hGrant.heldBy key hSound hStep.2
  let s := (request h).ownerSessionId
  intro τ hLater
  -- Soundness, the session's record, and that there is one.
  let Inv := fun τ : System η =>
    τ.Sound request ∧ τ.Kept s ∧ ∃ q r, τ.world.latest s = some (q, r)
  have hInv : Inv τ := by
    refine hLater.invariant Inv ?_ ?_
    · rintro ρ m ⟨hSoundρ, hKept, q, r, hSome⟩ hAllowed
      refine ⟨hSoundρ.step hAllowed.1.1 hAllowed.1.2, ?_,
        System.latest_step hSome⟩
      refine hKept.step hSoundρ hAllowed.1.1 hAllowed.1.2 ?_
      intro p r hSession hRemoves
      exact absurd hRemoves (hAllowed.2 p r hSession)
    · refine ⟨hSound.step hStep.1 hStep.2, ?_, h, r, hLatest⟩
      intro q r' hSome
      rw [hLatest] at hSome
      cases hSome
      exact ⟨hOwner, fun _ => hStored⟩
  obtain ⟨hSoundτ, hKept, q, r, hSome⟩ := hInv
  obtain ⟨hSession, hStays⟩ := hKept q r hSome
  refine ⟨q, r, hSome, hSession, fun hLive => ?_⟩
  refine ⟨hStays hLive, fun m hAllowed => ⟨?_, ?_⟩⟩
  · by_cases hOwn : ∃ p fault, m = .run p fault ∧
        (request p).ownerSessionId = s
    · exact Or.inr hOwn
    · refine Or.inl (System.stored_step key hSoundτ hAllowed.2
        ⟨hStays hLive, hLive⟩ ?_)
      intro p fault hRun hEq
      exact hOwn ⟨p, fault, hRun, hEq.symm.trans hSession⟩
  · intro p hOther
    refine System.not_grants key hSoundτ hAllowed.2 ⟨hStays hLive, hLive⟩ ?_
    exact fun hEq => hOther (hEq.trans hSession)

end Exclusive

-- Two sessions on one key

def pullRequest : LeaseKey where
  repo := "owner/name"
  prNumber := 1051

def twoSessions : Bool → Request
| true => { ownerSessionId := "left", ttl := 60 }
| false => { ownerSessionId := "right", ttl := 60 }

/- Both find the record corrupt before either overwrites it. -/
def bothReclaim : List (Event Bool) :=
  [.begin true .acquire, .begin false .acquire,
    .run true .none, .run false .none,
    .run true .none, .run false .none]

/- Both acquire, and the second overwrites a live record. -/
theorem both_sessions_reclaim :
    ¬ ∀ (stored : Stored) (clock : ℤ) (σ : System Bool)
        (l : Event Bool) (h : Bool),
      Reaches (System.step pullRequest twoSessions)
        System.Monotone (System.start stored clock) σ →
      σ.Monotone l →
      σ.Grants l h →
      KeepsKey pullRequest twoSessions System.Monotone
        (twoSessions h).ownerSessionId
        (σ.step pullRequest twoSessions l) := by
  intro hAll
  have hMonotone : ∀ σ : System Bool, ∀ l ∈ bothReclaim, σ.Monotone l := by
    intro σ l hMem now hEq
    subst hEq
    simp [bothReclaim] at hMem
  have hRun : Reaches (System.step pullRequest twoSessions)
      System.Monotone (System.start .corrupt 0) _ :=
    Reaches.foldl bothReclaim hMonotone _
  have hKeeps := hAll .corrupt 0 _ (.run true .none) true hRun
    nofun (Or.inl rfl)
  obtain ⟨h, r, hLatest, _, hStays⟩ := hKeeps _ (Reaches.refl _)
  cases hLatest
  have hNext := (hStays rfl).2 (.run false .none) nofun
  exact hNext.2 false (by decide) (Or.inl rfl)

/- A first acquire, up to its swap. -/
def firstAcquire : List (Event Bool) :=
  [.begin true .acquire, .run true .none, .run true .none]

theorem leases_exclude_of_first_acquire :
    KeepsKey pullRequest twoSessions (Orderly twoSessions) "left"
      ((firstAcquire.foldl (System.step pullRequest twoSessions)
        (System.start (.record none) 0)).step
          pullRequest twoSessions (.run true .none)) := by
  have hStart : Reaches (System.step pullRequest twoSessions)
      (Orderly twoSessions) (System.start (.record none) 0)
      (System.start (.record none) 0) := Reaches.refl _
  have hRun :=
    ((hStart.tail (.begin true .acquire)
        ⟨nofun, fun _ _ _ hLive => nomatch hLive.1⟩).tail
      (.run true .none) ⟨nofun, fun _ _ _ hLive => nomatch hLive.1⟩).tail
      (.run true .none) ⟨nofun, fun _ _ _ hLive => nomatch hLive.1⟩
  exact leases_exclude pullRequest twoSessions (.record none) 0
    _ (.run true .none) true hRun
    ⟨nofun, fun _ _ _ hLive => nomatch hLive.1⟩ (Or.inl rfl)

end Lease

-- Releases of other handles

namespace Lease

open Base (Program Reaches)

namespace System

variable {η : Type}

/-
  A release takes away a record only if its own handle wrote
  it, and an unexpired one only if no other handle of the
  session is alive and unreleased.
-/
def ReleasesOwn
    (request : η → Request) (σ : System η) (l : Event η) :
    Prop :=
  ∀ h r, σ.Removes l h r →
    (∀ q, σ.world.latest (request h).ownerSessionId = some (q, r) → q = h) ∧
    (r.isExpired σ.world.clock = false →
      ∀ q, q ≠ h →
        (request q).ownerSessionId = (request h).ownerSessionId →
        ¬ (σ.stage q).Alive)

/- The handle is in the middle of a release or a drop. -/
def Releasing (σ : System η) (h : η) : Prop :=
  ∃ call lease op next,
    σ.stage h = .running call lease op next ∧ (call = .release ∨ call = .drop)

variable {request : η → Request} {σ : System η} {h : η}

/- A step of a release changes nothing or takes away. -/
theorem Releasing.stored_step
    [DecidableEq η] (key : LeaseKey) {fault : Fault}
    {r : LeaseRecord} (hReleasing : σ.Releasing h) (hSound : σ.Sound request)
    (hDead : σ.ReclaimsDead request (.run h fault))
    (hStored : σ.world.stored = .record (some r)) :
    (σ.step key request (.run h fault)).world.stored = .record (some r) ∨
      σ.Removes (.run h fault) h r := by
  obtain ⟨call, lease, op, next, hStage, hCall⟩ := hReleasing
  rw [step_run fault hStage]
  cases hLands : σ.world.lands fault op with
  | false => exact Or.inl ((stored_of_not_lands hLands).trans hStored)
  | true =>
    refine Or.inr (removes_of_lands hStage hLands ?_ hStored)
    have hOp := (hSound.run hDead hStage).1.1
    rcases hOp with hReads | hKind
    · cases op with
      | now => cases hLands
      | load => cases hLands
      | _ => exact hReads.elim
    · have hRemoves : op.Removes (request h).ownerSessionId := by
        rcases hCall with rfl | rfl
        · exact hKind
        · exact hKind
      cases op with
      | compareAndSet expected new =>
        cases new with
        | none => exact rfl
        | some record => cases expected <;> exact hRemoves.elim
      | _ => exact hRemoves.elim

end System

-- The handle that wrote the record keeps the key

section Release

variable {η : Type} [DecidableEq η]

/- Runs that are orderly and whose releases take their own. -/
def Considerate
    (request : η → Request) (σ : System η) (l : Event η) :
    Prop :=
  Orderly request σ l ∧ σ.ReleasesOwn request l

/-
  No step of a release or a drop takes away a record that
  another handle of the session was the last to write.
-/
def LeavesOthers
    (key : LeaseKey) (request : η → Request) (σ : System η) (l : Event η) :
    Prop :=
  ∀ older later fault r, l = .run older fault →
    σ.Releasing older →
    later ≠ older →
    (request later).ownerSessionId = (request older).ownerSessionId →
    σ.world.latest (request older).ownerSessionId = some (later, r) →
    σ.world.stored = .record (some r) →
    (σ.step key request l).world.stored = .record (some r)

/-
  From `σ₀` on, while `h` is alive and unreleased, the latest
  record of its session is stored until it expires, and no
  other session is granted the key before that.
-/
def HoldsKey
    (key : LeaseKey) (request : η → Request)
    (allowed : System η → Event η → Prop) (h : η) (σ₀ : System η) :
    Prop :=
  ∀ σ,
    Reaches (System.step key request)
      (fun σ l => allowed σ l ∧ (σ.stage h).Alive ∧
        ∀ r, ¬ σ.Removes l h r) σ₀ σ →
    ∃ q r,
      σ.world.latest (request h).ownerSessionId = some (q, r) ∧
        (r.isExpired σ.world.clock = false →
          σ.world.stored = .record (some r) ∧
          ∀ l, allowed σ l →
            ∀ p, (request p).ownerSessionId ≠
                (request h).ownerSessionId →
              ¬ σ.Grants l p)

theorem release_leaves_others
    (key : LeaseKey) (request : η → Request) (stored : Stored)
    (clock : ℤ) (σ : System η) (l : Event η)
    (hRun :
      Reaches (System.step key request) (Considerate request)
        (System.start stored clock) σ)
    (hStep : Considerate request σ l) :
    LeavesOthers key request σ l ∧
      ∀ h, σ.Grants l h →
        HoldsKey key request (Considerate request) h
          (σ.step key request l) := by
  have hSound : σ.Sound request :=
    System.sound (fun _ _ hAllowed => hAllowed.1) hRun
  refine ⟨?_, ?_⟩
  · intro older later fault r hEq hReleasing hNe _ hLatest hStored
    subst hEq
    rcases hReleasing.stored_step key hSound hStep.1.2 hStored
      with hSame | hRemoves
    · exact hSame
    · exact absurd ((hStep.2 older r hRemoves).1 later hLatest) hNe
  · intro h hGrant τ hLater
    let s := (request h).ownerSessionId
    obtain ⟨r, hStored, hOwner, hLatest⟩ :=
      hGrant.heldBy key hSound hStep.1.2
    let Inv := fun τ : System η =>
      τ.Sound request ∧ τ.Kept s ∧ ∃ q r, τ.world.latest s = some (q, r)
    have hInv : Inv τ := by
      refine hLater.invariant Inv ?_ ?_
      · rintro ρ m ⟨hSoundρ, hKept, q, r, hSome⟩
          ⟨⟨hOrderly, hOwn⟩, hAlive, hNotOwn⟩
        refine ⟨hSoundρ.step hOrderly.1 hOrderly.2, ?_,
          System.latest_step hSome⟩
        refine hKept.step hSoundρ hOrderly.1 hOrderly.2 ?_
        -- A removal by another handle finds `h` alive.
        intro p r hSession hRemoves
        by_cases hSelf : p = h
        · subst hSelf
          exact absurd hRemoves (hNotOwn r)
        · cases hExpired : r.isExpired ρ.world.clock with
          | true => rfl
          | false =>
            exact absurd hAlive
              ((hOwn p r hRemoves).2 hExpired h (Ne.symm hSelf) hSession.symm)
      · refine ⟨hSound.step hStep.1.1 hStep.1.2, ?_, h, r, hLatest⟩
        intro q r' hSome
        rw [hLatest] at hSome
        cases hSome
        exact ⟨hOwner, fun _ => hStored⟩
    obtain ⟨hSoundτ, hKept, q, r', hSome⟩ := hInv
    obtain ⟨hSession, hStays⟩ := hKept q r' hSome
    refine ⟨q, r', hSome, fun hLive => ?_⟩
    refine ⟨hStays hLive, fun m hAllowed p hOther => ?_⟩
    refine System.not_grants key hSoundτ hAllowed.1.2 ⟨hStays hLive, hLive⟩ ?_
    exact fun hEq => hOther (hEq.trans hSession)

end Release

-- Two handles of one session

/- Handles `0` and `1` are of one session. -/
def twoHandles : ℕ → Request
| 0 => { ownerSessionId := "left", ttl := 60 }
| 1 => { ownerSessionId := "left", ttl := 60 }
| _ => { ownerSessionId := "right", ttl := 60 }

/- `0` acquires, `1` acquires, and `0` is about to be gone. -/
def reacquireAndDrop : List (Event ℕ) :=
  [.begin 0 .acquire, .run 0 .none, .run 0 .none,
    .run 0 .none, .begin 1 .acquire, .run 1 .none,
    .run 1 .none, .run 1 .none, .begin 0 .drop, .run 0 .none]

/- The older handle takes away what the later one wrote. -/
theorem drop_removes_later_record :
    ¬ ∀ (stored : Stored) (clock : ℤ) (σ : System ℕ)
        (l : Event ℕ),
      Reaches (System.step pullRequest twoHandles)
        System.Monotone (System.start stored clock) σ →
      σ.Monotone l →
      LeavesOthers pullRequest twoHandles σ l ∧
        ∀ h, σ.Grants l h →
          HoldsKey pullRequest twoHandles System.Monotone h
            (σ.step pullRequest twoHandles l) := by
  intro hAll
  have hMonotone : ∀ σ : System ℕ, ∀ l ∈ reacquireAndDrop, σ.Monotone l := by
    intro σ l hMem now hEq
    subst hEq
    simp [reacquireAndDrop] at hMem
  have hRun : Reaches (System.step pullRequest twoHandles)
      System.Monotone (System.start (.record none) 0) _ :=
    Reaches.foldl reacquireAndDrop hMonotone _
  have hLeaves := (hAll (.record none) 0 _ (.run 0 .none) hRun nofun).1
  have hStays := hLeaves 0 1 .none _ rfl
    ⟨.drop, _, _, _, rfl, Or.inr rfl⟩ (by decide) rfl rfl rfl
  cases hStays

theorem release_leaves_others_of_first_acquire :
    HoldsKey pullRequest twoHandles (Considerate twoHandles) 0
      ([Event.begin 0 .acquire, .run 0 .none, .run 0 .none,
          .run 0 .none].foldl (System.step pullRequest twoHandles)
        (System.start (.record none) 0)) := by
  have hStart : Reaches (System.step pullRequest twoHandles)
      (Considerate twoHandles) (System.start (.record none) 0)
      (System.start (.record none) 0) := Reaches.refl _
  have hRun :=
    ((hStart.tail (.begin 0 .acquire)
        ⟨⟨nofun, fun _ _ _ hLive => nomatch hLive.1⟩,
          fun _ _ ⟨_, _, _, _, _, _, hStored, _⟩ =>
            nomatch hStored⟩).tail
      (.run 0 .none)
        ⟨⟨nofun, fun _ _ _ hLive => nomatch hLive.1⟩,
          fun _ _ ⟨_, _, _, _, _, _, hStored, _⟩ =>
            nomatch hStored⟩).tail
      (.run 0 .none)
        ⟨⟨nofun, fun _ _ _ hLive => nomatch hLive.1⟩,
          fun _ _ ⟨_, _, _, _, _, _, hStored, _⟩ =>
            nomatch hStored⟩
  exact (release_leaves_others pullRequest twoHandles
    (.record none) 0 _ (.run 0 .none) hRun
    ⟨⟨nofun, fun _ _ _ hLive => nomatch hLive.1⟩,
      fun _ _ ⟨_, _, _, _, _, _, hStored, _⟩ =>
        nomatch hStored⟩).2 0 (Or.inl rfl)

end Lease
