import Amplihack.Lease.Handle

/-
  What each operation of a handle does to the stored record,
  whatever other handles do between its steps.

  The one thing a handle relies on is that the clock does not
  go back: a record that was expired at the instant a handle
  read is still expired when the handle swaps it out.
-/

-- The contract of a handle

namespace Lease

open Base (Program Contract)

/- The operations a client runs on a handle. -/
inductive Call where
| acquire
| renew
| assertOwned
| release
| drop
deriving DecidableEq

namespace LeaseOp

def Reads : LeaseOp → Prop
| .now => True
| .load => True
| _ => False

/- Puts a record of `owner` in place. -/
def Writes (owner : String) : LeaseOp → Prop
| .store record => record.ownerSessionId = owner
| .compareAndSet _ (some record) =>
  record.ownerSessionId = owner
| _ => False

/- Takes a record of `owner` away. -/
def Removes (owner : String) : LeaseOp → Prop
| .compareAndSet (some record) none =>
  record.ownerSessionId = owner
| _ => False

/- The steps that `call` takes on a handle of `owner`. -/
def InCall (owner : String) (call : Call) (op : LeaseOp) :
    Prop :=
  op.Reads ∨
    match call with
    | .acquire => op.Writes owner
    | .renew => op.Writes owner
    | .assertOwned => False
    | .release => op.Removes owner
    | .drop => op.Removes owner

end LeaseOp

variable {η : Type}

/- `record` is stored and not yet expired. -/
def World.Live (w : World η) (record : LeaseRecord) : Prop :=
  w.stored = .record (some record) ∧ record.isExpired w.clock = false

/- What `h` wrote last for `owner` is stored. -/
def World.HeldBy (w : World η) (h : η) (owner : String) :
    Prop :=
  ∃ record, w.stored = .record (some record) ∧
    record.ownerSessionId = owner ∧ w.latest owner = some (h, record)

/-
  A handle of `owner` leaves the live records of others in
  place, if it does not overwrite one without a compare.
-/
def leaseContract (owner : String) (call : Call) :
    Contract (World η) Fault LeaseOp where
  rely w w' := w.clock ≤ w'.clock
  allows w fault op :=
    ∀ record, op = .store record → fault ≠ .before →
      ∀ r, w.Live r → r.ownerSessionId = owner
  guarantee w op w' :=
    op.InCall owner call ∧ w'.clock = w.clock ∧
      ∀ r, w.Live r → r.ownerSessionId ≠ owner → w'.stored = w.stored
  rely_refl _ := le_refl _
  rely_trans _ _ _ := le_trans

-- Single steps

section Steps

variable {α : Type} {h : η}
variable {owner : String} {call : Call}
variable {post : α → World η → Prop} {w : World η}

theorem now_upholds
    {next : ℤ → Program Reply α}
    (hNext : ∀ t : World η, w.clock ≤ t.clock →
      (next t.clock).Upholds (leaseService h)
        (leaseContract owner call) post t) :
    (Program.call LeaseOp.now next).Upholds (leaseService h)
      (leaseContract owner call) post w :=
  fun t hRely _ _ =>
    ⟨⟨Or.inl trivial, rfl, fun _ _ _ => rfl⟩, hNext t hRely⟩

theorem load_upholds
    {next : Except LeaseError (Option LeaseRecord) → Program Reply α}
    (hNext : ∀ (t : World η) reply, w.clock ≤ t.clock →
      (next reply).Upholds (leaseService h)
        (leaseContract owner call) post t) :
    (Program.call LeaseOp.load next).Upholds (leaseService h)
      (leaseContract owner call) post w :=
  fun t hRely _ _ =>
    ⟨⟨Or.inl trivial, rfl, fun _ _ _ => rfl⟩, hNext t _ hRely⟩

theorem store_upholds
    {record : LeaseRecord} {next : Except LeaseError Unit → Program Reply α}
    (hOp : (LeaseOp.store record).InCall owner call)
    (hOk : ∀ t : World η, t.HeldBy h record.ownerSessionId →
      (next (.ok ())).Upholds (leaseService h)
        (leaseContract owner call) post t)
    (hError : ∀ (t : World η) e,
      (next (.error e)).Upholds (leaseService h)
        (leaseContract owner call) post t) :
    (Program.call (.store record) next).Upholds (leaseService h)
      (leaseContract owner call) post w := by
  intro t _ fault hAllows
  refine ⟨⟨hOp, rfl, ?_⟩, ?_⟩
  · intro r hLive hOther
    by_cases hFault : fault = .before
    · subst hFault
      exact rfl
    · exact absurd (hAllows record rfl hFault r hLive) hOther
  · cases hReply : t.reply fault (.store record) with
    | error e => simpa only [leaseService, hReply] using hError _ e
    | ok u =>
      have hLands := lands_of_store_ok hReply
      simp only [leaseService, hReply]
      exact hOk _ ⟨record, stored_of_lands hLands, rfl,
        latest_of_lands hLands rfl⟩

theorem compareAndSet_upholds
    {expected new : Option LeaseRecord}
    {next : Except LeaseError Bool → Program Reply α}
    (hOp : (LeaseOp.compareAndSet expected new).InCall owner call)
    (hSafe : ∀ r, expected = some r →
      r.ownerSessionId ≠ owner → r.isExpired w.clock)
    (hTrue : ∀ t : World η,
      (∀ record, new = some record → t.HeldBy h record.ownerSessionId) →
      (next (.ok true)).Upholds (leaseService h)
        (leaseContract owner call) post t)
    (hElse : ∀ (t : World η) reply, reply ≠ .ok true →
      (next reply).Upholds (leaseService h)
        (leaseContract owner call) post t) :
    (Program.call (.compareAndSet expected new) next).Upholds
      (leaseService h) (leaseContract owner call) post w := by
  intro t hRely fault _
  refine ⟨⟨hOp, rfl, ?_⟩, ?_⟩
  · intro r hLive hOther
    rcases FileLeaseStore.compareAndSet_stored expected new
      fault t.stored with hSame | ⟨hSwapped, _⟩
    · exact hSame
    · -- The swap found what the handle had seen expired.
      have hExpected : expected = some r := by
        rw [hLive.1] at hSwapped
        injection hSwapped with hEq
        exact hEq.symm
      have hExpired :=
        LeaseRecord.isExpired_mono hRely (hSafe r hExpected hOther)
      rw [hLive.2] at hExpired
      cases hExpired
  · by_cases hReply : t.reply fault (.compareAndSet expected new) = .ok true
    · have hLands := lands_of_compareAndSet_ok hReply
      simp only [leaseService, hReply]
      refine hTrue _ ?_
      intro record hNew
      subst hNew
      exact ⟨record, stored_of_lands hLands, rfl, latest_of_lands hLands rfl⟩
    · exact hElse _ _ hReply

end Steps

-- Acquiring

/- A granted handle is `owner`'s, and so is the record. -/
def Acquired (h : η) (owner : String) :
    Except LeaseError PrLease → World η → Prop
| .ok lease, w =>
  lease.ownerSessionId = owner ∧ w.HeldBy h owner
| .error _, _ => True

section Acquire

variable {h : η}
variable {key : LeaseKey} {owner : String} {ttlSecs : ℕ}

theorem contended_upholds (w : World η) :
    contended.Upholds (leaseService h)
      (leaseContract owner .acquire) (Acquired h owner) w := by
  refine load_upholds fun t reply _ => ?_
  rcases reply with e | (_ | existing)
  · exact trivial
  · exact trivial
  · refine now_upholds fun u _ => ?_
    by_cases hExpired : existing.isExpired u.clock
    · simp only [Program.ret_bind, hExpired, if_true]
      exact trivial
    · simp only [Program.ret_bind, hExpired]
      exact trivial

theorem reclaim_upholds (at_ : ℤ) (w : World η) :
    (reclaim key owner at_ ttlSecs).Upholds (leaseService h)
      (leaseContract owner .acquire) (Acquired h owner) w := by
  refine store_upholds (Or.inr rfl) ?_ ?_
  · intro t hHeld
    exact ⟨rfl, hHeld⟩
  · intro t e
    exact trivial

/- What lets an attempt through has expired or is its own. -/
theorem blockedBy_eq_none
    {current : Option LeaseRecord} {at_ : ℤ}
    (hFree : blockedBy current at_ owner = none)
    (r : LeaseRecord) (hCurrent : current = some r)
    (hOther : r.ownerSessionId ≠ owner) :
    r.isExpired at_ := by
  subst hCurrent
  by_cases hExpired : r.isExpired at_
  · exact hExpired
  · simp [blockedBy, hExpired, hOther] at hFree

theorem acquireLoop_upholds (attempts : ℕ) (w : World η) :
    (acquireLoop key owner ttlSecs attempts).Upholds
      (leaseService h) (leaseContract owner .acquire)
      (Acquired h owner) w := by
  induction attempts generalizing w with
  | zero => exact contended_upholds w
  | succ attempts ih =>
    refine now_upholds fun t _ => ?_
    refine load_upholds fun u reply hLater => ?_
    rcases reply with e | current
    · cases e with
      | corrupt => exact reclaim_upholds t.clock u
      | unsupportedVersion => exact reclaim_upholds t.clock u
      | _ => exact trivial
    · dsimp only [Program.ret_bind]
      cases hBlocked : blockedBy current t.clock owner with
      | some other => exact trivial
      | none =>
        refine compareAndSet_upholds (Or.inr rfl) ?_ ?_ ?_
        · intro r hCurrent hOther
          exact LeaseRecord.isExpired_mono hLater
            (blockedBy_eq_none hBlocked r hCurrent hOther)
        · intro v hHeld
          exact ⟨rfl, hHeld _ rfl⟩
        · intro v reply hReply
          rcases reply with e | (_ | _)
          · exact trivial
          · exact ih v
          · exact absurd rfl hReply

theorem acquire_upholds (ttl : ℕ) (w : World η) :
    (acquire key owner ttl).Upholds (leaseService h)
      (leaseContract owner .acquire) (Acquired h owner) w :=
  acquireLoop_upholds acquireAttempts w

end Acquire

-- Using and releasing a handle

/- A renewal that succeeded left a record of `owner`. -/
def Renewed (h : η) (owner : String) :
    Except LeaseError Unit → World η → Prop
| .ok (), w => w.HeldBy h owner
| .error _, _ => True

namespace PrLease

variable {h : η} (lease : PrLease)

theorem assertOwned_upholds (w : World η) :
    lease.assertOwned.Upholds (leaseService h)
      (leaseContract lease.ownerSessionId .assertOwned)
      (fun _ _ => True) w := by
  refine load_upholds fun t reply _ => ?_
  rcases reply with e | (_ | record)
  · exact trivial
  · exact trivial
  · dsimp only [Program.ret_bind]
    by_cases hOwner : record.ownerSessionId = lease.ownerSessionId
    · simp only [hOwner, if_true]
      refine now_upholds fun u _ => ?_
      by_cases hExpired : record.isExpired u.clock
      · simp only [Program.ret_bind, hExpired, if_true]
        exact trivial
      · simp only [Program.ret_bind, hExpired]
        exact trivial
    · simp only [hOwner, if_false]
      exact trivial

theorem renew_upholds (w : World η) :
    lease.renew.Upholds (leaseService h)
      (leaseContract lease.ownerSessionId .renew)
      (Renewed h lease.ownerSessionId) w := by
  refine now_upholds fun t _ => ?_
  refine load_upholds fun u reply _ => ?_
  rcases reply with e | (_ | record)
  · exact trivial
  · exact trivial
  · dsimp only [Program.ret_bind]
    by_cases hOwner : record.ownerSessionId = lease.ownerSessionId
    · simp only [hOwner, if_true]
      by_cases hExpired : record.isExpired t.clock
      · simp only [hExpired, if_true]
        exact trivial
      · simp only [hExpired]
        refine compareAndSet_upholds (Or.inr rfl) ?_ ?_ ?_
        · intro r hRecord hOther
          cases hRecord
          exact absurd hOwner hOther
        · intro v hHeld
          exact hHeld _ rfl
        · intro v reply hReply
          rcases reply with e | (_ | _)
          · exact trivial
          · exact trivial
          · exact absurd rfl hReply
    · simp only [hOwner, if_false]
      exact trivial

/- A release by either call only removes its own record. -/
theorem release_upholds
    {call : Call} (hCall : call = .release ∨ call = .drop) (w : World η) :
    lease.release.Upholds (leaseService h)
      (leaseContract lease.ownerSessionId call)
      (fun result _ =>
        result.2.ownerSessionId = lease.ownerSessionId) w := by
  by_cases hReleased : lease.released
  · simp only [release, hReleased, if_true]
    exact rfl
  · simp only [release, hReleased]
    refine load_upholds fun t reply _ => ?_
    rcases reply with e | (_ | record)
    · exact rfl
    · exact rfl
    · dsimp only [Program.ret_bind]
      by_cases hOwner : record.ownerSessionId = lease.ownerSessionId
      · simp only [hOwner, if_true]
        refine compareAndSet_upholds ?_ ?_ ?_ ?_
        · rcases hCall with rfl | rfl
          · exact Or.inr hOwner
          · exact Or.inr hOwner
        · intro r hRecord hOther
          cases hRecord
          exact absurd hOwner hOther
        · intro v _
          exact rfl
        · intro v reply _
          rcases reply with e | swapped
          · exact rfl
          · exact rfl
      · simp only [hOwner, if_false]
        exact rfl

theorem drop_upholds (w : World η) :
    lease.drop.Upholds (leaseService h)
      (leaseContract lease.ownerSessionId .drop)
      (fun _ _ => True) w := by
  by_cases hReleased : lease.released
  · simp only [drop, hReleased, if_true]
    exact trivial
  · simp only [drop, hReleased]
    exact (lease.release_upholds (Or.inr rfl) w).bind fun _ _ _ => trivial

end PrLease

end Lease
