import Mathlib.Order.Basic
import Mathlib.Data.Int.Order.Basic
import Mathlib.Logic.Function.Basic
import Amplihack.Base.Program

/-
  Lease records, and the file that stores one for a key.

  Instants are nanoseconds since the epoch.

  The operations of a lease handle as programs over the store
  and the clock.
-/

-- Records

namespace Lease

def schemaVersion : ℕ := 1

def maxTtlSecs : ℕ := 86400

/- The last nanosecond of the year 262142. -/
def maxUtc : ℤ := 8210266876799999999999

inductive LeaseError where
| alreadyHeld (owner : String)
| notOwner
| expired
| io
| corrupt
| unsupportedVersion
deriving DecidableEq

structure LeaseKey where
  repo : String
  prNumber : ℕ
deriving DecidableEq

structure LeaseRecord where
  schemaVersion : ℕ
  key : LeaseKey
  ownerSessionId : String
  acquiredAt : ℤ
  ttlSecs : ℕ
deriving DecidableEq

namespace LeaseRecord

def expiresAt (record : LeaseRecord) : ℤ :=
  let secs := min record.ttlSecs maxTtlSecs
  min (record.acquiredAt + secs * 1000000000) maxUtc

def isExpired (record : LeaseRecord) (now : ℤ) : Bool :=
  decide (record.expiresAt ≤ now)

theorem isExpired_mono
    {record : LeaseRecord} {now later : ℤ}
    (hLater : now ≤ later) (hExpired : record.isExpired now) :
    record.isExpired later := by
  simp only [isExpired, decide_eq_true_eq] at hExpired ⊢
  exact hExpired.trans hLater

end LeaseRecord

-- The stored record

/- An absent file and a file without a record read alike. -/
inductive Stored where
| record (record : Option LeaseRecord)
| corrupt
deriving DecidableEq

/-
  Where an operation meets an I/O failure: before it wrote
  anything, or after the new file is in place.
-/
inductive Fault where
| none
| before
| after
deriving DecidableEq

namespace FileLeaseStore

def load : Stored → Except LeaseError (Option LeaseRecord)
| .record (some record) =>
  if record.schemaVersion ≠ schemaVersion then
    .error .unsupportedVersion
  else
    .ok (some record)
| .record none => .ok none
| .corrupt => .error .corrupt

def store (record : LeaseRecord) (fault : Fault) :
    Stored → Stored × Except LeaseError Unit
| stored =>
  match fault with
  | .before => (stored, .error .io)
  | .none => (.record (some record), .ok ())
  | .after => (.record (some record), .error .io)

def compareAndSet
    (expected new : Option LeaseRecord) (fault : Fault) :
    Stored → Stored × Except LeaseError Bool
| .corrupt =>
  match fault with
  | .before => (.corrupt, .error .io)
  | _ => (.corrupt, .error .corrupt)
| .record current =>
  match fault with
  | .before => (.record current, .error .io)
  | .none =>
    if current = expected then (.record new, .ok true)
    else (.record current, .ok false)
  | .after =>
    if current = expected then (.record new, .error .io)
    else (.record current, .ok false)

/- A swap only ever replaces the value it expects. -/
theorem compareAndSet_stored
    (expected new : Option LeaseRecord) (fault : Fault) (stored : Stored) :
    (compareAndSet expected new fault stored).1 = stored ∨
      (stored = .record expected ∧
        (compareAndSet expected new fault stored).1 = .record new) := by
  cases stored with
  | corrupt => cases fault <;> exact Or.inl rfl
  | record current =>
    by_cases hSame : current = expected
    · subst hSame
      cases fault <;> simp [compareAndSet]
    · cases fault <;> simp [compareAndSet, hSame]

theorem compareAndSet_ok
    {expected new : Option LeaseRecord} {fault : Fault} {stored : Stored}
    (hOk : (compareAndSet expected new fault stored).2 = .ok true) :
    stored = .record expected ∧
      (compareAndSet expected new fault stored).1 = .record new := by
  cases stored with
  | corrupt => cases fault <;> cases hOk
  | record current =>
    by_cases hSame : current = expected
    · subst hSame
      cases fault with
      | before => cases hOk
      | none => simp [compareAndSet]
      | after => simp [compareAndSet] at hOk
    · cases fault <;> simp [compareAndSet, hSame] at hOk

end FileLeaseStore

-- The clock and the store as a service

/- One atomic step of a handle. -/
inductive LeaseOp where
| now
| load
| store (record : LeaseRecord)
| compareAndSet (expected new : Option LeaseRecord)
deriving DecidableEq

abbrev Reply : LeaseOp → Type
| .now => ℤ
| .load => Except LeaseError (Option LeaseRecord)
| .store _ => Except LeaseError Unit
| .compareAndSet _ _ => Except LeaseError Bool

/- The record an operation puts in place, if it lands. -/
def LeaseOp.written : LeaseOp → Option LeaseRecord
| .store record => some record
| .compareAndSet _ new => new
| _ => none

/-
  `latest` is a history variable that no operation reads: the
  record that each session wrote last, and its handle.
-/
structure World (η : Type) where
  stored : Stored
  clock : ℤ
  latest : String → Option (η × LeaseRecord)

namespace World

variable {η : Type}

/- The operation changes what is stored. -/
def lands (w : World η) (fault : Fault) : LeaseOp → Bool
| .store _ => decide (fault ≠ .before)
| .compareAndSet expected _ =>
  decide (fault ≠ .before ∧ w.stored = .record expected)
| _ => false

/- What `h` writes becomes its session's latest record. -/
def note (w : World η) (h : η) (fault : Fault) (op : LeaseOp) :
    String → Option (η × LeaseRecord) :=
  match w.lands fault op, op.written with
  | true, some record =>
    Function.update w.latest record.ownerSessionId (some (h, record))
  | _, _ => w.latest

def after (h : η) (w : World η) (fault : Fault) (op : LeaseOp) :
    World η where
  stored :=
    match op with
    | .now => w.stored
    | .load => w.stored
    | .store record =>
      (FileLeaseStore.store record fault w.stored).1
    | .compareAndSet expected new =>
      (FileLeaseStore.compareAndSet expected new fault w.stored).1
  clock := w.clock
  latest := w.note h fault op

def reply (w : World η) (fault : Fault) :
    (op : LeaseOp) → Reply op
| .now => w.clock
| .load =>
  if fault = .none then FileLeaseStore.load w.stored
  else .error .io
| .store record =>
  (FileLeaseStore.store record fault w.stored).2
| .compareAndSet expected new =>
  (FileLeaseStore.compareAndSet expected new fault w.stored).2

end World

/- The clock and the store, as the handle `h` calls them. -/
def leaseService {η : Type} (h : η) :
    Base.Service (World η) Fault Reply where
  after := World.after h
  reply := World.reply

section After

variable {η : Type} {h : η} {w : World η}
variable {fault : Fault} {op : LeaseOp}

/- An operation that lands puts what it writes in place. -/
theorem stored_of_lands
    (hLands : w.lands fault op = true) :
    (w.after h fault op).stored = .record op.written := by
  cases op with
  | store record =>
    cases fault with
    | before => cases hLands
    | _ => rfl
  | compareAndSet expected new =>
    simp only [World.lands, decide_eq_true_eq] at hLands
    rcases w with ⟨stored, clock, latest⟩
    obtain ⟨hFault, rfl⟩ := hLands
    cases fault with
    | before => exact absurd rfl hFault
    | _ => simp [World.after, LeaseOp.written, FileLeaseStore.compareAndSet]
  | _ => cases hLands

theorem stored_of_not_lands
    (hLands : w.lands fault op = false) :
    (w.after h fault op).stored = w.stored := by
  cases op with
  | store record =>
    cases fault with
    | before => rfl
    | _ => cases hLands
  | compareAndSet expected new =>
    rcases FileLeaseStore.compareAndSet_stored expected new
      fault w.stored with hSame | ⟨hStored, _⟩
    · exact hSame
    · simp only [World.lands, hStored, and_true,
        decide_eq_false_iff_not, not_not] at hLands
      subst hLands
      cases hW : w.stored <;>
        simp [World.after, hW, FileLeaseStore.compareAndSet]
  | _ => rfl

theorem latest_of_lands
    {record : LeaseRecord} (hLands : w.lands fault op = true)
    (hWritten : op.written = some record) :
    (w.after h fault op).latest record.ownerSessionId = some (h, record) := by
  simp [World.after, World.note, hLands, hWritten]

/- Nothing else changes what a session wrote last. -/
theorem latest_of_not_written
    {s : String}
    (hNothing : ∀ record, w.lands fault op = true →
      op.written = some record → record.ownerSessionId ≠ s) :
    (w.after h fault op).latest s = w.latest s := by
  cases hLands : w.lands fault op with
  | false => simp only [World.after, World.note, hLands]
  | true =>
    cases hWritten : op.written with
    | none => simp only [World.after, World.note, hLands, hWritten]
    | some record =>
      simp only [World.after, World.note, hLands, hWritten]
      exact Function.update_of_ne
        (Ne.symm (hNothing record hLands hWritten)) _ _

/- An operation that reports success has landed. -/
theorem lands_of_store_ok
    {record : LeaseRecord} (hOk : w.reply fault (.store record) = .ok ()) :
    w.lands fault (.store record) = true := by
  cases fault with
  | before => cases hOk
  | _ => rfl

theorem lands_of_compareAndSet_ok
    {expected new : Option LeaseRecord}
    (hOk : w.reply fault (.compareAndSet expected new) = .ok true) :
    w.lands fault (.compareAndSet expected new) = true := by
  have hStored := (FileLeaseStore.compareAndSet_ok hOk).1
  cases fault with
  | before => simp [World.reply, hStored, FileLeaseStore.compareAndSet] at hOk
  | _ => simp [World.lands, hStored]

end After

end Lease

-- Handles

namespace Lease

open Base (Program)

/- An acquired handle. -/
structure PrLease where
  key : LeaseKey
  ownerSessionId : String
  ttlSecs : ℕ
  released : Bool

def acquireAttempts : ℕ := 5

def now : Program Reply ℤ :=
  .perform LeaseOp.now

def load :
    Program Reply (Except LeaseError (Option LeaseRecord)) :=
  .perform LeaseOp.load

def store (record : LeaseRecord) :
    Program Reply (Except LeaseError Unit) :=
  .perform (LeaseOp.store record)

def compareAndSet (expected new : Option LeaseRecord) :
    Program Reply (Except LeaseError Bool) :=
  .perform (LeaseOp.compareAndSet expected new)

def buildRecord
    (key : LeaseKey) (owner : String) (now : ℤ) (ttlSecs : ℕ) :
    LeaseRecord where
  schemaVersion := schemaVersion
  key := key
  ownerSessionId := owner
  acquiredAt := now
  ttlSecs := ttlSecs

def handle
    (key : LeaseKey) (owner : String) (ttlSecs : ℕ) :
    PrLease where
  key := key
  ownerSessionId := owner
  ttlSecs := ttlSecs
  released := false

-- Acquiring

/- The live owner that keeps `owner` from the record, if any. -/
def blockedBy
    (current : Option LeaseRecord) (now : ℤ) (owner : String) :
    Option String :=
  match current with
  | some existing =>
    if !existing.isExpired now &&
        existing.ownerSessionId != owner then
      some existing.ownerSessionId
    else
      none
  | none => none

/- The report after the last attempt. -/
def contended : Program Reply (Except LeaseError PrLease) := do
  match ← load with
  | .error e => return .error e
  | .ok none => return .error (.alreadyHeld "unknown")
  | .ok (some existing) =>
    let now ← now
    if existing.isExpired now then
      return .error (.alreadyHeld "unknown")
    else
      return .error (.alreadyHeld existing.ownerSessionId)

/- An unreadable record is overwritten without a compare. -/
def reclaim
    (key : LeaseKey) (owner : String) (now : ℤ) (ttlSecs : ℕ) :
    Program Reply (Except LeaseError PrLease) := do
  match ← store (buildRecord key owner now ttlSecs) with
  | .error e => return .error e
  | .ok () => return .ok (handle key owner ttlSecs)

/- The attempts that are left of `acquire`. -/
def acquireLoop
    (key : LeaseKey) (owner : String) (ttlSecs : ℕ) :
    ℕ → Program Reply (Except LeaseError PrLease)
| 0 => contended
| attempts + 1 => do
    let now ← now
    match ← load with
    | .error .corrupt => reclaim key owner now ttlSecs
    | .error .unsupportedVersion =>
      reclaim key owner now ttlSecs
    | .error other => return .error other
    | .ok current =>
      match blockedBy current now owner with
      | some other => return .error (.alreadyHeld other)
      | none =>
        let record := buildRecord key owner now ttlSecs
        match ← compareAndSet current (some record) with
        | .error e => return .error e
        | .ok true => return .ok (handle key owner ttlSecs)
        | .ok false => acquireLoop key owner ttlSecs attempts

/- `ttl` is the whole seconds of the duration asked for. -/
def acquire (key : LeaseKey) (owner : String) (ttl : ℕ) :
    Program Reply (Except LeaseError PrLease) :=
  let ttlSecs := min (max ttl 1) maxTtlSecs
  acquireLoop key owner ttlSecs acquireAttempts

-- Using and releasing a handle

namespace PrLease

def assertOwned (lease : PrLease) :
    Program Reply (Except LeaseError Unit) := do
  match ← load with
  | .error e => return .error e
  | .ok none => return .error .notOwner
  | .ok (some record) =>
    if record.ownerSessionId = lease.ownerSessionId then
      let now ← now
      if record.isExpired now then
        return .error .expired
      else
        return .ok ()
    else
      return .error .notOwner

def renew (lease : PrLease) :
    Program Reply (Except LeaseError Unit) := do
  let now ← now
  match ← load with
  | .error e => return .error e
  | .ok none => return .error .notOwner
  | .ok (some record) =>
    if record.ownerSessionId = lease.ownerSessionId then
      if record.isExpired now then
        return .error .expired
      else
        let renewed :=
          buildRecord lease.key lease.ownerSessionId now lease.ttlSecs
        match ← compareAndSet (some record) (some renewed) with
        | .error e => return .error e
        | .ok true => return .ok ()
        | .ok false => return .error .notOwner
    else
      return .error .notOwner

/- The result, and the handle as `release` leaves it. -/
def release (lease : PrLease) :
    Program Reply (Except LeaseError Unit × PrLease) := do
  if lease.released then
    return (.ok (), lease)
  else
    match ← load with
    | .error e => return (.error e, lease)
    | .ok none => return (.ok (), { lease with released := true })
    | .ok (some record) =>
      if record.ownerSessionId = lease.ownerSessionId then
        match ← compareAndSet (some record) none with
        | .error e => return (.error e, lease)
        | .ok _ =>
          return (.ok (), { lease with released := true })
      else
        return (.ok (), { lease with released := true })

/- A failed release is logged and given up. -/
def drop (lease : PrLease) : Program Reply Unit := do
  if lease.released then
    return ()
  else
    let _ ← lease.release
    return ()

end PrLease

end Lease
