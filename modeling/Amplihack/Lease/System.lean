import Amplihack.Base.Runs
import Amplihack.Lease.Contract
import Mathlib.Logic.Function.Basic

/-
  Any number of handles of any sessions on one key.

  Every step runs one operation of one handle, so that other
  handles may run between any two of them. `latest` is a
  history variable: it records what each session wrote last
  and through which handle, and no step reads it.
-/

-- Handles in a run

namespace Lease

open Base (Program Reaches)

/- The result of a call, and the handle there is after it. -/
abbrev Outcome : Type :=
  Except LeaseError Unit × Option PrLease

/- What a handle is asked to be acquired for. -/
structure Request where
  ownerSessionId : String
  ttl : ℕ

/- `running` is always about to run `op`. -/
inductive Stage where
| fresh
| running
    (call : Call)
    (lease : Option PrLease)
    (op : LeaseOp)
    (next : Reply op → Program Reply Outcome)
| held (lease : PrLease)
| gone

namespace Stage

def settle : Outcome → Stage
| (_, some lease) => .held lease
| (_, none) => .gone

def enter (call : Call) (lease : Option PrLease) :
    Program Reply Outcome → Stage
| .ret outcome => settle outcome
| .call op next => .running call lease op next

/- The handle exists and has not been released. -/
def Alive : Stage → Prop
| .held lease => lease.released = false
| .running _ (some lease) _ _ => lease.released = false
| _ => False

end Stage

def acquireCall (key : LeaseKey) (request : Request) :
    Program Reply Outcome := do
  match ← acquire key request.ownerSessionId request.ttl with
  | .ok lease => return (.ok (), some lease)
  | .error e => return (.error e, none)

def PrLease.renewCall (lease : PrLease) :
    Program Reply Outcome := do
  let result ← lease.renew
  return (result, some lease)

def PrLease.assertOwnedCall (lease : PrLease) :
    Program Reply Outcome := do
  let result ← lease.assertOwned
  return (result, some lease)

def PrLease.releaseCall (lease : PrLease) :
    Program Reply Outcome := do
  let result ← lease.release
  return (result.1, some result.2)

def PrLease.dropCall (lease : PrLease) :
    Program Reply Outcome := do
  lease.drop
  return (.ok (), none)

/- The program of a call that the handle's stage admits. -/
def launch (key : LeaseKey) (request : Request) :
    Stage → Call → Option (Program Reply Outcome)
| .fresh, .acquire => some (acquireCall key request)
| .held lease, .renew => some lease.renewCall
| .held lease, .assertOwned => some lease.assertOwnedCall
| .held lease, .release => some lease.releaseCall
| .held lease, .drop => some lease.dropCall
| _, _ => none

def Stage.lease? : Stage → Option PrLease
| .held lease => some lease
| .running _ lease _ _ => lease
| _ => none

-- The system

structure System (η : Type) where
  world : World η
  stage : η → Stage

/- The clock is read, a call begins, or one operation runs. -/
inductive Event (η : Type) where
| advance (now : ℤ)
| begin (h : η) (call : Call)
| run (h : η) (fault : Fault)

namespace System

variable {η : Type} [DecidableEq η]

/- No handle has been acquired and none has written yet. -/
def start (stored : Stored) (clock : ℤ) : System η where
  world :=
    { stored := stored
      clock := clock
      latest := fun _ => none }
  stage := fun _ => .fresh

def step
    (key : LeaseKey) (request : η → Request) (σ : System η) :
    Event η → System η
| .advance now => { σ with world := { σ.world with clock := now } }
| .begin h call =>
  match launch key (request h) (σ.stage h) call with
  | some program =>
    { σ with
      stage := Function.update σ.stage h
        (.enter call (σ.stage h).lease? program) }
  | none => σ
| .run h fault =>
  match σ.stage h with
  | .running call lease op next =>
    { world := σ.world.after h fault op
      stage := Function.update σ.stage h
        (.enter call lease (next (σ.world.reply fault op))) }
  | _ => σ

/- One operation of a handle in the middle of a call. -/
theorem step_run
    {key : LeaseKey} {request : η → Request} {σ : System η}
    {h : η} {call : Call} {lease : Option PrLease}
    {op : LeaseOp} {next : Reply op → Program Reply Outcome} (fault : Fault)
    (hStage : σ.stage h = .running call lease op next) :
    σ.step key request (.run h fault) =
      { world := σ.world.after h fault op
        stage := Function.update σ.stage h
          (.enter call lease (next (σ.world.reply fault op))) } := by
  simp only [step, hStage]

/- The call that an event completes, and its result. -/
def returns (σ : System η) :
    Event η → Option (η × Call × Except LeaseError Unit)
| .run h fault =>
  match σ.stage h with
  | .running call _ op next =>
    match next (σ.world.reply fault op) with
    | .ret outcome => some (h, call, outcome.1)
    | .call _ _ => none
  | _ => none
| _ => none

/- An acquire or a renew of `h` returns `Ok`. -/
def Grants (σ : System η) (l : Event η) (h : η) : Prop :=
  σ.returns l = some (h, .acquire, .ok ()) ∨
    σ.returns l = some (h, .renew, .ok ())

end System

-- What a run may do

namespace System

variable {η : Type}

/- The clock does not go back. -/
def Monotone (σ : System η) (l : Event η) : Prop :=
  ∀ now, l = .advance now → σ.world.clock ≤ now

/- `h` overwrites the stored record without a compare. -/
def Reclaims (σ : System η) (l : Event η) (h : η) : Prop :=
  ∃ fault call lease record next,
    l = .run h fault ∧ fault ≠ .before ∧
      σ.stage h = .running call lease (.store record) next

/- `h` takes the stored record `r` away. -/
def Removes
    (σ : System η) (l : Event η) (h : η) (r : LeaseRecord) :
    Prop :=
  ∃ fault call lease next,
    l = .run h fault ∧ fault ≠ .before ∧
      σ.world.stored = .record (some r) ∧
      σ.stage h = .running call lease (.compareAndSet (some r) none) next

/- No live record of another session is overwritten. -/
def ReclaimsDead
    (request : η → Request) (σ : System η) (l : Event η) :
    Prop :=
  ∀ h, σ.Reclaims l h → ∀ r, σ.world.Live r →
    r.ownerSessionId = (request h).ownerSessionId

end System

-- The programs in a run keep their contracts

variable {η : Type}

/- What a call of a handle of `owner` leaves behind. -/
def Returned (h : η) (owner : String) (call : Call) :
    Outcome → World η → Prop
| (result, lease), w =>
  (∀ l, lease = some l → l.ownerSessionId = owner) ∧
    (call = .acquire ∨ call = .renew → result = .ok () → w.HeldBy h owner)

namespace Stage

def Sound (h : η) (request : Request) (w : World η) :
    Stage → Prop
| .running call lease op next =>
  (∀ l, lease = some l → l.ownerSessionId = request.ownerSessionId) ∧
  (Program.call op next).Upholds (leaseService h)
    (leaseContract request.ownerSessionId call)
    (Returned h request.ownerSessionId call) w
| .held lease => lease.ownerSessionId = request.ownerSessionId
| _ => True

variable {h : η} {request : Request} {w w' : World η}

theorem Sound.later
    {stage : Stage} (hSound : stage.Sound h request w)
    (hLater : w.clock ≤ w'.clock) :
    stage.Sound h request w' := by
  cases stage with
  | running call lease op next => exact ⟨hSound.1, hSound.2.later hLater⟩
  | _ => exact hSound

theorem Sound.lease?
    {stage : Stage} (hSound : stage.Sound h request w)
    (l : PrLease) (hLease : stage.lease? = some l) :
    l.ownerSessionId = request.ownerSessionId := by
  cases stage with
  | running call lease op next => exact hSound.1 l hLease
  | held lease =>
    cases hLease
    exact hSound
  | _ => cases hLease

theorem enter_sound
    {call : Call} {lease : Option PrLease} {program : Program Reply Outcome}
    (hLease : ∀ l, lease = some l → l.ownerSessionId = request.ownerSessionId)
    (hProgram :
      program.Upholds (leaseService h)
        (leaseContract request.ownerSessionId call)
        (Returned h request.ownerSessionId call) w) :
    (enter call lease program).Sound h request w := by
  cases program with
  | call op next => exact ⟨hLease, hProgram⟩
  | ret outcome =>
    rcases outcome with ⟨result, _ | l⟩
    · exact trivial
    · exact hProgram.1 l rfl

end Stage

theorem acquireCall_upholds
    (h : η) (key : LeaseKey) (request : Request) (w : World η) :
    (acquireCall key request).Upholds (leaseService h)
      (leaseContract request.ownerSessionId .acquire)
      (Returned h request.ownerSessionId .acquire) w := by
  refine (acquire_upholds request.ttl w).bind ?_
  intro result u hPost
  cases result with
  | error e => exact ⟨nofun, nofun⟩
  | ok lease =>
    refine ⟨?_, fun _ _ => hPost.2⟩
    intro l hLease
    cases hLease
    exact hPost.1

/- Every call admitted from a sound stage keeps its contract. -/
theorem launch_upholds
    {h : η} {key : LeaseKey} {request : Request} {stage : Stage}
    {call : Call} {program : Program Reply Outcome}
    {w : World η} (hSound : stage.Sound h request w)
    (hLaunch : launch key request stage call = some program) :
    program.Upholds (leaseService h)
      (leaseContract request.ownerSessionId call)
      (Returned h request.ownerSessionId call) w := by
  cases stage with
  | fresh =>
    cases call <;> cases hLaunch
    exact acquireCall_upholds h key request w
  | held lease =>
    have hOwner : lease.ownerSessionId =
        request.ownerSessionId := hSound
    rw [← hOwner]
    cases call <;> cases hLaunch
    · refine (lease.renew_upholds w).bind ?_
      intro result u hPost
      refine ⟨?_, ?_⟩
      · intro l hLease
        cases hLease
        exact rfl
      · intro _ hOk
        cases hOk
        exact hPost
    · refine (lease.assertOwned_upholds w).bind ?_
      intro result u _
      refine ⟨?_, nofun⟩
      intro l hLease
      cases hLease
      exact rfl
    · refine (lease.release_upholds (Or.inl rfl) w).bind ?_
      intro result u hPost
      refine ⟨?_, nofun⟩
      intro l hLease
      cases hLease
      exact hPost
    · refine (lease.drop_upholds w).bind ?_
      intro _ u _
      exact ⟨nofun, nofun⟩
  | running _ _ _ _ | gone => cases call <;> cases hLaunch

namespace System

/- Every handle's program is within its contract. -/
def Sound (request : η → Request) (σ : System η) : Prop :=
  ∀ h, (σ.stage h).Sound h (request h) σ.world

variable {key : LeaseKey} {request : η → Request}
variable {σ : System η} {l : Event η}

/- What one operation of a handle of a sound system does. -/
theorem Sound.run
    {h : η} {fault : Fault} {call : Call}
    {lease : Option PrLease} {op : LeaseOp}
    {next : Reply op → Program Reply Outcome} (hSound : σ.Sound request)
    (hDead : σ.ReclaimsDead request (.run h fault))
    (hStage : σ.stage h = .running call lease op next) :
    (leaseContract (request h).ownerSessionId call).guarantee
        σ.world op (σ.world.after h fault op) ∧
      (next (σ.world.reply fault op)).Upholds
        (leaseService h)
        (leaseContract (request h).ownerSessionId call)
        (Returned h (request h).ownerSessionId call)
        (σ.world.after h fault op) := by
  have hProgram := hSound h
  rw [hStage] at hProgram
  refine hProgram.2 σ.world (le_refl _) fault ?_
  intro record hOp hFault r hLive
  subst hOp
  exact hDead h ⟨fault, call, lease, record, next, rfl, hFault,
    hStage⟩ r hLive

theorem start_sound (stored : Stored) (clock : ℤ) :
    (start stored clock : System η).Sound request :=
  fun _ => trivial

variable [DecidableEq η]

theorem Sound.step
    (hSound : σ.Sound request) (hMonotone : σ.Monotone l)
    (hDead : σ.ReclaimsDead request l) :
    (σ.step key request l).Sound request := by
  cases l with
  | advance now =>
    intro q
    exact (hSound q).later (hMonotone now rfl)
  | begin h call =>
    simp only [System.step]
    cases hLaunch :
        launch key (request h) (σ.stage h) call with
    | none => exact hSound
    | some program =>
      intro q
      by_cases hq : q = h
      · subst hq
        simp only [Function.update_self]
        exact Stage.enter_sound (hSound q).lease?
          (launch_upholds (hSound q) hLaunch)
      · simp only [Function.update_of_ne hq]
        exact hSound q
  | run h fault =>
    cases hStage : σ.stage h with
    | running call lease op next =>
      rw [step_run fault hStage]
      have hRun := hSound.run hDead hStage
      have hLease := (hSound h).lease?
      rw [hStage] at hLease
      intro q
      by_cases hq : q = h
      · subst hq
        simp only [Function.update_self]
        exact Stage.enter_sound hLease hRun.2
      · simp only [Function.update_of_ne hq]
        exact (hSound q).later (ge_of_eq hRun.1.2.1)
    | _ => simpa only [System.step, hStage] using hSound

/- Every state of a run without bad overwrites is sound. -/
theorem sound
    {allowed : System η → Event η → Prop} {stored : Stored} {clock : ℤ}
    (hAllowed : ∀ σ l, allowed σ l → σ.Monotone l ∧ σ.ReclaimsDead request l)
    (hRun : Reaches (step key request) allowed (start stored clock) σ) :
    σ.Sound request :=
  hRun.invariant (Sound request)
    (fun s l hSound hStep =>
      hSound.step (hAllowed s l hStep).1 (hAllowed s l hStep).2)
    (start_sound stored clock)

end System

end Lease
