import Amplihack.Recipe.FailureClass

/-
  The retry of a recipe run that failed on a transient fault.

  Durations are counted in nanoseconds.  The delay before
  jitter is a given function of the wait's index, in whole
  milliseconds, and so are the outcome of an attempt and the
  random number of a wait.
-/

-- Backoff

namespace Recipe

def nanosPerMilli : ℕ := 1000000

structure BackoffPolicy where
  /- The delay of a wait without jitter, in milliseconds. -/
  baseMillis : ℕ → UInt64
  budget : ℕ

namespace BackoffPolicy

def baseDelay (policy : BackoffPolicy) (attempt : ℕ) : ℕ :=
  (policy.baseMillis attempt).toNat * nanosPerMilli

/- Half of the delay, and up to half of it at random. -/
def withJitter (base : ℕ) (random : UInt64) : ℕ :=
  let half := base / 2
  let spanMs := UInt64.ofNat (half / nanosPerMilli)
  let jitterMs :=
    if spanMs = 0 then 0 else random % (spanMs + 1)
  half + jitterMs.toNat * nanosPerMilli

/- None once the budget is spent. -/
def nextBackoff
    (policy : BackoffPolicy) (attempt elapsed : ℕ) (random : UInt64) :
    Option ℕ :=
  if policy.budget ≤ elapsed then none
  else
    let remaining := policy.budget - elapsed
    let delay := withJitter (policy.baseDelay attempt) random
    some (min delay remaining)

end BackoffPolicy

-- Limits

inductive StopReason where
| attemptCap (maxAttempts : ℕ)
| timeBudget (budget : ℕ)
deriving DecidableEq

/- At least one attempt is made. -/
structure TransientRetryLimits where
  maxAttempts : ℕ
  policy : BackoffPolicy
  positive : 1 ≤ maxAttempts

namespace TransientRetryLimits

def new (maxAttempts : ℕ) (policy : BackoffPolicy) :
    TransientRetryLimits where
  maxAttempts := max maxAttempts 1
  policy := policy
  positive := Nat.le_max_right maxAttempts 1

/- How long to wait before the next attempt, or why not to. -/
def planNext
    (limits : TransientRetryLimits) (attemptsMade waited : ℕ)
    (random : UInt64) :
    Except StopReason ℕ :=
  if limits.maxAttempts ≤ attemptsMade then
    .error (.attemptCap limits.maxAttempts)
  else
    match limits.policy.nextBackoff (attemptsMade - 1) waited
        random with
    | some delay => .ok delay
    | none => .error (.timeBudget limits.policy.budget)

end TransientRetryLimits

-- The Loop

inductive AttemptOutcome (T : Type) where
| final (value : T)
| transient (value : T) (verdict : FailureVerdict)

structure RetrySummary where
  attempts : ℕ
  waited : List ℕ
  stopReason : Option StopReason
  lastVerdict : Option FailureVerdict

/- What the loop calls, in order. -/
inductive Call where
| attempt (number : ℕ)
| onRetry (verdict : FailureVerdict) (number delay : ℕ)
| sleep (delay : ℕ)

/- `waited.iter().sum()` -/
def totalWait (waited : List ℕ) : ℕ :=
  waited.foldl (· + ·) 0

theorem attempts_left
    {limits : TransientRetryLimits}
    {attemptsMade waited delay : ℕ} {random : UInt64}
    (hPlan : limits.planNext attemptsMade waited random = .ok delay) :
    attemptsMade < limits.maxAttempts := by
  unfold TransientRetryLimits.planNext at hPlan
  split at hPlan
  · cases hPlan
  · next hLess => exact Nat.lt_of_not_le hLess

variable {T : Type}

section Run

variable (limits : TransientRetryLimits)
variable (attempt : ℕ → AttemptOutcome T)
variable (random : ℕ → UInt64)

/- The value, the summary, and the calls that were made. -/
def retryFrom
    (attemptsMade : ℕ) (waited : List ℕ) (calls : List Call) :
    T × RetrySummary × List Call :=
  let attemptsMade' := attemptsMade + 1
  match attempt attemptsMade' with
  | .final value =>
    (value,
      { attempts := attemptsMade'
        waited := waited
        stopReason := none
        lastVerdict := none },
      calls ++ [.attempt attemptsMade'])
  | .transient value verdict =>
    match hPlan : limits.planNext attemptsMade'
        (totalWait waited) (random attemptsMade) with
    | .ok delay =>
      retryFrom attemptsMade' (waited ++ [delay])
        (calls ++ [.attempt attemptsMade',
          .onRetry verdict attemptsMade' delay,
          .sleep delay])
    | .error stopReason =>
      (value,
        { attempts := attemptsMade'
          waited := waited
          stopReason := some stopReason
          lastVerdict := some verdict },
        calls ++ [.attempt attemptsMade'])
termination_by limits.maxAttempts - attemptsMade
decreasing_by
  have hLeft := attempts_left hPlan
  omega

def runWithTransientRetry : T × RetrySummary × List Call :=
  retryFrom limits attempt random 0 [] []

end Run

-- One Delay

namespace BackoffPolicy

variable {policy : BackoffPolicy}

/- Between half of the delay and the whole of it. -/
theorem withJitter_bounds
    (policy : BackoffPolicy) (attempt : ℕ) (random : UInt64) :
    policy.baseDelay attempt ≤
        2 * withJitter (policy.baseDelay attempt) random ∧
      withJitter (policy.baseDelay attempt) random ≤
        policy.baseDelay attempt := by
  have hMillis := (policy.baseMillis attempt).toNat_lt
  unfold baseDelay withJitter nanosPerMilli
  dsimp only
  generalize (policy.baseMillis attempt).toNat = millis
    at hMillis
  have hHalf : millis * 1000000 / 2 = millis * 500000 := by omega
  have hSpan : millis * 500000 / 1000000 = millis / 2 :=
    Nat.mul_div_mul_right millis 2 (Nat.succ_pos 499999)
  rw [hHalf, hSpan]
  have hFits : (UInt64.ofNat (millis / 2)).toNat = millis / 2 := by
    rw [UInt64.toNat_ofNat']
    omega
  split
  · rw [UInt64.toNat_zero]
    omega
  · have hOne : (UInt64.ofNat (millis / 2) + 1).toNat = millis / 2 + 1 := by
      rw [UInt64.toNat_add, hFits, UInt64.toNat_one]
      omega
    have hJitter : (random %
        (UInt64.ofNat (millis / 2) + 1)).toNat ≤ millis / 2 := by
      rw [UInt64.toNat_mod, hOne]
      exact Nat.le_of_lt_succ (Nat.mod_lt _ (Nat.succ_pos _))
    omega

/-
  Between half and the whole of the delay before jitter, or
  cut to what is left of the budget.
-/
def Allows
    (policy : BackoffPolicy) (index waited delay : ℕ) :
    Prop :=
  delay ≤ policy.baseDelay index ∧
    waited + delay ≤ policy.budget ∧
    (policy.baseDelay index ≤ 2 * delay ∨ delay = policy.budget - waited)

theorem allows_of_nextBackoff
    {attempt elapsed delay : ℕ} {random : UInt64}
    (hNext : policy.nextBackoff attempt elapsed random = some delay) :
    policy.Allows attempt elapsed delay := by
  have hBounds := policy.withJitter_bounds attempt random
  unfold nextBackoff at hNext
  split at hNext
  · cases hNext
  · next hLess =>
      have hDelay := Option.some.inj hNext
      unfold Allows
      generalize policy.baseDelay attempt = base at *
      omega

end BackoffPolicy

theorem planNext_ok
    {limits : TransientRetryLimits}
    {attemptsMade waited delay : ℕ} {random : UInt64}
    (hPlan : limits.planNext attemptsMade waited random = .ok delay) :
    attemptsMade < limits.maxAttempts ∧
      limits.policy.Allows (attemptsMade - 1) waited delay := by
  refine ⟨attempts_left hPlan, ?_⟩
  unfold TransientRetryLimits.planNext at hPlan
  split at hPlan
  · cases hPlan
  · split at hPlan
    · next hNext =>
        cases hPlan
        exact BackoffPolicy.allows_of_nextBackoff hNext
    · cases hPlan

variable {reason : StopReason}

/- The cap goes before the budget. -/
theorem planNext_error
    {limits : TransientRetryLimits} {attemptsMade waited : ℕ}
    {random : UInt64}
    (hPlan : limits.planNext attemptsMade waited random = .error reason) :
    (limits.maxAttempts ≤ attemptsMade ∧
      reason = .attemptCap limits.maxAttempts) ∨
    (attemptsMade < limits.maxAttempts ∧
      limits.policy.budget ≤ waited ∧
      reason = .timeBudget limits.policy.budget) := by
  unfold TransientRetryLimits.planNext at hPlan
  split at hPlan
  · next hCap =>
      cases hPlan
      exact .inl ⟨hCap, rfl⟩
  · next hLeft =>
      split at hPlan
      · cases hPlan
      · next hNext =>
          cases hPlan
          refine .inr ⟨Nat.lt_of_not_le hLeft, ?_, rfl⟩
          unfold BackoffPolicy.nextBackoff at hNext
          split at hNext
          · next hSpent => exact hSpent
          · cases hNext

-- While The Loop Goes On

namespace AttemptOutcome

def isTransient : AttemptOutcome T → Bool
| .final _ => false
| .transient _ _ => true

def value : AttemptOutcome T → T
| .final value => value
| .transient value _ => value

def verdict? : AttemptOutcome T → Option FailureVerdict
| .final _ => none
| .transient _ verdict => some verdict

end AttemptOutcome

variable {limits : TransientRetryLimits}
variable {attempt : ℕ → AttemptOutcome T}
variable {random : ℕ → UInt64}
variable {attemptsMade delay : ℕ}
variable {waited : List ℕ}
variable {calls : List Call}

/- An attempt, the announcement of its retry, and one wait. -/
def round
    (attempt : ℕ → AttemptOutcome T) (number delay : ℕ) :
    List Call :=
  .attempt number ::
    ((attempt number).verdict?.map fun verdict =>
      Call.onRetry verdict number delay).toList ++
      [.sleep delay]

/- The rounds of the waits, their attempts numbered from 1. -/
def rounds
    (attempt : ℕ → AttemptOutcome T) (waited : List ℕ) :
    List Call :=
  waited.zipIdx.flatMap fun wait =>
    round attempt (wait.2 + 1) wait.1

theorem totalWait_concat (waited : List ℕ) (delay : ℕ) :
    totalWait (waited ++ [delay]) = totalWait waited + delay := by
  unfold totalWait
  rw [List.foldl_append]
  rfl

theorem rounds_concat
    (attempt : ℕ → AttemptOutcome T) (waited : List ℕ) (delay : ℕ) :
    rounds attempt (waited ++ [delay]) =
      rounds attempt waited ++ round attempt (waited.length + 1) delay := by
  unfold rounds
  rw [List.zipIdx_append, List.flatMap_append, Nat.zero_add]
  simp only [List.zipIdx_singleton, List.flatMap_singleton]

/- Every wait was allowed after those before it. -/
def Waits (policy : BackoffPolicy) (waited : List ℕ) : Prop :=
  ∀ i delay, waited[i]? = some delay →
    policy.Allows i (totalWait (waited.take i)) delay

theorem Waits.concat
    {policy : BackoffPolicy} (hWaits : Waits policy waited)
    (hAllows : policy.Allows waited.length (totalWait waited) delay) :
    Waits policy (waited ++ [delay]) := by
  intro i d hAt
  rcases Nat.lt_trichotomy i waited.length with
    hLess | hEq | hMore
  · rw [List.getElem?_append_left hLess] at hAt
    rw [List.take_append_of_le_length hLess.le]
    exact hWaits i d hAt
  · subst hEq
    rw [List.getElem?_concat_length] at hAt
    cases hAt
    rw [List.take_left]
    exact hAllows
  · rw [List.getElem?_eq_none] at hAt
    · cases hAt
    · rw [List.length_append, List.length_singleton]
      exact hMore

/- What holds before every attempt. -/
structure Waiting
    (limits : TransientRetryLimits)
    (attempt : ℕ → AttemptOutcome T) (attemptsMade : ℕ)
    (waited : List ℕ) (calls : List Call) :
    Prop where
  left : attemptsMade < limits.maxAttempts
  length : waited.length = attemptsMade
  earlier : ∀ k, 1 ≤ k → k ≤ attemptsMade → (attempt k).isTransient = true
  waits : Waits limits.policy waited
  within : totalWait waited ≤ limits.policy.budget
  calls : calls = rounds attempt waited

theorem waiting_start : Waiting limits attempt 0 [] [] where
  left := limits.positive
  length := rfl
  earlier := by
    intro k hFirst hLast
    omega
  waits := by
    intro i delay hAt
    cases hAt
  within := Nat.zero_le _
  calls := rfl

variable {verdict : FailureVerdict} {number : UInt64}

/- One more transient failure, and the wait after it. -/
theorem Waiting.next
    {value : T} (hWaiting : Waiting limits attempt attemptsMade waited calls)
    (hOutcome : attempt (attemptsMade + 1) = .transient value verdict)
    (hPlan : limits.planNext (attemptsMade + 1)
      (totalWait waited) number = .ok delay) :
    Waiting limits attempt (attemptsMade + 1)
      (waited ++ [delay])
      (calls ++ [.attempt (attemptsMade + 1),
        .onRetry verdict (attemptsMade + 1) delay,
        .sleep delay]) := by
  rcases planNext_ok hPlan with ⟨hLeft, hAllows⟩
  rw [Nat.add_sub_cancel] at hAllows
  constructor
  case left => exact hLeft
  case length =>
    rw [List.length_append, List.length_singleton, hWaiting.length]
  case earlier =>
    intro k hFirst hLast
    rcases Nat.lt_or_eq_of_le hLast with hOld | hNew
    · exact hWaiting.earlier k hFirst (Nat.le_of_lt_succ hOld)
    · rw [hNew, hOutcome]
      rfl
  case waits =>
    rw [← hWaiting.length] at hAllows
    exact hWaiting.waits.concat hAllows
  case within =>
    rw [totalWait_concat]
    exact hAllows.2.1
  case calls =>
    rw [rounds_concat, hWaiting.calls, hWaiting.length]
    unfold round
    rw [hOutcome]
    rfl

-- When The Loop Has Ended

/- The transient outcomes of the first attempts. -/
def transientSeen
    (attempt : ℕ → AttemptOutcome T) (attempts : ℕ) :
    ℕ :=
  (List.range attempts).countP fun k =>
    (attempt (k + 1)).isTransient

/-
  The attempts of a run and the waits between them, with the
  bounds on both.
-/
structure Bounded
    (limits : TransientRetryLimits)
    (attempt : ℕ → AttemptOutcome T) (summary : RetrySummary)
    (calls : List Call) :
    Prop where
  attempts : 1 ≤ summary.attempts ∧ summary.attempts ≤ limits.maxAttempts
  calls : calls = rounds attempt summary.waited ++ [.attempt summary.attempts]
  between : summary.waited.length + 1 = summary.attempts
  earlier : ∀ k, 1 ≤ k → k < summary.attempts → (attempt k).isTransient = true
  waits : Waits limits.policy summary.waited
  within : totalWait summary.waited ≤ limits.policy.budget

/- The value of a run, and why it ended. -/
structure Explained
    (limits : TransientRetryLimits)
    (attempt : ℕ → AttemptOutcome T) (value : T) (summary : RetrySummary) :
    Prop where
  value : value = (attempt summary.attempts).value
  cap : summary.stopReason = some (.attemptCap limits.maxAttempts) ↔
    transientSeen attempt summary.attempts = limits.maxAttempts
  budget : summary.stopReason = some (.timeBudget limits.policy.budget) ↔
    (attempt summary.attempts).isTransient = true ∧
      summary.attempts < limits.maxAttempts ∧
      limits.policy.budget ≤ totalWait summary.waited
  final : summary.stopReason = none ↔
    (attempt summary.attempts).isTransient = false
  named : ∀ reason ∈ summary.stopReason,
    reason = .attemptCap limits.maxAttempts ∨
      reason = .timeBudget limits.policy.budget

theorem transientSeen_succ
    (hEarlier : ∀ k, 1 ≤ k → k ≤ attemptsMade →
      (attempt k).isTransient = true) :
    transientSeen attempt (attemptsMade + 1) = attemptsMade +
      (attempt (attemptsMade + 1)).isTransient.toNat := by
  have hAll : (List.range attemptsMade).countP
      (fun k => (attempt (k + 1)).isTransient) =
        attemptsMade := by
    rw [List.countP_eq_length.mpr, List.length_range]
    intro k hMem
    exact hEarlier (k + 1) (Nat.succ_pos k) (List.mem_range.mp hMem)
  unfold transientSeen
  rw [List.range_succ, List.countP_append, hAll, List.countP_singleton]
  cases (attempt (attemptsMade + 1)).isTransient <;> rfl

variable {value : T}

theorem Waiting.bounded
    {reason : Option StopReason} {verdict : Option FailureVerdict}
    (hWaiting : Waiting limits attempt attemptsMade waited calls) :
    Bounded limits attempt
      { attempts := attemptsMade + 1
        waited := waited
        stopReason := reason
        lastVerdict := verdict }
      (calls ++ [.attempt (attemptsMade + 1)]) where
  attempts := ⟨Nat.succ_pos _, hWaiting.left⟩
  calls := by rw [hWaiting.calls]
  between := by rw [hWaiting.length]
  earlier := fun k hFirst hLast =>
    hWaiting.earlier k hFirst (Nat.le_of_lt_succ hLast)
  waits := hWaiting.waits
  within := hWaiting.within

/- A final outcome ends the loop without a reason. -/
theorem Waiting.final
    (hWaiting : Waiting limits attempt attemptsMade waited calls)
    (hOutcome : attempt (attemptsMade + 1) = .final value) :
    Explained limits attempt value
      { attempts := attemptsMade + 1
        waited := waited
        stopReason := none
        lastVerdict := none } := by
  have hLeft := hWaiting.left
  have hFinal : (attempt (attemptsMade + 1)).isTransient = false := by
    rw [hOutcome]
    rfl
  constructor
  case value =>
    dsimp only
    rw [hOutcome]
    rfl
  case cap =>
    dsimp only
    rw [transientSeen_succ hWaiting.earlier, hFinal]
    refine ⟨nofun, ?_⟩
    intro hSeen
    rw [Bool.toNat_false] at hSeen
    omega
  case budget =>
    dsimp only
    rw [hFinal]
    exact ⟨nofun, nofun⟩
  case final => exact ⟨fun _ => hFinal, fun _ => rfl⟩
  case named => exact nofun

/- A transient one ends it by the cap or by the budget. -/
theorem Waiting.stop
    (hWaiting : Waiting limits attempt attemptsMade waited calls)
    (hOutcome : attempt (attemptsMade + 1) = .transient value verdict)
    (hPlan : limits.planNext (attemptsMade + 1)
      (totalWait waited) number = .error reason) :
    Explained limits attempt value
      { attempts := attemptsMade + 1
        waited := waited
        stopReason := some reason
        lastVerdict := some verdict } := by
  have hLeft := hWaiting.left
  have hTransient : (attempt (attemptsMade + 1)).isTransient = true := by
    rw [hOutcome]
    rfl
  have hReason := planNext_error hPlan
  constructor
  case value =>
    dsimp only
    rw [hOutcome]
    rfl
  case cap =>
    dsimp only
    rw [transientSeen_succ hWaiting.earlier, hTransient,
      Bool.toNat_true, Option.some.injEq]
    rcases hReason with ⟨hCap, hEq⟩ | ⟨hMore, hSpent, hEq⟩
    · rw [hEq]
      exact ⟨fun _ => Nat.le_antisymm hLeft hCap, fun _ => rfl⟩
    · rw [hEq]
      refine ⟨nofun, ?_⟩
      omega
  case budget =>
    dsimp only
    rw [hTransient, Option.some.injEq]
    rcases hReason with ⟨hCap, hEq⟩ | ⟨hMore, hSpent, hEq⟩
    · rw [hEq]
      refine ⟨nofun, ?_⟩
      omega
    · rw [hEq]
      exact ⟨fun _ => ⟨rfl, hMore, hSpent⟩, fun _ => rfl⟩
  case final =>
    dsimp only
    rw [hTransient]
    exact ⟨nofun, nofun⟩
  case named =>
    intro r hMem
    cases hMem
    rcases hReason with ⟨hCap, hEq⟩ | ⟨hMore, hSpent, hEq⟩
    · exact .inl hEq
    · exact .inr hEq

theorem retryFrom_final
    (hOutcome : attempt (attemptsMade + 1) = .final value) :
    retryFrom limits attempt random attemptsMade waited calls =
      (value,
        { attempts := attemptsMade + 1
          waited := waited
          stopReason := none
          lastVerdict := none },
        calls ++ [.attempt (attemptsMade + 1)]) := by
  rw [retryFrom]
  split
  · next hFinal =>
      rw [hOutcome] at hFinal
      cases hFinal
      rfl
  · next hTransient =>
      rw [hOutcome] at hTransient
      cases hTransient

theorem retryFrom_next
    (hOutcome : attempt (attemptsMade + 1) = .transient value verdict)
    (hPlan : limits.planNext (attemptsMade + 1)
      (totalWait waited) (random attemptsMade) = .ok delay) :
    retryFrom limits attempt random attemptsMade waited calls =
      retryFrom limits attempt random (attemptsMade + 1)
        (waited ++ [delay])
        (calls ++ [.attempt (attemptsMade + 1),
          .onRetry verdict (attemptsMade + 1) delay,
          .sleep delay]) := by
  rw [retryFrom]
  split
  · next hFinal =>
      rw [hOutcome] at hFinal
      cases hFinal
  · next hTransient =>
      rw [hOutcome] at hTransient
      cases hTransient
      split
      · next hOk =>
          rw [hPlan] at hOk
          cases hOk
          rfl
      · next hError =>
          rw [hPlan] at hError
          cases hError

theorem retryFrom_stop
    (hOutcome : attempt (attemptsMade + 1) = .transient value verdict)
    (hPlan : limits.planNext (attemptsMade + 1)
      (totalWait waited) (random attemptsMade) = .error reason) :
    retryFrom limits attempt random attemptsMade waited calls =
      (value,
        { attempts := attemptsMade + 1
          waited := waited
          stopReason := some reason
          lastVerdict := some verdict },
        calls ++ [.attempt (attemptsMade + 1)]) := by
  rw [retryFrom]
  split
  · next hFinal =>
      rw [hOutcome] at hFinal
      cases hFinal
  · next hTransient =>
      rw [hOutcome] at hTransient
      cases hTransient
      split
      · next hOk =>
          rw [hPlan] at hOk
          cases hOk
      · next hError =>
          rw [hPlan] at hError
          cases hError
          rfl

/- From any state of the loop, by the attempts left. -/
theorem retryFrom_exact
    (hWaiting : Waiting limits attempt attemptsMade waited calls) :
    Bounded limits attempt
      (retryFrom limits attempt random attemptsMade waited calls).2.1
      (retryFrom limits attempt random attemptsMade waited calls).2.2 ∧
    Explained limits attempt
      (retryFrom limits attempt random attemptsMade waited calls).1
      (retryFrom limits attempt random attemptsMade waited calls).2.1 := by
  induction attemptsMade, waited, calls using
    retryFrom.induct limits attempt random with
  | case1 attemptsMade waited calls _ value hOutcome =>
    rw [retryFrom_final hOutcome]
    exact ⟨hWaiting.bounded, hWaiting.final hOutcome⟩
  | case2 attemptsMade waited calls _ value verdict hOutcome
      delay hPlan ih =>
      rw [retryFrom_next hOutcome hPlan]
      exact ih (hWaiting.next hOutcome hPlan)
  | case3 attemptsMade waited calls _ value verdict hOutcome
      reason hPlan =>
      rw [retryFrom_stop hOutcome hPlan]
      exact ⟨hWaiting.bounded, hWaiting.stop hOutcome hPlan⟩

/- Bounded and exact, for any outcomes and random numbers. -/
theorem runWithTransientRetry_exact
    (limits : TransientRetryLimits)
    (attempt : ℕ → AttemptOutcome T) (random : ℕ → UInt64) :
    Bounded limits attempt
      (runWithTransientRetry limits attempt random).2.1
      (runWithTransientRetry limits attempt random).2.2 ∧
    Explained limits attempt
      (runWithTransientRetry limits attempt random).1
      (runWithTransientRetry limits attempt random).2.1 :=
  retryFrom_exact waiting_start

/- Ten seconds without jitter, whichever wait it is. -/
def fiveSecondBudget : TransientRetryLimits :=
  .new 3
    { baseMillis := fun _ => 10000
      budget := 5000 * nanosPerMilli }

def sampleVerdict : FailureVerdict where
  cls := .transientTransport
  signal := some "api error: 529"
  evidence := []
  failedSteps := []
  completedSteps := []

/- The first attempt fails, the second does not. -/
def secondSucceeds (number : ℕ) : AttemptOutcome String :=
  if number = 1 then .transient "529" sampleVerdict
  else .final "ok"

def spentAndSaved : String × RetrySummary × List Call :=
  runWithTransientRetry fiveSecondBudget secondSucceeds fun _ => 0

theorem spentAndSaved_eq :
    spentAndSaved =
      ("ok",
        { attempts := 2
          waited := [5000 * nanosPerMilli]
          stopReason := none
          lastVerdict := none },
        [.attempt 1, .onRetry sampleVerdict 1 (5000 * nanosPerMilli),
          .sleep (5000 * nanosPerMilli), .attempt 2]) := by
  have hFirst : secondSucceeds (0 + 1) = .transient "529" sampleVerdict := rfl
  have hPlan : fiveSecondBudget.planNext (0 + 1)
      (totalWait []) 0 = .ok (5000 * nanosPerMilli) := by decide +kernel
  have hSecond : secondSucceeds (0 + 1 + 1) = .final "ok" := rfl
  unfold spentAndSaved runWithTransientRetry
  rw [retryFrom_next hFirst hPlan, retryFrom_final hSecond]
  rfl

/-
  The first wait takes all of the budget, the second attempt
  is final, and one attempt is left: no reason is given.
-/
theorem budget_spent_before_success :
    ¬ (spentAndSaved.2.1.stopReason =
        some (.timeBudget fiveSecondBudget.policy.budget) ↔
      fiveSecondBudget.policy.budget ≤ totalWait spentAndSaved.2.1.waited ∧
        spentAndSaved.2.1.attempts < fiveSecondBudget.maxAttempts) := by
  intro hExactly
  rw [spentAndSaved_eq] at hExactly
  have hReason := hExactly.mpr ⟨by decide, by decide⟩
  cases hReason

end Recipe
