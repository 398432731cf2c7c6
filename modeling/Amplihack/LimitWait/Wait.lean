import Mathlib.Data.List.Chain
import Amplihack.LimitWait.Plan

/-
  The wait: a loop that looks at the world once a pass and
  ends at a signal, at its deadline or at a login that two
  probes in a row agree on.
-/

-- Passes

namespace LimitWait

open Base

/- How often the login fingerprint is taken again. -/
def pollSecs : ℤ := 30

/- How often a progress line is written. -/
def progressSecs : ℤ := 60

/- Why the wait ended. -/
inductive End where
| resetReached
| maxReached
| stepTimeout
| loginChanged
| rotatorCapacity
| capacityExpired
| otherCapacity
| sessionEnded
| signal (number : ℤ)
deriving DecidableEq

/- The failed login's own reset, on a capacity wait too. -/
def atDeadline : Bound → PlanKind → End
| .stepTimeout, _ => .stepTimeout
| .resetMargin, _ => .resetReached
| .maxWait, .reset => .maxReached
| .maxWait, .capacity => .capacityExpired

/- What the world answers in one pass, asked or not. -/
structure Pass (P : Type) where
  signal : Option ℤ
  sessionEnded : Bool
  now : ℤ
  fingerprint : Option P
  rotatorCapacity : Bool
  otherCapacity : Bool

/-
  The previous probe, and the value two probes in a row
  agreed on; `logged` holds the progress lines.
-/
structure Loop (P : Type) where
  last : Option P
  baseline : Option (Option P)
  nextPoll : ℤ
  nextProgress : ℤ
  logged : List ℕ

variable {P : Type}
variable [DecidableEq P]

/- No state when the login has changed. -/
def probed
    (loop : Loop P) (probe : Option P) :
    Option (Loop P) :=
  match loop.baseline with
  | none =>
    if probe = loop.last then
      some { loop with
        baseline := some loop.last
        last := probe }
    else some { loop with last := probe }
  | some base =>
    if probe ≠ base ∧ probe = loop.last then none
    else some { loop with last := probe }

def poll
    (plan : Plan) (loop : Loop P) (world : Pass P) :
    Except End (Loop P) :=
  match probed loop world.fingerprint with
  | none => .error .loginChanged
  | some loop =>
    if world.rotatorCapacity then .error .rotatorCapacity
    else if plan.kind = .capacity ∧ world.otherCapacity then
      .error .otherCapacity
    else
      .ok { loop with
        nextPoll := saturatingAdd world.now pollSecs }

def progress
    (plan : Plan) (now : ℤ) (loop : Loop P) :
    Loop P :=
  if loop.nextProgress ≤ now then
    { loop with
      logged := loop.logged ++
        [(saturatingSub plan.until_ now).toNat]
      nextProgress := saturatingAdd now progressSecs }
  else loop

def pass
    (plan : Plan) (loop : Loop P) (world : Pass P) :
    Except End (Loop P) :=
  match world.signal with
  | some number => .error (.signal number)
  | none =>
    if world.sessionEnded then .error .sessionEnded
    else if plan.until_ ≤ world.now then
      .error (atDeadline plan.bound plan.kind)
    else if loop.nextPoll ≤ world.now then
      (poll plan loop world).map (progress plan world.now)
    else .ok (progress plan world.now loop)

def begin_ (start : ℤ) (first : Option P) : Loop P where
  last := first
  baseline := none
  nextPoll := saturatingAdd start pollSecs
  nextProgress := saturatingAdd start progressSecs
  logged := []

/- The wait as far as these passes take it. -/
def wait
    (plan : Plan) (start : ℤ) (first : Option P) (passes : List (Pass P)) :
    Except End (Loop P) :=
  passes.foldlM (pass plan) (begin_ start first)

/- The pass gets as far as taking the fingerprint. -/
def Reads
    (plan : Plan) (loop : Loop P) (world : Pass P) :
    Prop :=
  world.signal = none ∧ world.sessionEnded = false ∧
    world.now < plan.until_ ∧ loop.nextPoll ≤ world.now

instance
    (plan : Plan)
    (loop : Loop P)
    (world : Pass P) :
    Decidable (Reads plan loop world) :=
  inferInstanceAs (Decidable (_ ∧ _ ∧ _ ∧ _))

/- The fingerprints that a run takes after its first. -/
def probes
    (plan : Plan) (loop : Loop P) :
    List (Pass P) → List (Option P)
| [] => []
| world :: passes =>
  (if Reads plan loop world then [world.fingerprint]
    else []) ++
  match pass plan loop world with
  | .ok next => probes plan next passes
  | .error _ => []

-- One Pass

variable {plan : Plan}
variable {loop next : Loop P}
variable {world : Pass P}
variable {passes : List (Pass P)}

omit [DecidableEq P] in
@[simp]
theorem progress_last (now : ℤ) :
    (progress plan now loop).last = loop.last := by
  unfold progress
  split <;> rfl

omit [DecidableEq P] in
@[simp]
theorem progress_baseline (now : ℤ) :
    (progress plan now loop).baseline = loop.baseline := by
  unfold progress
  split <;> rfl

/- What a pass that takes no fingerprint leaves alone. -/
theorem pass_of_not_reads
    (hReads : ¬ Reads plan loop world) :
    pass plan loop world ≠ .error .loginChanged ∧
      ∀ next, pass plan loop world = .ok next →
        next.last = loop.last ∧
          next.baseline = loop.baseline := by
  unfold pass
  split
  next number hSignal => simp
  next hSignal =>
    split
    next hEnded => simp
    next hEnded =>
      split
      next hUntil =>
        refine ⟨?_, by simp⟩
        cases plan.bound <;> cases plan.kind <;>
          simp [atDeadline]
      next hUntil =>
        split
        next hPoll =>
          exact absurd
            ⟨hSignal, by simpa using hEnded, not_le.mp hUntil, hPoll⟩
            hReads
        next hPoll => simp

theorem pass_of_reads (hReads : Reads plan loop world) :
    pass plan loop world =
      (poll plan loop world).map (progress plan world.now) := by
  rcases hReads with ⟨hSignal, hEnded, hUntil, hPoll⟩
  unfold pass
  rw [hSignal]
  dsimp only
  rw [if_neg (by simp [hEnded]), if_neg (not_le.mpr hUntil), if_pos hPoll]

/- A fingerprint decides the next state but for its clocks. -/
theorem pass_ok_of_reads
    (hReads : Reads plan loop world)
    (hPass : pass plan loop world = .ok next) :
    ∃ mid, probed loop world.fingerprint = some mid ∧
      next.last = mid.last ∧
      next.baseline = mid.baseline := by
  rw [pass_of_reads hReads] at hPass
  unfold poll at hPass
  split at hPass
  next hProbed => cases hPass
  next mid hProbed =>
    refine ⟨mid, hProbed, ?_⟩
    split at hPass
    · cases hPass
    · split at hPass
      · cases hPass
      · rw [Except.map] at hPass
        injection hPass with hNext
        rw [← hNext, progress_last, progress_baseline]
        exact ⟨rfl, rfl⟩

theorem probed_of_loginChanged
    (hReads : Reads plan loop world)
    (hPass : pass plan loop world = .error .loginChanged) :
    probed loop world.fingerprint = none := by
  rw [pass_of_reads hReads] at hPass
  unfold poll at hPass
  split at hPass
  next hProbed => exact hProbed
  next mid hProbed =>
    split at hPass
    · simp [Except.map] at hPass
    · split at hPass <;> simp [Except.map] at hPass

-- Agreement of Two Probes in a Row

variable {seen : List (Option P)}
variable {probe base : Option P}

/- The first value that two probes in a row agree on. -/
def Agreed
    (seen : List (Option P)) (base : Option P) :
    Prop :=
  ∃ before after, seen = before ++ base :: base :: after ∧
    (before ++ [base]).IsChain (· ≠ ·)

/-
  The last two probes agree, on another value than the first
  one that two probes in a row had agreed on before.
-/
def Changed (seen : List (Option P)) : Prop :=
  ∃ before base print, seen = before ++ [print, print] ∧
    Agreed (before ++ [print]) base ∧ print ≠ base

omit [DecidableEq P] in
theorem Agreed.snoc
    (hAgreed : Agreed seen base) (probe : Option P) :
    Agreed (seen ++ [probe]) base := by
  rcases hAgreed with ⟨before, after, rfl, hChain⟩
  exact ⟨before, after ++ [probe], by simp, hChain⟩

/- What the loop remembers of the probes so far. -/
structure Tracks
    (seen : List (Option P)) (loop : Loop P) :
    Prop where
  last : ∃ before, seen = before ++ [loop.last]
  fresh : loop.baseline = none → seen.IsChain (· ≠ ·)
  agreed : ∀ base ∈ loop.baseline, Agreed seen base

omit [DecidableEq P] in
theorem tracks_begin (start : ℤ) (first : Option P) :
    Tracks [first] (begin_ start first) where
  last := ⟨[], rfl⟩
  fresh := fun _ => List.isChain_singleton _
  agreed := by
    intro base hBase
    cases hBase

omit [DecidableEq P] in
theorem Tracks.congr
    (hTracks : Tracks seen loop) (hLast : next.last = loop.last)
    (hBaseline : next.baseline = loop.baseline) :
    Tracks seen next where
  last := by
    rw [hLast]
    exact hTracks.last
  fresh := by
    rw [hBaseline]
    exact hTracks.fresh
  agreed := by
    rw [hBaseline]
    exact hTracks.agreed

/- A probe that is not like the last is no agreement. -/
theorem Tracks.probed
    (hTracks : Tracks seen loop) (hProbed : probed loop probe = some next) :
    Tracks (seen ++ [probe]) next := by
  rcases hTracks.last with ⟨before, hSeen⟩
  unfold LimitWait.probed at hProbed
  split at hProbed
  next hBaseline =>
    have hChain := hTracks.fresh hBaseline
    split at hProbed
    next hSame =>
      rw [← Option.some.inj hProbed]
      constructor
      case last => exact ⟨seen, rfl⟩
      case fresh =>
        intro hNone
        cases hNone
      case agreed =>
        intro base hBase
        rw [← Option.mem_some.mp hBase, hSame]
        refine ⟨before, [], ?_, hSeen ▸ hChain⟩
        rw [hSeen, List.append_assoc]
        rfl
    next hOther =>
      rw [← Option.some.inj hProbed]
      constructor
      case last => exact ⟨seen, rfl⟩
      case fresh =>
        intro hNone
        rw [hSeen] at hChain ⊢
        rw [List.append_assoc, List.singleton_append,
          List.isChain_append_cons_cons]
        exact ⟨hChain, Ne.symm hOther, List.isChain_singleton _⟩
      case agreed =>
        intro base hBase
        exact (hTracks.agreed base hBase).snoc probe
  next base hBaseline =>
    split at hProbed
    · cases hProbed
    · rw [← Option.some.inj hProbed]
      constructor
      case last => exact ⟨seen, rfl⟩
      case fresh =>
        intro hNone
        rw [hBaseline] at hNone
        cases hNone
      case agreed =>
        intro base hBase
        exact (hTracks.agreed base hBase).snoc probe

theorem Tracks.changed
    (hTracks : Tracks seen loop)
    (hProbed : LimitWait.probed loop probe = none) :
    Changed (seen ++ [probe]) := by
  rcases hTracks.last with ⟨before, hSeen⟩
  unfold LimitWait.probed at hProbed
  split at hProbed
  next hBaseline => split at hProbed <;> cases hProbed
  next base hBaseline =>
    split at hProbed
    next hBoth =>
      have hAgreed := hTracks.agreed base hBaseline
      rw [hSeen, ← hBoth.2] at hAgreed ⊢
      exact ⟨before, base, probe, by simp, hAgreed, hBoth.1⟩
    next hBoth => cases hProbed

/- By induction on the passes, carrying the probes so far. -/
theorem changed_of_run
    (hTracks : Tracks seen loop)
    (hRun : passes.foldlM (pass plan) loop = .error .loginChanged) :
    Changed (seen ++ probes plan loop passes) := by
  induction passes generalizing seen loop with
  | nil => cases hRun
  | cons world passes ih =>
    rw [List.foldlM_cons] at hRun
    unfold probes
    by_cases hReads : Reads plan loop world
    · rw [if_pos hReads]
      cases hPass : pass plan loop world with
      | error reason =>
        rw [hPass] at hRun
        injection hRun with hReason
        rw [hReason] at hPass
        rw [List.append_nil]
        exact hTracks.changed (probed_of_loginChanged hReads hPass)
      | ok next =>
        rw [hPass] at hRun
        rcases pass_ok_of_reads hReads hPass with
          ⟨mid, hProbed, hLast, hBaseline⟩
        have hNext := (hTracks.probed hProbed).congr hLast hBaseline
        rw [← List.append_assoc]
        exact ih hNext hRun
    · rw [if_neg hReads, List.nil_append]
      have hKept := pass_of_not_reads hReads
      cases hPass : pass plan loop world with
      | error reason =>
        rw [hPass] at hRun
        injection hRun with hReason
        rw [hReason] at hPass
        exact absurd hPass hKept.1
      | ok next =>
        rw [hPass] at hRun
        rcases hKept.2 next hPass with ⟨hLast, hBaseline⟩
        exact ih (hTracks.congr hLast hBaseline) hRun

-- The Deadline

structure Quiet (world : Pass P) : Prop where
  signal : world.signal = none
  sessionEnded : world.sessionEnded = false
  rotatorCapacity : world.rotatorCapacity = false
  otherCapacity : world.otherCapacity = false

theorem pass_at_deadline
    (hSignal : world.signal = none) (hEnded : world.sessionEnded = false)
    (hUntil : plan.until_ ≤ world.now) :
    pass plan loop world = .error (atDeadline plan.bound plan.kind) := by
  unfold pass
  rw [hSignal]
  dsimp only
  rw [if_neg (by simp [hEnded]), if_pos hUntil]

/- Before the deadline only a changed login ends the wait. -/
theorem pass_before_deadline
    (hQuiet : Quiet world) (hUntil : world.now < plan.until_) :
    (∃ next, pass plan loop world = .ok next) ∨
      pass plan loop world = .error .loginChanged := by
  unfold pass poll
  rw [hQuiet.signal, hQuiet.rotatorCapacity, hQuiet.otherCapacity]
  dsimp only
  rw [if_neg (by simp [hQuiet.sessionEnded]), if_neg (not_le.mpr hUntil)]
  split
  · split
    next hProbed => exact .inr rfl
    next mid hProbed =>
      left
      simp [Except.map]
  · exact .inl ⟨_, rfl⟩

theorem run_before_deadline
    (hQuiet : ∀ world ∈ passes, Quiet world)
    (hUntil : ∀ world ∈ passes, world.now < plan.until_) :
    (∃ next, passes.foldlM (pass plan) loop = .ok next) ∨
      passes.foldlM (pass plan) loop = .error .loginChanged := by
  induction passes generalizing loop with
  | nil => exact .inl ⟨loop, rfl⟩
  | cons world passes ih =>
    rw [List.foldlM_cons]
    rcases pass_before_deadline
      (hQuiet world List.mem_cons_self)
      (hUntil world List.mem_cons_self) with
      ⟨next, hPass⟩ | hPass
    · rw [hPass]
      exact ih
        (fun world hWorld =>
          hQuiet world (List.mem_cons_of_mem _ hWorld))
        (fun world hWorld =>
          hUntil world (List.mem_cons_of_mem _ hWorld))
    · rw [hPass]
      exact .inr rfl

/- The deadline ends the wait, unless the login changed. -/
theorem run_at_deadline
    {before after : List (Pass P)}
    (hBefore : ∀ world ∈ before, Quiet world ∧ world.now < plan.until_)
    (hQuiet : Quiet world) (hUntil : plan.until_ ≤ world.now) :
    ((∃ next, before.foldlM (pass plan) loop = .ok next) ∧
      (before ++ world :: after).foldlM (pass plan) loop =
        .error (atDeadline plan.bound plan.kind)) ∨
      before.foldlM (pass plan) loop = .error .loginChanged := by
  rcases run_before_deadline
    (fun world hWorld => (hBefore world hWorld).1)
    (fun world hWorld => (hBefore world hWorld).2) with
    ⟨next, hNext⟩ | hChanged
  · left
    refine ⟨⟨next, hNext⟩, ?_⟩
    rw [List.foldlM_append, hNext]
    change (world :: after).foldlM (pass plan) next = _
    rw [List.foldlM_cons,
      pass_at_deadline hQuiet.signal hQuiet.sessionEnded hUntil]
    rfl
  · exact .inr hChanged

-- Every Wait

/-
  A changed login ends the wait only at two probes that agree
  on another value than the baseline, so one failed or torn
  read does not; and the deadline ends a quiet wait at its
  first pass at or past it.
-/
theorem wait_ends_for_a_reason
    (plan : Plan) (start : ℤ) (first : Option P) (passes : List (Pass P)) :
    (wait plan start first passes = .error .loginChanged →
      Changed (first :: probes plan (begin_ start first) passes)) ∧
      (∀ before world after, passes = before ++ world :: after →
        (∀ world ∈ before, Quiet world ∧ world.now < plan.until_) →
        Quiet world →
        plan.until_ ≤ world.now →
        ((∃ loop, wait plan start first before = .ok loop) ∧
          wait plan start first passes =
            .error (atDeadline plan.bound plan.kind)) ∨
          wait plan start first before = .error .loginChanged) ∧
      ((∀ world ∈ passes, Quiet world ∧ world.now < plan.until_) →
        (∃ loop, wait plan start first passes = .ok loop) ∨
          wait plan start first passes = .error .loginChanged) := by
  refine ⟨?_, ?_, ?_⟩
  · intro hRun
    exact changed_of_run (tracks_begin start first) hRun
  · intro before world after hPasses hBefore hQuiet hUntil
    rw [hPasses]
    exact run_at_deadline hBefore hQuiet hUntil
  · intro hPasses
    exact run_before_deadline
      (fun world hWorld => (hPasses world hWorld).1)
      (fun world hWorld => (hPasses world hWorld).2)

def thirtyMinutes : Plan where
  until_ := 1800
  bound := .resetMargin
  kind := .reset
  reset := some 1680

/- A quiet pass. -/
def reading
    (now : ℤ) (fingerprint : Option ℕ) :
    Pass ℕ where
  signal := none
  sessionEnded := false
  now := now
  fingerprint := fingerprint
  rotatorCapacity := false
  otherCapacity := false

/-
  Two failed reads in a row are a change by design, and so is
  a login like a torn first read.
-/
theorem ends_at_failed_reads_and_at_the_first_login :
    (¬ ∀ (plan : Plan) (start : ℤ) (first : Option ℕ)
      (passes : List (Pass ℕ)),
      wait plan start first passes = .error .loginChanged →
      ∃ print : ℕ, [some print, some print] <:+
        first :: probes plan (begin_ start first) passes) ∧
      ¬ ∀ (plan : Plan) (start : ℤ) (first : Option ℕ)
        (passes : List (Pass ℕ)),
        wait plan start first passes = .error .loginChanged →
        ∃ print, [print, print] <:+
            first :: probes plan (begin_ start first) passes ∧
          print ≠ first := by
  constructor
  · intro hAll
    rcases hAll thirtyMinutes 0 (some 1)
      [reading 30 (some 1), reading 60 none,
        reading 90 none] rfl with ⟨print, hSuffix⟩
    have hReversed := List.reverse_prefix.mpr hSuffix
    rcases hReversed with ⟨rest, hRest⟩
    injection hRest with hHead
    cases hHead
  · intro hAll
    rcases hAll thirtyMinutes 0 (some 9)
      [reading 30 (some 1), reading 60 (some 1),
        reading 90 (some 9), reading 120 (some 9)] rfl with
      ⟨print, hSuffix, hOther⟩
    have hReversed := List.reverse_prefix.mpr hSuffix
    rcases hReversed with ⟨rest, hRest⟩
    injection hRest with hHead
    exact hOther hHead

/- The change that both of the last two probes see. -/
theorem ends_for_a_reason_at_ninety :
    Changed [some 1, some 1, some 2, some 2] :=
  (wait_ends_for_a_reason thirtyMinutes 0 (some 1)
    [reading 30 (some 1), reading 60 (some 2), reading 90 (some 2)]).1 rfl

end LimitWait
