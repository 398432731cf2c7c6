import Amplihack.Base.FirstBy
import Amplihack.Rotate.Overflow

/-
  Work moves onto an overflow profile as a last resort.
-/

-- The Contract

namespace Rotate

open Base Profile

namespace OverflowInput

variable (i : OverflowInput)

/- An overflow profile that may be moved to. -/
structure Eligible (n : ProfileName) : Prop where
  notLive : i.liveName ≠ some n
  noBlock : active i.blocks n i.now = false
  noLimit : ∀ c ∈ i.candidates, c.name = n → c.spendLimit = false
  probed : ∃ c ∈ i.candidates, c.name = n ∧ c.reading ≠ .failed
  keyOpen : i.platform = some n →
    i.platformBlocked = false ∧ i.unknownPlan = []

/- The first eligible entry by tier, then given order. -/
def FirstEligible (n : ProfileName) : Prop :=
  ∃ e, e.name = n ∧
    FirstBy (fun e => e.tier.toNat)
      (fun e => i.Eligible e.name) i.overflow e

/- No plan login can be used, and none may turn out to be. -/
structure PlanExhausted : Prop where
  threshold : needsSwap i.settings i.live.reading = true
  probed : i.live.reading ≠ .failed
  noRoom : ∀ r ∈ i.planReadings, hasRoom r = false
  known : ∀ c ∈ i.plan, c.unknown = false
  noneRefused : ∀ n ∈ i.refused, i.isOverflow n = true
  far : i.settings.gate.far i.earliestWithLive i.now = true

end OverflowInput

-- Names

namespace OverflowInput

variable {i : OverflowInput}

theorem isOverflow_iff {n : ProfileName} :
    i.isOverflow n = true ↔ ∃ e ∈ i.overflow, e.name = n := by
  simp [isOverflow, order, List.mem_insertionSort]

theorem mem_plan_iff {c : Measured} :
    c ∈ i.plan ↔
      c ∈ i.candidates ∧ i.isOverflow c.name = false := by
  simp [plan]

/- No plan candidate has an overflow profile's name. -/
theorem not_isOverflow_of_mem_plan {n : ProfileName}
    (hPlan : ∃ c ∈ i.plan, c.name = n) :
    i.isOverflow n = false := by
  rcases hPlan with ⟨c, hc, rfl⟩
  exact (mem_plan_iff.mp hc).2

theorem not_isOverflow_of_best
    {candidates : List Measured} {n : ProfileName} {h : UInt8}
    (hSubset : candidates ⊆ i.plan) (hBest : best candidates = some (n, h)) :
    i.isOverflow n = false := by
  rcases best_mem hBest with ⟨c, hc, hName, _⟩
  exact not_isOverflow_of_mem_plan ⟨c, hSubset hc, hName⟩

theorem not_isOverflow_of_planDecision
    {n : ProfileName} {reason : Reason}
    (hSwap : i.planDecision = .swap n reason) :
    i.isOverflow n = false := by
  rcases decide_eq_swap_iff.mp hSwap with ⟨h, hBest, _⟩
  exact not_isOverflow_of_best (List.Subset.refl _) hBest

theorem not_isOverflow_of_choose
    {live : Option Measured} {n : ProfileName}
    (hChoose : choose i.settings live i.plan = some n) :
    i.isOverflow n = false :=
  not_isOverflow_of_mem_plan (choose_mem hChoose)

theorem unknownPlan_eq_nil
    (hNil : i.unknownPlan = []) :
    i.unmeasuredPlan = [] ∧
      ∀ c ∈ i.plan, c.reading ≠ .failed := by
  simp only [unknownPlan, List.append_eq_nil_iff, List.map_eq_nil_iff,
    List.filter_eq_nil_iff, Bool.not_eq_true] at hNil
  exact ⟨hNil.1.1, fun c hc =>
    Reading.isFailed_eq_false_iff.mp (hNil.1.2 c hc)⟩

-- The Next Overflow Profile

theorem usableCandidate_name
    {o : ProfileName} {c : Measured}
    (hUsable : i.usableCandidate o = some c) :
    c.name = o := by
  have hTest := List.find?_some hUsable
  simp only [Bool.and_eq_true, decide_eq_true_eq] at hTest
  exact hTest.1.1

/- The test that the search for the next profile makes. -/
def mayMoveTo
    (i : OverflowInput) (creditOnly : Bool) (n : ProfileName) :
    Bool :=
  !(creditOnly && some n = i.platform) &&
    (!(some n = i.liveName) && !i.blocked n) && (i.usableCandidate n).isSome

theorem nextIn_eq (creditOnly : Bool) :
    i.nextIn creditOnly =
      (i.order.find? fun e =>
        i.mayMoveTo creditOnly e.name).map (·.name) := by
  rw [nextIn, List.filter_filter,
    map_findSome?_filter fun o c => usableCandidate_name, List.find?_map]
  congr 2
  funext e
  simp [mayMoveTo, Bool.and_comm]

/- Off the live login, a name is blocked for one of three reasons. -/
theorem blocked_eq_false_iff {n : ProfileName}
    (hOverflow : i.isOverflow n = true) (hOther : i.liveName ≠ some n) :
    i.blocked n = false ↔
      active i.blocks n i.now = false ∧
        i.limitSeen n = false ∧
        (i.platform = some n → i.platformBlocked = false) := by
  have hNew : i.newBlocks.contains n =
      (!active i.blocks n i.now && i.limitSeen n) := by
    have hOrder : n ∈ i.order.map (·.name) := by
      simpa [isOverflow, List.any_eq_true] using hOverflow
    have hLive : n ∉ i.liveBlock.toList := by
      intro hMem
      have hSome := Option.mem_toList.mp hMem
      exact hOther (Option.filter_eq_some_iff.mp hSome).1
    rw [Bool.eq_iff_iff, List.contains_iff_mem, newBlocks,
      List.mem_append, List.mem_filter]
    simp [hLive, hOrder, Ne.symm hOther]
  rw [blocked, hNew, eq_comm (a := i.platform)]
  cases active i.blocks n i.now <;>
    cases i.limitSeen n <;>
    cases i.platformBlocked <;> simp

theorem usableCandidate_isSome_iff {n : ProfileName}
    (hLimit : i.limitSeen n = false) :
    (i.usableCandidate n).isSome = true ↔
      ∃ c ∈ i.candidates, c.name = n ∧
        c.reading ≠ .failed := by
  rw [usableCandidate, List.find?_isSome]
  constructor
  · rintro ⟨c, hc, hTest⟩
    simp only [Bool.and_eq_true, decide_eq_true_eq,
      Bool.not_eq_true'] at hTest
    exact ⟨c, hc, hTest.1.1, Reading.isFailed_eq_false_iff.mp hTest.1.2⟩
  · rintro ⟨c, hc, hName, hProbed⟩
    refine ⟨c, hc, ?_⟩
    have hSpend : c.spendLimit = false := by
      simpa [hName] using List.any_eq_false.mp hLimit c hc
    simp [hName, hSpend, Reading.isFailed_eq_false_iff.mpr hProbed]

variable {creditOnly : Bool} {n : ProfileName}

/- With the key held as the policy holds it, the test is `Eligible`. -/
theorem mayMoveTo_iff_eligible
    (hOverflow : i.isOverflow n = true)
    (hKey : i.platform = some n → i.liveName ≠ some n →
      (creditOnly = false ↔ i.unknownPlan = [])) :
    i.mayMoveTo creditOnly n = true ↔ i.Eligible n := by
  simp only [mayMoveTo, Bool.and_eq_true, Bool.not_eq_true',
    Bool.and_eq_false_iff, decide_eq_false_iff_not]
  constructor
  · rintro ⟨⟨hCredit, hOther, hBlocked⟩, hUsable⟩
    have hOther : i.liveName ≠ some n := Ne.symm hOther
    rcases (blocked_eq_false_iff hOverflow hOther).mp hBlocked
      with ⟨hActive, hLimit, hPlatform⟩
    refine
      { notLive := hOther
        noBlock := hActive
        noLimit := ?_
        probed := (usableCandidate_isSome_iff hLimit).mp hUsable
        keyOpen := ?_ }
    · intro c hc hName
      simpa [hName] using List.any_eq_false.mp hLimit c hc
    · intro hIsKey
      refine ⟨hPlatform hIsKey, (hKey hIsKey hOther).mp ?_⟩
      rcases hCredit with hCredit | hNot
      · exact hCredit
      · exact absurd hIsKey.symm hNot
  · intro hEligible
    have hOther := hEligible.notLive
    have hLimit : i.limitSeen n = false := by
      rw [limitSeen, List.any_eq_false]
      intro c hc hTest
      simp only [Bool.and_eq_true, decide_eq_true_eq] at hTest
      simp [hEligible.noLimit c hc hTest.1] at hTest
    refine ⟨⟨?_, Ne.symm hOther, ?_⟩,
      (usableCandidate_isSome_iff hLimit).mpr hEligible.probed⟩
    · by_cases hIsKey : i.platform = some n
      · exact Or.inl ((hKey hIsKey hOther).mpr (hEligible.keyOpen hIsKey).2)
      · exact Or.inr (Ne.symm hIsKey)
    · exact (blocked_eq_false_iff hOverflow hOther).mpr
        ⟨hEligible.noBlock, hLimit,
          fun hIsKey => (hEligible.keyOpen hIsKey).1⟩

/- What the search finds is the first eligible entry. -/
theorem firstEligible_of_nextIn
    (hKey : ∀ n, i.platform = some n → i.liveName ≠ some n →
      (creditOnly = false ↔ i.unknownPlan = []))
    (hNext : i.nextIn creditOnly = some n) :
    i.FirstEligible n := by
  rw [nextIn_eq, Option.map_eq_some_iff] at hNext
  rcases hNext with ⟨e, hFind, hName⟩
  refine ⟨e, hName, ?_⟩
  refine (firstBy_of_find?_insertionSort
    (fun e : OverflowEntry => e.tier.toNat) hFind).congr ?_
  intro y hy
  exact mayMoveTo_iff_eligible
    (isOverflow_iff.mpr ⟨y, hy, rfl⟩) (hKey y.name)

theorem firstEligible_of_nextPaid {n : ProfileName}
    (hNext : i.nextPaid = some n) :
    i.FirstEligible n := by
  refine firstEligible_of_nextIn ?_ hNext
  simp

/- On the key, leaving the key out and not moving to it agree. -/
theorem firstEligible_of_livePlatform {n : ProfileName}
    (hLive : i.livePlatform = true) (hNext : i.nextIn true = some n) :
    i.FirstEligible n := by
  refine firstEligible_of_nextIn ?_ hNext
  intro m hKey hOther
  simp only [livePlatform, Bool.and_eq_true, decide_eq_true_eq] at hLive
  exact absurd (hLive.2.trans hKey) hOther

-- The Policy's Exits

theorem needsSwap_of_movingWithoutCapacity
    (hMoving : i.movingWithoutCapacity = true) :
    needsSwap i.settings i.live.reading = true := by
  unfold movingWithoutCapacity at hMoving
  split at hMoving
  · next hAlert => exact (decide_eq_alert_iff.mp hAlert).1
  · next target hSwap =>
      rcases decide_eq_swap_iff.mp hSwap with
        ⟨h, _, ⟨hNeeds, _⟩ | ⟨_, _, _, _, hReason⟩⟩
      · exact hNeeds
      · cases hReason
  · simp at hMoving

variable {target : ProfileName} {reason : Reason}

/- Off a plan login, overflow is the last exit. -/
theorem offPlan_overflow
    (hSwap : i.offPlan.decision = .swap target reason)
    (hTarget : i.isOverflow target = true) :
    i.PlanExhausted ∧ i.nextPaid = some target := by
  have hDecision : i.planDecision ≠ .swap target reason := by
    intro hEq
    simp [not_isOverflow_of_planDecision hEq] at hTarget
  unfold offPlan at hSwap
  simp only at hSwap
  split at hSwap
  · exact absurd hSwap hDecision
  next hMoving =>
  simp only [Bool.or_eq_true, Bool.not_eq_true', not_or,
    Bool.not_eq_false, Bool.not_eq_true] at hMoving
  split at hSwap
  · next t hChoose =>
      -- the swap for room goes to a plan login either way
      have hPlan := not_isOverflow_of_choose hChoose
      simp only [verdict] at hSwap
      split_ifs at hSwap
      · exact absurd hSwap hDecision
      · cases hSwap
        simp [hPlan] at hTarget
  split at hSwap
  · simp [verdict] at hSwap
  next hRoom =>
  split at hSwap
  · next hFar =>
      split at hSwap
      · next t hNext =>
          simp only [verdict, Decision.swap.injEq] at hSwap
          rcases hSwap with ⟨rfl, _⟩
          refine ⟨?_, hNext⟩
          simp only [unknownHolds, Bool.not_eq_true', Bool.or_eq_false_iff,
            List.any_eq_false, Bool.not_eq_true, Bool.not_eq_false]
            at hFar
          simp only [List.any_eq_true, not_exists, not_and,
            Bool.not_eq_true] at hRoom
          exact
            { threshold :=
                needsSwap_of_movingWithoutCapacity hMoving.1
              probed :=
                Reading.isFailed_eq_false_iff.mp hMoving.2
              noRoom := hRoom
              known := hFar.1.1
              noneRefused := hFar.1.2
              far := hFar.2 }
      · exact absurd hSwap hDecision
  · exact absurd hSwap hDecision

/- Off the API key, a swap onto overflow is to credits. -/
theorem onKey_overflow
    (hKey : i.livePlatform = true)
    (hSwap : i.onKey.decision = .swap target reason)
    (hTarget : i.isOverflow target = true) :
    i.FirstEligible target := by
  unfold onKey at hSwap
  split at hSwap
  · next t hNext =>
      simp only [verdict, Decision.swap.injEq] at hSwap
      rcases hSwap with ⟨rfl, _⟩
      exact firstEligible_of_livePlatform hKey hNext
  split at hSwap
  · split at hSwap
    · next t h hBest =>
        simp only [verdict, Decision.swap.injEq] at hSwap
        rcases hSwap with ⟨rfl, _⟩
        simp [not_isOverflow_of_best (List.Subset.refl _) hBest] at hTarget
    · simp [verdict] at hSwap
  · simp [verdict] at hSwap

theorem leaveBlocked_overflow
    (hSwap : i.leaveBlocked.decision = .swap target reason) :
    i.isOverflow target = false := by
  unfold leaveBlocked at hSwap
  split at hSwap
  · next t h hBest =>
      simp only [verdict, Decision.swap.injEq] at hSwap
      rcases hSwap with ⟨rfl, _⟩
      exact not_isOverflow_of_best (List.Subset.refl _) hBest
  · simp [noMove, verdict] at hSwap

theorem onBlocked_overflow
    (hSwap : i.onBlocked.decision = .swap target reason)
    (hTarget : i.isOverflow target = true) :
    i.FirstEligible target := by
  unfold onBlocked at hSwap
  split at hSwap
  · split at hSwap
    · next t hNext =>
        simp only [verdict, Decision.swap.injEq] at hSwap
        rcases hSwap with ⟨rfl, _⟩
        exact firstEligible_of_nextPaid hNext
    · simp [leaveBlocked_overflow hSwap] at hTarget
  · simp [leaveBlocked_overflow hSwap] at hTarget

theorem onUsable_overflow
    (hSwap : i.onUsable.decision = .swap target reason) :
    i.isOverflow target = false := by
  unfold onUsable at hSwap
  split at hSwap
  · next t r _ hDecision =>
      simp only [verdict, Decision.swap.injEq] at hSwap
      rcases hSwap with ⟨rfl, rfl⟩
      exact not_isOverflow_of_planDecision hDecision
  · simp [verdict] at hSwap

/- Off an overflow profile, plan logins with room come first. -/
theorem offOverflow_overflow
    (hSwap : i.offOverflow.decision = .swap target reason)
    (hTarget : i.isOverflow target = true) :
    i.FirstEligible target ∧
      ∀ c ∈ i.plan, hasRoom c.reading = false := by
  unfold offOverflow at hSwap
  simp only at hSwap
  split at hSwap
  · next t h hBest =>
      simp only [verdict, Decision.swap.injEq] at hSwap
      rcases hSwap with ⟨rfl, _⟩
      simp [not_isOverflow_of_best
        (List.filter_subset_self _) hBest] at hTarget
  split at hSwap
  · next t hChoose =>
      simp only [verdict, Decision.swap.injEq] at hSwap
      rcases hSwap with ⟨rfl, _⟩
      simp [not_isOverflow_of_choose hChoose] at hTarget
  next hChoose =>
  refine ⟨?_, choose_none_eq_none_iff.mp hChoose⟩
  split at hSwap
  · next hPlatform => exact onKey_overflow hPlatform hSwap hTarget
  split at hSwap
  · exact onBlocked_overflow hSwap hTarget
  · simp [onUsable_overflow hSwap] at hTarget

end OverflowInput

-- The Last Resort

open OverflowInput in
/-
  A swap onto an overflow profile goes to the first eligible
  one, to the API key only with every plan login known, off a
  plan login only with the plan exhausted, and off an overflow
  profile only with no capacity and no room in the plan.
-/
theorem overflow_is_last_resort
    (i : OverflowInput) (target : ProfileName) (reason : Reason)
    (hSwap : (decideOverflow i).decision = .swap target reason)
    (hTarget : ∃ e ∈ i.overflow, e.name = target) :
    i.FirstEligible target ∧
      (i.platform = some target →
        i.unmeasuredPlan = [] ∧ ∀ c ∈ i.plan, c.reading ≠ .failed) ∧
      (i.liveOver = false → i.PlanExhausted) ∧
      (i.liveOver = true → ∀ c ∈ i.plan,
        planUsable i.settings c.reading = false ∧
          hasRoom c.reading = false) := by
  have hOver := isOverflow_iff.mpr hTarget
  have hKnown : i.FirstEligible target →
      i.platform = some target →
      i.unmeasuredPlan = [] ∧
        ∀ c ∈ i.plan, c.reading ≠ .failed := by
    rintro ⟨e, rfl, hFirst⟩ hKey
    exact unknownPlan_eq_nil (hFirst.1.keyOpen hKey).2
  unfold decideOverflow at hSwap
  cases hLive : i.liveOver with
  | false =>
    simp only [hLive, Bool.not_false, if_true] at hSwap
    rcases offPlan_overflow hSwap hOver with ⟨hExhausted, hNext⟩
    have hFirst := firstEligible_of_nextPaid hNext
    exact ⟨hFirst, hKnown hFirst, fun _ => hExhausted,
      fun hNo => by cases hNo⟩
  | true =>
    simp only [hLive, Bool.not_true, Bool.false_eq_true, if_false] at hSwap
    rcases offOverflow_overflow hSwap hOver with ⟨hFirst, hRoom⟩
    refine ⟨hFirst, hKnown hFirst, (fun hNo => by cases hNo),
      fun _ c hc => ⟨?_, hRoom c hc⟩⟩
    rw [← Bool.not_eq_true]
    intro hUsable
    have hHas := hasRoom_of_planUsable hUsable
    simp [hRoom c hc] at hHas

/- A week used up for another day, and credits to spend. -/
def weekUsedUp : OverflowInput where
  settings := .default
  liveName := some ⟨"weekly", by decide⟩
  live :=
    { reading := .measured 40 100
      windows := ⟨none, some ⟨100, some 86400⟩, false⟩
      spendLimit := false
      unknown := false
      stillRunning := false
      observedAt := none
      carried := false }
  candidates :=
    [{ name := ⟨"credits", by decide⟩
       reading := .measured 10 10
       windows := ⟨none, none, false⟩
       spendLimit := false
       unknown := false }]
  unmeasuredPlan := []
  refused := []
  overflow := [⟨⟨"credits", by decide⟩, 1⟩]
  blocks := .empty
  platformBlock := none
  swappedAt := none
  now := 0

theorem overflow_is_last_resort_of_week_used_up :
    weekUsedUp.FirstEligible ⟨"credits", by decide⟩ ∧
      weekUsedUp.PlanExhausted := by
  have hResort := overflow_is_last_resort weekUsedUp
    ⟨"credits", by decide⟩ .overflowIn (by decide) (by decide)
  exact ⟨hResort.1, hResort.2.2.1 (by decide)⟩

end Rotate
