import Amplihack.Base.FirstBy
import Amplihack.Rotate.Overflow

/-
  A rotator over plan logins alone, with fixed readings: each
  cycle decides, and a swap makes its target live.
-/

-- Plan Logins And Their Cycles

namespace Rotate

open Base Profile

/- Plan logins with fixed readings, none of them failed. -/
structure Fleet where
  settings : Settings
  logins : List Measured
  distinct : (logins.map (·.name)).Nodup
  probed : ∀ m ∈ logins, m.reading ≠ .failed

/- The live login, and when the last swap was made. -/
structure Rotor where
  live : Measured
  swappedAt : Option ℤ

/- When each cycle decides, and when its swap is recorded. -/
structure Clock where
  now : ℕ → ℤ
  swapped : ℕ → ℤ
  now_le_swapped : ∀ n, now n ≤ swapped n
  swapped_lt_now : ∀ n, swapped n < now (n + 1)

namespace Fleet

variable (f : Fleet)

/- The candidates when `x` is live. -/
def others (x : Measured) : List Measured :=
  f.logins.filter fun m => m.name ≠ x.name

/- What the policy is given when `x` is live. -/
def input (r : Rotor) (now : ℤ) : OverflowInput where
  settings := f.settings
  liveName := some r.live.name
  live :=
    { reading := r.live.reading
      windows := r.live.windows
      spendLimit := r.live.spendLimit
      unknown := r.live.unknown
      stillRunning := false
      observedAt := none
      carried := false }
  candidates := f.others r.live
  unmeasuredPlan := []
  refused := []
  overflow := []
  blocks := .empty
  platformBlock := none
  swappedAt := r.swappedAt
  now := now

def decision (r : Rotor) (now : ℤ) : Decision :=
  (decideOverflow (f.input r now)).decision

/- One cycle: a swap makes the login of its target live. -/
def cycle (now swapped : ℤ) (r : Rotor) : Rotor :=
  match f.decision r now with
  | .swap target _ =>
    match f.logins.find? fun m => m.name = target with
    | some live => { live, swappedAt := some swapped }
    | none => r
  | _ => r

/- The rotor before each cycle. -/
def run (clock : Clock) (start : Rotor) : ℕ → Rotor
| 0 => start
| n + 1 =>
  f.cycle (clock.now n) (clock.swapped n) (run clock start n)

-- Logins By Name

variable {f}

theorem mem_others_iff {x m : Measured} :
    m ∈ f.others x ↔ m ∈ f.logins ∧ m.name ≠ x.name := by
  simp [others]

/- Distinct names: a name is one login. -/
theorem eq_of_name_eq
    {x y : Measured} (hx : x ∈ f.logins) (hy : y ∈ f.logins)
    (hName : x.name = y.name) :
    x = y :=
  List.inj_on_of_nodup_map f.distinct hx hy hName

theorem mem_cons_others_iff
    {x : Measured} (hx : x ∈ f.logins) (m : Measured) :
    m ∈ x :: f.others x ↔ m ∈ f.logins := by
  rw [List.mem_cons, mem_others_iff]
  constructor
  · rintro (rfl | ⟨hm, _⟩)
    · exact hx
    · exact hm
  · intro hm
    by_cases hName : m.name = x.name
    · exact Or.inl (eq_of_name_eq hm hx hName)
    · exact Or.inr ⟨hm, hName⟩

theorem find?_name
    {x : Measured} (hx : x ∈ f.logins) :
    f.logins.find? (fun m => m.name = x.name) = some x := by
  cases hFind :
      f.logins.find? fun m => m.name = x.name with
  | none =>
    rw [List.find?_eq_none] at hFind
    simpa using hFind x hx
  | some y =>
    have hName : y.name = x.name := by simpa using List.find?_some hFind
    have hy := List.mem_of_find?_eq_some hFind
    rw [eq_of_name_eq hy hx hName]

-- The Winner

variable (f) in
/- The login that ranks first for room, over the whole fleet. -/
def winner : Option Roomy :=
  Rotate.winner f.settings f.logins

theorem roomy_injOn :
    ∀ a ∈ f.logins.filterMap roomy,
      ∀ b ∈ f.logins.filterMap roomy, roomKey a = roomKey b → a = b := by
  intro a ha b hb hKey
  rcases List.mem_filterMap.mp ha with ⟨x, hx, hRoomyA⟩
  rcases List.mem_filterMap.mp hb with ⟨y, hy, hRoomyB⟩
  have hText : a.name = b.name := by
    apply ProfileName.text_injective
    exact congrArg (fun k => (ofLex (ofLex k).2).2) hKey
  have hNames : x.name = y.name := by
    rw [(roomy_eq_some_iff.mp hRoomyA).2.2, hText,
      (roomy_eq_some_iff.mp hRoomyB).2.2]
  rw [eq_of_name_eq hx hy hNames, hRoomyB] at hRoomyA
  exact (Option.some.inj hRoomyA).symm

/- Whichever login is live, the same login wins. -/
theorem winner_cons_others
    {x : Measured} (hx : x ∈ f.logins) :
    Rotate.winner f.settings (x :: f.others x) = f.winner := by
  have hPool : ∀ r, r ∈ f.logins.filterMap roomy ↔
      r ∈ (x :: f.others x).filterMap roomy := by
    intro r
    simp only [List.mem_filterMap, mem_cons_others_iff hx]
  have hPass : ∀ r, r ∈ pass f.settings (f.logins.filterMap roomy) ↔
      r ∈ pass f.settings ((x :: f.others x).filterMap roomy) := by
    intro r
    rw [mem_pass_iff, mem_pass_iff, ← hPool]
    simp only [← hPool]
  refine (argmin_congr_of_injOn ?_ hPass).symm
  intro a ha b hb
  exact roomy_injOn a (pass_subset _ _ ha) b (pass_subset _ _ hb)

-- Moves

variable (f)

/- A login of this name has capacity. -/
def Usable (n : ProfileName) : Prop :=
  ∃ c ∈ f.logins, c.name = n ∧ planUsable f.settings c.reading = true

/- The best of the others clears the margin. -/
def ThresholdTarget (x : Measured) (t : ProfileName) : Prop :=
  ∃ h, best (f.others x) = some (t, h) ∧
    (f.settings.margin.val : ℤ) ≤ gain x.reading h

/- The best of the others is worth an upgrade. -/
def UpgradeTarget (x : Measured) (t : ProfileName) : Prop :=
  ∃ h, best (f.others x) = some (t, h) ∧
    0 < gain x.reading h ∧
    (f.settings.upgradeMargin.val : ℤ) ≤ gain x.reading h

/- A threshold swap to a login with capacity. -/
def UsableSwap (x : Measured) (t : ProfileName) : Prop :=
  f.ThresholdTarget x t ∧ f.Usable t

/- Where the rules would move the live login `x`. -/
inductive Move (x : Measured) (t : ProfileName) : Prop where
| upgrade
    (hBelow : needsSwap f.settings x.reading = false)
    (hTarget : f.UpgradeTarget x t)
| threshold
    (hAt : needsSwap f.settings x.reading = true)
    (hTarget : f.UsableSwap x t)
| noRoom
    (hAt : needsSwap f.settings x.reading = true)
    (hTarget : f.ThresholdTarget x t)
    (hNone : f.winner = none)
| planRoom
    (hAt : needsSwap f.settings x.reading = true)
    (hNo : ∀ u, ¬ f.UsableSwap x u)
    (hWinner : ∃ w, f.winner = some w ∧ w.name = t)
    (hOther : t ≠ x.name)

variable {f}

theorem best_others_ne
    {x : Measured} {t : ProfileName} {k : UInt8}
    (hOthers : best (f.others x) = some (t, k)) :
    t ≠ x.name := by
  rcases best_mem hOthers with ⟨c, hc, rfl, _⟩
  exact (mem_others_iff.mp hc).2

theorem ThresholdTarget.unique
    {x : Measured} {t u : ProfileName}
    (ht : f.ThresholdTarget x t) (hu : f.ThresholdTarget x u) :
    u = t := by
  rcases ht with ⟨h, hBest, _⟩
  rcases hu with ⟨h', hBest', _⟩
  cases hBest.symm.trans hBest'
  rfl

variable {x : Measured} {t : ProfileName}

/- A move goes to the others' best or to the winner. -/
theorem Move.target_cases
    (hMove : f.Move x t) :
    (∃ h, best (f.others x) = some (t, h)) ∨
      (∃ w, f.winner = some w ∧ w.name = t) ∧ t ≠ x.name := by
  cases hMove with
  | upgrade _ hTarget => exact Or.inl (hTarget.imp fun _ hBest => hBest.1)
  | threshold _ hTarget => exact Or.inl (hTarget.1.imp fun _ hBest => hBest.1)
  | noRoom _ hTarget _ => exact Or.inl (hTarget.imp fun _ hBest => hBest.1)
  | planRoom _ _ hWinner hOther => exact Or.inr ⟨hWinner, hOther⟩

theorem Move.mem
    (hMove : f.Move x t) :
    ∃ m ∈ f.logins, m.name = t := by
  rcases hMove.target_cases with ⟨h, hOthers⟩ | ⟨⟨w, hWinner, rfl⟩, _⟩
  · rcases best_mem hOthers with ⟨m, hm, hName, _⟩
    exact ⟨m, (mem_others_iff.mp hm).1, hName⟩
  · rcases winner_mem hWinner with ⟨m, hm, hRoomy⟩
    exact ⟨m, hm, (roomy_eq_some_iff.mp hRoomy).2.2⟩

theorem Move.ne
    (hMove : f.Move x t) :
    t ≠ x.name := by
  rcases hMove.target_cases with ⟨h, hOthers⟩ | ⟨_, hOther⟩
  · exact best_others_ne hOthers
  · exact hOther

theorem plan_input (r : Rotor) (now : ℤ) :
    (f.input r now).plan = f.others r.live := by
  simp [OverflowInput.plan, OverflowInput.isOverflow,
    OverflowInput.order, input]

theorem nextIn_input
    (r : Rotor) (now : ℤ) (creditOnly : Bool) :
    (f.input r now).nextIn creditOnly = none := by
  simp [OverflowInput.nextIn, OverflowInput.order, input]

theorem planDecision_input (r : Rotor) (now : ℤ) :
    (f.input r now).planDecision =
      decide f.settings r.live.reading (f.others r.live) r.swappedAt now := by
  rw [OverflowInput.planDecision, plan_input]
  rfl

theorem liveOver_input (r : Rotor) (now : ℤ) :
    (f.input r now).liveOver = false := by
  simp [OverflowInput.liveOver, OverflowInput.isOverflow,
    OverflowInput.order, input]

/- Some login of the fleet has room exactly when one wins. -/
theorem planReadings_any_hasRoom
    {r : Rotor} (hLive : r.live ∈ f.logins) (now : ℤ) :
    (f.input r now).planReadings.any hasRoom =
      f.winner.isSome := by
  have hReadings : (f.input r now).planReadings =
      (r.live :: f.others r.live).map (·.reading) := by
    rw [OverflowInput.planReadings, plan_input]
    rfl
  rw [Bool.eq_iff_iff, hReadings, ← winner_cons_others hLive,
    Option.isSome_iff_ne_none, Ne, winner_eq_none_iff]
  cases hRoom : hasRoom r.live.reading <;>
    simp [List.any_eq_true, hRoom]

theorem decide_target_iff
    {x : Measured} {swappedAt : Option ℤ} {now : ℤ} {t : ProfileName} :
    (decide f.settings x.reading (f.others x) swappedAt
        now).target = some t ↔
      needsSwap f.settings x.reading = true ∧
          f.ThresholdTarget x t ∨
        needsSwap f.settings x.reading = false ∧
          held f.settings.hold.val swappedAt now = false ∧
          f.UpgradeTarget x t := by
  rw [Decision.target_eq_some_iff]
  simp only [decide_eq_swap_iff]
  constructor
  · rintro ⟨reason, h, hBest, ⟨hAt, hGain, _⟩ |
      ⟨hBelow, hHeld, hGain, hUp, _⟩⟩
    · exact Or.inl ⟨hAt, h, hBest, hGain⟩
    · exact Or.inr ⟨hBelow, hHeld, h, hBest, hGain, hUp⟩
  · rintro (⟨hAt, h, hBest, hGain⟩ | ⟨hBelow, hHeld, h, hBest, hGain, hUp⟩)
    · exact ⟨.threshold, h, hBest, Or.inl ⟨hAt, hGain, rfl⟩⟩
    · exact ⟨.upgrade, h, hBest, Or.inr ⟨hBelow, hHeld, hGain, hUp, rfl⟩⟩

/- An alert, or a threshold swap onto no capacity. -/
theorem movingWithoutCapacity_iff
    {r : Rotor} (now : ℤ) :
    (f.input r now).movingWithoutCapacity = true ↔
      needsSwap f.settings r.live.reading = true ∧
        ∀ u, ¬ f.UsableSwap r.live u := by
  rw [OverflowInput.movingWithoutCapacity, planDecision_input, plan_input]
  cases hDecide : decide f.settings r.live.reading
      (f.others r.live) r.swappedAt now with
  | alert =>
    rcases decide_eq_alert_iff.mp hDecide with ⟨hAt, hBelow⟩
    simp only [true_iff]
    refine ⟨hAt, ?_⟩
    rintro u ⟨⟨h, hBest, hGain⟩, _⟩
    have hLt := hBelow u h hBest
    omega
  | stay =>
    simp only [Bool.false_eq_true, false_iff, not_and]
    intro hAt
    exact absurd hDecide (decide_ne_stay hAt)
  | swap t reason =>
    rcases decide_eq_swap_iff.mp hDecide with
      ⟨h, hBest, ⟨hAt, hGain, rfl⟩ | ⟨hBelow, _, _, _, rfl⟩⟩
    · simp only [hAt, true_and, Bool.not_eq_true', List.any_eq_false,
        Bool.and_eq_true, decide_eq_true_eq]
      constructor
      · rintro hNone u ⟨⟨h', hBest', _⟩, c, hc, hName, hCap⟩
        cases hBest.symm.trans hBest'
        rcases best_mem hBest with ⟨m, hm, hmName, _⟩
        have hOther := (mem_others_iff.mp hm).2
        refine hNone c (mem_others_iff.mpr ⟨hc, ?_⟩) ⟨hName, hCap⟩
        rwa [hName, ← hmName]
      · rintro hNone c hc ⟨hName, hCap⟩
        exact hNone t ⟨⟨h, hBest, hGain⟩, c,
          (mem_others_iff.mp hc).1, hName, hCap⟩
    · simp [hBelow]

theorem choose_others_iff
    {x : Measured} (hx : x ∈ f.logins) {t : ProfileName} :
    choose f.settings (some x) (f.others x) = some t ↔
      (∃ w, f.winner = some w ∧ w.name = t) ∧ t ≠ x.name := by
  rw [choose_eq_some_iff, Option.toList_some,
    List.singleton_append, winner_cons_others hx]
  simp [and_comm, eq_comm (a := x.name)]

/- What the policy swaps to, in terms of its parts. -/
theorem decision_target
    {r : Rotor} (hLive : r.live ∈ f.logins) (now : ℤ) :
    (f.decision r now).target =
      if (f.input r now).movingWithoutCapacity then
        match choose f.settings (some r.live)
            (f.others r.live) with
        | some t => some t
        | none =>
          if f.winner.isSome then none
          else (decide f.settings r.live.reading
            (f.others r.live) r.swappedAt now).target
      else (decide f.settings r.live.reading
        (f.others r.live) r.swappedAt now).target := by
  have hProbed : (f.input r now).live.reading.isFailed =
      false := Reading.isFailed_eq_false_iff.mpr (f.probed _ hLive)
  have hMeasured : (f.input r now).liveMeasured = some r.live := rfl
  have hSettings : (f.input r now).settings = f.settings := rfl
  rw [decision, decideOverflow, liveOver_input]
  simp only [Bool.not_false, if_true]
  rw [OverflowInput.offPlan, hProbed, hMeasured, hSettings,
    plan_input, planDecision_input, planReadings_any_hasRoom hLive,
    OverflowInput.nextPaid, nextIn_input]
  change _ = if _ then _ else _
  cases (f.input r now).movingWithoutCapacity with
  | false => rfl
  | true =>
    simp only [Bool.not_true, Bool.or_false,
      Bool.false_eq_true, if_false, if_true]
    cases choose f.settings (some r.live)
        (f.others r.live) with
    | some t =>
      cases decide f.settings r.live.reading
          (f.others r.live) r.swappedAt now with
      | stay => rfl
      | alert => rfl
      | swap u reason =>
        by_cases hSame : u = t
        · simp [OverflowInput.verdict, Decision.target, hSame]
        · simp [OverflowInput.verdict, Decision.target, hSame]
    | none =>
      cases f.winner.isSome with
      | true => rfl
      | false => simp [OverflowInput.noMove,
          OverflowInput.verdict]

/- A swap exists exactly when the rules move, hold permitting. -/
theorem exists_swap_iff
    {r : Rotor} (hLive : r.live ∈ f.logins) (now : ℤ) {t : ProfileName} :
    (f.decision r now).target = some t ↔
      f.Move r.live t ∧
        (needsSwap f.settings r.live.reading = false →
          held f.settings.hold.val r.swappedAt now = false) := by
  rw [decision_target hLive]
  cases hMoving : (f.input r now).movingWithoutCapacity with
  | true =>
    rcases (movingWithoutCapacity_iff now).mp hMoving with ⟨hAt, hNo⟩
    simp only [if_true, hAt, Bool.true_eq_false, false_implies, and_true]
    cases hChoose : choose f.settings (some r.live)
        (f.others r.live) with
    | some u =>
      rcases (choose_others_iff hLive).mp hChoose with
        ⟨⟨w, hWinner, rfl⟩, hOther⟩
      constructor
      · intro hEq
        cases hEq
        exact .planRoom hAt hNo ⟨w, hWinner, rfl⟩ hOther
      · intro hMove
        cases hMove with
        | upgrade hBelow _ => simp [hAt] at hBelow
        | threshold _ hTarget => exact absurd hTarget (hNo t)
        | noRoom _ _ hNone => simp [hNone] at hWinner
        | planRoom _ _ hTarget _ =>
          rcases hTarget with ⟨w', hWinner', rfl⟩
          cases hWinner.symm.trans hWinner'
          rfl
    | none =>
      have hNotRoom : ∀ w, f.winner = some w →
          w.name = t → t = r.live.name := by
        intro w hWinner hName
        by_contra hOther
        have hSome := (choose_others_iff hLive).mpr
          ⟨⟨w, hWinner, hName⟩, hOther⟩
        simp [hChoose] at hSome
      simp only
      cases hWinner : f.winner with
      | none =>
        simp only [Option.isSome_none, Bool.false_eq_true, if_false,
          decide_target_iff, hAt, true_and, Bool.true_eq_false, false_and,
          or_false]
        constructor
        · exact fun hTarget => .noRoom hAt hTarget hWinner
        · intro hMove
          cases hMove with
          | upgrade hBelow _ => simp [hAt] at hBelow
          | threshold _ hTarget => exact hTarget.1
          | noRoom _ hTarget _ => exact hTarget
          | planRoom _ _ hTarget _ =>
            rcases hTarget with ⟨w, hSome, _⟩
            simp [hWinner] at hSome
      | some w =>
        simp only [Option.isSome_some, if_true, reduceCtorEq, false_iff]
        intro hMove
        cases hMove with
        | upgrade hBelow _ => simp [hAt] at hBelow
        | threshold _ hTarget => exact absurd hTarget (hNo t)
        | noRoom _ _ hNone => simp [hWinner] at hNone
        | planRoom _ _ hTarget hOther =>
          rcases hTarget with ⟨w', hSome, hName⟩
          exact hOther (hNotRoom w' hSome hName)
  | false =>
    have hStands := hMoving
    rw [← Bool.not_eq_true, movingWithoutCapacity_iff]
      at hStands
    simp only [Bool.false_eq_true, if_false, decide_target_iff]
    cases hAt : needsSwap f.settings r.live.reading with
    | false =>
      simp only [Bool.false_eq_true, false_and, true_and,
        false_or, true_implies]
      constructor
      · rintro ⟨hHeld, hTarget⟩
        exact ⟨.upgrade hAt hTarget, hHeld⟩
      · rintro ⟨hMove, hHeld⟩
        refine ⟨hHeld, ?_⟩
        cases hMove with
        | upgrade _ hTarget => exact hTarget
        | threshold hAt' _ => simp [hAt] at hAt'
        | noRoom hAt' _ _ => simp [hAt] at hAt'
        | planRoom hAt' _ _ _ => simp [hAt] at hAt'
    | true =>
      simp only [hAt, true_and, not_forall, not_not]
        at hStands
      rcases hStands with ⟨u, hUsable⟩
      simp only [true_and, Bool.true_eq_false, false_and,
        or_false, false_implies, and_true]
      constructor
      · intro hTarget
        have hSame := hTarget.unique hUsable.1
        exact .threshold hAt (hSame ▸ hUsable)
      · intro hMove
        cases hMove with
        | upgrade hBelow _ => simp [hAt] at hBelow
        | threshold _ hTarget => exact hTarget.1
        | noRoom _ hTarget _ => exact hTarget
        | planRoom _ hNo _ _ => exact absurd hUsable (hNo u)

end Fleet

end Rotate
