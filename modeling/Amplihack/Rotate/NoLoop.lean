import Amplihack.Base.Descent
import Amplihack.Rotate.Fleet

/-
  When a rotator over fixed readings never swaps back.

  Off a login below its thresholds only the fleet's best login
  is worth an upgrade, so every run has at most three swaps,
  unless the plan-room winner upgrades to a best login that is
  itself at a threshold, or the two best logins tie there.
-/

-- The Best Login

namespace Rotate

open Base Profile

namespace Fleet

variable {f : Fleet}

theorem gain_le_zero
    {live : Reading} {h k : UInt8} (hHeadroom : live.headroom = some k)
    (hLe : h.toNat ≤ k.toNat) :
    gain live h ≤ 0 := by
  simp only [gain, hHeadroom, Option.getD_some]
  omega

/- The others' best is the fleet's, unless that is live. -/
theorem best_others
    {x : Measured} {m : ProfileName} {h : UInt8}
    (hBest : best f.logins = some (m, h)) (hOther : m ≠ x.name) :
    best (f.others x) = some (m, h) := by
  rw [best_eq_some_iff] at hBest ⊢
  rcases hBest with ⟨⟨c, hc, hRanked⟩, hLeast⟩
  have hName := (ranked_eq_some_iff.mp hRanked).2.1
  refine ⟨⟨c, mem_others_iff.mpr ⟨hc, hName ▸ hOther⟩, hRanked⟩, ?_⟩
  intro d hd q hq
  exact hLeast d (mem_others_iff.mp hd).1 q hq

/- No other login has more headroom than the fleet's best. -/
theorem headroom_le_of_best_others
    {x : Measured} {m t : ProfileName} {h k : UInt8}
    (hBest : best f.logins = some (m, h))
    (hOthers : best (f.others x) = some (t, k)) :
    k.toNat ≤ h.toNat := by
  rcases (best_eq_some_iff.mp hOthers).1 with ⟨c, hc, hRanked⟩
  exact headroom_le_of_bestKey_le
    ((best_eq_some_iff.mp hBest).2 c (mem_others_iff.mp hc).1 _ hRanked)

theorem headroom_of_best
    {x : Measured} {h : UInt8} (hx : x ∈ f.logins)
    (hBest : best f.logins = some (x.name, h)) :
    x.reading.headroom = some h := by
  rcases best_mem hBest with ⟨c, hc, hName, hHeadroom⟩
  rwa [← eq_of_name_eq hc hx hName]

theorem best_others_eq_none
    (hNone : best f.logins = none) (x : Measured) :
    best (f.others x) = none := by
  rw [best_eq_none_iff] at hNone ⊢
  exact fun c hc => hNone c (mem_others_iff.mp hc).1

-- Targets

/- Every upgrade goes to the fleet's best login. -/
theorem UpgradeTarget.eq_best
    {x : Measured} {t m : ProfileName} {h : UInt8}
    (hx : x ∈ f.logins) (hBest : best f.logins = some (m, h))
    (hTarget : f.UpgradeTarget x t) :
    t = m ∧ m ≠ x.name := by
  rcases hTarget with ⟨k, hOthers, hGain, _⟩
  by_cases hOther : m = x.name
  · subst hOther
    have hLe := gain_le_zero (headroom_of_best hx hBest)
      (headroom_le_of_best_others hBest hOthers)
    omega
  · have hSame := best_others hBest hOther
    cases hSame.symm.trans hOthers
    exact ⟨rfl, hOther⟩

/- A threshold swap goes to the best, or ties with it. -/
theorem ThresholdTarget.eq_best_or_tie
    {x : Measured} {t m : ProfileName} {h : UInt8}
    (hx : x ∈ f.logins) (hBest : best f.logins = some (m, h))
    (hTarget : f.ThresholdTarget x t) :
    m ≠ x.name ∧ t = m ∨
      m = x.name ∧ best (f.others x) = some (t, h) ∧
        f.settings.margin.val = 0 := by
  rcases hTarget with ⟨k, hOthers, hGain⟩
  by_cases hOther : m = x.name
  · subst hOther
    have hHeadroom := headroom_of_best hx hBest
    have hLe := headroom_le_of_best_others hBest hOthers
    have hZero := gain_le_zero hHeadroom hLe
    have hTie : k = h := by
      apply UInt8.toNat.inj
      simp only [gain, hHeadroom, Option.getD_some] at hGain
      omega
    exact Or.inr ⟨rfl, hTie ▸ hOthers, by omega⟩
  · have hSame := best_others hBest hOther
    cases hSame.symm.trans hOthers
    exact Or.inl ⟨hOther, rfl⟩

/- A login that ties with the best is worth no upgrade. -/
theorem not_upgradeTarget_of_tie
    {x : Measured} {t m : ProfileName} {h : UInt8}
    (hBest : best f.logins = some (m, h))
    (hTie : x.reading.headroom = some h) :
    ¬ f.UpgradeTarget x t := by
  rintro ⟨k, hOthers, hGain, _⟩
  have hLe := gain_le_zero hTie (headroom_le_of_best_others hBest hOthers)
  omega

/- A login with capacity is below its thresholds. -/
theorem needsSwap_of_usable
    {x : Measured} (hx : x ∈ f.logins) (hUsable : f.Usable x.name) :
    needsSwap f.settings x.reading = false := by
  rcases hUsable with ⟨c, hc, hName, hCap⟩
  rw [← eq_of_name_eq hc hx hName]
  cases hReading : c.reading with
  | measured session week =>
    rw [hReading, planUsable_measured_iff] at hCap
    simp only [needsSwap, Bool.or_eq_false_iff, decide_eq_false_iff_not]
    exact ⟨Binary64.not_le_of_lt hCap.1, Binary64.not_le_of_lt hCap.2⟩
  | exhausted session week => simp [hReading, planUsable] at hCap
  | failed => simp [hReading, planUsable] at hCap

-- The Two Loops

variable (f)

/-
  The plan-room winner is below its thresholds and upgrades to
  a login at one, which has no capacity to swap to.
-/
def UpgradeLoop : Prop :=
  ∃ w ∈ f.logins, ∃ b ∈ f.logins,
    (∃ r, f.winner = some r ∧ r.name = w.name) ∧
      needsSwap f.settings w.reading = false ∧
      f.UpgradeTarget w b.name ∧
      needsSwap f.settings b.reading = true ∧
      ∀ u, ¬ f.UsableSwap b u

/-
  Without room and with no margin, the two best logins have
  the same headroom and are both at a threshold.
-/
def TieLoop : Prop :=
  f.winner = none ∧ f.settings.margin.val = 0 ∧
    ∃ a ∈ f.logins, ∃ b ∈ f.logins, ∃ h,
      best f.logins = some (a.name, h) ∧
        best (f.others a) = some (b.name, h) ∧
        needsSwap f.settings a.reading = true ∧
        needsSwap f.settings b.reading = true

/- Neither loop is there. -/
def Steady : Prop :=
  ¬ f.UpgradeLoop ∧ ¬ f.TieLoop

variable {f}

-- A Rank For Steady Fleets

/- Up to three names in order; every other name comes after. -/
def level (a b c : Option ProfileName) (n : ProfileName) : ℕ :=
  if a = some n then 0
  else if b = some n then 1
  else if c = some n then 2
  else 3

variable (f) in
/- Every move lowers the rank. -/
def Ranks (rank : ProfileName → ℕ) : Prop :=
  ∀ x ∈ f.logins, ∀ t, f.Move x t → rank t < rank x.name

variable (f) in
def winnerName : Option ProfileName :=
  f.winner.map (·.name)

theorem winnerName_eq_some_iff {t : ProfileName} :
    f.winnerName = some t ↔ ∃ w, f.winner = some w ∧ w.name = t := by
  simp [winnerName]

theorem ranks_of_no_best
    (hNone : best f.logins = none) :
    f.Ranks (level f.winnerName none none) := by
  intro x hx t hMove
  have hNoBest := best_others_eq_none hNone x
  cases hMove with
  | upgrade _ hTarget =>
    rcases hTarget with ⟨h, hOthers, _⟩
    simp [hNoBest] at hOthers
  | threshold _ hTarget =>
    rcases hTarget.1 with ⟨h, hOthers, _⟩
    simp [hNoBest] at hOthers
  | noRoom _ hTarget _ =>
    rcases hTarget with ⟨h, hOthers, _⟩
    simp [hNoBest] at hOthers
  | planRoom _ _ hWinner hOther =>
    rw [← winnerName_eq_some_iff] at hWinner
    simp [level, hWinner, hOther]

/- The best login is below its thresholds: no move leaves it. -/
theorem ranks_of_best_below
    {m : Measured} {h : UInt8} (hm : m ∈ f.logins)
    (hBest : best f.logins = some (m.name, h))
    (hBelow : needsSwap f.settings m.reading = false) :
    f.Ranks (level (some m.name) f.winnerName none) := by
  intro x hx t hMove
  have hLive : needsSwap f.settings x.reading = true → m.name ≠ x.name := by
    intro hAt hSame
    rw [eq_of_name_eq hm hx hSame] at hBelow
    simp [hAt] at hBelow
  have hToBest : m.name ≠ x.name →
      level (some m.name) f.winnerName none m.name <
        level (some m.name) f.winnerName none x.name := by
    intro hOther
    simp only [level, Option.some.injEq, hOther, if_true, if_false]
    split <;> simp
  have hThreshold :
      needsSwap f.settings x.reading = true →
        f.ThresholdTarget x t → t = m.name := by
    intro hAt hTarget
    rcases hTarget.eq_best_or_tie hx hBest with ⟨_, hSame⟩ | ⟨hSame, _⟩
    · exact hSame
    · exact absurd hSame (hLive hAt)
  cases hMove with
  | upgrade _ hTarget =>
    rcases hTarget.eq_best hx hBest with ⟨rfl, hOther⟩
    exact hToBest hOther
  | threshold hAt hTarget =>
    rw [hThreshold hAt hTarget.1]
    exact hToBest (hLive hAt)
  | noRoom hAt hTarget _ =>
    rw [hThreshold hAt hTarget]
    exact hToBest (hLive hAt)
  | planRoom hAt _ hWinner hOther =>
    rw [← winnerName_eq_some_iff] at hWinner
    by_cases hSame : m.name = t
    · subst hSame
      exact hToBest (hLive hAt)
    · simp [level, hWinner, hLive hAt, hSame, hOther]

/-
  The best login swaps to one that ties with it and is below
  its thresholds: no move leaves that one.
-/
theorem ranks_of_best_ties
    {m n : Measured} {h : UInt8} (hm : m ∈ f.logins) (hn : n ∈ f.logins)
    (hBest : best f.logins = some (m.name, h))
    (hTie : best (f.others m) = some (n.name, h))
    (hBelow : needsSwap f.settings n.reading = false)
    (hLeaves : f.winner = none ∨ f.UsableSwap m n.name) :
    f.Ranks (level (some n.name) (some m.name) f.winnerName) := by
  intro x hx t hMove
  have hNM : n.name ≠ m.name := best_others_ne hTie
  have hHeadroom : n.reading.headroom = some h := by
    rcases best_mem hTie with ⟨c, hc, hName, hHeadroom⟩
    rwa [← eq_of_name_eq (mem_others_iff.mp hc).1 hn hName]
  have hLive : needsSwap f.settings x.reading = true → n.name ≠ x.name := by
    intro hAt hSame
    rw [eq_of_name_eq hn hx hSame] at hBelow
    simp [hAt] at hBelow
  have hThreshold :
      needsSwap f.settings x.reading = true →
        f.ThresholdTarget x t →
        level (some n.name) (some m.name) f.winnerName t <
          level (some n.name) (some m.name) f.winnerName
            x.name := by
    intro hAt hTarget
    rcases hTarget.eq_best_or_tie hx hBest with
      ⟨hOther, rfl⟩ | ⟨hSame, hTie', _⟩
    · simp only [level, Option.some.injEq, hNM, hLive hAt,
        hOther, if_true, if_false]
      split <;> simp
    · rw [← eq_of_name_eq hm hx hSame, hTie] at hTie'
      cases hTie'
      simp [level, ← hSame, hNM]
  cases hMove with
  | upgrade hBelowX hTarget =>
    rcases hTarget.eq_best hx hBest with ⟨rfl, hOther⟩
    have hNX : n.name ≠ x.name := by
      intro hSame
      rw [eq_of_name_eq hn hx hSame] at hHeadroom
      exact not_upgradeTarget_of_tie hBest hHeadroom hTarget
    simp only [level, Option.some.injEq, hNM, hNX, hOther, if_true, if_false]
    split <;> simp
  | threshold hAt hTarget => exact hThreshold hAt hTarget.1
  | noRoom hAt hTarget _ => exact hThreshold hAt hTarget
  | planRoom hAt hNo hWinner hOther =>
    have hMX : m.name ≠ x.name := by
      intro hSame
      rcases hWinner with ⟨w, hSome, _⟩
      rcases hLeaves with hNone | hUsable
      · simp [hNone] at hSome
      · rw [eq_of_name_eq hm hx hSame] at hUsable
        exact hNo _ hUsable
    rw [← winnerName_eq_some_iff] at hWinner
    simp only [level, Option.some.injEq, hLive hAt, hMX,
      hWinner, hOther, if_true, if_false]
    split_ifs <;> simp

/-
  The best login is at a threshold and has no swap of its own:
  the plan-room winner is where moves end.
-/
theorem ranks_of_best_stuck
    {m : Measured} {h : UInt8} (hm : m ∈ f.logins)
    (hBest : best f.logins = some (m.name, h))
    (hAtM : needsSwap f.settings m.reading = true)
    (hStuck : ∀ u, ¬ f.UsableSwap m u)
    (hNoTie : f.winner = none → ∀ u, ¬ f.ThresholdTarget m u)
    (hSteady : ¬ f.UpgradeLoop) :
    f.Ranks (level f.winnerName (some m.name) none) := by
  intro x hx t hMove
  cases hMove with
  | upgrade hBelow hTarget =>
    rcases hTarget.eq_best hx hBest with ⟨rfl, hOther⟩
    have hNotWinner : f.winnerName ≠ some x.name := by
      intro hWinner
      rw [winnerName_eq_some_iff] at hWinner
      exact hSteady ⟨x, hx, m, hm, hWinner, hBelow, hTarget, hAtM, hStuck⟩
    simp only [level, Option.some.injEq, hNotWinner, hOther,
      if_true, if_false]
    split <;> simp
  | threshold hAt hTarget =>
    rcases hTarget.1.eq_best_or_tie hx hBest with ⟨_, rfl⟩ | ⟨hSame, _⟩
    · have hBelow := needsSwap_of_usable hm hTarget.2
      simp [hAtM] at hBelow
    · rw [← eq_of_name_eq hm hx hSame] at hTarget
      exact absurd hTarget (hStuck t)
  | noRoom hAt hTarget hNone =>
    have hName : f.winnerName = none := by simp [winnerName, hNone]
    rcases hTarget.eq_best_or_tie hx hBest with ⟨hOther, rfl⟩ | ⟨hSame, _⟩
    · simp [level, hName, hOther]
    · rw [← eq_of_name_eq hm hx hSame] at hTarget
      exact absurd hTarget (hNoTie hNone t)
  | planRoom _ _ hWinner hOther =>
    rw [← winnerName_eq_some_iff] at hWinner
    simp only [level, hWinner, Option.some.injEq, hOther, if_true, if_false]
    split <;> simp

/- A steady fleet has a rank that every move lowers. -/
theorem exists_rank (hSteady : f.Steady) :
    ∃ rank, f.Ranks rank := by
  cases hBest : best f.logins with
  | none => exact ⟨_, ranks_of_no_best hBest⟩
  | some p =>
    rcases best_mem hBest with ⟨m, hm, hName, _⟩
    rcases p with ⟨name, h⟩
    subst hName
    cases hAt : needsSwap f.settings m.reading with
    | false => exact ⟨_, ranks_of_best_below hm hBest hAt⟩
    | true =>
      by_cases hTie : ∃ u, f.ThresholdTarget m u ∧
          (f.winner = none ∨ f.Usable u)
      · rcases hTie with ⟨u, hTarget, hOr⟩
        rcases hTarget.eq_best_or_tie hm hBest with
          ⟨hNe, _⟩ | ⟨_, hOthers, hMargin⟩
        · exact absurd rfl hNe
        rcases best_mem hOthers with ⟨n, hn, rfl, _⟩
        have hn := (mem_others_iff.mp hn).1
        have hBelow : needsSwap f.settings n.reading = false := by
          rcases hOr with hNone | hUsable
          · rw [← Bool.not_eq_true]
            intro hAtN
            exact hSteady.2 ⟨hNone, hMargin, m, hm, n, hn,
              h, hBest, hOthers, hAt, hAtN⟩
          · exact needsSwap_of_usable hn hUsable
        exact ⟨_, ranks_of_best_ties hm hn hBest hOthers hBelow
          (hOr.imp_right fun hUsable =>
            ⟨hTarget, hUsable⟩)⟩
      · push Not at hTie
        exact ⟨_, ranks_of_best_stuck hm hBest hAt
          (fun u hUsable =>
            (hTie u hUsable.1).2 hUsable.2)
          (fun hNone u hTarget =>
            (hTie u hTarget).1 hNone)
          hSteady.1⟩

-- Runs

/- The live login after a cycle is the target, or the same. -/
theorem cycle_live
    {r : Rotor} (hLive : r.live ∈ f.logins) (now swapped : ℤ) :
    (f.cycle now swapped r).live ∈ f.logins ∧
      ((f.decision r now).target = none ∧
          f.cycle now swapped r = r ∨
        (f.decision r now).target = some (f.cycle now swapped r).live.name ∧
          f.Move r.live (f.cycle now swapped r).live.name) := by
  have hMove := fun t =>
    (exists_swap_iff (t := t) hLive now).mp
  rw [cycle]
  cases hDecision : f.decision r now with
  | stay | alert => exact ⟨hLive, Or.inl ⟨rfl, rfl⟩⟩
  | swap t reason =>
    rw [hDecision] at hMove
    have hMove := (hMove t rfl).1
    rcases hMove.mem with ⟨m, hm, rfl⟩
    simp only [find?_name hm]
    exact ⟨hm, Or.inr ⟨rfl, hMove⟩⟩

theorem run_live_mem
    {start : Rotor} (hStart : start.live ∈ f.logins) (clock : Clock) (n : ℕ) :
    (f.run clock start n).live ∈ f.logins := by
  induction n with
  | zero => exact hStart
  | succ n ih => exact (cycle_live ih _ _).1

variable (f) in
/- The name of the live login before each cycle. -/
def liveName (clock : Clock) (start : Rotor) (n : ℕ) :
    ProfileName :=
  (f.run clock start n).live.name

variable (f) in
/- What each cycle decides. -/
def decided (clock : Clock) (start : Rotor) (n : ℕ) :
    Decision :=
  f.decision (f.run clock start n) (clock.now n)

/- A cycle swaps exactly when the live login changes. -/
theorem decided_target_eq_none_iff
    {start : Rotor} (hStart : start.live ∈ f.logins) (clock : Clock) (n : ℕ) :
    (f.decided clock start n).target = none ↔
      f.liveName clock start (n + 1) = f.liveName clock start n := by
  have hLive := run_live_mem hStart clock n
  rcases (cycle_live hLive (clock.now n) (clock.swapped n)).2
    with ⟨hNone, hSame⟩ | ⟨hTarget, hMove⟩
  · exact ⟨fun _ => congrArg (·.live.name) hSame, fun _ => hNone⟩
  · constructor
    · intro hNone
      rw [decided, hTarget] at hNone
      cases hNone
    · intro hSame
      exact absurd hSame hMove.ne

variable (f) in
/-
  No login is swapped away from and later swapped back to;
  there are fewer swaps than logins, and from some cycle on
  there are none.
-/
structure LoopFree (clock : Clock) (start : Rotor) : Prop where
  noReturn : ∀ i j k, i ≤ j → j ≤ k →
    f.liveName clock start k = f.liveName clock start i →
    f.liveName clock start j = f.liveName clock start i
  fewSwaps : ∀ n,
    ((Finset.range n).filter fun k =>
      (f.decided clock start k).target ≠ none).card < f.logins.length
  settles : ∃ n, ∀ k ≥ n, (f.decided clock start k).target = none

/- A steady fleet's runs descend. -/
theorem Steady.descends
    {rank : ProfileName → ℕ} (hRanks : f.Ranks rank)
    {start : Rotor} (hStart : start.live ∈ f.logins) (clock : Clock) :
    Descends rank (f.liveName clock start) := by
  intro n
  have hLive := run_live_mem hStart clock n
  rcases (cycle_live hLive (clock.now n) (clock.swapped n)).2
    with ⟨_, hSame⟩ | ⟨_, hMove⟩
  · exact Or.inl (congrArg (·.live.name) hSame)
  · exact Or.inr (hRanks _ hLive _ hMove)

theorem Steady.loopFree
    (hSteady : f.Steady) {start : Rotor} (hStart : start.live ∈ f.logins)
    (clock : Clock) :
    f.LoopFree clock start := by
  rcases exists_rank hSteady with ⟨rank, hRanks⟩
  have hRun := Steady.descends hRanks hStart clock
  refine
    { noReturn := fun i j k hij hjk => hRun.no_return hij hjk
      fewSwaps := ?_
      settles := ?_ }
  · intro n
    have hPlaces : ∀ k, f.liveName clock start k ∈
        (f.logins.map (·.name)).toFinset := by
      intro k
      rw [List.mem_toFinset, List.mem_map]
      exact ⟨_, run_live_mem hStart clock k, rfl⟩
    have hFew := hRun.card_moves_lt hPlaces n
    rw [List.toFinset_card_of_nodup f.distinct, List.length_map] at hFew
    simpa only [Descends.moves, Ne,
      ← decided_target_eq_none_iff hStart] using hFew
  · rcases hRun.settles with ⟨n, hStays⟩
    refine ⟨n, fun k hk => ?_⟩
    rw [decided_target_eq_none_iff hStart, hStays k hk,
      hStays (k + 1) (by omega)]

-- Loops

/- A move that the hold permits makes its target live. -/
theorem liveName_succ_of_move
    {start : Rotor} (hStart : start.live ∈ f.logins)
    {clock : Clock} {n : ℕ} {t : ProfileName}
    (hMove : f.Move (f.run clock start n).live t)
    (hHeld :
      needsSwap f.settings (f.run clock start n).live.reading = false →
      (f.run clock start n).swappedAt = none) :
    f.liveName clock start (n + 1) = t := by
  have hLive := run_live_mem hStart clock n
  have hTarget := (exists_swap_iff hLive (clock.now n)).mpr
    ⟨hMove, fun hBelow => by simp [held, hHeld hBelow]⟩
  rcases (cycle_live hLive (clock.now n) (clock.swapped n)).2
    with ⟨hNone, _⟩ | ⟨hSome, _⟩
  · rw [hTarget] at hNone
    cases hNone
  · exact Option.some.inj (hSome.symm.trans hTarget)

/- Moves there and back make a run that returns. -/
theorem not_loopFree_of_moves
    {a b : Measured} (ha : a ∈ f.logins) (hb : b ∈ f.logins)
    (hThere : f.Move a b.name) (hBack : f.Move b a.name)
    (hAt : needsSwap f.settings b.reading = true) (clock : Clock) :
    ¬ f.LoopFree clock ⟨a, none⟩ := by
  intro hFree
  have hOne : f.liveName clock ⟨a, none⟩ 1 = b.name :=
    liveName_succ_of_move ha hThere fun _ => rfl
  have hLive : (f.run clock ⟨a, none⟩ 1).live = b :=
    eq_of_name_eq (run_live_mem ha clock 1) hb hOne
  have hTwo : f.liveName clock ⟨a, none⟩ 2 = a.name := by
    refine liveName_succ_of_move ha ?_ ?_
    · rw [hLive]
      exact hBack
    · rw [hLive, hAt]
      simp
  have hSame := hFree.noReturn 0 1 2 (by omega) (by omega) hTwo
  exact hThere.ne (hOne.symm.trans hSame)

theorem UpgradeLoop.not_loopFree
    (hLoop : f.UpgradeLoop) (clock : Clock) :
    ∃ a ∈ f.logins, ¬ f.LoopFree clock ⟨a, none⟩ := by
  rcases hLoop with ⟨w, hw, b, hb, hWinner, hBelow, hTarget, hAt, hNo⟩
  have hThere : f.Move w b.name := .upgrade hBelow hTarget
  have hBack : f.Move b w.name := .planRoom hAt hNo hWinner hThere.ne.symm
  exact ⟨w, hw, not_loopFree_of_moves hw hb hThere hBack hAt clock⟩

theorem TieLoop.not_loopFree
    (hLoop : f.TieLoop) (clock : Clock) :
    ∃ a ∈ f.logins, ¬ f.LoopFree clock ⟨a, none⟩ := by
  rcases hLoop with ⟨hNone, hMargin, a, ha, b, hb, h, hBest,
    hOthers, hAtA, hAtB⟩
  have hTie : ∀ {x : Measured},
      x.reading.headroom = some h →
        (f.settings.margin.val : ℤ) ≤ gain x.reading h := by
    intro x hHeadroom
    simp [gain, hHeadroom, hMargin]
  have hHeadroomB : b.reading.headroom = some h := by
    rcases best_mem hOthers with ⟨c, hc, hName, hHeadroom⟩
    rwa [← eq_of_name_eq (mem_others_iff.mp hc).1 hb hName]
  have hThere : f.Move a b.name :=
    .noRoom hAtA ⟨h, hOthers, hTie (headroom_of_best ha hBest)⟩ hNone
  have hBack : f.Move b a.name :=
    .noRoom hAtB ⟨h, best_others hBest hThere.ne.symm, hTie hHeadroomB⟩ hNone
  exact ⟨a, ha, not_loopFree_of_moves ha hb hThere hBack hAtB clock⟩

end Fleet

/- A clock that ticks once a cycle. -/
def Clock.ticks : Clock where
  now n := n
  swapped n := n
  now_le_swapped _ := le_rfl
  swapped_lt_now n := by omega

/- The runs of a fleet are all free of loops when it is steady. -/
theorem loopFree_iff_steady (f : Fleet) :
    (∀ start : Rotor, start.live ∈ f.logins →
        ∀ clock, f.LoopFree clock start) ↔
      f.Steady := by
  constructor
  · intro hFree
    constructor
    · intro hLoop
      rcases hLoop.not_loopFree .ticks with ⟨a, ha, hNot⟩
      exact hNot (hFree ⟨a, none⟩ ha .ticks)
    · intro hLoop
      rcases hLoop.not_loopFree .ticks with ⟨a, ha, hNot⟩
      exact hNot (hFree ⟨a, none⟩ ha .ticks)
  · intro hSteady start hStart clock
    exact hSteady.loopFree hStart clock

-- A Loop

def measuredLogin
    (name : ProfileName) (session week : Float) :
    Measured where
  name := name
  reading := .measured session week
  windows := ⟨none, none, false⟩
  spendLimit := false
  unknown := false

/-
  With a session threshold of 50: the first login has 20
  points left, the second 40 but its session is at 60.
-/
def earlySessions : Fleet where
  settings :=
    { Settings.default with
      sessionAt := ⟨50, by decide⟩
      upgradeMargin := ⟨20, by decide⟩ }
  logins :=
    [measuredLogin ⟨"home", by decide⟩ 10 80,
     measuredLogin ⟨"work", by decide⟩ 60 0]
  distinct := by decide
  probed := by decide

/- The first login is live, and no swap was made yet. -/
def home : Rotor where
  live := measuredLogin ⟨"home", by decide⟩ 10 80
  swappedAt := none

set_option maxRecDepth 20000 in
/- Up to the second login for headroom, and back for room. -/
theorem early_sessions_swap_back :
    earlySessions.liveName .ticks home 0 = home.live.name ∧
      earlySessions.liveName .ticks home 1 ≠ home.live.name ∧
      earlySessions.liveName .ticks home 2 = home.live.name ∧
      ¬ earlySessions.LoopFree .ticks home := by
  have hReturn :
      earlySessions.liveName .ticks home 2 =
        home.live.name := by decide
  have hLeft :
      earlySessions.liveName .ticks home 1 ≠
        home.live.name := by decide
  refine ⟨rfl, hLeft, hReturn, fun hFree => ?_⟩
  exact hLeft (hFree.noReturn 0 1 2 (by omega) (by omega) hReturn)

end Rotate
