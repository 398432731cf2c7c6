import Amplihack.AutoSwitch.LastResort
import Amplihack.Rotate.LastResort
import Mathlib.Data.List.Find

/-
  The rotator and auto-switch agree on when to spend money.
-/

-- One Login's Reading

namespace AutoSwitch

open Base Profile

def use (w : Option Window) : Float :=
  (w.map Window.usedPercentage).getD 0.0

def sameWin (w : Window) : Rotate.Win where
  used := w.usedPercentage
  resetsAt := some w.resetsAt

/-
  Both sides hold the same windows, which reset later; the
  rotator's figures are their use, or say that a limit is
  reached.
-/
structure SameReading
    (now : ℤ) (reading : Rotate.Reading)
    (windows : Rotate.Windows) (r : Reading) :
    Prop where
  session : windows.session = r.fiveHour.map sameWin
  week : windows.week = r.sevenDay.map sameWin
  sessionFuture : ∀ w ∈ r.fiveHour, now < w.resetsAt
  weekFuture : ∀ w ∈ r.sevenDay, now < w.resetsAt
  kind :
    reading = .measured (use r.fiveHour) (use r.sevenDay) ∨
      ∃ session week, reading = .exhausted session week

variable {now : ℤ}
variable {reading : Rotate.Reading}
variable {windows : Rotate.Windows}
variable {r : Reading}
variable {s : Rotate.Settings}

theorem adjusted_eq_use
    {w : Option Window} (hFuture : ∀ v ∈ w, now < v.resetsAt) :
    adjusted w now = use w := by
  cases w with
  | none => rfl
  | some v =>
    have hLater : now < v.resetsAt := hFuture v rfl
    simp [adjusted, use, hLater]

theorem sessionWeek_eq
    (hSame : SameReading now reading windows r) :
    sessionWeek r now = (use r.fiveHour, use r.sevenDay) := by
  rw [sessionWeek, adjusted_eq_use hSame.sessionFuture,
    adjusted_eq_use hSame.weekFuture]

theorem SameReading.not_failed
    (hSame : SameReading now reading windows r) :
    reading.isFailed = false := by
  rcases hSame.kind with hKind | ⟨session, week, hKind⟩
  · rw [hKind]
    rfl
  · rw [hKind]
    rfl

/- Without room there, there is none here. -/
theorem SameReading.no_room
    (hSame : SameReading now reading windows r)
    (hNone : hasRoom r now = false) :
    Rotate.hasRoom reading = false := by
  rw [hasRoom, sessionWeek_eq hSame] at hNone
  rcases hSame.kind with hKind | ⟨session, week, hKind⟩
  · rw [hKind]
    exact hNone
  · rw [hKind]
    rfl

set_option maxRecDepth 4000 in
/- Thresholds are at least 1: a missing window is below them. -/
theorem not_ofNat_le_zero :
    ∀ a ≤ 100, 1 ≤ a → ¬ Float.ofNat a ≤ 0.0 := by
  decide

/- A threshold reached is the same figure on both sides. -/
theorem hit_eq
    (at_ : ℕ) (hRange : 1 ≤ at_ ∧ at_ ≤ 100) (w : Option Window) :
    ((w.map sameWin).map Rotate.Win.used).any
        (fun u => Decidable.decide (Float.ofNat at_ ≤ u)) =
      Decidable.decide (Float.ofNat at_ ≤ use w) := by
  cases w with
  | none =>
    have hBelow := not_ofNat_le_zero at_ hRange.2 hRange.1
    simp [use, hBelow]
  | some v => rfl

theorem reset_eq (w : Option Window) :
    (w.map sameWin).bind Rotate.Win.resetsAt = w.map Window.resetsAt := by
  cases w <;> rfl

/- Both sides expect the login back at the same time. -/
theorem regains_eq
    (hSame : SameReading now reading windows r) :
    Rotate.regains s reading windows = regains r s.gate now := by
  have hSession := hit_eq s.sessionAt.val
    ⟨s.sessionAt.property.1, s.sessionAt_le⟩ r.fiveHour
  have hWeek := hit_eq s.weekAt.val
    ⟨s.weekAt.property.1, s.weekAt_le⟩ r.sevenDay
  unfold regains regainsAt
  rw [sessionWeek_eq hSame]
  rcases hSame.kind with hKind | ⟨session, week, hKind⟩
  · rw [hKind]
    unfold Rotate.regains Rotate.regains.hit
    rw [hSame.session, hSame.week, reset_eq, reset_eq]
    dsimp only [Gate.atThreshold, Option.any_some]
    cases Decidable.decide (Float.ofNat s.gate.sessionAt ≤
        use r.fiveHour) <;>
      cases Decidable.decide (Float.ofNat s.gate.weekAt ≤
        use r.sevenDay) <;>
      cases r.fiveHour <;> cases r.sevenDay <;> rfl
  · rw [hKind]
    unfold Rotate.regains Rotate.regains.hit
    rw [hSame.session, hSame.week, reset_eq, reset_eq]
    dsimp only [Gate.atThreshold, Rotate.Settings.gate]
    rw [hSession, hWeek]
    cases Decidable.decide (Float.ofNat s.sessionAt.val ≤
        use r.fiveHour) <;>
      cases Decidable.decide (Float.ofNat s.weekAt.val ≤
        use r.sevenDay) <;>
      cases r.fiveHour <;> cases r.sevenDay <;> rfl

/- Without room a login is over every threshold up to 100. -/
theorem isExhausted_of_no_room
    {threshold : ℕ} (hThreshold : threshold ≤ 100)
    (hNone : hasRoom r now = false) :
    isExhausted (some r) threshold now = true := by
  have hHundred : (100 : Float).isFinite = true := by decide
  have hWorst : (100 : Float) ≤ worst r now := by
    rw [← Binary64.not_lt_iff_le (worst_finite r now) hHundred,
      worst, Binary64.fmax_lt_iff
        (adjusted_finite r.fiveHour now)
        (adjusted_finite r.sevenDay now) hHundred]
    rintro ⟨hSession, hWeek⟩
    simp [hasRoom, sessionWeek, Rotate.room, hSession, hWeek]
      at hNone
  rw [isExhausted, Option.any_some, decide_eq_true_eq]
  exact Binary64.le_trans
    (Rotate.ofNat_le_hundred threshold hThreshold) hWorst

-- One Fleet

/- The spend blocks in force. -/
def activeBlocks
    (blocks : Dict String Rotate.OverflowBlock) (now : ℤ) :
    Dict String Rotate.OverflowBlock :=
  blocks.retain fun _ b => now < b.until_.toInt

variable {i : Rotate.OverflowInput}
variable {pool : Pool}
variable {ov : OverflowPool}
variable {live : ProfileName}
variable {eligible : ProfileName → Bool}

/-
  The rotator and auto-switch see one fleet: the same plan
  logins with the same windows, the same gate, the same
  overflow entries in the same order and the same blocks.
  Nothing is excluded, refused, unmeasured or unreadable,
  there is no API key, and every overflow entry can be taken.
-/
structure SameFleet
    (i : Rotate.OverflowInput) (pool : Pool) (ov : OverflowPool)
    (live : ProfileName) (eligible : ProfileName → Bool) :
    Prop where
  liveName : i.liveName = some live
  now_eq : pool.now = i.now
  gate : ov.gate = some i.settings.gate
  order : ov.order = i.order.map (·.name)
  blocked : ov.blocked = (activeBlocks i.blocks i.now).keys
  kindsKnown : ov.kindsUnknown = false
  noKey : i.platform = none ∧ ov.platform = none ∧ ov.notPlan = []
  noneLeftOut : pool.exclude = [] ∧ i.refused = [] ∧ i.unmeasuredPlan = []
  onPlan : live ∉ ov.order
  liveReading :
    ∃ r, pool.reading live = some r ∧
      SameReading i.now i.live.reading i.live.windows r
  listed : ∀ p, p ∉ ov.order →
    (p ∈ pool.profiles ∧ p ≠ live ↔ ∃ c ∈ i.plan, c.name = p)
  planReading : ∀ c ∈ i.plan, c.unknown = false ∧
    ∃ r, pool.reading c.name = some r ∧
      SameReading i.now c.reading c.windows r
  ready : ∀ o ∈ ov.order, o ∈ pool.profiles ∧
    eligible o = true ∧
    (∃ c ∈ i.candidates, c.name = o) ∧
    ∀ c ∈ i.candidates, c.name = o →
      c.reading ≠ .failed ∧ c.spendLimit = false

/- No plan login, the live one included, has room. -/
def NoPlanRoom (pool : Pool) (ov : OverflowPool)
    (live : ProfileName) : Prop :=
  ∀ p, p ∈ pool.profiles ∧ p ∉ ov.order ∨ p = live →
    ∀ r, pool.reading p = some r → hasRoom r pool.now = false

namespace SameFleet

theorem mem_order_iff
    (hSame : SameFleet i pool ov live eligible) {o : ProfileName} :
    o ∈ ov.order ↔ i.isOverflow o = true := by
  rw [hSame.order]
  simp [Rotate.OverflowInput.isOverflow]

theorem isPlan_iff
    (hSame : SameFleet i pool ov live eligible) {p : ProfileName} :
    ov.isPlan p = true ↔ p ∉ ov.order := by
  simp [OverflowPool.isPlan, hSame.noKey.2.2]

theorem offOverflow
    (hSame : SameFleet i pool ov live eligible) :
    onOverflow ov live.text = false :=
  onOverflow_of_isPlan rfl (hSame.isPlan_iff.2 hSame.onPlan)

theorem liveOver
    (hSame : SameFleet i pool ov live eligible) :
    i.liveOver = false := by
  rw [Rotate.OverflowInput.liveOver, hSame.liveName,
    Option.any_some, Bool.eq_false_iff]
  exact fun hOver => hSame.onPlan (hSame.mem_order_iff.2 hOver)

theorem overflowUsable_eq
    (hSame : SameFleet i pool ov live eligible) (o : ProfileName) :
    overflowUsable o.text ov.blocked = !Rotate.active i.blocks o i.now := by
  rw [overflowUsable, hSame.blocked]
  congr 1
  rw [Bool.eq_iff_iff, List.contains_iff_mem, Rotate.active]
  have hKeys : ∀ d : Dict String Rotate.OverflowBlock,
      o.text ∈ d.keys ↔ ∃ b, d.get? o.text = some b := by
    intro d
    rw [← not_iff_not, ← Dict.get?_eq_none_iff,
      Option.eq_none_iff_forall_ne_some, not_exists]
  rw [hKeys, activeBlocks]
  simp only [Dict.get?_retain_eq_some_iff]
  cases i.blocks.get? o.text <;> simp

/- No plan login has room in the rotator's terms either. -/
theorem live_no_room
    (hSame : SameFleet i pool ov live eligible)
    (hNoRoom : NoPlanRoom pool ov live) :
    Rotate.hasRoom i.live.reading = false := by
  rcases hSame.liveReading with ⟨r, hReading, hWindows⟩
  exact hWindows.no_room (hSame.now_eq ▸ hNoRoom live (.inr rfl) r hReading)

theorem plan_no_room
    (hSame : SameFleet i pool ov live eligible)
    (hNoRoom : NoPlanRoom pool ov live) {c : Rotate.Measured}
    (hMem : c ∈ i.plan) :
    Rotate.hasRoom c.reading = false := by
  rcases (hSame.planReading c hMem).2 with ⟨r, hReading, hWindows⟩
  have hOff : c.name ∉ ov.order := by
    rw [hSame.mem_order_iff, (Rotate.OverflowInput.mem_plan_iff.1 hMem).2]
    simp
  have hListed := (hSame.listed c.name hOff).2 ⟨c, hMem, rfl⟩
  exact hWindows.no_room
    (hSame.now_eq ▸ hNoRoom c.name (.inl ⟨hListed.1, hOff⟩) r hReading)

theorem movingWithoutCapacity
    (hSame : SameFleet i pool ov live eligible)
    (hAt : Rotate.needsSwap i.settings i.live.reading = true)
    (hNoRoom : NoPlanRoom pool ov live) :
    i.movingWithoutCapacity = true := by
  unfold Rotate.OverflowInput.movingWithoutCapacity
  cases hDecision : i.planDecision with
  | stay => exact absurd hDecision (Rotate.decide_ne_stay hAt)
  | alert => rfl
  | swap target reason =>
    rcases Rotate.decide_eq_swap_iff.1 hDecision with ⟨h, -, hCases⟩
    have hReason : reason = .threshold := by
      rcases hCases with ⟨-, -, rfl⟩ | ⟨hOff, -⟩
      · rfl
      · rw [hAt] at hOff
        cases hOff
    subst hReason
    dsimp only
    rw [Bool.not_eq_true', List.any_eq_false]
    intro c hMem hUsable
    simp only [Bool.and_eq_true] at hUsable
    have hRoom := Rotate.hasRoom_of_planUsable hUsable.2
    rw [hSame.plan_no_room hNoRoom hMem] at hRoom
    cases hRoom

theorem choose_eq_none
    (hSame : SameFleet i pool ov live eligible)
    (hNoRoom : NoPlanRoom pool ov live) :
    Rotate.choose i.settings i.liveMeasured i.plan = none := by
  have hWinner :
      Rotate.winner i.settings (i.liveMeasured.toList ++ i.plan) = none := by
    rw [Rotate.winner_eq_none_iff]
    intro m hMem
    rcases List.mem_append.1 hMem with hLive | hPlan
    · rw [Rotate.OverflowInput.liveMeasured, hSame.liveName] at hLive
      have hName : m = .new live i.live := by simpa using hLive
      rw [hName]
      exact hSame.live_no_room hNoRoom
    · exact hSame.plan_no_room hNoRoom hPlan
  unfold Rotate.choose
  rw [hWinner]

theorem planReadings_no_room
    (hSame : SameFleet i pool ov live eligible)
    (hNoRoom : NoPlanRoom pool ov live) :
    i.planReadings.any Rotate.hasRoom = false := by
  rw [List.any_eq_false]
  intro reading hMem
  rw [Bool.not_eq_true]
  rcases List.mem_cons.1 hMem with rfl | hPlan
  · exact hSame.live_no_room hNoRoom
  · rcases List.mem_map.1 hPlan with ⟨c, hC, rfl⟩
    exact hSame.plan_no_room hNoRoom hC

theorem nothing_unknown
    (hSame : SameFleet i pool ov live eligible) :
    i.unknownHolds = false ∧ i.unknownPlan = [] := by
  have hPlan : (i.plan.any fun c => c.unknown) = false := by
    rw [List.any_eq_false]
    intro c hMem
    simp [(hSame.planReading c hMem).1]
  have hFailed : (i.plan.filter fun c => c.reading.isFailed) = [] := by
    rw [List.filter_eq_nil_iff]
    intro c hMem
    rcases (hSame.planReading c hMem).2 with ⟨r, -, hWindows⟩
    simp [hWindows.not_failed]
  constructor
  · rw [Rotate.OverflowInput.unknownHolds, hPlan, hSame.noneLeftOut.2.1]
    rfl
  · rw [Rotate.OverflowInput.unknownPlan, hFailed,
      hSame.noneLeftOut.2.1, hSame.noneLeftOut.2.2]
    rfl

/- The entry both sides would move to: the first unblocked. -/
def firstOpen
    (i : Rotate.OverflowInput) (ov : OverflowPool) (live : ProfileName) :
    Option ProfileName :=
  ov.order.find? fun o =>
    o != live && !Rotate.active i.blocks o i.now

theorem mayMoveTo_iff
    (hSame : SameFleet i pool ov live eligible)
    {o : ProfileName} (hOrdered : o ∈ ov.order) :
    i.mayMoveTo false o = true ↔
      o ≠ live ∧ Rotate.active i.blocks o i.now = false := by
  rw [Rotate.OverflowInput.mayMoveTo_iff_eligible
    (hSame.mem_order_iff.1 hOrdered)
    (by simp [hSame.noKey.1])]
  rcases (hSame.ready o hOrdered).2.2 with ⟨⟨c, hC, hName⟩, hAll⟩
  constructor
  · intro hEligible
    refine ⟨?_, hEligible.noBlock⟩
    rintro rfl
    exact hEligible.notLive hSame.liveName
  · rintro ⟨hOther, hOpen⟩
    refine ⟨?_, hOpen, ?_, ⟨c, hC, hName, (hAll c hC hName).1⟩, ?_⟩
    · rw [hSame.liveName]
      exact fun hEq => hOther (Option.some.inj hEq).symm
    · exact fun d hD hSameName => (hAll d hD hSameName).2
    · intro hKey
      rw [hSame.noKey.1] at hKey
      cases hKey

theorem nextPaid_eq
    (hSame : SameFleet i pool ov live eligible) :
    i.nextPaid = firstOpen i ov live := by
  rw [Rotate.OverflowInput.nextPaid, hSame.nothing_unknown.2,
    Rotate.OverflowInput.nextIn_eq, firstOpen, hSame.order, List.find?_map]
  congr 1
  apply List.find?_congr
  intro e hMem
  have hOrdered : e.name ∈ ov.order := by
    rw [hSame.order]
    exact List.mem_map_of_mem hMem
  rw [Bool.eq_iff_iff]
  simpa using hSame.mayMoveTo_iff hOrdered

theorem paid_eq
    (hSame : SameFleet i pool ov live eligible) :
    paid pool ov live.text eligible = firstOpen i ov live := by
  unfold paid firstOpen
  apply List.find?_congr
  intro o hMem
  have hReady := hSame.ready o hMem
  have hText : (o.text != live.text) = (o != live) := by
    rw [Bool.eq_iff_iff]
    simp only [bne_iff_ne, ne_eq]
    exact not_congr ⟨fun h => ProfileName.text_injective h,
      fun h => congrArg ProfileName.text h⟩
  rw [mayTake, hSame.overflowUsable_eq, hText,
    hSame.noKey.2.1, hSame.noneLeftOut.1]
  simp [hReady.1, hReady.2.1]

/- Both sides compute the same earliest plan reset. -/
theorem earliestPlanReset_eq
    (hSame : SameFleet i pool ov live eligible) :
    i.earliestWithLive =
      earliestPlanReset pool ov i.settings.gate live.text := by
  rcases hSame.liveReading with ⟨r, hReading, hWindows⟩
  have hCurrent : (currentReading pool ov live.text).toList = [r] := by
    have hGet : pool.readings.get? live.text = some r := hReading
    simp [currentReading, hSame.offOverflow, hGet]
  unfold Rotate.OverflowInput.earliestWithLive
    Rotate.earliestPlanReset earliestPlanReset
  rw [hCurrent]
  apply min?_congr
  intro t
  simp only [List.mem_filterMap, List.mem_cons, List.mem_append,
    List.not_mem_nil, or_false]
  have hLiveRegains :
      Rotate.regains i.settings i.live.reading i.live.windows =
        regains r i.settings.gate pool.now := by
    rw [hSame.now_eq]
    exact regains_eq hWindows
  constructor
  · rintro ⟨login, rfl | hPlan, hTime⟩
    · exact ⟨r, .inr rfl, hLiveRegains ▸ hTime⟩
    · rcases List.mem_map.1 hPlan with ⟨c, hC, rfl⟩
      rcases (hSame.planReading c hC).2 with ⟨q, hQ, hSameQ⟩
      have hOff : c.name ∉ ov.order := by
        rw [hSame.mem_order_iff, (Rotate.OverflowInput.mem_plan_iff.1 hC).2]
        simp
      have hListed := (hSame.listed c.name hOff).2 ⟨c, hC, rfl⟩
      have hMem : c.name ∈ planProfiles pool ov :=
        List.mem_filter.2 ⟨hListed.1, by
          simp [hSame.noneLeftOut.1, hSame.isPlan_iff.2 hOff]⟩
      refine ⟨q, .inl ⟨c.name, hMem, hQ⟩, ?_⟩
      rw [hSame.now_eq, ← regains_eq hSameQ]
      exact hTime
  · rintro ⟨q, ⟨p, hMem, hQ⟩ | rfl, hTime⟩
    · rcases List.mem_filter.1 hMem with ⟨hListed, hKeep⟩
      have hPlan : ov.isPlan p = true := by
        simp only [Bool.and_eq_true] at hKeep
        exact hKeep.2
      by_cases hLive : p = live
      · subst hLive
        have hSameQ : q = r := Option.some.inj (hQ.symm.trans hReading)
        subst hSameQ
        exact ⟨_, .inl rfl, hLiveRegains ▸ hTime⟩
      · rcases (hSame.listed p (hSame.isPlan_iff.1 hPlan)).1
          ⟨hListed, hLive⟩ with ⟨c, hC, rfl⟩
        rcases (hSame.planReading c hC).2 with ⟨q', hQ', hSameQ⟩
        have hEq : q = q' := Option.some.inj (hQ.symm.trans hQ')
        subst hEq
        refine ⟨_, .inr (List.mem_map_of_mem hC), ?_⟩
        rw [hSame.now_eq, ← regains_eq hSameQ] at hTime
        exact hTime
    · exact ⟨_, .inl rfl, hLiveRegains ▸ hTime⟩

/- The rotator spends when the reset is far and one is open. -/
theorem decideOverflow_iff
    (hSame : SameFleet i pool ov live eligible)
    (hAt : Rotate.needsSwap i.settings i.live.reading = true)
    (hNoRoom : NoPlanRoom pool ov live) {o : ProfileName}
    (hOrdered : o ∈ ov.order) :
    (Rotate.decideOverflow i).decision.target = some o ↔
      i.settings.gate.far i.earliestWithLive i.now = true ∧
        firstOpen i ov live = some o := by
  have hOverflow := hSame.mem_order_iff.1 hOrdered
  rw [Rotate.decideOverflow, hSame.liveOver, ← hSame.nextPaid_eq]
  rw [Bool.not_false, if_pos rfl]
  constructor
  · intro hTarget
    rcases Rotate.Decision.target_eq_some_iff.1 hTarget with ⟨reason, hSwap⟩
    have hLast := Rotate.OverflowInput.offPlan_overflow hSwap hOverflow
    exact ⟨hLast.1.far, hLast.2⟩
  · rintro ⟨hFar, hNext⟩
    rcases hSame.liveReading with ⟨r, -, hWindows⟩
    unfold Rotate.OverflowInput.offPlan
    simp only [hSame.movingWithoutCapacity hAt hNoRoom, hWindows.not_failed,
      hSame.choose_eq_none hNoRoom, hSame.planReadings_no_room hNoRoom,
      hSame.nothing_unknown.1, hFar, hNext, Bool.not_true, Bool.or_self,
      Bool.false_eq_true, if_false, Bool.not_false, and_self, if_true]
    rfl

/- With every plan login exhausted no plan search succeeds. -/
theorem select_eq_none
    (hSame : SameFleet i pool ov live eligible)
    (hThreshold : pool.threshold ≤ 100) (hNoRoom : NoPlanRoom pool ov live)
    (eligible' : ProfileName → Bool) :
    own pool (select (planPool pool ov) live.text eligible') =
      none := by
  rw [select, own_selectBy, selectBy_eq_none_iff]
  intro p hMem
  rcases mem_candidates_planPool_iff.1 hMem with ⟨hAllowed, hPlan, hUsable⟩
  have hOff := hSame.isPlan_iff.1 hPlan
  have hOther : p ≠ live := by
    rintro rfl
    exact hAllowed.other rfl
  rcases (hSame.listed p hOff).1 ⟨hAllowed.listed, hOther⟩ with ⟨c, hC, rfl⟩
  rcases (hSame.planReading c hC).2 with ⟨r, hReading, -⟩
  have hExhausted := isExhausted_of_no_room hThreshold
    (hNoRoom c.name (.inl ⟨hAllowed.listed, hOff⟩) r hReading)
  rw [hReading] at hUsable
  have hUnder : (!isExhausted (some r) pool.threshold pool.now) = true :=
    hUsable
  rw [hExhausted] at hUnder
  cases hUnder

theorem planRoom_eq_false
    (hSame : SameFleet i pool ov live eligible)
    (hNoRoom : NoPlanRoom pool ov live) :
    planRoom pool ov live.text = false := by
  unfold planRoom
  rw [List.any_eq_false]
  intro r hMem
  rw [Bool.not_eq_true]
  rcases List.mem_append.1 hMem with hListed | hCurrent
  · rcases List.mem_filterMap.1 hListed with ⟨p, hP, hReading⟩
    rcases List.mem_filter.1 hP with ⟨hProfile, hKeep⟩
    rw [Bool.and_eq_true] at hKeep
    exact hNoRoom p (.inl ⟨hProfile, hSame.isPlan_iff.1 hKeep.2⟩) r hReading
  · have hReading : pool.readings.get? live.text = some r := by
      simpa [currentReading, hSame.offOverflow] using hCurrent
    exact hNoRoom live (.inr rfl) r hReading

/- Auto-switch spends under the same two conditions. -/
theorem selectWithOverflow_eq
    (hSame : SameFleet i pool ov live eligible)
    (hThreshold : pool.threshold ≤ 100) (hNoRoom : NoPlanRoom pool ov live) :
    selectWithOverflow pool ov live.text eligible =
      (firstOpen i ov live).filter fun _ =>
        i.settings.gate.far
          (earliestPlanReset pool ov i.settings.gate live.text)
          pool.now := by
  have hOff := hSame.offOverflow
  have hBack :
      back pool ov live.text eligible i.settings.gate =
        none := by
    unfold back
    rw [hOff, if_neg Bool.false_ne_true]
    exact hSame.select_eq_none hThreshold hNoRoom _
  have hFallback : fallback pool ov live.text eligible = none :=
    hSame.select_eq_none hThreshold hNoRoom eligible
  unfold selectWithOverflow
  rw [hSame.kindsKnown, hSame.gate, if_neg Bool.false_ne_true]
  dsimp only
  rw [hBack, withoutCapacity, hOff, if_neg Bool.false_ne_true,
    planThenPaid, hSame.planRoom_eq_false hNoRoom,
    if_neg Bool.false_ne_true, hSame.paid_eq, hFallback]
  simp

end SameFleet

/-
  On one fleet whose live login is at a threshold, with no
  room on any plan login, the two policies compute the same
  earliest reset, and each moves onto an overflow profile
  exactly when the other does, and onto the same one.
-/
theorem overflow_policies_agree
    (i : Rotate.OverflowInput) (pool : Pool) (ov : OverflowPool)
    (live : ProfileName) (eligible : ProfileName → Bool)
    (hSame : SameFleet i pool ov live eligible)
    (hAt : Rotate.needsSwap i.settings i.live.reading = true)
    (hThreshold : pool.threshold ≤ 100) (hNoRoom : NoPlanRoom pool ov live) :
    i.earliestWithLive =
        earliestPlanReset pool ov i.settings.gate live.text ∧
      ∀ o ∈ ov.order,
        (Rotate.decideOverflow i).decision.target = some o ↔
          selectWithOverflow pool ov live.text eligible = some o := by
  have hEarliest := hSame.earliestPlanReset_eq
  refine ⟨hEarliest, ?_⟩
  intro o hOrdered
  rw [hSame.decideOverflow_iff hAt hNoRoom hOrdered,
    hSame.selectWithOverflow_eq hThreshold hNoRoom,
    Option.filter_eq_some_iff, hEarliest, hSame.now_eq, and_comm]

-- One Full Login

/- The only plan login is full until time 90000. -/
def workFull : Rotate.OverflowInput where
  settings := .default
  liveName := some workName
  live :=
    { reading := .measured 100.0 100.0
      windows :=
        { session := some ⟨100.0, some 90000⟩
          week := some ⟨100.0, some 90000⟩
          noSessionLimit := false }
      spendLimit := false
      unknown := false
      stillRunning := false
      observedAt := none
      carried := false }
  candidates :=
    [{ name := creditsName
       reading := .measured 10.0 10.0
       windows := ⟨none, none, false⟩
       spendLimit := false
       unknown := false }]
  unmeasuredPlan := []
  refused := []
  overflow := [⟨creditsName, 1⟩]
  blocks := .empty
  platformBlock := none
  swappedAt := none
  now := 1000

def workAlone : Pool where
  profiles := [workName, creditsName]
  readings := workReading
  threshold := 90
  exclude := []
  now := 1000

theorem eq_workName_of_listed
    {p : ProfileName} (hListed : p ∈ workAlone.profiles)
    (hOff : p ∉ creditsOnly.order) :
    p = workName := by
  rcases List.mem_cons.1 hListed with rfl | hRest
  · rfl
  · exact absurd hRest hOff

theorem sameFleet_workFull :
    SameFleet workFull workAlone creditsOnly workName
      (fun _ => true) where
  liveName := rfl
  now_eq := rfl
  gate := rfl
  order := by decide
  blocked := rfl
  kindsKnown := rfl
  noKey := ⟨by decide, rfl, rfl⟩
  noneLeftOut := ⟨rfl, rfl, rfl⟩
  onPlan := by decide
  liveReading := by
    refine ⟨fullReading, rfl, rfl, rfl, ?_, ?_, .inl rfl⟩
    · rintro w ⟨⟩
      decide
    · rintro w ⟨⟩
      decide
  listed := by
    intro p hOff
    have hPlan : workFull.plan = [] := rfl
    rw [hPlan]
    constructor
    · rintro ⟨hListed, hOther⟩
      exact absurd (eq_workName_of_listed hListed hOff) hOther
    · rintro ⟨c, hMem, -⟩
      cases hMem
  planReading := by
    intro c hMem
    have hPlan : workFull.plan = [] := rfl
    rw [hPlan] at hMem
    cases hMem
  ready := by
    intro o hOrdered
    rw [List.mem_singleton.1 hOrdered]
    decide

theorem noPlanRoom_workAlone :
    NoPlanRoom workAlone creditsOnly workName := by
  intro p hPlan r hReading
  have hName : p = workName := by
    rcases hPlan with ⟨hListed, hOff⟩ | hLive
    · exact eq_workName_of_listed hListed hOff
    · exact hLive
  subst hName
  have hFull : workAlone.reading workName = some fullReading := rfl
  rw [← Option.some.inj (hFull.symm.trans hReading)]
  decide

/- Both policies move onto the credit profile. -/
theorem overflow_policies_agree_of_work_full :
    workFull.earliestWithLive =
        earliestPlanReset workAlone creditsOnly
          workFull.settings.gate workName.text ∧
      ((Rotate.decideOverflow workFull).decision.target = some creditsName ↔
        selectWithOverflow workAlone creditsOnly workName.text
          (fun _ => true) = some creditsName) := by
  have hAgree := overflow_policies_agree workFull workAlone
    creditsOnly workName (fun _ => true) sameFleet_workFull
    (by decide) (by decide) noPlanRoom_workAlone
  exact ⟨hAgree.1, hAgree.2 creditsName (by decide)⟩

end AutoSwitch
