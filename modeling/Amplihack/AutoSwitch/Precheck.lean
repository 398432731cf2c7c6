import Amplihack.AutoSwitch.LastResort

/-
  The status line's cheap check of a session on an overflow
  profile, and the moves of the selection that it stops.
-/

-- The Check

namespace AutoSwitch

open Base Profile

/- The settings that the check and the selection read. -/
structure Config where
  threshold : ℕ
  exclude : List ProfileName

/- The pool that the full check selects from. -/
def Config.pool
    (cfg : Config) (profiles : List ProfileName)
    (readings : Dict String Reading) (now : ℤ) :
    Pool where
  profiles := profiles
  readings := readings
  threshold := cfg.threshold
  exclude := cfg.exclude
  now := now

/- A usable credit profile is a way off the API key. -/
def creditWayOff
    (cfg : Config) (overflow : OverflowPool) (account : ProfileName) :
    Bool :=
  overflow.platform == some account &&
    overflow.order.any fun o =>
      some o != overflow.platform && !cfg.exclude.contains o &&
        overflowUsable o.text overflow.blocked

/- A plan profile with this reading is a way off overflow. -/
def planWayOff
    (cfg : Config) (overflow : OverflowPool) (now : ℤ)
    (entry : String × Reading) :
    Bool :=
  (ProfileName.parse entry.1).any fun n =>
    overflow.isPlan n && !cfg.exclude.contains n &&
      wayOff (some entry.2) overflow.gate cfg.threshold now

/- The full check may move a session off the account. -/
def overflowMayMove
    (account : ProfileName) (cfg : Config)
    (overflow : OverflowPool) (readings : Dict String Reading) (now : ℤ) :
    Bool :=
  if !overflowUsable account.text overflow.blocked then true
  else if creditWayOff cfg overflow account then true
  else readings.entries.any (planWayOff cfg overflow now)

-- What A Refusal Says

variable {cfg : Config}
variable {overflow : OverflowPool}
variable {readings : Dict String Reading}
variable {profiles : List ProfileName}
variable {account : ProfileName}
variable {now : ℤ}
variable {eligible : ProfileName → Bool}

/- No block, no credit way off the key, no reading to go to. -/
structure MayNotMove
    (account : ProfileName) (cfg : Config)
    (overflow : OverflowPool) (readings : Dict String Reading) (now : ℤ) :
    Prop where
  usable : overflowUsable account.text overflow.blocked = true
  noCredit : creditWayOff cfg overflow account = false
  noWayOff :
    ∀ p r, readings.get? p.text = some r →
      overflow.isPlan p = true → p ∉ cfg.exclude →
        wayOff (some r) overflow.gate cfg.threshold now = false

theorem mayNotMove_of_refusal
    (hNo : overflowMayMove account cfg overflow readings now = false) :
    MayNotMove account cfg overflow readings now := by
  unfold overflowMayMove at hNo
  split at hNo
  · cases hNo
  next hUsable =>
    split at hNo
    · cases hNo
    next hCredit =>
      refine ⟨by simpa using hUsable,
        by simpa using hCredit, ?_⟩
      intro p r hReading hPlan hKept
      have hEntry := Dict.mem_entries_of_get? hReading
      have hWay := List.any_eq_false.1 hNo _ hEntry
      simpa [planWayOff, ProfileName.parse_text, hPlan, hKept] using hWay

/- After a refusal only a profile without a reading is left. -/
theorem MayNotMove.unread
    {usable : Option Reading → Bool} {p : ProfileName}
    (hRefused : MayNotMove account cfg overflow readings now)
    (hUsable : ∀ r, usable (some r) = true →
      wayOff (some r) overflow.gate cfg.threshold now = true)
    (hMem : p ∈ candidates
      (planPool (cfg.pool profiles readings now) overflow)
      account.text usable eligible) :
    readings.get? p.text = none := by
  rcases mem_candidates_planPool_iff.1 hMem with ⟨hAllowed, hPlan, hTaken⟩
  cases hReading : readings.get? p.text with
  | none => rfl
  | some r =>
    have hSome : usable (some r) = true := by
      rw [← hReading]
      exact hTaken
    have hNoWay := hRefused.noWayOff p r hReading hPlan hAllowed.kept
    rw [hUsable r hSome] at hNoWay
    cases hNoWay

/- With every plan profile read, a plan search finds nothing. -/
theorem MayNotMove.selectBy_eq_none
    {usable : Option Reading → Bool}
    (hRefused : MayNotMove account cfg overflow readings now)
    (hUsable : ∀ r, usable (some r) = true →
      wayOff (some r) overflow.gate cfg.threshold now = true)
    (hRead : ∀ p ∈ profiles, p ∉ cfg.exclude →
      overflow.isPlan p = true → (readings.get? p.text).isSome = true) :
    selectBy
        (planPool (cfg.pool profiles readings now) overflow)
        account.text usable eligible = none := by
  rw [selectBy_eq_none_iff]
  intro p hMem
  have hNone := hRefused.unread hUsable hMem
  rcases mem_candidates_planPool_iff.1 hMem with ⟨hAllowed, hPlan, -⟩
  have hSome := hRead p hAllowed.listed hAllowed.kept hPlan
  simp [hNone] at hSome

theorem onOverflow_of_ordered
    (hOrdered : account ∈ overflow.order) :
    onOverflow overflow account.text = true :=
  List.any_eq_true.2 ⟨account, hOrdered, by simp⟩

/- A credit profile that may be taken is a credit way off. -/
theorem MayNotMove.no_credit_move
    (hRefused : MayNotMove account cfg overflow readings now) :
    ((creditOffKey (cfg.pool profiles readings now) overflow
        account.text eligible).filter fun _ =>
      overflow.platform.any fun p => p.text == account.text) =
        none := by
  rw [Option.filter_eq_none_iff]
  intro o hCredit hKey
  have hPlatform : overflow.platform = some account := by
    cases hKind : overflow.platform with
    | none => simp [hKind] at hKey
    | some k =>
      have hText : k.text = account.text := by simpa [hKind] using hKey
      rw [ProfileName.text_injective hText]
  have hFound := List.find?_some hCredit
  simp only [Bool.and_eq_true] at hFound
  have hTake := allowed_of_mayTake hFound.1.1 hFound.2
  have hWay : creditWayOff cfg overflow account = true := by
    unfold creditWayOff
    rw [Bool.and_eq_true]
    refine ⟨by simp [hPlatform], List.any_eq_true.2
      ⟨o, List.mem_of_find?_eq_some hCredit, ?_⟩⟩
    have hKept : o ∉ cfg.exclude := hTake.1.kept
    simp [hFound.1.2, hTake.2, hKept]
  rw [hRefused.noCredit] at hWay
  cases hWay

-- The Moves That Are Stopped

/- Without a gate only the auto-switch threshold decides. -/
theorem wayOff_of_not_isExhausted
    (hGate : overflow.gate = none) :
    ∀ r, (!isExhausted (some r) cfg.threshold now) = true →
      wayOff (some r) overflow.gate cfg.threshold now =
        true := by
  intro r hUnder
  simp only [wayOff, mayReturnTo, hGate, hUnder, Bool.true_or]

/- With every plan profile read, nothing is selected. -/
theorem MayNotMove.select_eq_none
    (hRefused : MayNotMove account cfg overflow readings now)
    (hOrdered : account ∈ overflow.order)
    (hRead : ∀ p ∈ profiles, p ∉ cfg.exclude →
      overflow.isPlan p = true → (readings.get? p.text).isSome = true) :
    selectWithOverflow (cfg.pool profiles readings now) overflow
      account.text eligible = none := by
  have hOn := onOverflow_of_ordered hOrdered
  unfold selectWithOverflow
  split
  · rfl
  cases hGate : overflow.gate with
  | none =>
    dsimp only
    rw [fallback, select, own_selectBy]
    exact hRefused.selectBy_eq_none (wayOff_of_not_isExhausted hGate) hRead
  | some gate =>
    dsimp only
    have hBack :
        back (cfg.pool profiles readings now) overflow
          account.text eligible gate = none := by
      unfold back
      rw [if_pos hOn, own_selectBy]
      refine hRefused.selectBy_eq_none ?_ hRead
      intro r hReturn
      rw [wayOff, hGate]
      exact Bool.or_eq_true_iff.2 (.inl hReturn)
    have hRoom :
        withRoom (cfg.pool profiles readings now) overflow
          account.text eligible = none := by
      unfold withRoom
      rw [own_selectBy]
      refine hRefused.selectBy_eq_none ?_ hRead
      intro r hHas
      rw [wayOff, hGate, Option.isSome_some, Bool.true_and]
      exact Bool.or_eq_true_iff.2 (.inr hHas)
    rw [hBack, withoutCapacity, if_pos hOn, hRoom,
      hRefused.no_credit_move, if_pos hRefused.usable]
    rfl

/- A plan profile without a reading is selected. -/
theorem select_unread
    {p : ProfileName} (hKinds : overflow.kindsUnknown = false)
    (hOrdered : account ∈ overflow.order)
    (hListed : p ∈ profiles) (hKept : p ∉ cfg.exclude)
    (hPlan : overflow.isPlan p = true)
    (hUnread : readings.get? p.text = none) :
    selectWithOverflow (cfg.pool profiles readings now) overflow
      account.text (fun _ => true) ≠ none := by
  have hOn := onOverflow_of_ordered hOrdered
  have hOther : p.text ≠ account.text := by
    intro hText
    rw [ProfileName.text_injective hText,
      not_isPlan_of_ordered hOrdered] at hPlan
    cases hPlan
  have hMem : ∀ usable : Option Reading → Bool,
      usable none = true →
        p ∈ candidates
          (planPool (cfg.pool profiles readings now) overflow)
          account.text usable (fun _ => true) := by
    intro usable hNone
    refine mem_candidates_planPool_iff.2
      ⟨⟨hListed, hOther, hKept, rfl⟩, hPlan, ?_⟩
    have hReading : (cfg.pool profiles readings now).reading p = none :=
      hUnread
    rw [hReading]
    exact hNone
  unfold selectWithOverflow
  rw [hKinds, if_neg Bool.false_ne_true]
  cases hGate : overflow.gate with
  | none =>
    dsimp only
    rw [fallback, select, own_selectBy]
    intro hNone
    exact selectBy_eq_none_iff.1 hNone p (hMem _ rfl)
  | some gate =>
    dsimp only
    intro hNone
    have hBack := (Option.or_eq_none_iff.1 hNone).1
    unfold back at hBack
    rw [if_pos hOn, own_selectBy] at hBack
    exact selectBy_eq_none_iff.1 hBack p (hMem _ rfl)

/-
  For a session on an overflow profile that the check leaves
  alone: the selection would leave it alone too, whichever
  profiles are eligible, exactly when the kinds are unknown
  or every plan profile that is not excluded has a reading.
-/
theorem precheck_sound_iff_all_read
    (account : ProfileName) (cfg : Config)
    (overflow : OverflowPool) (readings : Dict String Reading)
    (profiles : List ProfileName) (now : ℤ)
    (hOrdered : account ∈ overflow.order)
    (hNo : overflowMayMove account cfg overflow readings now = false) :
    (∀ eligible,
      selectWithOverflow (cfg.pool profiles readings now)
        overflow account.text eligible = none) ↔
      overflow.kindsUnknown = true ∨
        ∀ p ∈ profiles, p ∉ cfg.exclude →
          overflow.isPlan p = true →
            (readings.get? p.text).isSome = true := by
  have hRefused := mayNotMove_of_refusal hNo
  constructor
  · intro hStays
    cases hKinds : overflow.kindsUnknown with
    | true => exact .inl rfl
    | false =>
      refine .inr ?_
      intro p hListed hKept hPlan
      by_contra hMissing
      have hUnread : readings.get? p.text = none := by simpa using hMissing
      exact select_unread hKinds hOrdered hListed hKept
        hPlan hUnread (hStays _)
  · rintro (hKinds | hRead) eligible
    · simp [selectWithOverflow, hKinds]
    · exact hRefused.select_eq_none hOrdered hRead

-- A Plan Profile Without A Reading

def plainConfig : Config where
  threshold := 90
  exclude := []

/- The check stops the move to a profile not yet measured. -/
theorem precheck_stops_unread_move :
    creditsName ∈ creditsOnly.order ∧
      overflowMayMove creditsName plainConfig creditsOnly
        workReading 1000 = false ∧
      selectWithOverflow
        (plainConfig.pool [workName, spareName, creditsName] workReading 1000)
        creditsOnly "prepaid" (fun _ => true) = some spareName := by
  decide

/- With the full profile alone the check and selection agree. -/
theorem precheck_sound_of_work_alone :
    selectWithOverflow
      (plainConfig.pool [workName, creditsName] workReading 1000)
      creditsOnly creditsName.text (fun _ => true) = none :=
  (precheck_sound_iff_all_read creditsName plainConfig
    creditsOnly workReading [workName, creditsName] 1000
    (by decide) (by decide)).2 (.inr (by decide)) _

end AutoSwitch
