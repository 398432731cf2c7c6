import Amplihack.AutoSwitch.Candidate

/-
  Money is spent only as a last resort, and the selection
  does not depend on the order of the profiles.
-/

-- Plan Profiles

namespace AutoSwitch

open Base Profile

variable {pool : Pool}
variable {ov : OverflowPool}
variable {current : String}
variable {eligible : ProfileName → Bool}
variable {p : ProfileName}

/- A profile that may be moved to at all. -/
structure Allowed
    (pool : Pool) (current : String)
    (eligible : ProfileName → Bool) (p : ProfileName) :
    Prop where
  listed : p ∈ pool.profiles
  other : p.text ≠ current
  kept : p ∉ pool.exclude
  eligible : eligible p = true

theorem mem_candidates_planPool_iff
    {usable : Option Reading → Bool} :
    p ∈ candidates (planPool pool ov) current usable eligible ↔
      Allowed pool current eligible p ∧ ov.isPlan p = true ∧
        usable (pool.reading p) = true := by
  rw [mem_candidates_iff]
  dsimp only [planPool]
  constructor
  · rintro ⟨hListed, hOther, hKept, hUsable, hEligible⟩
    rw [List.mem_append, not_or] at hKept
    have hPlan : ov.isPlan p = true := by
      by_contra hNot
      exact hKept.2 (List.mem_filter.2 ⟨hListed, by simp [hNot]⟩)
    exact ⟨⟨hListed, hOther, hKept.1, hEligible⟩, hPlan, hUsable⟩
  · rintro ⟨hAllowed, hPlan, hUsable⟩
    refine ⟨hAllowed.listed, hAllowed.other, ?_, hUsable, hAllowed.eligible⟩
    simp [hAllowed.kept, hPlan]

theorem own_of_mem (hMem : p ∈ pool.profiles) :
    own pool (some p) = some p := by
  dsimp only [own, Option.bind_some]
  cases hFind : pool.profiles.find? fun q => q = p with
  | none =>
    rw [List.find?_eq_none] at hFind
    exact absurd (decide_eq_true rfl) (hFind p hMem)
  | some q =>
    have hSame := List.find?_some hFind
    rw [of_decide_eq_true hSame]

/- The name handed back is the one that was selected. -/
theorem own_selectBy
    {usable : Option Reading → Bool} {eligible : ProfileName → Bool} :
    own pool
        (selectBy (planPool pool ov) current usable eligible) =
      selectBy (planPool pool ov) current usable eligible := by
  cases hSelected :
      selectBy (planPool pool ov) current usable eligible with
  | none => rfl
  | some p =>
    exact own_of_mem (mem_candidates_iff.1 (selectBy_mem hSelected)).1

theorem back_plan
    {gate : Gate} (hBack : back pool ov current eligible gate = some p) :
    Allowed pool current eligible p ∧ ov.isPlan p = true := by
  unfold back at hBack
  split at hBack
  · rw [own_selectBy] at hBack
    have hMem := mem_candidates_planPool_iff.1 (selectBy_mem hBack)
    exact ⟨hMem.1, hMem.2.1⟩
  · rw [select, own_selectBy] at hBack
    have hMem := mem_candidates_planPool_iff.1 (selectBy_mem hBack)
    have hBoth := hMem.1.eligible
    rw [Bool.and_eq_true] at hBoth
    exact ⟨⟨hMem.1.listed, hMem.1.other, hMem.1.kept, hBoth.2⟩, hMem.2.1⟩

theorem fallback_plan
    (hFallback : fallback pool ov current eligible = some p) :
    Allowed pool current eligible p ∧ ov.isPlan p = true := by
  rw [fallback, select, own_selectBy] at hFallback
  have hMem := mem_candidates_planPool_iff.1 (selectBy_mem hFallback)
  exact ⟨hMem.1, hMem.2.1⟩

theorem withRoom_plan
    (hRoom : withRoom pool ov current eligible = some p) :
    Allowed pool current eligible p ∧ ov.isPlan p = true := by
  rw [withRoom, own_selectBy] at hRoom
  have hMem := mem_candidates_planPool_iff.1 (selectBy_mem hRoom)
  exact ⟨hMem.1, hMem.2.1⟩

-- Overflow Profiles

/- The conditions under which money may be spent. -/
structure Spends
    (pool : Pool) (ov : OverflowPool) (current : String)
    (gate : Gate) (p : ProfileName) :
    Prop where
  noRoom : planRoom pool ov current = false
  far : gate.far (earliestPlanReset pool ov gate current) pool.now = true
  read : ov.platform = some p → unreadPlan pool ov = []

/- What a selection may be: a plan profile, or a paid one. -/
inductive Chosen
    (pool : Pool) (ov : OverflowPool) (current : String) (p : ProfileName) :
    Prop
where
| plan (isPlan : ov.isPlan p = true)
| paid (gate : Gate)
    (open_ : ov.gate = some gate)
    (ordered : p ∈ ov.order)
    (usable : overflowUsable p.text ov.blocked = true)
    (spends : onOverflow ov current = true ∨ Spends pool ov current gate p)

theorem allowed_of_mayTake
    (hOther : (p.text != current) = true)
    (hTake : mayTake pool ov eligible p = true) :
    Allowed pool current eligible p ∧
      overflowUsable p.text ov.blocked = true := by
  simp only [mayTake, Bool.and_eq_true, Bool.not_eq_true',
    List.contains_eq_mem, decide_eq_true_eq, decide_eq_false_iff_not] at hTake
  rcases hTake with ⟨⟨⟨hListed, hKept⟩, hUsable⟩, hEligible⟩
  exact ⟨⟨hListed, by simpa using hOther, hKept, hEligible⟩, hUsable⟩

theorem creditOffKey_chosen
    (hCredit : creditOffKey pool ov current eligible = some p) :
    Allowed pool current eligible p ∧ p ∈ ov.order ∧
      overflowUsable p.text ov.blocked = true := by
  have hFound := List.find?_some hCredit
  simp only [Bool.and_eq_true] at hFound
  have hTake := allowed_of_mayTake hFound.1.1 hFound.2
  exact ⟨hTake.1, List.mem_of_find?_eq_some hCredit, hTake.2⟩

theorem paid_chosen
    (hPaid : paid pool ov current eligible = some p) :
    Allowed pool current eligible p ∧ p ∈ ov.order ∧
      overflowUsable p.text ov.blocked = true ∧
      (ov.platform = some p → unreadPlan pool ov = []) := by
  have hFound := List.find?_some hPaid
  simp only [Bool.and_eq_true] at hFound
  have hTake := allowed_of_mayTake hFound.1.1 hFound.2
  refine ⟨hTake.1, List.mem_of_find?_eq_some hPaid, hTake.2, ?_⟩
  intro hPlatform
  have hRead := hFound.1.2
  simp [hPlatform] at hRead
  exact hRead.2

theorem planThenPaid_chosen
    {gate : Gate} (hGate : ov.gate = some gate)
    (hSelected : planThenPaid pool ov current eligible gate = some p) :
    Allowed pool current eligible p ∧ Chosen pool ov current p := by
  unfold planThenPaid at hSelected
  split at hSelected
  next =>
    rcases Option.or_eq_some_iff.1 hSelected with
      hPlan | ⟨-, hRoom⟩
    · have hFallback := fallback_plan hPlan
      exact ⟨hFallback.1, .plan hFallback.2⟩
    · have hWith := withRoom_plan (Option.filter_eq_some_iff.1 hRoom).1
      exact ⟨hWith.1, .plan hWith.2⟩
  next hNoRoom =>
    rcases Option.or_eq_some_iff.1 hSelected with
      hPaid | ⟨-, hPlan⟩
    · rcases Option.filter_eq_some_iff.1 hPaid with
        ⟨hFound, hFar⟩
      rcases paid_chosen hFound with ⟨hAllowed, hOrdered, hUsable, hRead⟩
      have hNone : planRoom pool ov current = false := by simpa using hNoRoom
      exact ⟨hAllowed, .paid gate hGate hOrdered hUsable
        (.inr ⟨hNone, hFar, hRead⟩)⟩
    · have hFallback := fallback_plan hPlan
      exact ⟨hFallback.1, .plan hFallback.2⟩

/- Every selection is allowed, and spends only as it may. -/
theorem chosen_of_selectWithOverflow
    (hSelected : selectWithOverflow pool ov current eligible = some p) :
    Allowed pool current eligible p ∧ Chosen pool ov current p := by
  unfold selectWithOverflow at hSelected
  split at hSelected
  next => cases hSelected
  next =>
    cases hGate : ov.gate with
    | none =>
      simp only [hGate] at hSelected
      have hFallback := fallback_plan hSelected
      exact ⟨hFallback.1, .plan hFallback.2⟩
    | some gate =>
      simp only [hGate] at hSelected
      rcases Option.or_eq_some_iff.1 hSelected with
        hBack | ⟨-, hRest⟩
      · have hPlan := back_plan hBack
        exact ⟨hPlan.1, .plan hPlan.2⟩
      · unfold withoutCapacity at hRest
        split at hRest
        next hOn =>
          rcases Option.or_eq_some_iff.1 hRest with
            hRoom | ⟨-, hRest⟩
          · have hPlan := withRoom_plan hRoom
            exact ⟨hPlan.1, .plan hPlan.2⟩
          rcases Option.or_eq_some_iff.1 hRest with
            hCredit | ⟨-, hRest⟩
          · rcases creditOffKey_chosen
                (Option.filter_eq_some_iff.1 hCredit).1
              with ⟨hAllowed, hOrdered, hUsable⟩
            exact ⟨hAllowed, .paid gate hGate hOrdered hUsable (.inl hOn)⟩
          split at hRest
          · cases hRest
          · exact planThenPaid_chosen hGate hRest
        next => exact planThenPaid_chosen hGate hRest

-- The Order Of The Profiles

section Order

variable {profiles : List ProfileName}

/- The pool with its profiles in another order. -/
def Pool.withProfiles (pool : Pool) (profiles : List ProfileName) :
    Pool :=
  { pool with profiles := profiles }

theorem planProfiles_perm
    (ov : OverflowPool) (hPerm : profiles.Perm pool.profiles) :
    (planProfiles (pool.withProfiles profiles) ov).Perm
      (planProfiles pool ov) :=
  hPerm.filter _

theorem mem_planPool_perm
    (hPerm : profiles.Perm pool.profiles) (usable : Option Reading → Bool)
    (eligible : ProfileName → Bool) (p : ProfileName) :
    p ∈ candidates (planPool (pool.withProfiles profiles) ov)
        current usable eligible ↔
      p ∈ candidates (planPool pool ov) current usable
        eligible := by
  rw [mem_candidates_planPool_iff, mem_candidates_planPool_iff]
  have hAllowed :
      Allowed (pool.withProfiles profiles) current eligible p ↔
        Allowed pool current eligible p := by
    constructor
    · intro h
      exact ⟨hPerm.mem_iff.1 h.listed, h.other, h.kept, h.eligible⟩
    · intro h
      exact ⟨hPerm.mem_iff.2 h.listed, h.other, h.kept, h.eligible⟩
  exact and_congr_left fun _ => hAllowed

theorem selectBy_perm
    (hPerm : profiles.Perm pool.profiles) (usable : Option Reading → Bool)
    (eligible : ProfileName → Bool) :
    selectBy (planPool (pool.withProfiles profiles) ov) current
        usable eligible =
      selectBy (planPool pool ov) current usable eligible :=
  selectBy_congr rfl rfl (mem_planPool_perm hPerm usable eligible)

theorem plan_steps_perm
    (ov : OverflowPool) (current : String) (eligible : ProfileName → Bool)
    (hPerm : profiles.Perm pool.profiles) (gate : Gate) :
    fallback (pool.withProfiles profiles) ov current eligible =
        fallback pool ov current eligible ∧
      withRoom (pool.withProfiles profiles) ov current eligible =
        withRoom pool ov current eligible ∧
      back (pool.withProfiles profiles) ov current eligible gate =
        back pool ov current eligible gate := by
  refine ⟨?_, ?_, ?_⟩
  · unfold fallback select
    rw [own_selectBy, own_selectBy]
    exact selectBy_perm hPerm _ _
  · unfold withRoom
    rw [own_selectBy, own_selectBy]
    exact selectBy_perm hPerm _ _
  · unfold back select
    split
    · rw [own_selectBy, own_selectBy]
      exact selectBy_perm hPerm _ _
    · rw [own_selectBy, own_selectBy]
      exact selectBy_perm hPerm _ _

theorem planRoom_perm
    (ov : OverflowPool) (current : String)
    (hPerm : profiles.Perm pool.profiles) :
    planRoom (pool.withProfiles profiles) ov current =
      planRoom pool ov current := by
  have hReadings :=
    ((planProfiles_perm ov hPerm).filterMap
      pool.reading).append_right (currentReading pool ov current).toList
  rw [Bool.eq_iff_iff]
  unfold planRoom
  rw [List.any_eq_true, List.any_eq_true]
  exact exists_congr fun r =>
    and_congr_left fun _ => hReadings.mem_iff

theorem earliestPlanReset_perm
    (ov : OverflowPool) (current : String)
    (hPerm : profiles.Perm pool.profiles) (gate : Gate) :
    earliestPlanReset (pool.withProfiles profiles) ov gate current =
      earliestPlanReset pool ov gate current := by
  have hReadings :=
    ((planProfiles_perm ov hPerm).filterMap
      pool.reading).append_right (currentReading pool ov current).toList
  have hResets := hReadings.filterMap fun r =>
    regains r gate pool.now
  exact min?_congr fun t => hResets.mem_iff

theorem paid_steps_perm
    (ov : OverflowPool) (current : String) (eligible : ProfileName → Bool)
    (hPerm : profiles.Perm pool.profiles) :
    creditOffKey (pool.withProfiles profiles) ov current eligible =
        creditOffKey pool ov current eligible ∧
      paid (pool.withProfiles profiles) ov current eligible =
        paid pool ov current eligible := by
  have hTake :
      mayTake (pool.withProfiles profiles) ov eligible =
        mayTake pool ov eligible := by
    funext o
    unfold mayTake
    dsimp only [Pool.withProfiles]
    simp only [List.contains_eq_mem, hPerm.mem_iff]
  have hUnread :
      (unreadPlan (pool.withProfiles profiles) ov).isEmpty =
        (unreadPlan pool ov).isEmpty := by
    have hPlan := ((planProfiles_perm ov hPerm).filter
      fun p => !ov.noLogin.contains p).filter fun p =>
        (pool.reading p).isNone
    rw [Bool.eq_iff_iff, List.isEmpty_iff, List.isEmpty_iff]
    constructor
    · intro hEmpty
      exact List.nil_perm.1 (hEmpty ▸ hPlan)
    · intro hEmpty
      exact List.perm_nil.1 (hEmpty ▸ hPlan)
  constructor
  · unfold creditOffKey
    rw [hTake]
  · unfold paid
    rw [hTake, hUnread]

/- The selection does not depend on the profiles' order. -/
theorem selectWithOverflow_perm
    (hPerm : profiles.Perm pool.profiles) :
    selectWithOverflow (pool.withProfiles profiles) ov current eligible =
      selectWithOverflow pool ov current eligible := by
  unfold selectWithOverflow
  split
  · rfl
  · cases hGate : ov.gate with
    | none =>
      exact (plan_steps_perm ov current eligible hPerm ⟨0, false, 0, 0⟩).1
    | some gate =>
      rcases plan_steps_perm ov current eligible hPerm gate
        with ⟨hFallback, hRoom, hBack⟩
      rcases paid_steps_perm ov current eligible hPerm with ⟨hCredit, hPaid⟩
      have hEarliest := earliestPlanReset_perm ov current hPerm gate
      have hPlanRoom := planRoom_perm ov current hPerm
      dsimp only
      unfold withoutCapacity planThenPaid
      rw [hFallback, hRoom, hBack, hCredit, hPaid, hEarliest, hPlanRoom]
      rfl

end Order

-- The Last Resort

theorem onOverflow_of_isPlan
    {c : ProfileName} (hCurrent : c.text = current)
    (hPlan : ov.isPlan c = true) :
    onOverflow ov current = false := by
  rw [Bool.eq_false_iff]
  intro hOn
  rcases List.any_eq_true.1 hOn with ⟨o, hMem, hText⟩
  have hSame : o = c :=
    ProfileName.text_injective ((eq_of_beq hText).trans hCurrent.symm)
  subst hSame
  simp [OverflowPool.isPlan, hMem] at hPlan

theorem not_isPlan_of_ordered
    (hOrdered : p ∈ ov.order) :
    ov.isPlan p = false := by
  simp [OverflowPool.isPlan, hOrdered]

/- No plan profile has room: the listed ones, the current one. -/
theorem noRoom_of_planRoom
    (hOff : onOverflow ov current = false)
    (hNoRoom : planRoom pool ov current = false) :
    (∀ q ∈ pool.profiles, q ∉ pool.exclude →
      ov.isPlan q = true → ∀ r, pool.reading q = some r →
        hasRoom r pool.now = false) ∧
    ∀ r, pool.readings.get? current = some r →
      hasRoom r pool.now = false := by
  have hAll := List.any_eq_false.1 hNoRoom
  constructor
  · intro q hListed hKept hPlan r hReading
    have hMem : q ∈ planProfiles pool ov :=
      List.mem_filter.2 ⟨hListed, by simp [hKept, hPlan]⟩
    have hRead := List.mem_filterMap.2 ⟨q, hMem, hReading⟩
    simpa using hAll r (List.mem_append_left _ hRead)
  · intro r hReading
    have hRead : r ∈ (currentReading pool ov current).toList := by
      simp [currentReading, hOff, hReading]
    simpa using hAll r (List.mem_append_right _ hRead)

theorem read_of_unreadPlan
    (hRead : unreadPlan pool ov = []) :
    ∀ q ∈ pool.profiles, q ∉ pool.exclude →
      ov.isPlan q = true → q ∉ ov.noLogin →
        (pool.reading q).isSome = true := by
  intro q hListed hKept hPlan hLogin
  have hMem : q ∈ (planProfiles pool ov).filter fun p =>
      !ov.noLogin.contains p :=
    List.mem_filter.2
      ⟨List.mem_filter.2 ⟨hListed, by simp [hKept, hPlan]⟩,
        by simp [hLogin]⟩
  have hSome := List.filter_eq_nil_iff.1 hRead q hMem
  simpa [Option.isSome_iff_ne_none] using hSome

/-
  A selection is never the current profile, an excluded or an
  ineligible one, or an API key outside the order, and there
  is none while the kinds are unknown. From a plan profile
  money is spent only with a gate, with no room on any plan
  profile that is not excluded, far from the first reset, and
  on an entry without a block; and on the API key only with
  every such profile read, those that have no login apart.
-/
theorem selection_spends_last
    (pool : Pool) (ov : OverflowPool) (current : String)
    (eligible : ProfileName → Bool) :
    (ov.kindsUnknown = true →
      selectWithOverflow pool ov current eligible = none) ∧
    (∀ p, selectWithOverflow pool ov current eligible = some p →
      p.text ≠ current ∧ p ∉ pool.exclude ∧
        eligible p = true ∧ (p ∈ ov.notPlan → p ∈ ov.order)) ∧
    (∀ c p, c.text = current → ov.isPlan c = true →
      selectWithOverflow pool ov current eligible = some p →
      p ∈ ov.order →
      ∃ gate, ov.gate = some gate ∧
        (∀ q ∈ pool.profiles, q ∉ pool.exclude →
          ov.isPlan q = true → ∀ r, pool.reading q = some r →
            hasRoom r pool.now = false) ∧
        (∀ r, pool.readings.get? current = some r →
          hasRoom r pool.now = false) ∧
        gate.far (earliestPlanReset pool ov gate current) pool.now = true ∧
        overflowUsable p.text ov.blocked = true ∧
        (ov.platform = some p →
          ∀ q ∈ pool.profiles, q ∉ pool.exclude →
            ov.isPlan q = true → q ∉ ov.noLogin →
              (pool.reading q).isSome = true)) ∧
    ∀ profiles, profiles.Perm pool.profiles →
      selectWithOverflow (pool.withProfiles profiles) ov current eligible =
        selectWithOverflow pool ov current eligible := by
  refine ⟨?_, ?_, ?_, ?_⟩
  · intro hUnknown
    simp [selectWithOverflow, hUnknown]
  · intro p hSelected
    rcases chosen_of_selectWithOverflow hSelected with ⟨hAllowed, hChosen⟩
    refine ⟨hAllowed.other, hAllowed.kept, hAllowed.eligible, ?_⟩
    intro hKey
    cases hChosen with
    | plan hPlan => simp [OverflowPool.isPlan, hKey] at hPlan
    | paid gate hGate hOrdered hUsable hSpends => exact hOrdered
  · intro c p hCurrent hFrom hSelected hOrdered
    have hOff := onOverflow_of_isPlan hCurrent hFrom
    rcases chosen_of_selectWithOverflow hSelected with ⟨hAllowed, hChosen⟩
    cases hChosen with
    | plan hPlan =>
      rw [not_isPlan_of_ordered hOrdered] at hPlan
      cases hPlan
    | paid gate hGate _ hUsable hSpends =>
      rcases hSpends with hOn | hSpends
      · rw [hOff] at hOn
        cases hOn
      · have hNoRoom :=
          noRoom_of_planRoom hOff hSpends.noRoom
        exact ⟨gate, hGate, hNoRoom.1, hNoRoom.2, hSpends.far, hUsable,
          fun hKey => read_of_unreadPlan (hSpends.read hKey)⟩
  · intro profiles hPerm
    exact selectWithOverflow_perm hPerm

-- An Excluded Profile With Room

def workName : ProfileName := ⟨"office", by decide⟩

def spareName : ProfileName := ⟨"spare", by decide⟩

def creditsName : ProfileName := ⟨"prepaid", by decide⟩

def fullReading : Reading where
  fiveHour := some ⟨100.0, 90000, by decide⟩
  sevenDay := some ⟨100.0, 90000, by decide⟩

def emptyReading : Reading where
  fiveHour := some ⟨10.0, 90000, by decide⟩
  sevenDay := some ⟨10.0, 90000, by decide⟩

def workReading : Dict String Reading where
  entries := [("office", fullReading)]
  nodupKeys := by decide

def defaultGate : Gate where
  wait := 1800
  unknownReset := false
  sessionAt := 85
  weekAt := 90

/- The login in use is full; the spare one is excluded. -/
def spareExcluded : Pool where
  profiles := [workName, spareName, creditsName]
  readings :=
    { entries := [("spare", emptyReading), ("office", fullReading)]
      nodupKeys := by decide }
  threshold := 90
  exclude := [spareName]
  now := 1000

def creditsOnly : OverflowPool where
  order := [creditsName]
  blocked := []
  gate := some defaultGate
  platform := none
  notPlan := []
  noLogin := []
  kindsUnknown := false

/- Credits are spent while an excluded profile has room. -/
theorem spends_beside_excluded_room :
    selectWithOverflow spareExcluded creditsOnly "office"
        (fun _ => true) = some creditsName ∧
      creditsName ∈ creditsOnly.order ∧
      creditsOnly.isPlan workName = true ∧
      spareName ∈ spareExcluded.profiles ∧
      creditsOnly.isPlan spareName = true ∧
      (spareExcluded.reading spareName).any (fun r =>
        hasRoom r spareExcluded.now) = true := by
  decide

end AutoSwitch
