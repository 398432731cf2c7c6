import Amplihack.Governor.Policy

/-
  A hold on exhausted profiles, as its readings grow old: a
  stale reading keeps its profile while it is exhausted.
-/

-- Exhausted Windows

namespace Governor

open Base

def Spent (w : WindowBudget) : Prop :=
  (100.0 : Float) ≤ w.usedPct

def windows (b : Budget) : List WindowBudget :=
  b.weekly :: b.session.toList

/- The budget with the windows as they stand at `now`. -/
def rolledBudget (b : Budget) (now : ℤ) : Budget :=
  { b with
    weekly := rolled b.weekly now
    session := b.session.map fun w => rolled w now }

variable {snaps : List ProfileSnapshot}
variable {maxAge : ℕ}
variable {now later : ℤ}
variable {b : Budget}
variable {w : WindowBudget}

theorem exhausted_iff (b : Budget) :
    exhausted b = true ↔ ∃ w ∈ windows b, Spent w := by
  unfold exhausted windows Spent
  cases b.session with
  | none | some _ => simp

theorem mem_budgets :
    b ∈ budgets snaps now maxAge ↔
      ∃ s ∈ snaps, ∃ read, budgetFromSnapshot s = some read ∧
        rolledBudget read now = b ∧
        (staleReading s maxAge now = false ∨ exhausted b = true) := by
  unfold budgets
  rw [List.mem_filterMap]
  apply exists_congr
  intro s
  apply and_congr_right
  intro _
  cases budgetFromSnapshot s with
  | none => simp
  | some read =>
    simp only [Option.bind_eq_bind, Option.bind_some]
    change (if (!staleReading s maxAge now ||
      exhausted (rolledBudget read now)) = true then
        some (rolledBudget read now) else none) = some b ↔ _
    rw [Option.ite_none_right_eq_some, Bool.or_eq_true, Bool.not_eq_true']
    constructor
    · rintro ⟨hKept, hSame⟩
      cases hSame
      exact ⟨read, rfl, rfl, hKept⟩
    · rintro ⟨other, hSame, rfl, hKept⟩
      cases hSame
      exact ⟨hKept, rfl⟩

theorem not_spent_zero (reset : Option ℤ) :
    ¬ Spent { usedPct := 0.0, resetsAt := reset } := by
  have hLess : ¬ (100.0 : Float) ≤ 0.0 := by decide +kernel
  exact hLess

/- Until its reset, an exhausted window stays as it is. -/
theorem rolled_later
    (hSpent : Spent (rolled w now))
    (hReset : ∀ r, (rolled w now).resetsAt = some r →
      ¬ (now < r ∧ r ≤ later)) :
    rolled w later = rolled w now := by
  unfold rolled at *
  cases hAt : w.resetsAt with
  | none => rfl
  | some r =>
    rw [hAt] at hSpent hReset
    dsimp only at hSpent hReset ⊢
    by_cases hPast : r ≤ now
    · rw [if_pos hPast] at hSpent
      exact absurd hSpent (not_spent_zero none)
    · rw [if_neg hPast] at hReset ⊢
      have hAhead := hReset r hAt
      exact if_neg fun hOver =>
        hAhead ⟨not_le.mp hPast, hOver⟩

theorem mem_windows_rolledBudget {read : Budget} :
    w ∈ windows (rolledBudget read now) ↔
      ∃ v ∈ windows read, rolled v now = w := by
  unfold windows rolledBudget
  cases read.session with
  | none | some _ => simp [eq_comm]

theorem exhausted_later
    {read : Budget} (hExhausted : exhausted (rolledBudget read now) = true)
    (hResets : ∀ w ∈ windows (rolledBudget read now), Spent w →
      ∀ r, w.resetsAt = some r → ¬ (now < r ∧ r ≤ later)) :
    exhausted (rolledBudget read later) = true := by
  rw [exhausted_iff] at hExhausted ⊢
  obtain ⟨w, hW, hSpent⟩ := hExhausted
  obtain ⟨v, hV, rfl⟩ := mem_windows_rolledBudget.mp hW
  have hSame := rolled_later hSpent (hResets _ hW hSpent)
  refine ⟨rolled v later, ?_, ?_⟩
  · exact mem_windows_rolledBudget.mpr ⟨v, hV, rfl⟩
  · rw [hSame]
    exact hSpent

theorem staleReading_eq_false_iff
    (s : ProfileSnapshot) (maxAge : ℕ) (now : ℤ) :
    staleReading s maxAge now = false ↔
      (s.fiveHour.isNone && s.sevenDay.isNone) = true ∨
        0 ≤ now - s.observedAt ∧
          now - s.observedAt ≤ i64Max ∧
          now - s.observedAt ≤ orMax maxAge := by
  unfold staleReading
  by_cases hRead : (s.fiveHour.isNone && s.sevenDay.isNone) = true
  · simp [hRead]
  · rw [if_neg hRead]
    unfold checkedSub
    by_cases hRange : i64Min ≤ now - s.observedAt ∧
        now - s.observedAt ≤ i64Max
    · simp only [if_pos hRange, hRead, false_or, Bool.not_eq_false',
        Bool.and_eq_true, decide_eq_true_eq, Bool.false_eq_true]
      exact and_congr_right fun _ =>
        (and_iff_right hRange.2).symm
    · rw [if_neg hRange]
      unfold i64Min at hRange
      simp only [hRead, Bool.true_eq_false, Bool.false_eq_true,
        false_or, false_iff]
      omega

/- A reading is fresh from when it is taken. -/
theorem not_stale_earlier
    {s : ProfileSnapshot} (hObserved : s.observedAt ≤ now)
    (hLater : now ≤ later) (hFresh : staleReading s maxAge later = false) :
    staleReading s maxAge now = false := by
  rw [staleReading_eq_false_iff] at hFresh ⊢
  refine hFresh.imp_right ?_
  omega

-- Decisions That Hold

/- The codes of a hold on used limits. -/
def heldCode (code : ReasonCode) : Bool :=
  code == .weeklyExhausted || code == .sessionExhausted

theorem headroom_exhausted_iff (b : Budget) (reserve : Float) :
    headroom b reserve = .weeklyExhausted ∨
        headroom b reserve = .sessionExhausted ↔
      exhausted b = true := by
  unfold headroom exhausted
  by_cases hWeekly : (100.0 : Float) ≤ b.weekly.usedPct
  · simp [hWeekly]
  · by_cases hSession :
        (b.session.any fun s => (100.0 : Float) ≤ s.usedPct) = true
    · simp [hWeekly, hSession]
    · rw [if_neg hWeekly, if_neg hSession]
      simp only [hWeekly, hSession]
      split <;> simp

section Pool

variable {render : Render}
variable {i : Inputs}
variable {limit : ℕ}
variable {made : DecisionKind → ReasonCode → String → Decision}
variable {pool : List Budget}

/- Nothing is left after the two filters. -/
theorem forall_exhausted_iff (pool : List Budget) :
    (∀ b ∈ pool, exhausted b = true) ↔
      ((pool.filter fun b =>
          headroom b 0.0 != .weeklyExhausted).filter fun b =>
            headroom b 0.0 != .sessionExhausted) = [] := by
  rw [List.filter_filter, List.filter_eq_nil_iff]
  apply forall₂_congr
  intro b _
  rw [← headroom_exhausted_iff b 0.0, Bool.and_eq_true,
    bne_iff_ne, bne_iff_ne, not_and_or, not_not, not_not, or_comm]

theorem held_decidePool
    (hMade : ∀ kind code message,
      (made kind code message).kind = kind ∧
        (made kind code message).reason.code = code)
    (hExhausted : ∀ b ∈ pool, exhausted b = true) :
    (decidePool render i now limit made pool).kind ≠ .allow ∧
      heldCode (decidePool render i now limit made
        pool).reason.code = true := by
  unfold decidePool
  dsimp only
  split
  next =>
    constructor
    · rw [(hMade _ _ _).1]
      split
      · exact DecisionKind.noConfusion
      · exact DecisionKind.noConfusion
    · rw [(hMade _ _ _).2]
      rfl
  next =>
    rw [if_pos (List.isEmpty_iff.mpr
      ((forall_exhausted_iff pool).mp hExhausted))]
    constructor
    · rw [(hMade _ _ _).1]
      exact DecisionKind.noConfusion
    · rw [(hMade _ _ _).2]
      rfl

theorem heldCode_decideRoom
    (hMade : ∀ kind code message, (made kind code message).reason.code = code)
    (chosen : Budget) :
    heldCode (decideRoom i limit made chosen).reason.code =
      false := by
  unfold decideRoom
  dsimp only
  split
  · rw [hMade]
    rfl
  · split
    · rw [hMade]
      rfl
    · rw [hMade]
      rfl

theorem exhausted_of_held_decidePool
    (hMade : ∀ kind code message, (made kind code message).reason.code = code)
    (hHeld : heldCode (decidePool render i now limit made
      pool).reason.code = true) :
    ∀ b ∈ pool, exhausted b = true := by
  rw [forall_exhausted_iff]
  unfold decidePool at hHeld
  dsimp only at hHeld
  split at hHeld
  next hOpen =>
    rw [List.isEmpty_iff.mp hOpen]
    rfl
  next =>
    split at hHeld
    next hSession => exact List.isEmpty_iff.mp hSession
    next =>
      -- Every later step gives another code.
      exfalso
      split at hHeld
      · rw [hMade] at hHeld
        cases hHeld
      · split at hHeld
        · rw [hMade] at hHeld
          cases hHeld
        · rw [heldCode_decideRoom hMade] at hHeld
          cases hHeld

end Pool

/- The budgets that the decision is on. -/
def eligiblePool (i : Inputs) : List Budget :=
  (i.budgets.filter Budget.eligible).mergeSort poolOrder

theorem mem_eligiblePool {i : Inputs} :
    b ∈ eligiblePool i ↔ b ∈ i.budgets ∧ b.eligible = true := by
  unfold eligiblePool
  rw [List.mem_mergeSort, List.mem_filter]

/- A hold is on a pool of which every member is exhausted. -/
theorem exhausted_of_held
    {render : Render} {i : Inputs}
    (hHeld : heldCode (Governor.decide render i now).reason.code = true) :
    eligiblePool i ≠ [] ∧ ∀ b ∈ eligiblePool i, exhausted b = true := by
  unfold Governor.decide at hHeld
  dsimp only at hHeld
  split at hHeld
  next => cases hHeld
  next hPool =>
    split at hHeld
    next => cases hHeld
    next =>
      constructor
      · exact mt List.isEmpty_iff.mpr hPool
      · exact exhausted_of_held_decidePool (fun _ _ _ => rfl) hHeld

theorem held_of_exhausted
    {i : Inputs} (render : Render) (now : ℤ)
    (hOutside : i.request.insideRecipe = false) (hPool : eligiblePool i ≠ [])
    (hExhausted : ∀ b ∈ eligiblePool i, exhausted b = true) :
    (Governor.decide render i now).kind ≠ .allow ∧
      heldCode (Governor.decide render i now).reason.code =
        true := by
  unfold eligiblePool at hPool hExhausted
  unfold Governor.decide
  dsimp only
  rw [if_neg (mt List.isEmpty_iff.mp hPool), hOutside,
    if_neg Bool.false_ne_true]
  exact held_decidePool (fun _ _ _ => ⟨rfl, rfl⟩) hExhausted

-- The Hold Outlives Its Readings

/-
  While no exhausted window resets, a hold on exhausted
  profiles stays a hold, however old the readings become and
  whatever else the later decision is given.
-/
theorem hold_outlives_readings
    (render : Render) (i j : Inputs)
    (snaps : List ProfileSnapshot) (maxAge : ℕ) (now later : ℤ)
    (hObserved : ∀ s ∈ snaps, s.observedAt ≤ now)
    (hBudgets : i.budgets = budgets snaps now maxAge)
    (hHeld : heldCode (Governor.decide render i now).reason.code = true)
    (hLater : now ≤ later)
    (hResets : ∀ b ∈ i.budgets, ∀ w ∈ windows b, Spent w →
      ∀ r, w.resetsAt = some r → ¬ (now < r ∧ r ≤ later))
    (hSame : j.budgets = budgets snaps later maxAge)
    (hOutside : j.request.insideRecipe = false) :
    (Governor.decide render j later).kind ≠ .allow ∧
      heldCode (Governor.decide render j later).reason.code =
        true := by
  have hHold := exhausted_of_held hHeld
  have hStay : ∀ s ∈ snaps, ∀ read,
      budgetFromSnapshot s = some read →
        rolledBudget read now ∈ eligiblePool i →
          exhausted (rolledBudget read later) = true := by
    intro s hS read hRead hIn
    exact exhausted_later (hHold.2 _ hIn)
      (hResets _ (mem_eligiblePool.mp hIn).1)
  refine held_of_exhausted render later hOutside ?_ ?_
  · obtain ⟨b, hB⟩ := List.exists_mem_of_ne_nil _ hHold.1
    have hIn := mem_eligiblePool.mp hB
    have hFrom := hIn.1
    rw [hBudgets, mem_budgets] at hFrom
    obtain ⟨s, hS, read, hRead, rfl, -⟩ := hFrom
    apply List.ne_nil_of_mem (a := rolledBudget read later)
    rw [mem_eligiblePool, hSame, mem_budgets]
    exact ⟨⟨s, hS, read, hRead, rfl,
      Or.inr (hStay s hS read hRead hB)⟩, hIn.2⟩
  · intro b hB
    have hIn := mem_eligiblePool.mp hB
    have hFrom := hIn.1
    rw [hSame, mem_budgets] at hFrom
    obtain ⟨s, hS, read, hRead, rfl, hFresh | hGone⟩ := hFrom
    · -- Fresh later, so fresh before, and part of the hold.
      apply hStay s hS read hRead
      rw [mem_eligiblePool, hBudgets, mem_budgets]
      exact ⟨⟨s, hS, read, hRead, rfl,
        Or.inl (not_stale_earlier (hObserved s hS) hLater hFresh)⟩, hIn.2⟩
    · exact hGone

/- A profile that has used its week; the reset is at 1100000. -/
def usedUp : ProfileSnapshot where
  name := "work"
  active := true
  eligible := true
  fiveHour := none
  sevenDay := some (100.0, 1100000)
  observedAt := 1000000
  noSessionWindow := true

/- A start that looks at the reading at `now`. -/
def startAt (now : ℤ) : Inputs where
  budgets := budgets [usedUp] now 3600
  signal := .steady
  limit := 2
  lastEvaluatedAt := none
  slots := []
  queue := []
  admissions := []
  settings :=
    { maxConcurrency := 2
      reservePoints := 10
      step := 1
      bandPct := 10
      evalIntervalSecs := 60
      maxReadingAgeSecs := 3600
      concurrency_range := Settings.two_in_range }
  request :=
    { class_ := .ordinary
      workstream := "main"
      start := .agent
      parent := none
      seq := none
      deadline := 1000100 }

def heldRender : Render where
  utc := fun _ => "later"
  points := fun _ => "some"

theorem held_startAt :
    heldCode (Governor.decide heldRender (startAt 1000000)
      1000000).reason.code = true := by
  have hRead :
      ((budgets [usedUp] 1000000 3600).any Budget.eligible &&
        (budgets [usedUp] 1000000 3600).all exhausted) =
          true := by decide +kernel
  rw [Bool.and_eq_true, List.any_eq_true, List.all_eq_true] at hRead
  obtain ⟨⟨b, hB, hEligible⟩, hAll⟩ := hRead
  refine (held_of_exhausted heldRender 1000000 rfl ?_ ?_).2
  · exact List.ne_nil_of_mem (mem_eligiblePool.mpr ⟨hB, hEligible⟩)
  · intro c hC
    exact hAll c (mem_eligiblePool.mp hC).1

/- Half a day later, the reading is stale and still holds. -/
theorem hold_outlives_readings_of_usedUp :
    (Governor.decide heldRender (startAt 1043200) 1043200).kind ≠ .allow ∧
      heldCode (Governor.decide heldRender (startAt 1043200)
        1043200).reason.code = true := by
  have hAhead :
      ((budgets [usedUp] 1000000 3600).all fun b =>
        (windows b).all fun w =>
          w.resetsAt == some 1100000) = true := by decide +kernel
  refine hold_outlives_readings heldRender (startAt 1000000)
    (startAt 1043200) [usedUp] 3600 1000000 1043200 ?_ rfl
    held_startAt (by decide) ?_ rfl rfl
  · intro s hS
    rw [List.mem_singleton.mp hS]
    exact le_refl _
  · intro b hB w hW _ r hAt hPast
    have hSame := List.all_eq_true.mp (List.all_eq_true.mp hAhead b hB) w hW
    rw [hAt, beq_iff_eq, Option.some.injEq] at hSame
    omega

end Governor
