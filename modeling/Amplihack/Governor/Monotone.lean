import Mathlib.Tactic.Linarith
import Mathlib.Tactic.NormNum
import Amplihack.Governor.Exact

/-
  Less use, fewer slots and requests, higher limits and a
  better class or place never stop a start that is let in.
-/

-- Requests That Are Ahead

namespace Governor

variable {i j : Inputs}

/- Without a ticket, any smaller key is ahead. -/
theorem ahead_iff_exists
    (hSeqs : (i.queue.map QueueEntry.seq).Nodup)
    (hTicketless : i.request.seq = none) :
    ahead i = true ↔ ∃ e ∈ i.queue,
      orderKey e i.admissions < keyFor i.request.class_
        i.request.workstream Base.u64Max i.admissions := by
  have hBehind (e : QueueEntry) : behind i e = true ↔
      orderKey e i.admissions < keyFor i.request.class_
        i.request.workstream Base.u64Max i.admissions := by
    unfold behind
    rw [hTicketless]
    exact decide_eq_true_iff
  rw [ahead_eq hSeqs]
  constructor
  · intro hAny
    cases hHead : headEntry i.queue i.admissions with
    | none =>
      rw [hHead] at hAny
      cases hAny
    | some e =>
      rw [hHead, Option.any_some, hBehind] at hAny
      exact ⟨e, headEntry_mem hHead, hAny⟩
  · rintro ⟨e, hE, hLess⟩
    have hFirst : ∃ first, headEntry i.queue i.admissions = some first :=
      headEntry_isSome hE
    obtain ⟨first, hHead⟩ := hFirst
    rw [hHead, Option.any_some, hBehind]
    exact (orderKey_headEntry_le hHead hE).trans_lt hLess

theorem Class.protected_of_rank_le
    {c d : Class} (hRank : d.rank ≤ c.rank)
    (hProtected : c.protected_ = true) :
    d.protected_ = true := by
  cases d with
  | ordinary =>
    cases c with
    | ordinary => exact hProtected
    | coordination | recovery | review => exact absurd hRank (by decide)
  | coordination | recovery | review => rfl

theorem keyFor_mono
    {c d : Class} (hRank : d.rank ≤ c.rank) (workstream : String) (seq : ℕ)
    (admissions : List Admission) :
    keyFor d workstream seq admissions ≤
      keyFor c workstream seq admissions := by
  rw [keyFor_le_iff]
  rcases hRank.lt_or_eq with hLess | hSame
  · exact Or.inl hLess
  · exact Or.inr ⟨hSame, Or.inr ⟨rfl, le_refl _⟩⟩

theorem clampNat_mono
    {a b low high top : ℕ} (hValue : a ≤ b) (hHigh : high ≤ top) :
    clampNat a low high ≤ clampNat b low top := by
  unfold clampNat
  omega

theorem forall₂_exists_of_mem
    {α β : Type} {R : α → β → Prop} {l : List α} {m : List β}
    {a : α} (hAll : List.Forall₂ R l m) (hIn : a ∈ l) :
    ∃ b ∈ m, R a b := by
  induction hAll with
  | nil => cases hIn
  | cons hHead _ ih =>
    rcases List.mem_cons.mp hIn with rfl | hRest
    · exact ⟨_, List.mem_cons_self, hHead⟩
    · obtain ⟨b, hB, hR⟩ := ih hRest
      exact ⟨b, List.mem_cons_of_mem _ hB, hR⟩

namespace Exact

-- Inputs That Ease A Start

structure Lowered (v w : WindowBudget) : Prop where
  usedPct : w.usedPct ≤ v.usedPct
  resetsAt : w.resetsAt = v.resetsAt

structure LessUsed (b c : Budget) : Prop where
  name : c.name = b.name
  active : c.active = b.active
  eligible : c.eligible = b.eligible
  session : Option.Rel Lowered b.session c.session
  weekly : Lowered b.weekly c.weekly

/- `j` is `i` with any of the changes, at the time `now`. -/
structure Eased (now : ℤ) (i j : Inputs) : Prop where
  budgets : List.Forall₂ LessUsed i.budgets j.budgets
  slots : j.others.slots.Sublist i.others.slots
  limits :
    j.others.limit = i.others.limit ∧
        j.others.settings.maxConcurrency = i.others.settings.maxConcurrency ∨
      evaluationDue i.others now = false ∧
        i.others.limit ≤ j.others.limit ∧
        i.others.settings.maxConcurrency ≤ j.others.settings.maxConcurrency
  reserve : j.others.settings.reservePoints ≤ i.others.settings.reservePoints
  queue : j.others.queue.Sublist i.others.queue
  class_ : j.others.request.class_.rank ≤ i.others.request.class_.rank
  parent : j.others.request.parent = i.others.request.parent ∨
    i.others.request.parent = none
  admissions : j.others.admissions = i.others.admissions
  signal : j.others.signal = i.others.signal
  lastEvaluatedAt : j.others.lastEvaluatedAt = i.others.lastEvaluatedAt
  step : j.others.settings.step = i.others.settings.step
  evalIntervalSecs : j.others.settings.evalIntervalSecs =
    i.others.settings.evalIntervalSecs
  workstream : j.others.request.workstream = i.others.request.workstream
  seq : j.others.request.seq = i.others.request.seq

variable {i j : Inputs}
variable {now : ℤ}
variable {b c : Budget}
variable {p q : ℚ}

theorem LessUsed.hasRoom
    (hLess : LessUsed b c) (hReserve : q ≤ p) (hRoom : HasRoom p b) :
    HasRoom q c := by
  constructor
  case eligible =>
    rw [hLess.eligible]
    exact hRoom.eligible
  case weekly =>
    exact hLess.weekly.usedPct.trans_lt hRoom.weekly
  case session =>
    intro s hS
    have hRel := hLess.session
    have hBelow := hRoom.session
    rw [hS] at hRel
    cases hOld : b.session with
    | none =>
      rw [hOld] at hRel
      cases hRel
    | some old =>
      rw [hOld] at hRel hBelow
      cases hRel with
      | some hLowered => exact hLowered.usedPct.trans_lt (hBelow old rfl)
  case points =>
    refine (hReserve.trans_lt hRoom.points).trans_le ?_
    exact max_le_max_left 0 (min_le_min_left 100
      (sub_le_sub_left hLess.weekly.usedPct 100))

theorem Eased.reserveFor_le (hEased : Eased now i j) :
    reserveFor j ≤ reserveFor i := by
  have hClass := hEased.class_
  have hPoints : (j.others.settings.reservePoints : ℚ) ≤
      i.others.settings.reservePoints := Nat.cast_le.mpr hEased.reserve
  unfold reserveFor
  cases hOld : i.others.request.class_.protected_ with
  | true =>
    rw [Class.protected_of_rank_le hClass hOld, if_pos rfl, if_pos rfl]
  | false =>
    rw [if_neg Bool.false_ne_true]
    split
    · exact Nat.cast_nonneg _
    · exact hPoints

theorem Eased.limitFor_le (hEased : Eased now i j) :
    limitFor i.others now ≤ limitFor j.others now := by
  have hDue : evaluationDue j.others now = evaluationDue i.others now := by
    unfold evaluationDue
    rw [hEased.lastEvaluatedAt, hEased.evalIntervalSecs]
  unfold limitFor
  dsimp only
  rw [hDue, hEased.signal, hEased.step]
  rcases hEased.limits with ⟨hLimit, hMax⟩ | ⟨hNot, hLimit, hMax⟩
  · rw [hLimit, hMax]
  · rw [hNot, if_neg Bool.false_ne_true, if_neg Bool.false_ne_true]
    exact clampNat_mono hLimit (max_le_max_right 1 hMax)

theorem Eased.hasTurn
    (hEased : Eased now i j)
    (hSeqs : (i.others.queue.map QueueEntry.seq).Nodup)
    (hTicketless : i.others.request.seq = none) (hTurn : HasTurn i now) :
    HasTurn j now := by
  constructor
  case place =>
    have hSlots := hEased.slots.length_le
    have hLimit := hEased.limitFor_le
    have hPlace := hTurn.place
    omega
  case first =>
    have hFewer : (j.others.queue.map QueueEntry.seq).Nodup :=
      hSeqs.sublist (hEased.queue.map _)
    have hNone : j.others.request.seq = none := by
      rw [hEased.seq, hTicketless]
    have hFirst := hTurn.first
    rw [← Bool.not_eq_true] at hFirst ⊢
    rw [ahead_iff_exists hSeqs hTicketless] at hFirst
    rw [ahead_iff_exists hFewer hNone]
    rintro ⟨e, hE, hLess⟩
    refine hFirst ⟨e, hEased.queue.subset hE, ?_⟩
    rw [hEased.admissions, hEased.workstream] at hLess
    exact hLess.trans_le (keyFor_mono hEased.class_ _ _ _)

theorem mayStart_of_eased
    (hEased : Eased now i j)
    (hSeqs : (i.others.queue.map QueueEntry.seq).Nodup)
    (hTicketless : i.others.request.seq = none) (hMay : MayStart i now) :
    MayStart j now := by
  have hNested (hNow : i.others.request.nested = true) :
      j.others.request.parent = i.others.request.parent := by
    rcases hEased.parent with hSame | hNone
    · exact hSame
    · unfold Request.nested at hNow
      rw [hNone] at hNow
      cases hNow
  rcases hMay with hInside | ⟨⟨b, hB, hRoom⟩, hTurn⟩
  · left
    have hParent := eq_of_beq hInside
    have hSame := hNested (by
      unfold Request.nested
      rw [hParent]
      rfl)
    unfold Request.insideRecipe
    rw [hSame, hParent]
    rfl
  · right
    constructor
    · obtain ⟨c, hC, hLess⟩ :=
        forall₂_exists_of_mem hEased.budgets hB
      exact ⟨c, hC, hLess.hasRoom hEased.reserveFor_le hRoom⟩
    · rcases hTurn with hNow | hTurn
      · left
        have hSame := hNested hNow
        unfold Request.nested at hNow ⊢
        rw [hSame]
        exact hNow
      · exact Or.inr (hEased.hasTurn hSeqs hTicketless hTurn)

theorem any_eligible_of_eased
    (hEased : Eased now i j)
    (hEligible : i.budgets.any Budget.eligible = true) :
    j.budgets.any Budget.eligible = true := by
  rw [List.any_eq_true] at hEligible ⊢
  obtain ⟨b, hB, hIs⟩ := hEligible
  obtain ⟨c, hC, hLess⟩ :=
    forall₂_exists_of_mem hEased.budgets hB
  rw [← hLess.eligible] at hIs
  exact ⟨c, hC, hIs⟩

/-
  With a reading and different tickets in the queue, a start
  that is let in stays let in when its inputs are eased.
-/
theorem allow_of_eased
    (render : Render) (now : ℤ) (i j : Inputs) (hEased : Eased now i j)
    (hEligible : i.budgets.any Budget.eligible = true)
    (hTicketless : i.others.request.seq = none)
    (hSeqs : (i.others.queue.map QueueEntry.seq).Nodup)
    (hAllow : (decide render i now).kind = .allow) :
    (decide render j now).kind = .allow := by
  have hMore := any_eligible_of_eased hEased hEligible
  rw [decide_allow_iff render now hEligible] at hAllow
  rw [decide_allow_iff render now hMore]
  exact mayStart_of_eased hEased hSeqs hTicketless hAllow

-- Tickets That Occur Twice

def ticketOne (class_ : Class) : QueueEntry where
  seq := 1
  workstream := "main"
  class_ := class_
  pid := 1
  startTime := none
  enqueuedAt := 1000000

/- A review request, with one profile and the given queue. -/
def reviewStart (used : ℚ) (queue : List QueueEntry) :
    Inputs where
  budgets :=
    [{ name := "work"
       active := true
       eligible := true
       session := none
       weekly :=
         { usedPct := used
           resetsAt := some 1100000 } }]
  others :=
    { budgets := []
      signal := .steady
      limit := 2
      lastEvaluatedAt := some 1000000
      slots := []
      queue := queue
      admissions := []
      settings :=
        { maxConcurrency := 2
          reservePoints := 10
          step := 1
          bandPct := 10
          evalIntervalSecs := 60
          maxReadingAgeSecs := 3600
          concurrency_range := Settings.two_in_range }
      request :=
        { class_ := .review
          workstream := "main"
          start := .agent
          parent := none
          seq := none
          deadline := 1000100 } }

def plainRender : Render where
  utc := fun _ => "later"
  points := fun _ => "some"

theorem mayStart_reviewStart
    {used : ℚ} {queue : List QueueEntry} (hUsed : used ≤ 50)
    (hFirst : ahead (reviewStart used queue).others = false) :
    MayStart (reviewStart used queue) 1000000 := by
  refine Or.inr ⟨⟨_, List.mem_cons_self, ?_⟩, Or.inr ⟨?_, hFirst⟩⟩
  · have hLeft : (0 : ℚ) < min 100 (100 - used) :=
      lt_min (by norm_num) (by linarith)
    exact
      { eligible := rfl
        weekly := by
          have hBelow : used < 100 := by linarith
          exact hBelow
        session := by
          intro s hS
          cases hS
        points := lt_max_of_lt_right hLeft }
  · have hLimit : limitFor (reviewStart used queue).others 1000000 = 2 :=
      rfl
    have hHeld : min (reviewStart used queue).others.slots.length
        Base.u32Max = 0 := rfl
    rw [hLimit, hHeld]
    exact Nat.two_pos

theorem eased_reviewStart
    {used less : ℚ} {queue fewer : List QueueEntry}
    (hLess : less ≤ used) (hFewer : fewer.Sublist queue) :
    Eased 1000000 (reviewStart used queue)
      (reviewStart less fewer) where
  budgets := List.Forall₂.cons
    { name := rfl
      active := rfl
      eligible := rfl
      session := Option.Rel.none
      weekly := ⟨hLess, rfl⟩ } List.Forall₂.nil
  slots := List.Sublist.refl _
  limits := Or.inl ⟨rfl, rfl⟩
  reserve := le_refl _
  queue := hFewer
  class_ := le_refl _
  parent := Or.inl rfl
  admissions := rfl
  signal := rfl
  lastEvaluatedAt := rfl
  step := rfl
  evalIntervalSecs := rfl
  workstream := rfl
  seq := rfl

theorem allow_of_less_use :
    (decide plainRender (reviewStart 20 []) 1000000).kind =
      .allow :=
  allow_of_eased plainRender 1000000
    (reviewStart 40 [ticketOne .ordinary]) (reviewStart 20 [])
    (eased_reviewStart (by norm_num) (List.nil_sublist _))
    rfl rfl (by decide)
    ((decide_allow_iff plainRender 1000000 rfl).mpr
      (mayStart_reviewStart (by norm_num) (by decide)))

/-
  Two entries with ticket 1: the second is the head, and the
  first is found under the head's ticket. Without the first,
  the head is ahead of the request.
-/
theorem not_allow_of_eased :
    ¬ ∀ (render : Render) (now : ℤ) (i j : Inputs),
      Eased now i j →
        i.budgets.any Budget.eligible = true →
          i.others.request.seq = none →
            (decide render i now).kind = .allow →
              (decide render j now).kind = .allow := by
  intro hAll
  have hAllow := hAll plainRender 1000000
    (reviewStart 20 [ticketOne .ordinary, ticketOne .coordination])
    (reviewStart 20 [ticketOne .coordination])
    (eased_reviewStart (le_refl _) (List.sublist_cons_self _ _))
    rfl rfl
    ((decide_allow_iff plainRender 1000000 rfl).mpr
      (mayStart_reviewStart (by norm_num) (by decide)))
  rw [decide_allow_iff plainRender 1000000 rfl] at hAllow
  rcases hAllow with hInside | ⟨-, hNested | hTurn⟩
  · cases hInside
  · cases hNested
  · have hAhead : ahead (reviewStart 20
        [ticketOne .coordination]).others = true := by
      decide
    have hFirst := hTurn.first
    rw [hAhead] at hFirst
    cases hFirst

end Exact

end Governor
