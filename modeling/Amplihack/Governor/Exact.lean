import Mathlib.Algebra.Order.Ring.Rat
import Amplihack.Base.FirstBy
import Amplihack.Governor.Policy

/-
  The order in which budgets, slots, queue entries and
  admissions are listed does not change a decision.

  The decision on percentages that are exact rationals, and
  what it comes to: a profile with room, a place below the
  limit, and no request ahead.
-/

-- The Pool

namespace Governor

open Base

/- The active profile is below every other. -/
def poolKey (b : Budget) : Bool ×ₗ String :=
  toLex (!b.active, b.name)

theorem poolOrder_iff (a b : Budget) :
    poolOrder a b = true ↔ poolKey a ≤ poolKey b := by
  unfold poolOrder poolKey
  rw [Prod.Lex.toLex_le_toLex]
  cases a.active <;> cases b.active <;> simp

theorem eligiblePool_eq_of_perm
    {l m : List Budget} (hPerm : l.Perm m)
    (hNames : (l.map Budget.name).Nodup) :
    (l.filter Budget.eligible).mergeSort poolOrder =
      (m.filter Budget.eligible).mergeSort poolOrder := by
  apply mergeSort_eq_of_perm poolOrder_iff
  · intro a hA b hB hKey
    have hName : a.name = b.name :=
      congrArg (fun k => (ofLex k).2) hKey
    exact List.inj_on_of_nodup_map hNames
      (List.mem_filter.mp hA).1 (List.mem_filter.mp hB).1 hName
  · exact hPerm.filter _

-- The Head Of The Queue

variable {entries queue : List QueueEntry}
variable {admissions others : List Admission}
variable {e : QueueEntry}

/- With different tickets, the head's is the head's own. -/
theorem find?_headEntry
    (hSeqs : (entries.map QueueEntry.seq).Nodup)
    (hHead : headEntry entries admissions = some e) :
    (entries.find? fun f => f.seq == e.seq) = some e := by
  have hMem := headEntry_mem hHead
  cases hFind : entries.find? fun f => f.seq == e.seq with
  | none =>
    rw [List.find?_eq_none] at hFind
    exact absurd BEq.rfl (hFind e hMem)
  | some f =>
    have hSame : f.seq = e.seq := by simpa using List.find?_some hFind
    rw [List.inj_on_of_nodup_map hSeqs
      (List.mem_of_find?_eq_some hFind) hMem hSame]

/- Whether the request is behind the head of the queue. -/
def behind (i : Inputs) (first : QueueEntry) : Bool :=
  match i.request.seq with
  | some seq => seq != first.seq
  | none =>
    orderKey first i.admissions <
      keyFor i.request.class_ i.request.workstream u64Max i.admissions

theorem ahead_eq
    {i : Inputs} (hSeqs : (i.queue.map QueueEntry.seq).Nodup) :
    ahead i = (headEntry i.queue i.admissions).any (behind i) := by
  unfold ahead head behind
  cases hHead : headEntry i.queue i.admissions with
  | none => rfl
  | some e =>
    rw [Option.map_some, Option.any_some]
    dsimp only
    rw [find?_headEntry hSeqs hHead]
    rfl

theorem keyFor_eq_of_perm
    (hPerm : admissions.Perm others) (class_ : Class)
    (workstream : String) (seq : ℕ) :
    keyFor class_ workstream seq admissions =
      keyFor class_ workstream seq others := by
  unfold keyFor admissionsTo
  rw [hPerm.countP_eq]

theorem headEntry_eq_of_perm
    (hQueue : entries.Perm queue) (hSeqs : (entries.map QueueEntry.seq).Nodup)
    (hAdmissions : admissions.Perm others) :
    headEntry entries admissions = headEntry queue others := by
  have hKeys : (fun e => orderKey e admissions) =
      fun e => orderKey e others :=
    funext fun e => keyFor_eq_of_perm hAdmissions _ _ _
  unfold headEntry
  rw [hKeys]
  apply argmin_congr_of_injOn
  · intro d hD f hF hKey
    have hSeq : d.seq = f.seq :=
      congrArg (fun k => (ofLex (ofLex k).2).2) hKey
    exact List.inj_on_of_nodup_map hSeqs hD hF hSeq
  · exact fun _ => hQueue.mem_iff

-- Inputs Listed In Another Order

/- The same names and tickets, once each, in other orders. -/
structure Relisted (i j : Inputs) : Prop where
  budgets : i.budgets.Perm j.budgets
  slots : i.slots.Perm j.slots
  queue : i.queue.Perm j.queue
  admissions : i.admissions.Perm j.admissions
  names : (i.budgets.map Budget.name).Nodup
  seqs : (i.queue.map QueueEntry.seq).Nodup
  rest : j =
    { i with
      budgets := j.budgets
      slots := j.slots
      queue := j.queue
      admissions := j.admissions }

variable {i j : Inputs}

theorem Relisted.ahead_eq (hRelisted : Relisted i j) :
    ahead i = ahead j := by
  have hSeqs : (j.queue.map QueueEntry.seq).Nodup :=
    (hRelisted.queue.map _).nodup_iff.mp hRelisted.seqs
  have hRequest : j.request = i.request := by rw [hRelisted.rest]
  have hBehind : behind i = behind j := by
    funext first
    unfold behind orderKey
    rw [hRequest, keyFor_eq_of_perm hRelisted.admissions,
      keyFor_eq_of_perm hRelisted.admissions]
  rw [Governor.ahead_eq hRelisted.seqs, Governor.ahead_eq hSeqs, hBehind,
    headEntry_eq_of_perm hRelisted.queue hRelisted.seqs hRelisted.admissions]

/-
  A decision reads the sorted pool, the number of slots and
  the head of the queue; none knows the order of a list.
-/
theorem decide_eq_of_relisted
    (render : Render) (now : ℤ) (hRelisted : Relisted i j) :
    decide render i now = decide render j now := by
  have hAhead := hRelisted.ahead_eq
  have hPool := eligiblePool_eq_of_perm hRelisted.budgets hRelisted.names
  have hSlots := hRelisted.slots.length_eq
  have hRest := hRelisted.rest
  have hSettings : j.settings = i.settings := by rw [hRest]
  have hRequest : j.request = i.request := by rw [hRest]
  have hDue : evaluationDue j now = evaluationDue i now := by
    rw [hRest]
    rfl
  have hLimit : limitFor j now = limitFor i now := by
    rw [hRest]
    rfl
  unfold decide decidePool decideRoom
  rw [hPool, hAhead, hSlots, hSettings, hRequest, hDue, hLimit]

def barelyUsed (name : String) (active : Bool) : Budget where
  name := name
  active := active
  eligible := true
  session := none
  weekly := { usedPct := 10.0, resetsAt := some 1100000 }

def waiting (seq : ℕ) : QueueEntry where
  seq := seq
  workstream := "main"
  class_ := .ordinary
  pid := seq
  startTime := none
  enqueuedAt := 1000000

/- Two profiles and two waiting requests, as they are listed. -/
def listed
    (budgets : List Budget) (queue : List QueueEntry) :
    Inputs where
  budgets := budgets
  signal := .steady
  limit := 2
  lastEvaluatedAt := none
  slots := []
  queue := queue
  admissions := []
  settings :=
    { maxConcurrency := 2
      reservePoints := 10
      step := 1
      bandPct := 10
      evalIntervalSecs := 60
      maxReadingAgeSecs := 3600
      concurrency_range := Settings.two_in_range }
  request :=
    { class_ := .ordinary
      workstream := "main"
      start := .agent
      parent := none
      seq := some 2
      deadline := 1000100 }

theorem decide_eq_of_listed_backwards :
    Governor.decide ⟨fun _ => "later", fun _ => "some"⟩
        (listed [barelyUsed "spare" false, barelyUsed "work" true]
          [waiting 2, waiting 1]) 1000000 =
      Governor.decide ⟨fun _ => "later", fun _ => "some"⟩
        (listed [barelyUsed "work" true, barelyUsed "spare" false]
          [waiting 1, waiting 2]) 1000000 :=
  decide_eq_of_relisted _ _
    { budgets := List.Perm.swap _ _ _
      slots := List.Perm.refl _
      queue := List.Perm.swap _ _ _
      admissions := List.Perm.refl _
      names := by decide
      seqs := by decide
      rest := rfl }

end Governor

-- Budgets In Exact Points

namespace Governor

namespace Exact

structure WindowBudget where
  usedPct : ℚ
  resetsAt : Option ℤ

structure Budget where
  name : String
  active : Bool
  eligible : Bool
  session : Option WindowBudget
  weekly : WindowBudget

/- The budgets; the rest is as before, less its own budgets. -/
structure Inputs where
  budgets : List Budget
  others : Governor.Inputs

structure Render where
  utc : ℤ → String
  points : ℚ → String

def remaining (w : WindowBudget) : ℚ :=
  max 0 (min 100 (100 - w.usedPct))

def usablePoints (b : Budget) : ℚ :=
  match b.session with
  | some s => min (remaining b.weekly) (remaining s)
  | none => remaining b.weekly

def weeklyRemaining (b : Budget) : ℚ :=
  remaining b.weekly

def headroom (b : Budget) (reservePoints : ℚ) : Headroom :=
  if 100 ≤ b.weekly.usedPct then .weeklyExhausted
  else if b.session.any fun s => 100 ≤ s.usedPct then
    .sessionExhausted
  else if weeklyRemaining b ≤ reservePoints then .inReserve
  else .room

-- The Decision

def poolOrder (a b : Budget) : Bool :=
  if a.active == b.active then a.name ≤ b.name else a.active

def roomiest (room : List Budget) : Option Budget :=
  room.foldl
    (fun best b =>
      match best with
      | none => some b
      | some c =>
        if usablePoints c < usablePoints b ∨
            usablePoints c = usablePoints b ∧ b.name ≤ c.name then some b
        else some c)
    none

def showReset (render : Render) (reset : Option ℤ) : String :=
  match reset with
  | some t => render.utc t
  | none => "an unknown time"

/- Steps 5 to 7. -/
def decideRoom
    (i : Inputs) (limit : ℕ)
    (made : DecisionKind → ReasonCode → String → Decision) (chosen : Budget) :
    Decision :=
  let held := min i.others.slots.length Base.u32Max
  if limit ≤ held then
    made .wait .concurrency s!"{held} of {limit} slots are in use"
  else if ahead i.others then
    made .wait .queue "an earlier request is first in the fair queue"
  else
    let message := if chosen.active then
        "profile " ++ chosen.name ++ " has room"
      else
        "profile " ++ chosen.name ++ " has room; the rotator " ++
          "moves work there from the active profile"
    { made .allow .room message with announce := !chosen.active }

def reserveFor (i : Inputs) : ℚ :=
  if i.others.request.class_.protected_ then 0
  else i.others.settings.reservePoints

/- Steps 2 to 7, on a pool with a reading. -/
def decidePool
    (render : Render) (i : Inputs) (now : ℤ) (limit : ℕ)
    (made : DecisionKind → ReasonCode → String → Decision)
    (pool : List Budget) :
    Decision :=
  let open_ := pool.filter fun b =>
    headroom b 0 != .weeklyExhausted
  if open_.isEmpty then
    let reset := earliest <| pool.map fun b =>
      b.weekly.resetsAt.filter fun r => now < r
    let fits := reset.any (· ≤ i.others.request.deadline) &&
      now < i.others.request.deadline
    let message :=
      "every eligible profile has used its weekly limit; " ++
        "the next weekly reset is at " ++ showReset render reset
    { made (if fits then .wait else .deny) .weeklyExhausted
        message with
      retryAfter := reset }
  else
    let withSession := open_.filter fun b =>
      headroom b 0 != .sessionExhausted
    if withSession.isEmpty then
      let reset := earliest <| open_.map fun b =>
        b.session.bind WindowBudget.resetsAt
      let message :=
        "every eligible profile has used its session limit; " ++
          "the next session reset is at " ++
          showReset render reset
      { made .wait .sessionExhausted message with
        retryAfter := reset }
    else
      let room := withSession.filter fun b =>
        headroom b (reserveFor i) == .room
      match (room.find? Budget.active).or (roomiest room) with
      | none =>
        let best := withSession.foldl
          (fun best b => max best (weeklyRemaining b)) 0
        made .wait .reserve <|
          "ordinary work is held: the best weekly remainder " ++
            "is " ++ render.points best ++ " points, at or " ++
            "below the " ++
            toString i.others.settings.reservePoints ++
            " point reserve"
      | some chosen =>
        if i.others.request.nested then
          made .allow .nested <|
            i.others.request.start.asStr ++
              " start admitted under the session's slot; " ++
              "profile " ++ chosen.name ++ " has room"
        else
          decideRoom i limit made chosen

def decide (render : Render) (i : Inputs) (now : ℤ) :
    Decision :=
  let evaluated := evaluationDue i.others now
  let limit := limitFor i.others now
  let made := fun kind code message =>
    { kind := kind
      reason := { code := code, message := message }
      limitAfter := limit
      evaluated := evaluated
      retryAfter := none
      announce := false : Decision }
  let pool := (i.budgets.filter Budget.eligible).mergeSort
    poolOrder
  if pool.isEmpty then
    made .allow .noReadings <|
      "no usage reading for any eligible profile; " ++
        "admitted without a budget check"
  else if i.others.request.insideRecipe then
    made .allow .nested "admitted under the slot of the running recipe"
  else
    decidePool render i now limit made pool

-- What It Takes To Start

/- A profile with points above the reserve. -/
structure HasRoom (reserve : ℚ) (b : Budget) : Prop where
  eligible : b.eligible = true
  weekly : b.weekly.usedPct < 100
  session : ∀ s ∈ b.session, s.usedPct < 100
  points : reserve < weeklyRemaining b

/- A place below the limit, with no request ahead. -/
structure HasTurn (i : Inputs) (now : ℤ) : Prop where
  place : min i.others.slots.length Base.u32Max < limitFor i.others now
  first : ahead i.others = false

/- What a start needs when there are readings. -/
def MayStart (i : Inputs) (now : ℤ) : Prop :=
  i.others.request.insideRecipe = true ∨
    (∃ b ∈ i.budgets, HasRoom (reserveFor i) b) ∧
      (i.others.request.nested = true ∨ HasTurn i now)

variable {render : Render}
variable {i : Inputs}
variable {now : ℤ}
variable {limit : ℕ}
variable {made : DecisionKind → ReasonCode → String → Decision}
variable {pool : List Budget}
variable {b : Budget}

theorem any_spent_iff (session : Option WindowBudget) :
    (session.any fun s => 100 ≤ s.usedPct) = true ↔
      ¬ ∀ s ∈ session, s.usedPct < 100 := by
  cases session with
  | none | some _ => simp

theorem headroom_eq_room_iff (b : Budget) (reserve : ℚ) :
    headroom b reserve = .room ↔
      b.weekly.usedPct < 100 ∧
        (∀ s ∈ b.session, s.usedPct < 100) ∧ reserve < weeklyRemaining b := by
  unfold headroom
  by_cases hWeekly : 100 ≤ b.weekly.usedPct
  · rw [if_pos hWeekly]
    refine iff_of_false Headroom.noConfusion ?_
    rintro ⟨hBelow, -⟩
    exact absurd hWeekly (not_le.mpr hBelow)
  rw [if_neg hWeekly, and_iff_right (not_le.mp hWeekly)]
  by_cases hSession : ∀ s ∈ b.session, s.usedPct < 100
  · rw [if_neg ((any_spent_iff b.session).not_left.mpr hSession),
      and_iff_right hSession]
    split
    next hReserve =>
      exact iff_of_false Headroom.noConfusion (not_lt.mpr hReserve)
    next hPoints => exact iff_of_true rfl (not_le.mp hPoints)
  · rw [if_pos ((any_spent_iff b.session).mpr hSession)]
    refine iff_of_false Headroom.noConfusion ?_
    exact fun hBelow => hSession hBelow.1

theorem headroom_exhausted_congr (b : Budget) (p q : ℚ) :
    (headroom b p = .weeklyExhausted ↔
        headroom b q = .weeklyExhausted) ∧
      (headroom b p = .sessionExhausted ↔
        headroom b q = .sessionExhausted) := by
  unfold headroom
  split
  · exact ⟨Iff.rfl, Iff.rfl⟩
  · split
    · exact ⟨Iff.rfl, Iff.rfl⟩
    · constructor
      · refine iff_of_false ?_ ?_
        all_goals split <;> exact Headroom.noConfusion
      · refine iff_of_false ?_ ?_
        all_goals split <;> exact Headroom.noConfusion

/- What has room passes the filters before. -/
theorem mem_room_iff (reserve : ℚ) :
    b ∈ ((pool.filter fun b =>
        headroom b 0 != .weeklyExhausted).filter fun b =>
          headroom b 0 != .sessionExhausted).filter (fun b =>
            headroom b reserve == .room) ↔
      b ∈ pool ∧ headroom b reserve = .room := by
  rw [List.mem_filter, List.mem_filter, List.mem_filter,
    bne_iff_ne, bne_iff_ne, beq_iff_eq, and_assoc, and_assoc]
  apply and_congr_right
  intro _
  have hSame := headroom_exhausted_congr b 0 reserve
  constructor
  · exact fun hAll => hAll.2.2
  · intro hRoom
    refine ⟨?_, ?_, hRoom⟩
    · rw [ne_eq, hSame.1, hRoom]
      exact Headroom.noConfusion
    · rw [ne_eq, hSame.2, hRoom]
      exact Headroom.noConfusion

theorem isSome_roomiest (room : List Budget) :
    (roomiest room).isSome = !room.isEmpty := by
  have hFold : ∀ (rest : List Budget) (best : Option Budget),
      (rest.foldl (fun best b =>
        match best with
        | none => some b
        | some c =>
          if usablePoints c < usablePoints b ∨
              usablePoints c = usablePoints b ∧ b.name ≤ c.name then some b
          else some c) best).isSome =
        (best.isSome || !rest.isEmpty) := by
    intro rest
    induction rest with
    | nil => simp
    | cons b rest ih =>
      intro best
      rw [List.foldl_cons, ih]
      cases best with
      | none => rfl
      | some c =>
        dsimp only
        split
        · rfl
        · rfl
  exact hFold room none

theorem decideRoom_allow_iff
    (hMade : ∀ kind code message, (made kind code message).kind = kind)
    (chosen : Budget) :
    (decideRoom i limit made chosen).kind = .allow ↔
      min i.others.slots.length Base.u32Max < limit ∧
        ahead i.others = false := by
  unfold decideRoom
  dsimp only
  by_cases hFull : limit ≤ min i.others.slots.length Base.u32Max
  · rw [if_pos hFull, hMade]
    refine iff_of_false DecisionKind.noConfusion ?_
    exact fun hPlace => absurd hFull (not_le.mpr hPlace.1)
  rw [if_neg hFull, and_iff_right (not_le.mp hFull)]
  cases hAhead : ahead i.others with
  | true =>
    rw [if_pos rfl, hMade]
    exact iff_of_false DecisionKind.noConfusion Bool.true_eq_false.mp
  | false =>
    rw [if_neg Bool.false_ne_true, hMade]
    exact iff_of_true rfl rfl

theorem chosen_eq_none_iff (room : List Budget) :
    (room.find? Budget.active).or (roomiest room) = none ↔ room = [] := by
  rw [Option.or_eq_none_iff, ← Option.isNone_iff_eq_none,
    ← Option.isNone_iff_eq_none, ← Option.not_isSome,
    ← Option.not_isSome, isSome_roomiest]
  cases room with
  | nil | cons _ _ => simp

/- A pool lets a start in through room, and then a turn. -/
theorem decidePool_allow_iff
    (hMade : ∀ kind code message, (made kind code message).kind = kind) :
    (decidePool render i now limit made pool).kind = .allow ↔
      (∃ b ∈ pool, headroom b (reserveFor i) = .room) ∧
        (i.others.request.nested = true ∨
          min i.others.slots.length Base.u32Max < limit ∧
            ahead i.others = false) := by
  have hRoom : (∃ b ∈ pool, headroom b (reserveFor i) = .room) ↔
      ((pool.filter fun b =>
        headroom b 0 != .weeklyExhausted).filter fun b =>
          headroom b 0 != .sessionExhausted).filter (fun b =>
            headroom b (reserveFor i) == .room) ≠ [] := by
    constructor
    · rintro ⟨b, hB⟩
      exact List.ne_nil_of_mem ((mem_room_iff _).mpr hB)
    · intro hSome
      obtain ⟨b, hB⟩ := List.exists_mem_of_ne_nil _ hSome
      exact ⟨b, (mem_room_iff _).mp hB⟩
  rw [hRoom]
  unfold decidePool
  dsimp only
  by_cases hOpen : (pool.filter fun b =>
      headroom b 0 != .weeklyExhausted) = []
  · rw [hOpen, if_pos List.isEmpty_nil]
    refine iff_of_false ?_ (fun hBoth => hBoth.1 rfl)
    rw [hMade]
    split
    · exact DecisionKind.noConfusion
    · exact DecisionKind.noConfusion
  rw [if_neg (mt List.isEmpty_iff.mp hOpen)]
  by_cases hSession : ((pool.filter fun b =>
      headroom b 0 != .weeklyExhausted).filter fun b =>
        headroom b 0 != .sessionExhausted) = []
  · rw [hSession, if_pos List.isEmpty_nil]
    refine iff_of_false ?_ (fun hBoth => hBoth.1 rfl)
    rw [hMade]
    exact DecisionKind.noConfusion
  rw [if_neg (mt List.isEmpty_iff.mp hSession)]
  split
  next hNone =>
    refine iff_of_false ?_ ?_
    · rw [hMade]
      exact DecisionKind.noConfusion
    · exact fun hBoth =>
        hBoth.1 ((chosen_eq_none_iff _).mp hNone)
  next chosen hChosen =>
    rw [and_iff_right]
    · cases hNested : i.others.request.nested with
      | true =>
        rw [if_pos rfl, hMade]
        exact iff_of_true rfl (Or.inl rfl)
      | false =>
        rw [if_neg Bool.false_ne_true, decideRoom_allow_iff hMade]
        simp
    · intro hEmpty
      rw [(chosen_eq_none_iff _).mpr hEmpty] at hChosen
      cases hChosen

theorem exists_hasRoom_iff (i : Inputs) (reserve : ℚ) :
    (∃ b ∈ i.budgets, HasRoom reserve b) ↔
      ∃ b ∈ (i.budgets.filter Budget.eligible).mergeSort poolOrder,
        headroom b reserve = .room := by
  apply exists_congr
  intro b
  rw [List.mem_mergeSort, List.mem_filter, and_assoc, headroom_eq_room_iff]
  apply and_congr_right
  intro _
  constructor
  · exact fun hRoom => ⟨hRoom.eligible, hRoom.weekly,
      hRoom.session, hRoom.points⟩
  · exact fun hAll => ⟨hAll.1, hAll.2.1, hAll.2.2.1, hAll.2.2.2⟩

/- With a reading, a start is let in exactly if it may. -/
theorem decide_allow_iff
    (render : Render) (now : ℤ)
    (hEligible : i.budgets.any Budget.eligible = true) :
    (decide render i now).kind = .allow ↔ MayStart i now := by
  have hPool : ¬ ((i.budgets.filter Budget.eligible).mergeSort
      poolOrder).isEmpty = true := by
    rw [List.any_eq_true] at hEligible
    obtain ⟨b, hB, hIs⟩ := hEligible
    rw [List.isEmpty_iff]
    apply List.ne_nil_of_mem (a := b)
    rw [List.mem_mergeSort]
    exact List.mem_filter.mpr ⟨hB, hIs⟩
  unfold decide MayStart
  dsimp only
  rw [if_neg hPool]
  cases hInside : i.others.request.insideRecipe with
  | true =>
    rw [if_pos rfl]
    exact iff_of_true rfl (Or.inl rfl)
  | false =>
    rw [if_neg Bool.false_ne_true, decidePool_allow_iff (fun _ _ _ => rfl),
      ← exists_hasRoom_iff, or_iff_right Bool.false_ne_true]
    apply and_congr_right
    intro _
    apply or_congr Iff.rfl
    exact ⟨fun hBoth => ⟨hBoth.1, hBoth.2⟩,
      fun hTurn => ⟨hTurn.place, hTurn.first⟩⟩

end Exact

end Governor
