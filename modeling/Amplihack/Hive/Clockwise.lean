import Mathlib.Data.Prod.Lex
import Amplihack.Base.FirstBy
import Amplihack.Hive.HashRing

/-
  What a lookup on the ring finds: the agents in the order in
  which they are met clockwise from the position of the key.
-/

-- The Agents Met Clockwise

namespace Hive

open Base

namespace HashRing

variable {hashKey : String → ℕ}
variable {present agents : List String}
variable {r : HashRing}

/- The positions of the agents, each with its agent. -/
def placed (hashKey : String → ℕ) (present : List String) :
    List (ℕ × String) :=
  present.flatMap fun a =>
    (vnodePositions hashKey a).dedup.map fun pos => (pos, a)

/- Positions above `from_` come first; `from_` is the last. -/
def metKey (from_ : ℕ) (e : ℕ × String) : Bool ×ₗ ℕ :=
  toLex (decide (e.1 ≤ from_), e.1)

def clockwise (from_ : ℕ) (entries : List (ℕ × String)) :
    List (ℕ × String) :=
  entries.mergeSort fun d e =>
    decide (metKey from_ d ≤ metKey from_ e)

/- Every agent, where it is met first. -/
def preference
    (hashKey : String → ℕ) (key : String) (present : List String) :
    List String :=
  unseen id [] ((clockwise (hashKey key)
    (placed hashKey present)).map Prod.snd)

theorem mem_placed {pos : ℕ} {a : String} :
    (pos, a) ∈ placed hashKey present ↔
      a ∈ present ∧ pos ∈ vnodePositions hashKey a := by
  unfold placed
  rw [List.mem_flatMap]
  constructor
  · rintro ⟨b, hB, hMap⟩
    obtain ⟨q, hQ, hSame⟩ := List.mem_map.mp hMap
    cases hSame
    exact ⟨hB, List.mem_dedup.mp hQ⟩
  · rintro ⟨hA, hPos⟩
    exact ⟨a, hA, List.mem_map_of_mem (List.mem_dedup.mpr hPos)⟩

theorem nodup_placed (hNodup : present.Nodup) :
    (placed hashKey present).Nodup := by
  unfold placed
  rw [List.nodup_flatMap]
  constructor
  · intro a _
    apply List.Nodup.map
    · intro p q hSame
      exact (Prod.mk.inj hSame).1
    · exact List.nodup_dedup _
  · refine hNodup.imp ?_
    intro a b hOther e hA hB
    obtain ⟨p, -, rfl⟩ := List.mem_map.mp hA
    obtain ⟨q, -, hSame⟩ := List.mem_map.mp hB
    exact hOther (Prod.mk.inj hSame).2.symm

/- A position is that of one agent. -/
theorem eq_of_metKey
    {from_ : ℕ} (hApart : Apart hashKey present) :
    ∀ d ∈ placed hashKey present, ∀ e ∈ placed hashKey present,
      metKey from_ d = metKey from_ e → d = e := by
  rintro ⟨p, a⟩ hD ⟨q, b⟩ hE hSame
  have hPos : p = q := (Prod.mk.inj (toLex_inj.mp hSame)).2
  subst hPos
  rw [mem_placed] at hD hE
  by_cases hAgent : a = b
  · rw [hAgent]
  · exact absurd hE.2 (hApart a hD.1 b hE.1 hAgent p hD.2)

theorem metKey_le (from_ : ℕ) (d e : ℕ × String) :
    decide (metKey from_ d ≤ metKey from_ e) = true ↔
      metKey from_ d ≤ metKey from_ e :=
  decide_eq_true_iff

theorem placed_filter (p : String → Bool) :
    placed hashKey (present.filter p) =
      (placed hashKey present).filter fun e => p e.2 := by
  unfold placed
  induction present with
  | nil => rfl
  | cons a present ih =>
    rw [List.flatMap_cons, List.filter_append, ← ih]
    by_cases hP : p a = true
    · have hFront : ((vnodePositions hashKey a).dedup.map
          fun pos => (pos, a)).filter (fun e => p e.2) =
            (vnodePositions hashKey a).dedup.map fun pos => (pos, a) := by
        rw [List.filter_eq_self]
        intro e hE
        obtain ⟨pos, -, rfl⟩ := List.mem_map.mp hE
        exact hP
      rw [List.filter_cons_of_pos hP, List.flatMap_cons, hFront]
    · have hFront : ((vnodePositions hashKey a).dedup.map
          fun pos => (pos, a)).filter (fun e => p e.2) = [] := by
        rw [List.filter_eq_nil_iff]
        intro e hE
        obtain ⟨pos, -, rfl⟩ := List.mem_map.mp hE
        exact hP
      rw [List.filter_cons_of_neg hP, hFront, List.nil_append]

/- Agents that leave change nothing for the others. -/
theorem preference_filter
    (hApart : Apart hashKey present) (key : String) (p : String → Bool) :
    preference hashKey key (present.filter p) =
      (preference hashKey key present).filter p := by
  unfold preference clockwise
  rw [placed_filter, filter_mergeSort (metKey_le (hashKey key))
    (eq_of_metKey hApart)]
  have hMap := List.filter_map (f := Prod.snd) (p := p)
    (l := clockwise (hashKey key) (placed hashKey present))
  have hUnseen (l : List String) :
      unseen id [] (l.filter p) = (unseen id [] l).filter p :=
    unseen_filter (fun _ _ hSame => congrArg p hSame) (fun _ _ => Iff.rfl) l
  exact (congrArg (unseen id []) hMap.symm).trans (hUnseen _)

/- Every agent is met once. -/
theorem perm_preference
    (hNodup : present.Nodup) (key : String) :
    (preference hashKey key present).Perm present := by
  have hOnce : (preference hashKey key present).Nodup := by
    have hMarks := nodup_marks_unseen id []
      ((clockwise (hashKey key) (placed hashKey present)).map Prod.snd)
    rw [List.map_id] at hMarks
    exact hMarks
  rw [List.perm_ext_iff_of_nodup hOnce hNodup]
  intro a
  have hMet : a ∈ preference hashKey key present ↔
      a ∈ (clockwise (hashKey key)
        (placed hashKey present)).map Prod.snd := by
    have hMarks : a ∈ (preference hashKey key present).map id ↔
        a ∈ ((clockwise (hashKey key)
          (placed hashKey present)).map Prod.snd).map id :=
      mem_marks_unseen_nil
    rw [List.map_id, List.map_id] at hMarks
    exact hMarks
  rw [hMet, List.mem_map]
  unfold clockwise
  constructor
  · rintro ⟨⟨pos, b⟩, hIn, rfl⟩
    exact (mem_placed.mp (List.mem_mergeSort.mp hIn)).1
  · intro hA
    refine ⟨(hashKey (a ++ ":vnode:" ++ toString 0), a), ?_, rfl⟩
    rw [List.mem_mergeSort, mem_placed]
    refine ⟨hA, List.mem_map.mpr ⟨0, ?_, rfl⟩⟩
    exact List.mem_range.mpr (by decide)

-- The Walk Of A Lookup

theorem strict_ring (hInStep : InStep hashKey present r) :
    r.ring.Pairwise (· < ·) := by
  rw [hInStep.ring]
  have hLe : ∀ p q : ℕ, decide (p ≤ q) = true ↔ p ≤ q :=
    fun _ _ => decide_eq_true_iff
  have hSorted := pairwise_mergeSort hLe r.ringToAgent.keys
  have hNodup : (r.ringToAgent.keys.mergeSort (· ≤ ·)).Nodup :=
    (List.mergeSort_perm _ _).nodup_iff.mpr r.ringToAgent.nodupKeys
  exact (hSorted.and hNodup).imp fun hBoth =>
    lt_of_le_of_ne hBoth.1 hBoth.2

theorem mem_ring (hInStep : InStep hashKey present r) {pos : ℕ} :
    pos ∈ r.ring ↔ ∃ a, r.ringToAgent.get? pos = some a := by
  rw [hInStep.ring, List.mem_mergeSort, ← not_iff_not,
    ← Dict.get?_eq_none_iff, ← Option.isSome_iff_exists, Bool.not_eq_true,
    Option.isSome_eq_false_iff, Option.isNone_iff_eq_none]

variable {xs : List ℕ}

theorem countP_of_idxOf
    {x i : ℕ} (hStrict : xs.Pairwise (· < ·)) (hAt : xs.idxOf? x = some i) :
    i + 1 = xs.countP (· ≤ x) := by
  induction xs generalizing i with
  | nil => cases hAt
  | cons y ys ih =>
    rw [List.pairwise_cons] at hStrict
    rw [List.idxOf?_cons] at hAt
    split at hAt
    next hSelf =>
      cases hAt
      rw [beq_iff_eq] at hSelf
      have hNone : ys.countP (· ≤ x) = 0 := by
        rw [List.countP_eq_zero]
        intro z hZ
        have hLess := hStrict.1 z hZ
        rw [decide_eq_true_iff]
        omega
      rw [List.countP_cons_of_pos (by simp [hSelf]), hNone]
    next =>
      obtain ⟨j, hJ, rfl⟩ := Option.map_eq_some_iff.mp hAt
      have hIn : x ∈ ys := by
        by_contra hOut
        rw [List.idxOf?_eq_none_iff.mpr hOut] at hJ
        cases hJ
      have hLess := hStrict.1 x hIn
      rw [List.countP_cons_of_pos (by simpa using hLess.le), ih hStrict.2 hJ]

/- The search ends behind all positions up to the key's. -/
theorem search_eq_countP
    (hStrict : xs.Pairwise (· < ·)) (x : ℕ) :
    (match binarySearch xs x with
      | .ok i => i + 1
      | .error i => i) = xs.countP (· ≤ x) := by
  unfold binarySearch
  cases hAt : xs.idxOf? x with
  | some i => exact countP_of_idxOf hStrict hAt
  | none =>
    have hOut : x ∉ xs := List.idxOf?_eq_none_iff.mp hAt
    apply List.countP_congr
    intro y hY
    have hOther : y ≠ x := by
      rintro rfl
      exact hOut hY
    simp only [decide_eq_true_eq]
    omega

variable {n : ℕ}

theorem collect_eq
    (r : HashRing) (idx : ℕ) (offsets : List ℕ)
    {seen : List String} (hFew : seen.length < n) :
    collect r n idx offsets seen =
      seen ++ (unseen id seen (offsets.filterMap fun offset =>
        (r.ring[(idx + offset) % r.ring.length]?).bind
          r.ringToAgent.get?)).take (n - seen.length) := by
  induction offsets generalizing seen with
  | nil =>
    unfold collect
    simp [unseen]
  | cons offset offsets ih =>
    unfold collect
    rw [List.filterMap_cons]
    cases (r.ring[(idx + offset) % r.ring.length]?).bind
        r.ringToAgent.get? with
    | none => exact ih hFew
    | some agent =>
      dsimp only
      by_cases hSeen : agent ∈ seen
      · rw [if_pos (List.contains_iff_mem.mpr hSeen),
          ih hFew, unseen_cons_of_mem (x := agent) hSeen]
      · rw [if_neg (mt List.contains_iff_mem.mp hSeen),
          unseen_cons_of_not_mem (x := agent) hSeen]
        have hSame : ∀ l, unseen id (id agent :: seen) l =
            unseen id (seen ++ [agent]) l := by
          intro l
          apply unseen_congr
          intro k
          rw [List.mem_cons, List.mem_append, List.mem_singleton, or_comm]
          rfl
        by_cases hLast : n ≤ seen.length + 1
        · have hOne : n - seen.length = 1 := by omega
          rw [if_pos hLast, hOne]
          rfl
        · have hMore : (seen ++ [agent]).length < n := by
            rw [List.length_append, List.length_singleton]
            omega
          have hNext : n - seen.length =
              (n - (seen ++ [agent]).length) + 1 := by
            rw [List.length_append, List.length_singleton]
            omega
          rw [if_neg hLast, ih hMore, hNext, hSame,
            List.take_succ_cons, List.append_assoc]
          rfl

/- From where the search ends, the ring once around. -/
theorem rotate_ring
    (hStrict : xs.Pairwise (· < ·)) (x : ℕ) :
    xs.rotate (xs.countP (· ≤ x)) =
      xs.filter (x < ·) ++ xs.filter (· ≤ x) := by
  rw [List.rotate_eq_drop_append_take List.countP_le_length,
    drop_of_strict hStrict, take_of_strict hStrict]

theorem map_offsets (xs : List ℕ) (idx : ℕ) :
    (List.range xs.length).map
        (fun offset => xs[(idx + offset) % xs.length]?) =
      (xs.rotate idx).map some := by
  apply List.ext_getElem
  · rw [List.length_map, List.length_map, List.length_range,
      List.length_rotate]
  · intro offset hLeft hRight
    rw [List.length_map, List.length_range] at hLeft
    have hBound : (idx + offset) % xs.length < xs.length :=
      Nat.mod_lt _ (Nat.zero_lt_of_lt hLeft)
    rw [List.getElem_map, List.getElem_map, List.getElem_range,
      List.getElem_rotate, List.getElem?_eq_getElem hBound]
    simp only [Nat.add_comm]

/- The entries of the ring, from above `from_` around. -/
def walk (from_ : ℕ) (r : HashRing) : List (ℕ × String) :=
  (r.ring.filter (from_ < ·) ++ r.ring.filter (· ≤ from_)).filterMap
    fun pos => (r.ringToAgent.get? pos).map fun a => (pos, a)

theorem strict_walk
    (hInStep : InStep hashKey present r) (from_ : ℕ) :
    (walk from_ r).Pairwise fun d e =>
      metKey from_ d < metKey from_ e := by
  have hStrict := strict_ring hInStep
  have hRing : (r.ring.filter (from_ < ·) ++
      r.ring.filter (· ≤ from_)).Pairwise fun p q =>
        ∀ a b, metKey from_ (p, a) < metKey from_ (q, b) := by
    rw [List.pairwise_append]
    refine ⟨?_, ?_, ?_⟩
    · refine (hStrict.filter _).imp_of_mem ?_
      intro p q hP hQ hLess a b
      have hLow := of_decide_eq_true (List.mem_filter.mp hP).2
      have hHigh := of_decide_eq_true (List.mem_filter.mp hQ).2
      unfold metKey
      rw [decide_eq_false (not_le.mpr hLow),
        decide_eq_false (not_le.mpr hHigh)]
      exact Prod.Lex.toLex_lt_toLex.mpr (Or.inr ⟨rfl, hLess⟩)
    · refine (hStrict.filter _).imp_of_mem ?_
      intro p q hP hQ hLess a b
      have hLow := of_decide_eq_true (List.mem_filter.mp hP).2
      have hHigh := of_decide_eq_true (List.mem_filter.mp hQ).2
      unfold metKey
      rw [decide_eq_true hLow, decide_eq_true hHigh]
      exact Prod.Lex.toLex_lt_toLex.mpr (Or.inr ⟨rfl, hLess⟩)
    · intro p hP q hQ a b
      have hAbove := of_decide_eq_true (List.mem_filter.mp hP).2
      have hUpTo := of_decide_eq_true (List.mem_filter.mp hQ).2
      unfold metKey
      rw [decide_eq_false (not_le.mpr hAbove), decide_eq_true hUpTo]
      exact Prod.Lex.toLex_lt_toLex.mpr (Or.inl Bool.false_lt_true)
  unfold walk
  rw [List.pairwise_filterMap]
  refine hRing.imp ?_
  intro p q hLess d hD e hE
  obtain ⟨a, -, rfl⟩ := Option.map_eq_some_iff.mp hD
  obtain ⟨b, -, rfl⟩ := Option.map_eq_some_iff.mp hE
  exact hLess a b

theorem mem_walk
    (hInStep : InStep hashKey present r) (from_ : ℕ) (e : ℕ × String) :
    e ∈ walk from_ r ↔ e ∈ placed hashKey present := by
  rcases e with ⟨pos, a⟩
  rw [mem_placed, ← hInStep.owners]
  unfold walk
  rw [List.mem_filterMap]
  constructor
  · rintro ⟨q, -, hMap⟩
    obtain ⟨b, hGet, hSame⟩ := Option.map_eq_some_iff.mp hMap
    cases hSame
    exact hGet
  · intro hGet
    refine ⟨pos, ?_, by rw [hGet]; rfl⟩
    have hIn := (mem_ring hInStep).mpr ⟨a, hGet⟩
    rw [List.mem_append, List.mem_filter, List.mem_filter,
      decide_eq_true_iff, decide_eq_true_iff]
    rcases lt_or_ge from_ pos with hAbove | hUpTo
    · exact Or.inl ⟨hIn, hAbove⟩
    · exact Or.inr ⟨hIn, hUpTo⟩

/- The walk meets the entries in clockwise order. -/
theorem walk_eq_clockwise
    (hInStep : InStep hashKey present r)
    (hApart : Apart hashKey present) (from_ : ℕ) :
    walk from_ r = clockwise from_ (placed hashKey present) := by
  have hStrict := strict_walk hInStep from_
  have hNodup : (walk from_ r).Nodup :=
    hStrict.imp fun {d e} hLess hSame => by
      rw [hSame] at hLess
      exact lt_irrefl _ hLess
  have hPerm : (walk from_ r).Perm (placed hashKey present) := by
    rw [List.perm_ext_iff_of_nodup hNodup (nodup_placed hInStep.nodup)]
    exact mem_walk hInStep from_
  unfold clockwise
  apply List.Perm.eq_of_pairwise _
    (hStrict.imp fun hLess => hLess.le)
    (pairwise_mergeSort (metKey_le from_) _)
  · exact hPerm.trans (List.mergeSort_perm _ _).symm
  · intro d e hD hE hLeft hRight
    exact eq_of_metKey hApart d (hPerm.mem_iff.mp hD) e
      (List.mem_mergeSort.mp hE) (le_antisymm hLeft hRight)

theorem map_walk
    (r : HashRing) (hStrict : r.ring.Pairwise (· < ·)) (from_ : ℕ) :
    (List.range r.ring.length).filterMap (fun offset =>
        (r.ring[(r.ring.countP (· ≤ from_) + offset) %
          r.ring.length]?).bind r.ringToAgent.get?) =
      (walk from_ r).map Prod.snd := by
  have hSteps := map_offsets r.ring (r.ring.countP (· ≤ from_))
  rw [rotate_ring hStrict] at hSteps
  have hOffsets := congrArg (fun steps =>
    steps.filterMap fun step : Option ℕ =>
      step.bind r.ringToAgent.get?) hSteps
  rw [List.filterMap_map, List.filterMap_map] at hOffsets
  unfold walk
  rw [List.map_filterMap]
  refine hOffsets.trans ?_
  apply List.filterMap_congr
  intro pos _
  dsimp only [Function.comp]
  rw [Option.bind_some, Option.map_map]
  cases r.ringToAgent.get? pos <;> rfl

/- A lookup takes the first agents that are met. -/
theorem getAgents_eq_take
    (hInStep : InStep hashKey present r)
    (hApart : Apart hashKey present) (key : String) (hN : 1 ≤ n) :
    r.getAgents hashKey key (some n) =
      (preference hashKey key present).take n := by
  have hStrict := strict_ring hInStep
  have hWalk := walk_eq_clockwise hInStep hApart (hashKey key)
  unfold preference
  rw [← hWalk]
  unfold getAgents
  dsimp only [Option.getD_some]
  by_cases hEmpty : r.ring.isEmpty = true
  · have hNil := List.isEmpty_iff.mp hEmpty
    unfold walk
    rw [if_pos hEmpty, hNil]
    exact List.take_nil.symm
  · have hSearch := search_eq_countP hStrict (hashKey key)
    have hCollect := collect_eq r
      (r.ring.countP (· ≤ hashKey key))
      (List.range r.ring.length)
      (show ([] : List String).length < n from hN)
    rw [map_walk r hStrict] at hCollect
    rw [if_neg hEmpty]
    exact (congrArg (fun idx => collect r n idx
      (List.range r.ring.length) []) hSearch).trans hCollect

-- Agents That Come And Go

theorem agentCount_eq (hInStep : InStep hashKey present r) :
    r.agentCount = present.length := by
  have hKeys : r.agentPositions.keys.Nodup := r.agentPositions.nodupKeys
  have hPerm : r.agentPositions.keys.Perm present := by
    rw [List.perm_ext_iff_of_nodup hKeys hInStep.nodup]
    intro a
    rw [← isSome_iff_mem hInStep, ← not_iff_not, ← Dict.get?_eq_none_iff,
      Bool.not_eq_true, Option.isSome_eq_false_iff, Option.isNone_iff_eq_none]
  have hLength := hPerm.length_eq
  unfold Dict.keys at hLength
  rw [List.length_map] at hLength
  exact hLength

theorem length_getAgents
    (hInStep : InStep hashKey present r)
    (hApart : Apart hashKey present) (key : String) (hN : 1 ≤ n) :
    (r.getAgents hashKey key (some n)).length = min n r.agentCount := by
  rw [getAgents_eq_take hInStep hApart key hN, List.length_take,
    agentCount_eq hInStep, (perm_preference hInStep.nodup key).length_eq]

/- All agents, in the order in which a key prefers them. -/
def fullPreference
    (hashKey : String → ℕ) (r : HashRing) (key : String) :
    List String :=
  r.getAgents hashKey key (some r.agentCount)

theorem fullPreference_eq
    (hInStep : InStep hashKey present r)
    (hApart : Apart hashKey present) (key : String) :
    fullPreference hashKey r key = preference hashKey key present := by
  unfold fullPreference
  have hPerm : (preference hashKey key present).Perm present :=
    perm_preference hInStep.nodup key
  have hLength := hPerm.length_eq
  by_cases hNone : r.agentCount = 0
  · rw [agentCount_eq hInStep, List.length_eq_zero_iff] at hNone
    have hRing : r.ring = [] := by
      rw [List.eq_nil_iff_forall_not_mem]
      intro pos hIn
      obtain ⟨a, hGet⟩ := (mem_ring hInStep).mp hIn
      have hA := ((hInStep.owners pos a).mp hGet).1
      rw [hNone] at hA
      exact List.not_mem_nil hA
    rw [hNone, List.length_nil, List.length_eq_zero_iff]
      at hLength
    unfold getAgents
    rw [hRing, hNone, hLength]
    rfl
  · rw [getAgents_eq_take hInStep hApart key
      (Nat.one_le_iff_ne_zero.mpr hNone), agentCount_eq hInStep,
      ← hLength, List.take_length]

variable {l : List String} {p : String → Bool}

/- What is filtered keeps its place or comes earlier. -/
theorem mem_take_filter
    {b : String} (hIn : b ∈ l.take n) (hP : p b = true) :
    b ∈ (l.filter p).take n := by
  induction l generalizing n with
  | nil => simp at hIn
  | cons c l ih =>
    cases n with
    | zero => simp at hIn
    | succ n =>
      rw [List.take_succ_cons, List.mem_cons] at hIn
      by_cases hC : p c = true
      · rw [List.filter_cons_of_pos hC, List.take_succ_cons, List.mem_cons]
        exact hIn.imp_right ih
      · rw [List.filter_cons_of_neg hC]
        rcases hIn with rfl | hRest
        · exact absurd hP hC
        · exact List.take_subset_take_left _ (Nat.le_succ n) (ih hRest)

/- The same values, whatever the order of the entries. -/
structure SameMaps (r s : HashRing) : Prop where
  ring : r.ring = s.ring
  owners : ∀ pos, r.ringToAgent.get? pos = s.ringToAgent.get? pos
  positions : ∀ a, r.agentPositions.get? a = s.agentPositions.get? a
  replicationFactor : r.replicationFactor = s.replicationFactor

variable {s : HashRing}

theorem SameMaps.collect_eq
    (hSame : SameMaps r s) (n idx : ℕ) (offsets : List ℕ)
    (seen : List String) :
    collect r n idx offsets seen = collect s n idx offsets seen := by
  have hGet : r.ringToAgent.get? = s.ringToAgent.get? := funext hSame.owners
  induction offsets generalizing seen with
  | nil =>
    unfold collect
    rfl
  | cons offset offsets ih =>
    unfold collect
    rw [hSame.ring, hGet]
    simp only [ih]

theorem SameMaps.getAgents_eq
    (hSame : SameMaps r s) (key : String) (n : Option ℕ) :
    r.getAgents hashKey key n = s.getAgents hashKey key n := by
  unfold getAgents
  dsimp only
  rw [hSame.ring, hSame.replicationFactor, hSame.collect_eq]

/- With the same agents, two rings are the same maps. -/
theorem InStep.same
    (hLeft : InStep hashKey present r) (hRight : InStep hashKey present s)
    (hFactor : r.replicationFactor = s.replicationFactor) :
    SameMaps r s := by
  have hOwners : ∀ pos, r.ringToAgent.get? pos = s.ringToAgent.get? pos := by
    intro pos
    apply Option.ext
    intro a
    exact (hLeft.owners pos a).trans (hRight.owners pos a).symm
  have hOnce {t : HashRing} (hInStep : InStep hashKey present t) :
      t.ring.Nodup :=
    (strict_ring hInStep).imp fun hLess => hLess.ne
  refine ⟨?_, hOwners, ?_, hFactor⟩
  · apply List.Perm.eq_of_pairwise _ (strict_ring hLeft) (strict_ring hRight)
    · rw [List.perm_ext_iff_of_nodup (hOnce hLeft) (hOnce hRight)]
      intro pos
      rw [mem_ring hLeft, mem_ring hRight, hOwners]
    · intro p q _ _ hLess hMore
      exact absurd hLess hMore.asymm
  · intro a
    rw [hLeft.positions, hRight.positions]

theorem replicationFactor_addAgent (r : HashRing) (a : String) :
    (r.addAgent hashKey a).replicationFactor =
      r.replicationFactor := by
  unfold addAgent
  split
  · rfl
  · rfl

theorem replicationFactor_removeAgent
    (r : HashRing) (a : String) :
    (r.removeAgent a).replicationFactor =
      r.replicationFactor := by
  unfold removeAgent
  split
  · rfl
  · rfl

theorem take_filter_of_all
    (hAll : ∀ b ∈ l.take n, p b = true) :
    (l.filter p).take n = l.take n := by
  induction l generalizing n with
  | nil => rfl
  | cons c l ih =>
    cases n with
    | zero => simp
    | succ n =>
      rw [List.take_succ_cons, List.forall_mem_cons] at hAll
      rw [List.filter_cons_of_pos hAll.1, List.take_succ_cons,
        List.take_succ_cons, ih hAll.2]

/- Every lookup meets the agents that are there, clockwise. -/
structure Consistent
    (hashKey : String → ℕ) (present : List String) (r : HashRing) :
    Prop where
  sorted : r.ring.Pairwise (· < ·)
  positions : ∀ pos, pos ∈ r.ring ↔
    ∃ a ∈ present, pos ∈ vnodePositions hashKey a
  lookup : ∀ key n, 1 ≤ n →
    r.getAgents hashKey key (some n) = (preference hashKey key present).take n
  length : ∀ key n, 1 ≤ n →
    (r.getAgents hashKey key (some n)).length = min n r.agentCount
  agents : ∀ key, (fullPreference hashKey r key).Perm present

/- `after` is `before` with `a`; no key moves but to `a`. -/
structure MovesOnlyTo
    (hashKey : String → ℕ) (a : String) (before after : HashRing) :
    Prop where
  preference : ∀ key, fullPreference hashKey before key =
    (fullPreference hashKey after key).filter (· != a)
  owners : ∀ key n, 1 ≤ n →
    ∀ b ∈ after.getAgents hashKey key (some n),
      b = a ∨ b ∈ before.getAgents hashKey key (some n)
  unmoved : ∀ key n, 1 ≤ n →
    a ∉ after.getAgents hashKey key (some n) →
      before.getAgents hashKey key (some n) =
        after.getAgents hashKey key (some n)

theorem InStep.consistent
    (hInStep : InStep hashKey present r) (hApart : Apart hashKey present) :
    Consistent hashKey present r where
  sorted := strict_ring hInStep
  positions := by
    intro pos
    rw [mem_ring hInStep]
    exact exists_congr fun a => hInStep.owners pos a
  lookup := fun key n hN =>
    getAgents_eq_take hInStep hApart key hN
  length := fun key n hN =>
    length_getAgents hInStep hApart key hN
  agents := by
    intro key
    rw [fullPreference_eq hInStep hApart]
    exact perm_preference hInStep.nodup key

variable {a : String}

theorem InStep.movesOnlyTo
    (hBefore : InStep hashKey (present.filter (· != a)) r)
    (hAfter : InStep hashKey present s) (hApart : Apart hashKey present) :
    MovesOnlyTo hashKey a r s := by
  have hFewer : Apart hashKey (present.filter (· != a)) :=
    hApart.subset fun _ hB => (List.mem_filter.mp hB).1
  constructor
  case preference =>
    intro key
    rw [fullPreference_eq hBefore hFewer, fullPreference_eq hAfter hApart,
      preference_filter hApart]
  case owners =>
    intro key n hN b hB
    rw [getAgents_eq_take hAfter hApart key hN] at hB
    rw [getAgents_eq_take hBefore hFewer key hN, preference_filter hApart]
    by_cases hSelf : b = a
    · exact Or.inl hSelf
    · exact Or.inr (mem_take_filter hB (bne_iff_ne.mpr hSelf))
  case unmoved =>
    intro key n hN hOut
    rw [getAgents_eq_take hAfter hApart key hN] at hOut ⊢
    rw [getAgents_eq_take hBefore hFewer key hN, preference_filter hApart]
    apply take_filter_of_all
    intro b hB
    rw [bne_iff_ne]
    rintro rfl
    exact hOut hB

theorem after_add_of_not_mem
    (hOut : a ∉ present) :
    Call.after present (.add a) = present ++ [a] := by
  unfold Call.after
  exact if_neg (mt List.contains_iff_mem.mp hOut)

theorem filter_after_add
    (hOut : a ∉ present) :
    (Call.after present (.add a)).filter (· != a) = present := by
  rw [after_add_of_not_mem hOut, List.filter_append, List.filter_eq_self.mpr,
    List.filter_cons_of_neg (by simp), List.filter_nil, List.append_nil]
  intro b hB
  rw [bne_iff_ne]
  rintro rfl
  exact hOut hB

theorem after_subset_cons (a : String) :
    Call.after present (.add a) ⊆ a :: present := by
  intro b hB
  rcases mem_after hB with hIn | hSame
  · exact List.mem_cons_of_mem a hIn
  · cases hSame
    exact List.mem_cons_self

/-
  After any calls, with the positions of different agents
  apart: lookups are right, and agents that come and go
  move only their own keys.
-/
theorem consistent_hashing
    (replicationFactor : ℕ) (calls : List Call)
    (hApart : Apart hashKey (added calls)) :
    let r := run hashKey replicationFactor calls
    Consistent hashKey (presentAfter calls) r ∧
      (∀ a, Apart hashKey (a :: added calls) →
        a ∉ presentAfter calls →
          MovesOnlyTo hashKey a r (r.addAgent hashKey a) ∧
          Consistent hashKey (presentAfter calls ++ [a])
            (r.addAgent hashKey a) ∧
          let s := (r.addAgent hashKey a).removeAgent a
          SameMaps s r ∧
            ∀ key n, s.getAgents hashKey key n = r.getAgents hashKey key n) ∧
      (∀ a, MovesOnlyTo hashKey a (r.removeAgent a) r ∧
        Consistent hashKey ((presentAfter calls).filter (· != a))
          (r.removeAgent a)) ∧
      (∀ a ∈ presentAfter calls, r.addAgent hashKey a = r) := by
  intro r
  have hInStep : InStep hashKey (presentAfter calls) r :=
    inStep_run replicationFactor calls hApart
  have hHere : Apart hashKey (presentAfter calls) :=
    hApart.subset (presentAfter_subset calls)
  refine ⟨hInStep.consistent hHere, ?_, ?_, ?_⟩
  · intro a hMore hOut
    have hNear : Apart hashKey (a :: presentAfter calls) :=
      hMore.subset (List.cons_subset_cons a (presentAfter_subset calls))
    have hThere : Apart hashKey (Call.after (presentAfter calls) (.add a)) :=
      hNear.subset (after_subset_cons a)
    have hAdded := hInStep.add hNear
    have hUndone : InStep hashKey (presentAfter calls)
        ((r.addAgent hashKey a).removeAgent a) := by
      have hRemoved := hAdded.remove hThere a
      rw [show Call.after (Call.after (presentAfter calls)
        (.add a)) (.remove a) = presentAfter calls from
          filter_after_add hOut] at hRemoved
      exact hRemoved
    have hSame : SameMaps ((r.addAgent hashKey a).removeAgent a) r := by
      apply hUndone.same hInStep
      rw [replicationFactor_removeAgent, replicationFactor_addAgent]
    refine ⟨?_, ?_, hSame, hSame.getAgents_eq⟩
    · apply InStep.movesOnlyTo _ hAdded hThere
      rw [filter_after_add hOut]
      exact hInStep
    · rw [← after_add_of_not_mem hOut]
      exact hAdded.consistent hThere
  · intro a
    have hRemoved := hInStep.remove hHere a
    exact ⟨hRemoved.movesOnlyTo hInStep hHere,
      hRemoved.consistent
        (hHere.subset fun _ hB => (List.mem_filter.mp hB).1)⟩
  · intro a hIn
    unfold addAgent
    exact if_pos ((isSome_iff_mem hInStep a).mpr hIn)

/- A hash under which two agents lie apart. -/
def polynomialHash (s : String) : ℕ :=
  s.toList.foldl (fun h c => (31 * h + c.toNat) % 65521) 7

theorem apart_polynomialHash :
    Apart polynomialHash ["one", "two"] := by
  have hApart :
      ((vnodePositions polynomialHash "one").all fun pos =>
        !(vnodePositions polynomialHash "two").contains pos) =
          true := by decide +kernel
  have hOut : ∀ pos ∈ vnodePositions polynomialHash "one",
      pos ∉ vnodePositions polynomialHash "two" := by
    intro pos hIn
    have hNot := List.all_eq_true.mp hApart pos hIn
    rw [Bool.not_eq_true', ← Bool.not_eq_true] at hNot
    rwa [List.contains_iff_mem] at hNot
  intro a hA b hB hOther pos hIn hAlso
  simp only [List.mem_cons, List.not_mem_nil, or_false]
    at hA hB
  rcases hA with rfl | rfl
  · rcases hB with rfl | rfl
    · exact hOther rfl
    · exact hOut pos hIn hAlso
  · rcases hB with rfl | rfl
    · exact hOut pos hAlso hIn
    · exact hOther rfl

theorem consistent_hashing_of_two :
    Apart polynomialHash ["one", "two"] ∧
      Consistent polynomialHash ["one", "two"]
        (run polynomialHash 3 [.add "one", .add "two"]) :=
  ⟨apart_polynomialHash,
    (consistent_hashing 3 [.add "one", .add "two"] apart_polynomialHash).1⟩

end HashRing

end Hive
