import Mathlib.Data.Finset.Card
import Mathlib.Data.List.Perm.Subperm
import Mathlib.Order.OrderDual
import Amplihack.Base.FirstBy

/-
  The best of several collections, from the best of each:
  taken one after the other, without repetitions, and cut.

  Members with one text have one mark, and repetitions are
  told by the mark.
-/

-- The First Of Each Mark

namespace Base

variable {ι α γ η κ : Type}
variable [DecidableEq η]
variable {mark : α → η}

/- The members whose mark has not been seen before. -/
def unseen (mark : α → η) : List η → List α → List α
| _, [] => []
| seen, x :: xs =>
  if seen.contains (mark x) then unseen mark seen xs
  else x :: unseen mark (mark x :: seen) xs

variable {seen others : List η}
variable {l m : List α}
variable {x y : α}

theorem unseen_cons_of_mem (hSeen : mark x ∈ seen) :
    unseen mark seen (x :: l) = unseen mark seen l := by
  rw [unseen, if_pos (List.contains_iff_mem.mpr hSeen)]

theorem unseen_cons_of_not_mem (hSeen : mark x ∉ seen) :
    unseen mark seen (x :: l) = x :: unseen mark (mark x :: seen) l := by
  rw [unseen, if_neg]
  rw [List.contains_iff_mem]
  exact hSeen

theorem unseen_congr
    (hSame : ∀ k, k ∈ seen ↔ k ∈ others) (l : List α) :
    unseen mark seen l = unseen mark others l := by
  induction l generalizing seen others with
  | nil => rfl
  | cons x l ih =>
    by_cases hSeen : mark x ∈ seen
    · rw [unseen_cons_of_mem hSeen,
        unseen_cons_of_mem ((hSame _).mp hSeen), ih hSame]
    · rw [unseen_cons_of_not_mem hSeen,
        unseen_cons_of_not_mem (fun hIn => hSeen ((hSame _).mpr hIn))]
      congr 1
      apply ih
      intro k
      rw [List.mem_cons, List.mem_cons, hSame]

theorem unseen_append
    (mark : α → η) (seen : List η) (l m : List α) :
    unseen mark seen (l ++ m) =
      unseen mark seen l ++ unseen mark (l.map mark ++ seen) m := by
  induction l generalizing seen with
  | nil => rfl
  | cons x l ih =>
    rw [List.cons_append]
    by_cases hSeen : mark x ∈ seen
    · rw [unseen_cons_of_mem hSeen, unseen_cons_of_mem hSeen, ih]
      congr 1
      apply unseen_congr
      intro k
      simp only [List.mem_append, List.map_cons, List.mem_cons]
      constructor
      · tauto
      · rintro ((rfl | hIn) | hIn)
        · exact Or.inr hSeen
        · exact Or.inl hIn
        · exact Or.inr hIn
    · rw [unseen_cons_of_not_mem hSeen,
        unseen_cons_of_not_mem hSeen, ih, List.cons_append]
      congr 2
      apply unseen_congr
      intro k
      simp only [List.mem_append, List.map_cons, List.mem_cons]
      tauto

theorem unseen_sublist
    (mark : α → η) (seen : List η) (l : List α) :
    (unseen mark seen l).Sublist l := by
  induction l generalizing seen with
  | nil => exact List.Sublist.slnil
  | cons x l ih =>
    by_cases hSeen : mark x ∈ seen
    · rw [unseen_cons_of_mem hSeen]
      exact (ih seen).cons x
    · rw [unseen_cons_of_not_mem hSeen]
      exact (ih _).cons_cons x

theorem mark_not_mem_of_mem_unseen
    (hX : x ∈ unseen mark seen l) :
    mark x ∉ seen := by
  induction l generalizing seen with
  | nil => exact (List.not_mem_nil hX).elim
  | cons z l ih =>
    by_cases hSeen : mark z ∈ seen
    · rw [unseen_cons_of_mem hSeen] at hX
      exact ih hX
    · rw [unseen_cons_of_not_mem hSeen] at hX
      rcases List.mem_cons.mp hX with rfl | hIn
      · exact hSeen
      · exact fun hThere =>
          ih hIn (List.mem_cons_of_mem _ hThere)

theorem nodup_marks_unseen
    (mark : α → η) (seen : List η) (l : List α) :
    ((unseen mark seen l).map mark).Nodup := by
  induction l generalizing seen with
  | nil => exact List.nodup_nil
  | cons x l ih =>
    by_cases hSeen : mark x ∈ seen
    · rw [unseen_cons_of_mem hSeen]
      exact ih seen
    · rw [unseen_cons_of_not_mem hSeen, List.map_cons, List.nodup_cons]
      refine ⟨?_, ih _⟩
      intro hIn
      obtain ⟨y, hY, hSame⟩ := List.mem_map.mp hIn
      apply mark_not_mem_of_mem_unseen hY
      rw [hSame]
      exact List.mem_cons_self

theorem seen_or_exists_unseen (hX : x ∈ l) :
    mark x ∈ seen ∨ mark x ∈ (unseen mark seen l).map mark := by
  induction l generalizing seen with
  | nil => exact (List.not_mem_nil hX).elim
  | cons z l ih =>
    by_cases hSeen : mark z ∈ seen
    · rw [unseen_cons_of_mem hSeen]
      rcases List.mem_cons.mp hX with rfl | hIn
      · exact Or.inl hSeen
      · exact ih hIn
    · rw [unseen_cons_of_not_mem hSeen, List.map_cons]
      rcases List.mem_cons.mp hX with rfl | hIn
      · exact Or.inr List.mem_cons_self
      · rcases ih hIn with hEarlier | hLater
        · rcases List.mem_cons.mp hEarlier with hSame | hOld
          · rw [hSame]
            exact Or.inr List.mem_cons_self
          · exact Or.inl hOld
        · exact Or.inr (List.mem_cons_of_mem _ hLater)

theorem unseen_of_nodup_marks
    (hMarks : (l.map mark).Nodup) (hFresh : ∀ x ∈ l, mark x ∉ seen) :
    unseen mark seen l = l := by
  induction l generalizing seen with
  | nil => rfl
  | cons x l ih =>
    rw [List.map_cons, List.nodup_cons] at hMarks
    rw [unseen_cons_of_not_mem (hFresh x List.mem_cons_self), ih hMarks.2]
    intro y hY hIn
    rcases List.mem_cons.mp hIn with hSame | hSeen
    · rw [← hSame] at hMarks
      exact hMarks.1 (List.mem_map_of_mem hY)
    · exact hFresh y (List.mem_cons_of_mem _ hY) hSeen

theorem mem_marks_unseen_nil {k : η} :
    k ∈ (unseen mark [] l).map mark ↔ k ∈ l.map mark := by
  constructor
  · intro hIn
    exact ((unseen_sublist mark [] l).map mark).subset hIn
  · intro hIn
    obtain ⟨x, hX, rfl⟩ := List.mem_map.mp hIn
    have hEither : mark x ∈ [] ∨ mark x ∈ (unseen mark [] l).map mark :=
      seen_or_exists_unseen hX
    rcases hEither with hNone | hThere
    · exact (List.not_mem_nil hNone).elim
    · exact hThere

theorem unseen_filter
    {p : α → Bool} (hMark : ∀ x y, mark x = mark y → p x = p y)
    (hSame : ∀ x, p x = true → (mark x ∈ seen ↔ mark x ∈ others))
    (l : List α) :
    unseen mark seen (l.filter p) = (unseen mark others l).filter p := by
  induction l generalizing seen others with
  | nil => rfl
  | cons x l ih =>
    by_cases hP : p x = true
    · rw [List.filter_cons_of_pos hP]
      by_cases hSeen : mark x ∈ seen
      · rw [unseen_cons_of_mem hSeen,
          unseen_cons_of_mem ((hSame x hP).mp hSeen), ih hSame]
      · rw [unseen_cons_of_not_mem hSeen,
          unseen_cons_of_not_mem (fun hIn => hSeen ((hSame x hP).mpr hIn)),
          List.filter_cons_of_pos hP]
        congr 1
        apply ih
        intro y hY
        rw [List.mem_cons, List.mem_cons, hSame y hY]
    · rw [List.filter_cons_of_neg hP]
      by_cases hSeen : mark x ∈ others
      · rw [unseen_cons_of_mem hSeen, ih hSame]
      · rw [unseen_cons_of_not_mem hSeen, List.filter_cons_of_neg hP]
        apply ih
        intro y hY
        rw [hSame y hY, List.mem_cons]
        constructor
        · exact Or.inr
        · rintro (hEqual | hIn)
          · rw [hMark y x hEqual] at hY
            exact absurd hY hP
          · exact hIn

/- In a list with the best first, the best of each mark. -/
theorem exists_unseen_ge
    {key : α → κ} [Preorder κ] (mark : α → η) (seen : List η)
    (hSorted : l.Pairwise fun x y => key y ≤ key x) (hX : x ∈ l) :
    mark x ∈ seen ∨
      ∃ d ∈ unseen mark seen l, mark d = mark x ∧ key x ≤ key d := by
  induction l generalizing seen with
  | nil => exact (List.not_mem_nil hX).elim
  | cons z l ih =>
    rw [List.pairwise_cons] at hSorted
    by_cases hSeen : mark z ∈ seen
    · rw [unseen_cons_of_mem hSeen]
      rcases List.mem_cons.mp hX with hHere | hIn
      · rw [hHere]
        exact .inl hSeen
      · exact ih _ hSorted.2 hIn
    · rw [unseen_cons_of_not_mem hSeen]
      rcases List.mem_cons.mp hX with hHere | hIn
      · rw [hHere]
        exact .inr ⟨z, List.mem_cons_self, rfl, le_refl _⟩
      · rcases ih _ hSorted.2 hIn with
          hEarlier | ⟨d, hD, hMark, hLe⟩
        · rcases List.mem_cons.mp hEarlier with hSame | hOld
          · exact .inr ⟨z, List.mem_cons_self, hSame.symm, hSorted.1 x hIn⟩
          · exact .inl hOld
        · exact .inr ⟨d, List.mem_cons_of_mem _ hD, hMark, hLe⟩

/- Whatever is unseen was first met in one collection. -/
theorem split_of_mem_unseen
    {top : ι → List α} {order : List ι}
    (hX : x ∈ unseen mark seen (order.flatMap top)) :
    ∃ pre a post, order = pre ++ a :: post ∧
      x ∈ unseen mark ((pre.flatMap top).map mark ++ seen) (top a) := by
  induction order generalizing seen with
  | nil => exact (List.not_mem_nil hX).elim
  | cons a order ih =>
    rw [List.flatMap_cons, unseen_append] at hX
    rcases List.mem_append.mp hX with hHere | hLater
    · exact ⟨[], a, order, rfl, hHere⟩
    · obtain ⟨pre, b, post, rfl, hThere⟩ := ih hLater
      refine ⟨a :: pre, b, post, rfl, ?_⟩
      rw [List.flatMap_cons, List.map_append]
      rw [unseen_congr] at hThere
      · exact hThere
      · intro k
        simp only [List.mem_append]
        tauto

-- The Best Of Each Collection

variable [LinearOrder κ]

/- `top a` are the `limit` best of `all a`, the best first. -/
structure Tops
    (mark : α → η) (key : α → κ) (limit : ℕ) (all top : ι → List α) :
    Prop where
  sorted : ∀ a, (top a).Pairwise fun x y => key y ≤ key x
  subset : ∀ a, top a ⊆ all a
  best : ∀ a, ∀ x ∈ top a, ∀ y ∈ all a, y ∉ top a → key y ≤ key x
  short : ∀ a, (top a).length ≤ limit
  full : ∀ a, ∀ y ∈ all a, y ∉ top a → limit ≤ (top a).length
  apart : ∀ a, ∀ x ∈ all a, ∀ y ∈ all a, mark x = mark y → x = y
  distinct : ∀ a, ((top a).map mark).Nodup

def merged
    (mark : α → η) (limit : ℕ) (top : ι → List α) (order : List ι) :
    List α :=
  (unseen mark [] (order.flatMap top)).take limit

/- What `a` does not have among its best is no better. -/
def Dominates
    (text : α → γ) (key : α → κ) (all top : ι → List α) (a b : ι) :
    Prop :=
  ∀ x ∈ top a, ∀ y ∈ all b, text y ∉ (top a).map text → key y ≤ key x

namespace Tops

variable {key : α → κ}
variable {text : α → γ}
variable {limit : ℕ}
variable {all top : ι → List α}
variable {order : List ι}

/- A sort that is cut off leaves the best. -/
omit [DecidableEq η] in
theorem take_mergeSort
    {le : α → α → Bool}
    (hLe : ∀ x y, le x y = true ↔ key y ≤ key x) (limit : ℕ)
    (hApart : ∀ a, ((all a).map mark).Nodup) :
    Tops mark key limit all fun a => ((all a).mergeSort le).take limit := by
  have hDual : ∀ x y, le x y = true ↔
      OrderDual.toDual (key x) ≤ OrderDual.toDual (key y) := by
    intro x y
    rw [OrderDual.toDual_le_toDual, hLe]
  have hPairs : ∀ a, ((all a).mergeSort le).Pairwise
      fun x y => key y ≤ key x :=
    fun a => pairwise_mergeSort hDual (all a)
  have hDrop : ∀ a, ∀ y ∈ all a,
      y ∉ ((all a).mergeSort le).take limit →
        y ∈ ((all a).mergeSort le).drop limit := by
    intro a y hY hOut
    have hSorted : y ∈ (all a).mergeSort le := List.mem_mergeSort.mpr hY
    rw [← List.take_append_drop limit ((all a).mergeSort le)]
      at hSorted
    exact (List.mem_append.mp hSorted).resolve_left hOut
  constructor
  case sorted =>
    intro a
    exact (hPairs a).sublist (List.take_sublist limit _)
  case subset =>
    intro a x hX
    exact List.mem_mergeSort.mp (List.mem_of_mem_take hX)
  case best =>
    intro a x hX y hY hOut
    have hBoth := hPairs a
    rw [← List.take_append_drop limit ((all a).mergeSort le)]
      at hBoth
    exact (List.pairwise_append.mp hBoth).2.2 x hX y (hDrop a y hY hOut)
  case short =>
    intro a
    exact List.length_take_le _ _
  case full =>
    intro a y hY hOut
    have hPos := List.length_pos_of_mem (hDrop a y hY hOut)
    rw [List.length_drop] at hPos
    rw [List.length_take]
    omega
  case apart =>
    intro a x hX y hY hSame
    exact List.inj_on_of_nodup_map (hApart a) hX hY hSame
  case distinct =>
    intro a
    have hSorted :=
      ((List.mergeSort_perm (all a) le).map mark).nodup_iff.mpr (hApart a)
    exact hSorted.sublist ((List.take_sublist limit _).map mark)

theorem nodup_merged :
    ((merged mark limit top order).map mark).Nodup :=
  (nodup_marks_unseen mark [] _).sublist
    ((List.take_sublist limit _).map mark)

theorem exists_of_mem_merged
    (hX : x ∈ merged mark limit top order) :
    ∃ a ∈ order, x ∈ top a := by
  have hIn := (unseen_sublist mark [] _).subset (List.mem_of_mem_take hX)
  exact List.mem_flatMap.mp hIn

/- A mark that is missing is that of a missing text. -/
omit [DecidableEq η] in
theorem text_not_mem
    (hText : ∀ x y, text x = text y → mark x = mark y)
    (hMark : mark x ∉ l.map mark) :
    text x ∉ l.map text := by
  intro hIn
  obtain ⟨y, hY, hSame⟩ := List.mem_map.mp hIn
  apply hMark
  rw [← hText y x hSame]
  exact List.mem_map_of_mem hY

theorem pairwise_merged
    (hTops : Tops mark key limit all top)
    (hText : ∀ x y, text x = text y → mark x = mark y) (hOrder : order.Nodup)
    (hDominates : ∀ a ∈ order, ∀ b ∈ order, a ≠ b →
      Dominates text key all top a b) :
    (merged mark limit top order).Pairwise fun x y => key y ≤ key x := by
  suffices hAll : ∀ seen,
      (unseen mark seen (order.flatMap top)).Pairwise
        fun x y => key y ≤ key x from
    (hAll []).sublist (List.take_sublist limit _)
  induction order with
  | nil => exact fun seen => List.Pairwise.nil
  | cons a order ih =>
    intro seen
    rw [List.nodup_cons] at hOrder
    rw [List.flatMap_cons, unseen_append, List.pairwise_append]
    refine ⟨?_, ?_, ?_⟩
    · exact (hTops.sorted a).sublist (unseen_sublist _ _ _)
    · apply ih hOrder.2
      intro b hB c hC
      exact hDominates b (List.mem_cons_of_mem _ hB) c
        (List.mem_cons_of_mem _ hC)
    · intro x hX y hY
      have hTopX := (unseen_sublist _ _ _).subset hX
      have hTopY := (unseen_sublist _ _ _).subset hY
      obtain ⟨b, hB, hIn⟩ := List.mem_flatMap.mp hTopY
      have hOther : a ≠ b := by
        rintro rfl
        exact hOrder.1 hB
      refine hDominates a List.mem_cons_self b
        (List.mem_cons_of_mem _ hB) hOther x hTopX y (hTops.subset b hIn) ?_
      apply text_not_mem hText
      exact fun hSeen => mark_not_mem_of_mem_unseen hY
        (List.mem_append_left _ hSeen)

/-
  A mark of `top a` that was cut off left room for a member
  from an earlier collection, which does not have the mark.
-/
theorem exists_of_cut_off
    {pre post : List ι} {a : ι} {k : η} (hTops : Tops mark key limit all top)
    (hHere : x ∈ unseen mark ((pre.flatMap top).map mark ++ []) (top a))
    (hX : x ∈ merged mark limit top (pre ++ a :: post))
    (hK : k ∈ (top a).map mark)
    (hCut : k ∉ (merged mark limit top (pre ++ a :: post)).map mark) :
    ∃ e ∈ pre, ∃ z ∈ top e, mark z ∉ (top a).map mark ∧
      k ∉ (top e).map mark := by
  have hMerged : merged mark limit top (pre ++ a :: post) =
      (unseen mark [] (pre.flatMap top) ++
        (unseen mark ((pre.flatMap top).map mark ++ []) (top a) ++
          unseen mark ((top a).map mark ++
            ((pre.flatMap top).map mark ++ []))
            (post.flatMap top))).take limit := by
    unfold merged
    rw [List.flatMap_append, List.flatMap_cons, unseen_append, unseen_append]
  generalize hP : unseen mark [] (pre.flatMap top) = P
    at hMerged
  generalize hQ : unseen mark ((pre.flatMap top).map mark ++ [])
    (top a) = Q at hMerged hHere
  generalize unseen mark ((top a).map mark ++
    ((pre.flatMap top).map mark ++ [])) (post.flatMap top) = S
    at hMerged
  have hNotP : x ∉ P := by
    intro hIn
    rw [← hQ] at hHere
    rw [← hP] at hIn
    apply mark_not_mem_of_mem_unseen hHere
    rw [List.append_nil]
    exact List.mem_map_of_mem ((unseen_sublist mark [] _).subset hIn)
  have hShort : P.length < limit := by
    by_contra hLong
    rw [hMerged, List.take_append_of_le_length (Nat.le_of_not_lt hLong)] at hX
    exact hNotP (List.mem_of_mem_take hX)
  have hFirst : P <+: merged mark limit top (pre ++ a :: post) := by
    rw [hMerged, List.prefix_take_iff]
    exact ⟨List.prefix_append _ _, hShort.le⟩
  have hNotPre : k ∉ (pre.flatMap top).map mark := by
    intro hIn
    rw [← mem_marks_unseen_nil, hP] at hIn
    exact hCut ((hFirst.sublist.map mark).subset hIn)
  have hInQ : k ∈ Q.map mark := by
    obtain ⟨y, hY, rfl⟩ := List.mem_map.mp hK
    rw [← hQ]
    have hEither : mark y ∈ (pre.flatMap top).map mark ++ [] ∨
        mark y ∈ (unseen mark
          ((pre.flatMap top).map mark ++ []) (top a)).map mark :=
      seen_or_exists_unseen hY
    refine hEither.resolve_left ?_
    rw [List.append_nil]
    exact hNotPre
  have hLong : limit < (P ++ Q).length := by
    by_contra hFits
    have hBoth : P ++ Q <+: merged mark limit top (pre ++ a :: post) := by
      rw [hMerged, List.prefix_take_iff, ← List.append_assoc]
      exact ⟨List.prefix_append _ _, Nat.le_of_not_lt hFits⟩
    apply hCut
    apply (hBoth.sublist.map mark).subset
    rw [List.map_append]
    exact List.mem_append_right _ hInQ
  have hCutHere : merged mark limit top (pre ++ a :: post) =
      (P ++ Q).take limit := by
    rw [hMerged, ← List.append_assoc, List.take_append_of_le_length hLong.le]
  have hLength :
      (merged mark limit top (pre ++ a :: post)).length =
        limit := by
    rw [hCutHere, List.length_take]
    exact min_eq_left hLong.le
  have hOutside : ∃ z ∈ merged mark limit top (pre ++ a :: post),
      mark z ∉ (top a).map mark := by
    by_contra hNone
    have hSubset : k ::
        (merged mark limit top (pre ++ a :: post)).map mark ⊆
          (top a).map mark := by
      intro j hJ
      rcases List.mem_cons.mp hJ with rfl | hIn
      · exact hK
      · obtain ⟨z, hZ, rfl⟩ := List.mem_map.mp hIn
        by_contra hNot
        exact hNone ⟨z, hZ, hNot⟩
    have hNodup := List.nodup_cons.mpr ⟨hCut, nodup_merged⟩
    have hLe := (List.subperm_of_subset hNodup hSubset).length_le
    rw [List.length_cons, List.length_map, List.length_map, hLength] at hLe
    have hTop := hTops.short a
    omega
  obtain ⟨z, hZ, hNotA⟩ := hOutside
  rw [hCutHere] at hZ
  rcases List.mem_append.mp (List.mem_of_mem_take hZ) with
    hEarlier | hSelf
  · rw [← hP] at hEarlier
    have hIn := (unseen_sublist mark [] _).subset hEarlier
    obtain ⟨e, hE, hTop⟩ := List.mem_flatMap.mp hIn
    refine ⟨e, hE, z, hTop, hNotA, ?_⟩
    intro hThere
    apply hNotPre
    obtain ⟨c, hC, rfl⟩ := List.mem_map.mp hThere
    exact List.mem_map_of_mem (List.mem_flatMap.mpr ⟨e, hE, hC⟩)
  · rw [← hQ] at hSelf
    have hTop := (unseen_sublist _ _ _).subset hSelf
    exact absurd (List.mem_map_of_mem hTop) hNotA

/- What is left out is no better than what is there. -/
theorem le_of_left_out
    {b : ι} (hTops : Tops mark key limit all top)
    (hText : ∀ x y, text x = text y → mark x = mark y)
    (hDominates : ∀ a ∈ order, ∀ b ∈ order, a ≠ b →
      Dominates text key all top a b)
    (hB : b ∈ order)
    (hX : x ∈ merged mark limit top order)
    (hY : y ∈ all b)
    (hOut : text y ∉ (merged mark limit top order).map text) :
    key y ≤ key x := by
  obtain ⟨pre, a, post, rfl, hHere⟩ :=
    split_of_mem_unseen (List.mem_of_mem_take hX)
  have hA : a ∈ pre ++ a :: post := by simp
  have hTopX := (unseen_sublist _ _ _).subset hHere
  -- a collection without the text has only better ones
  have hBelow : ∀ e ∈ pre ++ a :: post, ∀ z ∈ top e,
      text y ∉ (top e).map text → key y ≤ key z := by
    intro e hE z hZ hNot
    by_cases hSelf : e = b
    · subst hSelf
      refine hTops.best e z hZ y hY ?_
      exact fun hIn => hNot (List.mem_map_of_mem hIn)
    · exact hDominates e hE b hB hSelf z hZ y hY hNot
  by_cases hHas : text y ∈ (top a).map text
  case neg => exact hBelow a hA x hTopX hHas
  obtain ⟨y₀, hTopY, hSame⟩ := List.mem_map.mp hHas
  have hMarkY := hText y₀ y hSame
  by_cases hMark :
      mark y ∈ (merged mark limit top (pre ++ a :: post)).map mark
  · -- another text with the mark was taken for it
    obtain ⟨d, hD, hMarkD⟩ := List.mem_map.mp hMark
    obtain ⟨e, hE, hTopD⟩ := exists_of_mem_merged hD
    have hTextD : text d ≠ text y := by
      intro hEqual
      apply hOut
      rw [← hEqual]
      exact List.mem_map_of_mem hD
    have hNotA : text d ∉ (top a).map text := by
      intro hIn
      obtain ⟨c, hC, hEqual⟩ := List.mem_map.mp hIn
      have hOne : c = y₀ := by
        apply hTops.apart a c (hTops.subset a hC) y₀ (hTops.subset a hTopY)
        rw [hText c d hEqual, hMarkD, hMarkY]
      rw [← hEqual, hOne] at hTextD
      exact hTextD hSame
    have hNotE : text y ∉ (top e).map text := by
      intro hIn
      obtain ⟨c, hC, hEqual⟩ := List.mem_map.mp hIn
      have hOne : c = d := by
        apply hTops.apart e c (hTops.subset e hC) d (hTops.subset e hTopD)
        rw [hText c y hEqual, hMarkD]
      rw [hOne] at hEqual
      exact hTextD hEqual
    have hOther : a ≠ e := by
      rintro rfl
      exact hNotA (List.mem_map_of_mem hTopD)
    exact (hBelow e hE d hTopD hNotE).trans
      (hDominates a hA e hE hOther x hTopX d (hTops.subset e hTopD) hNotA)
  · have hIn : mark y ∈ (top a).map mark := by
      rw [← hMarkY]
      exact List.mem_map_of_mem hTopY
    obtain ⟨e, hE, z, hZ, hNotA, hNotE⟩ :=
      hTops.exists_of_cut_off hHere hX hIn hMark
    have hE' := List.mem_append_left (a :: post) hE
    have hOther : a ≠ e := by
      rintro rfl
      exact hNotA (List.mem_map_of_mem hZ)
    exact (hBelow e hE' z hZ (text_not_mem hText hNotE)).trans
      (hDominates a hA e hE' hOther x hTopX z
        (hTops.subset e hZ) (text_not_mem hText hNotA))

/- What an order that begins with `a` and `b` tells of them. -/
theorem dominates_of_first_two
    {a b : ι} {rest : List ι} (hTops : Tops mark key limit all top)
    (hText : ∀ x y, text x = text y → mark x = mark y)
    (hSorted : (merged mark limit top (a :: b :: rest)).Pairwise
      fun x y => key y ≤ key x)
    (hBest : ∀ x ∈ merged mark limit top (a :: b :: rest),
      ∀ y ∈ all b,
        text y ∉ (merged mark limit top (a :: b :: rest)).map
          text → key y ≤ key x) :
    Dominates text key all top a b := by
  intro x hX y hY hNotA
  have hMerged : merged mark limit top (a :: b :: rest) =
      (top a ++ (unseen mark ((top a).map mark ++ []) (top b) ++
        unseen mark ((top b).map mark ++
          ((top a).map mark ++ [])) (rest.flatMap top))).take
            limit := by
    unfold merged
    rw [List.flatMap_cons, List.flatMap_cons, unseen_append, unseen_append,
      unseen_of_nodup_marks (hTops.distinct a) (fun _ _ => List.not_mem_nil)]
  have hFirst : top a <+: merged mark limit top (a :: b :: rest) := by
    rw [hMerged, List.prefix_take_iff]
    exact ⟨List.prefix_append _ _, hTops.short a⟩
  by_cases hThere : text y ∈ (merged mark limit top (a :: b :: rest)).map text
  case neg => exact hBest x (hFirst.subset hX) y hY hThere
  obtain ⟨z, hZ, hSame⟩ := List.mem_map.mp hThere
  have hNotTop : z ∉ top a := by
    intro hIn
    rw [← hSame] at hNotA
    exact hNotA (List.mem_map_of_mem hIn)
  have hLater : key z ≤ key x := by
    obtain ⟨more, hMore⟩ := hFirst
    rw [← hMore] at hSorted hZ
    exact (List.pairwise_append.mp hSorted).2.2 x hX z
      ((List.mem_append.mp hZ).resolve_left hNotTop)
  suffices hOne : z = y by
    rw [hOne] at hLater
    exact hLater
  rw [hMerged] at hZ
  rcases List.mem_append.mp (List.mem_of_mem_take hZ) with
    hIn | hRest
  · exact absurd hIn hNotTop
  rcases List.mem_append.mp hRest with hSecond | hThird
  · have hTopB := (unseen_sublist _ _ _).subset hSecond
    exact hTops.apart b z (hTops.subset b hTopB) y hY (hText z y hSame)
  · -- the best of `b` would fill the list before `z`
    exfalso
    have hUnseen := mark_not_mem_of_mem_unseen hThird
    have hNotB : y ∉ top b := by
      intro hIn
      apply hUnseen
      rw [hText z y hSame]
      exact List.mem_append_left _ (List.mem_map_of_mem hIn)
    have hFull := hTops.full b y hY hNotB
    have hCovered : (top b).map mark ⊆ (top a ++ unseen mark
        ((top a).map mark ++ []) (top b)).map mark := by
      intro k hK
      obtain ⟨c, hC, rfl⟩ := List.mem_map.mp hK
      rw [List.map_append, List.mem_append]
      have hEither : mark c ∈ (top a).map mark ++ [] ∨
          mark c ∈ (unseen mark ((top a).map mark ++ [])
            (top b)).map mark := seen_or_exists_unseen hC
      rw [List.append_nil] at hEither ⊢
      exact hEither
    have hLe := (List.subperm_of_subset (hTops.distinct b) hCovered).length_le
    rw [List.length_map, List.length_map] at hLe
    rw [← List.append_assoc, List.take_append_of_le_length
      (hFull.trans hLe)] at hZ
    rcases List.mem_append.mp (List.mem_of_mem_take hZ) with
      hIn | hIn
    · exact hNotTop hIn
    · apply hUnseen
      exact List.mem_append_left _ (List.mem_map_of_mem
        ((unseen_sublist _ _ _).subset hIn))

/- As many as there are marks at all, up to the limit. -/
theorem length_merged
    (hTops : Tops mark key limit all top) (order : List ι) :
    (merged mark limit top order).length =
      min limit ((order.flatMap all).map mark).toFinset.card := by
  have hCard : (unseen mark [] (order.flatMap top)).length =
      ((order.flatMap top).map mark).toFinset.card := by
    rw [← List.length_map mark, ← List.toFinset_card_of_nodup
      (nodup_marks_unseen mark [] (order.flatMap top))]
    congr 1
    ext k
    rw [List.mem_toFinset, List.mem_toFinset, mem_marks_unseen_nil]
  have hSubset : ((order.flatMap top).map mark).toFinset ⊆
      ((order.flatMap all).map mark).toFinset := by
    intro k hK
    rw [List.mem_toFinset] at hK ⊢
    obtain ⟨x, hX, rfl⟩ := List.mem_map.mp hK
    obtain ⟨a, hA, hTop⟩ := List.mem_flatMap.mp hX
    exact List.mem_map_of_mem
      (List.mem_flatMap.mpr ⟨a, hA, hTops.subset a hTop⟩)
  unfold merged
  rw [List.length_take, hCard]
  by_cases hWhole : ∀ a ∈ order, all a ⊆ top a
  · congr 2
    apply Finset.Subset.antisymm hSubset
    intro k hK
    rw [List.mem_toFinset] at hK ⊢
    obtain ⟨x, hX, rfl⟩ := List.mem_map.mp hK
    obtain ⟨a, hA, hAll⟩ := List.mem_flatMap.mp hX
    exact List.mem_map_of_mem (List.mem_flatMap.mpr ⟨a, hA, hWhole a hA hAll⟩)
  · simp only [not_forall] at hWhole
    obtain ⟨a, hA, hNot⟩ := hWhole
    have hOut : ∃ y ∈ all a, y ∉ top a := by
      by_contra hNone
      apply hNot
      intro y hY
      by_contra hOut
      exact hNone ⟨y, hY, hOut⟩
    obtain ⟨y, hY, hOut⟩ := hOut
    have hMany : limit ≤ ((order.flatMap top).map mark).toFinset.card := by
      apply (hTops.full a y hY hOut).trans
      rw [← List.length_map mark,
        ← List.toFinset_card_of_nodup (hTops.distinct a)]
      apply Finset.card_le_card
      intro k hK
      rw [List.mem_toFinset] at hK ⊢
      obtain ⟨x, hX, rfl⟩ := List.mem_map.mp hK
      exact List.mem_map_of_mem (List.mem_flatMap.mpr ⟨a, hA, hX⟩)
    rw [min_eq_left hMany,
      min_eq_left (hMany.trans (Finset.card_le_card hSubset))]

end Tops

end Base
