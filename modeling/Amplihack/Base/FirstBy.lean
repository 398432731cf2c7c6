import Mathlib.Order.Defs.LinearOrder
import Mathlib.Data.List.Sort
import Mathlib.Data.List.Basic
import Mathlib.Data.List.MinMax

/-
  Sorting a list by a key of a linear order.

  Changing the first element of a list that satisfies a test.

  The first member of a list by a key, then by its place in
  the list: what a stable sort and a search find.
-/

-- Sorting By A Key

namespace Base

variable {α κ : Type} [LinearOrder κ]
variable {le : α → α → Bool}
variable {key : α → κ}
variable {l m : List α}

theorem pairwise_mergeSort
    (hLe : ∀ a b, le a b = true ↔ key a ≤ key b) (l : List α) :
    (l.mergeSort le).Pairwise fun a b => key a ≤ key b := by
  have hSorted : (l.mergeSort le).Pairwise fun a b => le a b = true := by
    apply List.pairwise_mergeSort
    · intro a b c hLeft hRight
      rw [hLe] at hLeft hRight ⊢
      exact hLeft.trans hRight
    · intro a b
      rw [Bool.or_eq_true, hLe, hLe]
      exact le_total (key a) (key b)
  exact hSorted.imp fun {a b} hIn => (hLe a b).mp hIn

/- Without equal keys, the order of the input is lost. -/
theorem mergeSort_eq_of_perm
    (hLe : ∀ a b, le a b = true ↔ key a ≤ key b)
    (hKeys : ∀ a ∈ l, ∀ b ∈ l, key a = key b → a = b) (hPerm : l.Perm m) :
    l.mergeSort le = m.mergeSort le := by
  apply List.Perm.eq_of_pairwise _ (pairwise_mergeSort hLe l)
    (pairwise_mergeSort hLe m)
  · exact (List.mergeSort_perm l le).trans
      (hPerm.trans (List.mergeSort_perm m le).symm)
  · intro a b hA hB hLeft hRight
    rw [List.mem_mergeSort] at hA hB
    exact hKeys a hA b (hPerm.mem_iff.mpr hB) (le_antisymm hLeft hRight)

theorem filter_mergeSort
    (hLe : ∀ a b, le a b = true ↔ key a ≤ key b)
    (hKeys : ∀ a ∈ l, ∀ b ∈ l, key a = key b → a = b) (p : α → Bool) :
    (l.filter p).mergeSort le = (l.mergeSort le).filter p := by
  apply List.Perm.eq_of_pairwise _
    (pairwise_mergeSort hLe (l.filter p))
    ((pairwise_mergeSort hLe l).filter p)
  · exact (List.mergeSort_perm _ le).trans
      ((List.mergeSort_perm l le).filter p).symm
  · intro a b hA hB hLeft hRight
    have hInA := (List.mem_filter.mp (List.mem_mergeSort.mp hA)).1
    have hInB := List.mem_mergeSort.mp (List.mem_filter.mp hB).1
    exact hKeys a hInA b hInB (le_antisymm hLeft hRight)

-- Sorted Lists Of Different Members

section Strict

variable {xs : List κ}
variable {x : κ}

/- What is not above `x` comes first. -/
theorem filter_append_filter_of_strict
    (hStrict : xs.Pairwise (· < ·)) (x : κ) :
    xs.filter (· ≤ x) ++ xs.filter (x < ·) = xs := by
  induction xs with
  | nil => rfl
  | cons y ys ih =>
    rw [List.pairwise_cons] at hStrict
    by_cases hLe : y ≤ x
    · rw [List.filter_cons_of_pos (by simpa using hLe),
        List.filter_cons_of_neg (by simpa using hLe),
        List.cons_append, ih hStrict.2]
    · have hLess := not_le.mp hLe
      have hNone : ys.filter (· ≤ x) = [] := by
        rw [List.filter_eq_nil_iff]
        intro z hZ
        rw [decide_eq_true_iff, not_le]
        exact hLess.trans (hStrict.1 z hZ)
      have hAll : ys.filter (x < ·) = ys := by
        rw [List.filter_eq_self]
        intro z hZ
        rw [decide_eq_true_iff]
        exact hLess.trans (hStrict.1 z hZ)
      rw [List.filter_cons_of_neg (by simpa using hLess),
        List.filter_cons_of_pos (by simpa using hLess), hNone,
        hAll, List.nil_append]

theorem drop_of_strict (hStrict : xs.Pairwise (· < ·)) (x : κ) :
    xs.drop (xs.countP (· ≤ x)) = xs.filter (x < ·) := by
  have hBoth := filter_append_filter_of_strict hStrict x
  rw [List.countP_eq_length_filter]
  calc
    xs.drop (xs.filter (· ≤ x)).length =
        (xs.filter (· ≤ x) ++ xs.filter (x < ·)).drop
          (xs.filter (· ≤ x)).length := by rw [hBoth]
    _ = xs.filter (x < ·) := List.drop_left

theorem take_of_strict (hStrict : xs.Pairwise (· < ·)) (x : κ) :
    xs.take (xs.countP (· ≤ x)) = xs.filter (· ≤ x) := by
  have hBoth := filter_append_filter_of_strict hStrict x
  rw [List.countP_eq_length_filter]
  calc
    xs.take (xs.filter (· ≤ x)).length =
        (xs.filter (· ≤ x) ++ xs.filter (x < ·)).take
          (xs.filter (· ≤ x)).length := by rw [hBoth]
    _ = xs.filter (· ≤ x) := List.take_left

end Strict

end Base

-- The update and what a search finds after it

namespace Base

variable {α : Type}

def updateFirst (p : α → Bool) (f : α → α) : List α → List α
| [] => []
| a :: rest =>
  if p a then f a :: rest else a :: updateFirst p f rest

/- The same search finds the changed element. -/
theorem find?_updateFirst_self
    {p : α → Bool} {f : α → α} (hKeeps : ∀ a, p a = true → p (f a) = true)
    (list : List α) :
    (updateFirst p f list).find? p = (list.find? p).map f := by
  induction list with
  | nil => rfl
  | cons a rest ih =>
    rw [updateFirst]
    by_cases hHere : p a = true
    · rw [if_pos hHere, List.find?_cons_of_pos hHere,
        List.find?_cons_of_pos (hKeeps a hHere)]
      rfl
    · rw [if_neg hHere, List.find?_cons_of_neg hHere,
        List.find?_cons_of_neg hHere, ih]

/- A search that passes over the element is not affected. -/
theorem find?_updateFirst_other
    {p q : α → Bool} {f : α → α} (hBefore : ∀ a, p a = true → q a = false)
    (hAfter : ∀ a, p a = true → q (f a) = false) (list : List α) :
    (updateFirst p f list).find? q = list.find? q := by
  induction list with
  | nil => rfl
  | cons a rest ih =>
    rw [updateFirst]
    by_cases hHere : p a = true
    · rw [if_pos hHere, List.find?_cons_of_neg (by simp [hAfter a hHere]),
        List.find?_cons_of_neg (by simp [hBefore a hHere])]
    · rw [if_neg hHere, List.find?_cons, List.find?_cons, ih]

end Base

-- The First By Key

namespace Base

variable {α κ : Type}

/-
  `x` satisfies `p`; earlier members that do have larger keys,
  and no later one has a smaller key.
-/
def FirstBy [LT κ] [LE κ]
    (key : α → κ) (p : α → Prop) (l : List α) (x : α) :
    Prop :=
  p x ∧ ∃ pre post, l = pre ++ x :: post ∧
    (∀ y ∈ pre, p y → key x < key y) ∧
    (∀ y ∈ post, p y → key x ≤ key y)

theorem FirstBy.mem [LT κ] [LE κ]
    {key : α → κ} {p : α → Prop} {l : List α} {x : α}
    (hFirst : FirstBy key p l x) :
    x ∈ l := by
  rcases hFirst with ⟨_, pre, post, rfl, _⟩
  simp

theorem FirstBy.congr [LT κ] [LE κ]
    {key : α → κ} {p q : α → Prop} {l : List α} {x : α}
    (hIff : ∀ y ∈ l, p y ↔ q y) (hFirst : FirstBy key p l x) :
    FirstBy key q l x := by
  have hMem := hFirst.mem
  rcases hFirst with ⟨hx, pre, post, rfl, hPre, hPost⟩
  refine ⟨(hIff x hMem).mp hx, pre, post, rfl, ?_, ?_⟩
  · intro y hy hq
    exact hPre y hy ((hIff y (by simp [hy])).mpr hq)
  · intro y hy hq
    exact hPost y hy ((hIff y (by simp [hy])).mpr hq)

-- Sorting, Then Searching

section Sorted

variable [LinearOrder κ]

/- Inserting a member that fails the test changes no search. -/
theorem find?_orderedInsert_of_not
    {key : α → κ} {p : α → Bool} {a : α} (hFail : p a = false) (l : List α) :
    (l.orderedInsert (fun x y => key x ≤ key y) a).find? p = l.find? p := by
  induction l with
  | nil => simp [hFail]
  | cons b l ih =>
    rw [List.orderedInsert]
    split
    · simp [List.find?_cons, hFail]
    · rw [List.find?_cons, List.find?_cons, ih]

/- A member that passes is found before every key it is below. -/
theorem find?_orderedInsert_of_pos
    {key : α → κ} {p : α → Bool} {a : α} (hPass : p a = true) {l : List α}
    (hSorted : l.Pairwise fun x y => key x ≤ key y) :
    (l.orderedInsert (fun x y => key x ≤ key y) a).find? p =
      match l.find? p with
      | none => some a
      | some x => if key a ≤ key x then some a else some x := by
  induction l with
  | nil => simp [hPass]
  | cons b l ih =>
    rw [List.pairwise_cons] at hSorted
    rw [List.orderedInsert]
    split
    · next hLe =>
        rw [List.find?_cons_of_pos hPass]
        cases hFind : (b :: l).find? p with
        | none => rfl
        | some x =>
          have hBelow : key b ≤ key x := by
            rcases List.mem_cons.mp
                (List.mem_of_find?_eq_some hFind) with
              rfl | hMem
            · exact le_rfl
            · exact hSorted.1 x hMem
          simp [hLe.trans hBelow]
    · next hNot =>
        cases hb : p b with
        | true => simp [hb, hNot]
        | false =>
          simp only [List.find?_cons, hb]
          exact ih hSorted.2

/- A search of the stable sort finds the first by key. -/
theorem firstBy_of_find?_insertionSort
    (key : α → κ) {p : α → Bool} {x : α} :
    ∀ {l : List α},
      (l.insertionSort fun x y => key x ≤ key y).find? p = some x →
      FirstBy key (fun y => p y = true) l x := by
  intro l
  induction l generalizing x with
  | nil => simp
  | cons a l ih =>
    intro hFind
    rw [List.insertionSort_cons] at hFind
    cases ha : p a with
    | false =>
      rw [find?_orderedInsert_of_not ha] at hFind
      rcases ih hFind with ⟨hx, pre, post, rfl, hPre, hPost⟩
      refine ⟨hx, a :: pre, post, rfl, ?_, hPost⟩
      intro y hy hPass
      rcases List.mem_cons.mp hy with rfl | hy
      · simp [ha] at hPass
      · exact hPre y hy hPass
    | true =>
      have : Std.Total (α := α) (fun x y => key x ≤ key y) :=
        ⟨fun x y => le_total (key x) (key y)⟩
      have : IsTrans α (fun x y => key x ≤ key y) :=
        ⟨fun _ _ _ => le_trans⟩
      have hSorted := List.pairwise_insertionSort (fun x y => key x ≤ key y) l
      rw [find?_orderedInsert_of_pos ha hSorted] at hFind
      split at hFind
      · next hNone =>
          cases hFind
          refine ⟨ha, [], l, rfl, by simp, ?_⟩
          intro y hy hPass
          rw [List.find?_eq_none] at hNone
          exact absurd hPass (hNone y (by simpa using hy))
      · next z hz =>
          rcases ih hz with ⟨hPassZ, pre, post, rfl, hPre, hPost⟩
          split at hFind
          · next hLe =>
              cases hFind
              refine ⟨ha, [], _, rfl, by simp, ?_⟩
              intro y hy hPass
              refine hLe.trans ?_
              rcases List.mem_append.mp hy with hy | hy
              · exact (hPre y hy hPass).le
              · rcases List.mem_cons.mp hy with rfl | hy
                · exact le_rfl
                · exact hPost y hy hPass
          · next hNot =>
              cases hFind
              refine ⟨hPassZ, a :: pre, post, rfl, ?_, hPost⟩
              intro y hy hPass
              rcases List.mem_cons.mp hy with rfl | hy
              · exact not_le.mp hNot
              · exact hPre y hy hPass

end Sorted

-- The Least Member

/- With distinct keys the least member is the one that is least. -/
theorem argmin_eq_some_iff_of_injOn [LinearOrder κ]
    {key : α → κ} {l : List α} {x : α}
    (hInj : ∀ y ∈ l, ∀ z ∈ l, key y = key z → y = z) :
    l.argmin key = some x ↔ x ∈ l ∧ ∀ y ∈ l, key x ≤ key y := by
  constructor
  · intro hMin
    exact ⟨List.argmin_mem hMin, fun y hy => List.le_of_mem_argmin hy hMin⟩
  · rintro ⟨hx, hLeast⟩
    cases hMin : l.argmin key with
    | none =>
      rw [List.argmin_eq_none] at hMin
      simp [hMin] at hx
    | some m =>
      have hm := List.argmin_mem hMin
      have hKey : key m = key x :=
        le_antisymm (List.le_of_mem_argmin hx hMin) (hLeast m hm)
      rw [hInj m hm x hx hKey]

/- The least member depends on the members alone. -/
theorem argmin_congr_of_injOn [LinearOrder κ]
    {key : α → κ} {l m : List α}
    (hInj : ∀ y ∈ l, ∀ z ∈ l, key y = key z → y = z)
    (hSame : ∀ y, y ∈ l ↔ y ∈ m) :
    l.argmin key = m.argmin key := by
  apply Option.ext
  intro x
  rw [argmin_eq_some_iff_of_injOn hInj,
    argmin_eq_some_iff_of_injOn fun y hy z hz =>
      hInj y ((hSame y).mpr hy) z ((hSame z).mpr hz)]
  simp [hSame]

/- The least value depends on the members alone. -/
theorem min?_congr [LinearOrder κ]
    {l m : List κ} (hSame : ∀ k, k ∈ l ↔ k ∈ m) :
    l.min? = m.min? := by
  apply Option.ext
  intro k
  rw [List.min?_eq_some_iff, List.min?_eq_some_iff]
  refine and_congr (hSame k) ?_
  exact forall_congr' fun j => imp_congr_left (hSame j)

-- Searching A Filtered List

/- Mapping a filtered search back to what it searched. -/
theorem map_findSome?_filter {β : Type}
    {p : α → Bool} {f : α → Option β} {g : β → α}
    (hBack : ∀ a b, f a = some b → g b = a) (l : List α) :
    ((l.filter p).findSome? f).map g =
      l.find? fun a => p a && (f a).isSome := by
  induction l with
  | nil => rfl
  | cons a l ih =>
    cases hp : p a with
    | false => simp [hp, ih]
    | true =>
      cases hf : f a with
      | none => simp [hp, hf, ih]
      | some b => simp [hp, hf, hBack a b hf]

end Base
