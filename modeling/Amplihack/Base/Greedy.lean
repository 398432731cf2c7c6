import Mathlib.Data.List.Basic
import Mathlib.Data.List.Perm.Subperm
import Mathlib.Order.Lattice

/-
  Filling a budget in one pass over items in the order of
  their costs, with a sum that stops at a top.
-/

-- One Pass

namespace Base

variable {α : Type}
variable (cost : α → ℕ)
variable (top budget : ℕ)

/- A sum that stops at the top. -/
def capped (used more : ℕ) : ℕ :=
  min (used + more) top

def costOf : List α → ℕ
| [] => 0
| a :: rest => cost a + costOf rest

/- What all of it costs on top of `used`. -/
def spend (used : ℕ) (items : List α) : ℕ :=
  items.foldl (fun used a => capped top used (cost a)) used

/- Each item that still fits, in order. -/
def fill (used : ℕ) : List α → List α
| [] => []
| a :: rest =>
  if capped top used (cost a) ≤ budget then
    a :: fill (capped top used (cost a)) rest
  else fill used rest

variable {cost}
variable {top budget}
variable {used : ℕ}
variable {items some_ : List α}

theorem costOf_perm
    {others : List α} (hPerm : items.Perm others) :
    costOf cost items = costOf cost others := by
  induction hPerm with
  | nil => rfl
  | cons a _ ih =>
    unfold costOf
    rw [ih]
  | swap a b rest =>
    unfold costOf costOf
    rw [Nat.add_left_comm]
  | trans _ _ hLeft hRight => rw [hLeft, hRight]

theorem capped_capped (x y z : ℕ) :
    capped top (capped top x y) z = capped top x (y + z) := by
  unfold capped
  omega

theorem spend_eq
    (hUsed : used ≤ top) (items : List α) :
    spend cost top used items = capped top used (costOf cost items) := by
  induction items generalizing used with
  | nil =>
    unfold spend capped costOf
    simp [hUsed]
  | cons a rest ih =>
    have hNext : capped top used (cost a) ≤ top := min_le_right _ _
    have hRest := ih hNext
    rw [capped_capped] at hRest
    exact hRest

theorem fill_sublist (used : ℕ) (items : List α) :
    (fill cost top budget used items).Sublist items := by
  induction items generalizing used with
  | nil => exact List.Sublist.refl _
  | cons a rest ih =>
    unfold fill
    split
    · exact (ih _).cons_cons a
    · exact (ih _).cons a

/- What is taken stays within a budget that is not used up. -/
theorem capped_fill_le
    (hUsed : capped top used 0 ≤ budget) (items : List α) :
    capped top used
      (costOf cost (fill cost top budget used items)) ≤
        budget := by
  induction items generalizing used with
  | nil => exact hUsed
  | cons a rest ih =>
    unfold fill
    split
    next hFits =>
      have hNext :
          capped top (capped top used (cost a)) 0 ≤
            budget := by
        rw [capped_capped, Nat.add_zero]
        exact hFits
      have hRest := ih hNext
      rw [capped_capped] at hRest
      exact hRest
    next hFull => exact ih hUsed

/- Nothing fits a budget that is used up. -/
theorem fill_eq_nil
    (hUsed : used ≤ top) (hOver : budget < used) (items : List α) :
    fill cost top budget used items = [] := by
  induction items with
  | nil => rfl
  | cons a rest ih =>
    have hFull : ¬capped top used (cost a) ≤ budget := by
      unfold capped
      omega
    unfold fill
    rw [if_neg hFull]
    exact ih

-- Most Items

theorem capped_mono {x y : ℕ} (hLe : x ≤ y) :
    capped top used x ≤ capped top used y := by
  unfold capped
  omega

/-
  No choice within the budget has more items: a choice that
  leaves out the cheapest item may swap its first for it.
-/
theorem length_le_fill
    (hSorted : items.Pairwise (fun a b => cost a ≤ cost b))
    (hSome : some_.Sublist items)
    (hFits : capped top used (costOf cost some_) ≤ budget) :
    some_.length ≤ (fill cost top budget used items).length := by
  induction items generalizing used some_ with
  | nil =>
    rw [List.sublist_nil.mp hSome]
    exact Nat.zero_le _
  | cons a rest ih =>
    rw [List.pairwise_cons] at hSorted
    rcases hSorted with ⟨hCheapest, hRest⟩
    unfold fill
    cases hSome with
    | cons _ hRestSome =>
      split
      next hTaken =>
        cases some_ with
        | nil => exact Nat.zero_le _
        | cons b others =>
          have hb := hCheapest b (hRestSome.subset List.mem_cons_self)
          have hOthers := (List.sublist_cons_self b others).trans hRestSome
          unfold costOf at hFits
          have hSwap :
              capped top (capped top used (cost a))
                (costOf cost others) ≤ budget := by
            rw [capped_capped]
            exact (capped_mono (by omega)).trans hFits
          have hLength := ih hRest hOthers hSwap
          rw [List.length_cons, List.length_cons]
          omega
      next hFull => exact ih hRest hRestSome hFits
    | cons_cons _ hOthers =>
      unfold costOf at hFits
      have hHead : capped top used (cost a) ≤ budget :=
        (capped_mono (Nat.le_add_right _ _)).trans hFits
      rw [if_pos hHead, List.length_cons, List.length_cons]
      rw [← capped_capped] at hFits
      exact Nat.succ_le_succ (ih hRest hOthers hFits)

/- The same for a choice from the items in any order. -/
theorem length_le_fill_of_perm
    {unsorted : List α}
    (hSorted : items.Pairwise (fun a b => cost a ≤ cost b))
    (hPerm : unsorted.Perm items) (hSome : some_.Sublist unsorted)
    (hFits : capped top used (costOf cost some_) ≤ budget) :
    some_.length ≤ (fill cost top budget used items).length := by
  have hSubperm : some_.Subperm items := hSome.subperm.trans hPerm.subperm
  rcases hSubperm with ⟨chosen, hChosen, hSublist⟩
  rw [← costOf_perm hChosen] at hFits
  rw [← hChosen.length_eq]
  exact length_le_fill hSorted hSublist hFits

end Base
