import Mathlib.Data.Finset.Card
import Mathlib.Data.Finset.Insert
import Mathlib.Order.Basic
import Mathlib.Algebra.Group.Defs
import Mathlib.Order.Lattice
import Mathlib.Order.BoundedOrder.Basic
import Mathlib.Algebra.Order.Group.Defs
import Mathlib.Algebra.Order.Sub.Basic
import Mathlib.Data.List.Basic
import Mathlib.Data.List.Induction

/-
  A budget of slots under a ceiling that only falls.

  Holders leave at will. One holder may join when fewer
  than the cap are left. The ceiling, once set, stays set
  and is never raised.

  Numbers up to a cap, whose addition stops at the cap.

  Saturated sums are those of the numbers, cut at the end, so
  they form a commutative monoid. A subtraction stops at 0.

  A cap on the events of any window of time, from a record
  that keeps only the recent ones.
-/

namespace Base

variable {α β : Type}

/- Who holds a slot, and the ceiling in force. -/
structure Budget (α β : Type) where
  holders : Finset α
  ceiling : Option β

namespace Budget

/- A ceiling that is set stays set and does not rise. -/
def Falls [LE β] (before after : Option β) : Prop :=
  ∀ c ∈ before, ∃ c' ∈ after, c' ≤ c

theorem Falls.refl [Preorder β] (c : Option β) :
    Falls c c :=
  fun d hMem => ⟨d, hMem, le_refl d⟩

theorem Falls.trans
    [Preorder β] {c d e : Option β} (hLeft : Falls c d) (hRight : Falls d e) :
    Falls c e := by
  intro x hMem
  rcases hLeft x hMem with ⟨y, hMemY, hLeY⟩
  rcases hRight y hMemY with ⟨z, hMemZ, hLeZ⟩
  exact ⟨z, hMemZ, le_trans hLeZ hLeY⟩

/- What one step may do to a budget of `cap` slots. -/
inductive Step [DecidableEq α] [LE β] (cap : ℕ) :
    Budget α β → Budget α β → Prop
| leave {s t : Budget α β} :
    t.holders ⊆ s.holders →
    Falls s.ceiling t.ceiling →
    Step cap s t
| join {s t : Budget α β} (a : α) (kept : Finset α) :
    kept ⊆ s.holders →
    kept.card < cap →
    t.holders ⊆ insert a kept →
    Falls s.ceiling t.ceiling →
    Step cap s t

namespace Step

variable [DecidableEq α]
variable {cap : ℕ} {s t : Budget α β}

/- No step lets more than the cap hold a slot. -/
theorem card_le
    [LE β] (hStep : Step cap s t) (hCap : s.holders.card ≤ cap) :
    t.holders.card ≤ cap := by
  cases hStep with
  | leave hSub _ => exact (Finset.card_le_card hSub).trans hCap
  | join a kept _ hRoom hSub _ =>
    calc t.holders.card ≤ (insert a kept).card :=
        Finset.card_le_card hSub
      _ ≤ kept.card + 1 := Finset.card_insert_le a kept
      _ ≤ cap := hRoom

theorem falls
    [LE β] (hStep : Step cap s t) :
    Falls s.ceiling t.ceiling := by
  cases hStep with
  | leave _ hFalls => exact hFalls
  | join _ _ _ _ _ hFalls => exact hFalls

end Step

end Budget

end Base

-- Capped numbers

namespace Base

/- A number that is at most `cap`. -/
structure Capped (cap : ℕ) where
  val : ℕ
  le_cap : val ≤ cap
deriving DecidableEq

namespace Capped

variable {cap : ℕ}
variable {a b c : Capped cap}

@[ext]
theorem ext (hVal : a.val = b.val) : a = b := by
  cases a
  cases b
  cases hVal
  rfl

theorem val_injective :
    Function.Injective (Capped.val : Capped cap → ℕ) :=
  fun _ _ => ext

/- The closest number that is not over the cap. -/
def ofNat (cap n : ℕ) : Capped cap where
  val := min n cap
  le_cap := Nat.min_le_right n cap

instance : Zero (Capped cap) := ⟨⟨0, Nat.zero_le cap⟩⟩

instance : Add (Capped cap) :=
  ⟨fun a b => ofNat cap (a.val + b.val)⟩

instance : Sub (Capped cap) :=
  ⟨fun a b =>
    ⟨a.val - b.val, (Nat.sub_le _ _).trans a.le_cap⟩⟩

instance : LinearOrder (Capped cap) :=
  LinearOrder.lift' Capped.val val_injective

instance : OrderBot (Capped cap) where
  bot := 0
  bot_le a := Nat.zero_le a.val

instance : Inhabited (Capped cap) := ⟨0⟩

@[simp]
theorem val_zero : (0 : Capped cap).val = 0 :=
  rfl

@[simp]
theorem val_bot : (⊥ : Capped cap).val = 0 :=
  rfl

@[simp]
theorem val_ofNat (n : ℕ) : (ofNat cap n).val = min n cap :=
  rfl

@[simp]
theorem val_add : (a + b).val = min (a.val + b.val) cap :=
  rfl

@[simp]
theorem val_sub : (a - b).val = a.val - b.val :=
  rfl

theorem le_iff : a ≤ b ↔ a.val ≤ b.val :=
  Iff.rfl

theorem lt_iff : a < b ↔ a.val < b.val :=
  Iff.rfl

/- A sum that is cut twice is cut once. -/
instance : AddCommMonoid (Capped cap) where
  add_assoc a b c := by
    ext
    simp only [val_add]
    omega
  zero_add a := by
    ext
    have hCap := a.le_cap
    simp only [val_add, val_zero]
    omega
  add_zero a := by
    ext
    have hCap := a.le_cap
    simp only [val_add, val_zero]
    omega
  add_comm a b := by
    ext
    simp only [val_add, Nat.add_comm]
  nsmul := nsmulRec

end Capped

end Base

-- Recent Times

namespace Base

variable {α : Type}
variable [AddCommGroup α] [LinearOrder α]
variable {w m n : α} {times past : List α}

/- The times less than `w` before `n`. -/
def recentOf (w n : α) (times : List α) : List α :=
  times.filter (n - · < w)

/-
  The record has a time that none of the past ones is after,
  and all that were recent then.
-/
def Covers (w : α) (times past : List α) : Prop :=
  past = [] ∨ ∃ m ∈ times, (∀ t ∈ past, t ≤ m) ∧
    (recentOf w m past).Sublist times

section Ordered

variable [IsOrderedAddMonoid α]

/- What is recent later on was recent before. -/
theorem recentOf_sublist
    (hLe : m ≤ n) (past : List α) :
    recentOf w n past = recentOf w n (recentOf w m past) := by
  rw [recentOf, recentOf, recentOf, List.filter_filter]
  refine List.filter_congr fun t _ => ?_
  by_cases hRecent : n - t < w
  · simp [hRecent, (sub_le_sub_right hLe t).trans_lt hRecent]
  · simp [hRecent]

/- The past times that are recent now are in the record. -/
theorem Covers.recentOf_sublist
    (hCovers : Covers w times past) (hLe : ∀ t ∈ times, t ≤ n) :
    (recentOf w n past).Sublist (recentOf w n times) := by
  rcases hCovers with rfl | ⟨m, hm, _, hSublist⟩
  · exact List.nil_sublist _
  · rw [Base.recentOf_sublist (hLe m hm)]
    exact hSublist.filter _

omit [IsOrderedAddMonoid α] in
theorem Covers.past_le
    (hCovers : Covers w times past) (hLe : ∀ t ∈ times, t ≤ n) :
    ∀ t ∈ past, t ≤ n := by
  rcases hCovers with rfl | ⟨m, hm, hPast, _⟩
  · simp
  · exact fun t ht => (hPast t ht).trans (hLe m hm)

/- A time written that no event came of. -/
theorem Covers.keep
    (hCovers : Covers w times past) (hLe : ∀ t ∈ times, t ≤ n) :
    Covers w (recentOf w n times ++ [n]) past :=
  Or.inr ⟨n, by simp, hCovers.past_le hLe,
    (hCovers.recentOf_sublist hLe).trans (List.sublist_append_left _ _)⟩

/- A time written for an event. -/
theorem Covers.push
    (hCovers : Covers w times past) (hLe : ∀ t ∈ times, t ≤ n) :
    Covers w (recentOf w n times ++ [n]) (past ++ [n]) := by
  refine Or.inr ⟨n, by simp, ?_, ?_⟩
  · intro t ht
    rcases List.mem_append.mp ht with hPast | hNew
    · exact hCovers.past_le hLe t hPast
    · exact (List.mem_singleton.mp hNew).le
  · rw [recentOf, List.filter_append]
    exact (hCovers.recentOf_sublist hLe).append List.filter_sublist

end Ordered

-- Windows

/- A member of a list with one more is that one or earlier. -/
theorem last_or_earlier
    {β : Type} {l pre post : List β} {a b : β}
    (hSplit : l ++ [b] = pre ++ a :: post) :
    (pre = l ∧ a = b ∧ post = []) ∨
      ∃ rest, post = rest ++ [b] ∧ l = pre ++ a :: rest := by
  rcases List.eq_nil_or_concat post with
    rfl | ⟨rest, x, rfl⟩
  · rcases List.append_inj' hSplit rfl with ⟨rfl, hLast⟩
    exact Or.inl ⟨rfl, (List.singleton_inj.mp hLast).symm, rfl⟩
  · rw [List.concat_eq_append, ← List.cons_append,
      ← List.append_assoc] at hSplit
    rcases List.append_inj' hSplit rfl with ⟨hPast, hLast⟩
    rw [← List.singleton_inj.mp hLast]
    exact Or.inr ⟨rest, List.concat_eq_append, hPast⟩

/- Fewer than `cap` of the times before each are recent. -/
def Spaced (w : α) (cap : ℕ) (times : List α) : Prop :=
  ∀ pre n post, times = pre ++ n :: post → (recentOf w n pre).length < cap

theorem Spaced.push
    {cap : ℕ} (hSpaced : Spaced w cap past)
    (hRecent : (recentOf w n past).length < cap) :
    Spaced w cap (past ++ [n]) := by
  intro pre m post hSplit
  rcases last_or_earlier hSplit with ⟨rfl, rfl, _⟩ | ⟨rest, _, hPast⟩
  · exact hRecent
  · exact hSpaced pre m rest hPast

theorem Spaced.of_append
    {cap : ℕ} (hSpaced : Spaced w cap (past ++ times)) :
    Spaced w cap past := by
  rintro pre m post rfl
  exact hSpaced pre m (post ++ times) (by simp)

/- No window of time has more than `cap` of the times. -/
theorem Spaced.length_window_le
    [IsOrderedAddMonoid α] {cap : ℕ} (hSpaced : Spaced w cap past)
    (hSorted : past.Pairwise (· ≤ ·)) (a : α) :
    (past.filter fun t => a ≤ t ∧ t < a + w).length ≤ cap := by
  induction past using List.reverseRecOn with
  | nil => exact Nat.zero_le cap
  | append_singleton past n ih =>
    rw [List.pairwise_append] at hSorted
    rw [List.filter_append]
    by_cases hInside : a ≤ n ∧ n < a + w
    · have hRecent : (recentOf w n past).length < cap :=
        hSpaced past n [] rfl
      have hSublist :
          (past.filter fun t => a ≤ t ∧ t < a + w).Sublist
            (recentOf w n past) := by
        refine List.monotone_filter_right past ?_
        intro t ht
        simp only [decide_eq_true_eq] at ht ⊢
        rw [sub_lt_iff_lt_add]
        exact hInside.2.trans_le
          (by rw [add_comm]; exact add_le_add_right ht.1 w)
      have hLength := hSublist.length_le
      simp only [hInside, and_self, decide_true, List.filter_cons_of_pos,
        List.filter_nil, List.length_append, List.length_singleton]
      omega
    · simp only [hInside, decide_false, Bool.false_eq_true, not_false_eq_true,
        List.filter_cons_of_neg, List.filter_nil, List.append_nil]
      exact ih hSpaced.of_append hSorted.1

end Base
