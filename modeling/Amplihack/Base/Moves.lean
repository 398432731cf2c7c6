import Mathlib.Data.Set.Defs
import Mathlib.Logic.ExistsUnique
import Mathlib.Logic.Function.Basic

/-
  Items that are moved between places.

  A move goes to an empty place and an exchange swaps two
  places, so no item is lost, duplicated or overwritten.
-/

-- Moves and exchanges

namespace Base

variable {Place Item : Type}

section Moves

variable [DecidableEq Place]

/- What lies at `src` goes to `dst`. -/
def moved (held : Place → Option Item) (src dst : Place) :
    Place → Option Item :=
  Function.update (Function.update held dst (held src)) src none

variable {held : Place → Option Item}
variable {src dst p q : Place}

@[simp]
theorem moved_src : moved held src dst src = none := by
  simp [moved]

theorem moved_dst (hApart : src ≠ dst) :
    moved held src dst dst = held src := by
  simp [moved, hApart.symm]

theorem moved_other (hSrc : p ≠ src) (hDst : p ≠ dst) :
    moved held src dst p = held p := by
  simp [moved, hSrc, hDst]

/- An item lies where it was, or has gone to `dst`. -/
theorem moved_eq_some_iff
    {x : Item} (hApart : src ≠ dst) :
    moved held src dst p = some x ↔
      p = dst ∧ held src = some x ∨ p ≠ src ∧ p ≠ dst ∧ held p = some x := by
  by_cases hDst : p = dst
  · subst hDst
    simp [moved_dst hApart]
  · by_cases hSrc : p = src
    · subst hSrc
      simp [hDst]
    · simp [moved_other hSrc hDst, hSrc, hDst]

/- A move to an empty place can be undone. -/
theorem moved_back
    (hApart : src ≠ dst) (hEmpty : held dst = none) :
    moved (moved held src dst) dst src = held := by
  funext p
  by_cases hSrc : p = src
  · subst hSrc
    rw [moved_dst hApart.symm, moved_dst hApart]
  · by_cases hDst : p = dst
    · subst hDst
      rw [moved_src, hEmpty]
    · rw [moved_other hDst hSrc, moved_other hSrc hDst]

end Moves

-- One place for each item

/- Each of the items lies in one place, and no other item. -/
structure OneEach
    (items : Set Item) (held : Place → Option Item) :
    Prop where
  some_place : ∀ x ∈ items, ∃ p, held p = some x
  one_place : ∀ x p q, held p = some x → held q = some x → p = q
  listed : ∀ x p, held p = some x → x ∈ items

namespace OneEach

variable {items : Set Item}
variable {held : Place → Option Item}

theorem unique_place
    {x : Item} (hEach : OneEach items held) (hItem : x ∈ items) :
    ∃! p, held p = some x := by
  rcases hEach.some_place x hItem with ⟨p, hHeld⟩
  exact ⟨p, hHeld, fun q hq => hEach.one_place x q p hq hHeld⟩

variable [DecidableEq Place]
variable {src dst p q : Place}

theorem moved
    (hEach : OneEach items held) (hApart : src ≠ dst)
    (hEmpty : held dst = none) :
    OneEach items (moved held src dst) where
  some_place := by
    intro x hItem
    rcases hEach.some_place x hItem with ⟨p, hHeld⟩
    by_cases hSrc : p = src
    · refine ⟨dst, (moved_eq_some_iff hApart).2 (.inl ⟨rfl, ?_⟩)⟩
      rw [← hSrc]
      exact hHeld
    · have hDst : p ≠ dst := by
        intro hSame
        rw [hSame, hEmpty] at hHeld
        cases hHeld
      exact ⟨p, (moved_eq_some_iff hApart).2 (.inr ⟨hSrc, hDst, hHeld⟩)⟩
  one_place := by
    intro x p q hp hq
    rw [moved_eq_some_iff hApart] at hp hq
    rcases hp with ⟨rfl, hp⟩ | ⟨hpSrc, -, hp⟩
    · rcases hq with ⟨rfl, -⟩ | ⟨hqSrc, -, hq⟩
      · rfl
      · exact absurd (hEach.one_place x q src hq hp) hqSrc
    · rcases hq with ⟨rfl, hq⟩ | ⟨-, -, hq⟩
      · exact absurd (hEach.one_place x p src hp hq) hpSrc
      · exact hEach.one_place x p q hp hq
  listed := by
    intro x p hHeld
    rcases (moved_eq_some_iff hApart).1 hHeld with ⟨-, hSrc⟩ | ⟨-, -, hOther⟩
    · exact hEach.listed x src hSrc
    · exact hEach.listed x p hOther

end OneEach

end Base
