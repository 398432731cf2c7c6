import Mathlib.Data.Finset.Card
import Mathlib.Data.Finset.Insert
import Mathlib.Data.Fintype.Card
import Mathlib.Logic.Relation

/-
  Parents: from each point to at most one other, followed
  until there is none.

  A walk is given fuel. It ends where no point is its own
  ancestor, and then more fuel changes nothing.
-/

-- The walk to the root

namespace Base

variable {α : Type}

/- `o` and its ancestors; none when the fuel runs out. -/
def ancestors (next : α → Option α) :
    ℕ → Option α → Option (List α)
| _, none => some []
| 0, some _ => none
| fuel + 1, some a =>
  (ancestors next fuel (next a)).map (a :: ·)

/- `b` is above `a`: its parent, or above that. -/
def Above (next : α → Option α) : α → α → Prop :=
  Relation.TransGen fun a b => next a = some b

variable {next : α → Option α}
variable {fuel : ℕ}
variable {a b : α}
variable {o : Option α}
variable {l : List α}

/- Something is above `a` iff it is its parent or above it. -/
theorem above_iff :
    Above next a b ↔ ∃ p, next a = some p ∧ (b = p ∨ Above next p b) := by
  constructor
  · intro hAbove
    rcases Relation.TransGen.head'_iff.1 hAbove with ⟨p, hParent, hRest⟩
    refine ⟨p, hParent, ?_⟩
    rcases Relation.reflTransGen_iff_eq_or_transGen.1 hRest with
      hSame | hAbove
    · exact .inl hSame
    · exact .inr hAbove
  · rintro ⟨p, hParent, rfl | hAbove⟩
    · exact Relation.TransGen.single hParent
    · exact Relation.TransGen.head hParent hAbove

/- The walk from the parent of `a` has what is above `a`. -/
theorem mem_ancestors_iff
    (hWalk : ancestors next fuel (next a) = some l) :
    b ∈ l ↔ Above next a b := by
  induction fuel generalizing a l with
  | zero =>
    cases hParent : next a with
    | none =>
      rw [hParent] at hWalk
      cases hWalk
      rw [above_iff]
      simp [hParent]
    | some p =>
      rw [hParent] at hWalk
      cases hWalk
  | succ fuel ih =>
    cases hParent : next a with
    | none =>
      rw [hParent] at hWalk
      cases hWalk
      rw [above_iff]
      simp [hParent]
    | some p =>
      rw [hParent] at hWalk
      rcases Option.map_eq_some_iff.1 hWalk with ⟨rest, hRest, rfl⟩
      rw [above_iff, List.mem_cons, ih hRest]
      constructor
      · exact fun hMem => ⟨p, hParent, hMem⟩
      · rintro ⟨q, hSame, hMem⟩
        rw [hParent] at hSame
        cases hSame
        exact hMem

/- Where no point is above itself a walk has no repetition. -/
theorem nodup_ancestors
    (hAcyclic : ∀ a, ¬ Above next a a)
    (hWalk : ancestors next fuel o = some l) :
    l.Nodup := by
  induction fuel generalizing o l with
  | zero =>
    cases o with
    | none =>
      cases hWalk
      exact List.nodup_nil
    | some a => cases hWalk
  | succ fuel ih =>
    cases o with
    | none =>
      cases hWalk
      exact List.nodup_nil
    | some a =>
      rcases Option.map_eq_some_iff.1 hWalk with ⟨rest, hRest, rfl⟩
      refine List.nodup_cons.2 ⟨?_, ih hRest⟩
      rw [mem_ancestors_iff hRest]
      exact hAcyclic a

/- Each step of a walk finds a point not found before. -/
theorem ancestors_isSome_of_seen
    [Fintype α] [DecidableEq α]
    (hAcyclic : ∀ a, ¬ Above next a a) (seen : Finset α)
    (hSeen : ∀ x ∈ seen, ∀ a, o = some a → Above next x a)
    (hFuel : Fintype.card α ≤ fuel + seen.card) :
    (ancestors next fuel o).isSome := by
  induction fuel generalizing o seen with
  | zero =>
    cases o with
    | none => rfl
    | some a =>
      have hAll : seen = Finset.univ := by
        apply Finset.eq_univ_of_card
        have hLe := Finset.card_le_univ seen
        omega
      have hSelf := hSeen a (hAll ▸ Finset.mem_univ a) a rfl
      exact absurd hSelf (hAcyclic a)
  | succ fuel ih =>
    cases o with
    | none => rfl
    | some a =>
      have hNew : a ∉ seen := fun hMem =>
        hAcyclic a (hSeen a hMem a rfl)
      have hRest := ih (o := next a) (insert a seen) ?_ ?_
      · unfold ancestors
        rw [Option.isSome_map]
        exact hRest
      · intro x hMem p hParent
        rcases Finset.mem_insert.1 hMem with rfl | hOld
        · exact Relation.TransGen.single hParent
        · exact Relation.TransGen.tail (hSeen x hOld a rfl) hParent
      · rw [Finset.card_insert_of_notMem hNew]
        omega

/- As much fuel as there are points is enough. -/
theorem ancestors_isSome
    [Fintype α] [DecidableEq α] (hAcyclic : ∀ a, ¬ Above next a a)
    (hFuel : Fintype.card α ≤ fuel) (o : Option α) :
    (ancestors next fuel o).isSome :=
  ancestors_isSome_of_seen hAcyclic ∅ (by simp) (by simpa)

-- The search for a cycle

/- Whether the walk comes back to a point it has seen. -/
def revisits [DecidableEq α] (next : α → Option α) :
    ℕ → Finset α → Option α → Option Bool
| _, _, none => some false
| 0, _, some _ => none
| fuel + 1, seen, some a =>
  if a ∈ seen then some true
  else revisits next fuel (insert a seen) (next a)

variable [DecidableEq α]
variable {seen : Finset α}

/- A walk that does not come back reaches its end. -/
theorem ancestors_of_revisits
    (hEnds : revisits next fuel seen o = some false) :
    ∃ l, ancestors next fuel o = some l ∧ l.Nodup ∧ ∀ x ∈ l, x ∉ seen := by
  induction fuel generalizing seen o with
  | zero =>
    cases o with
    | none => exact ⟨[], rfl, List.nodup_nil, by simp⟩
    | some a => cases hEnds
  | succ fuel ih =>
    cases o with
    | none => exact ⟨[], rfl, List.nodup_nil, by simp⟩
    | some a =>
      unfold revisits at hEnds
      split at hEnds
      next => cases hEnds
      next hNew =>
        rcases ih hEnds with ⟨rest, hRest, hNodup, hApart⟩
        refine ⟨a :: rest, ?_, ?_, ?_⟩
        · unfold ancestors
          rw [hRest]
          rfl
        · refine List.nodup_cons.2 ⟨?_, hNodup⟩
          intro hMem
          exact hApart a hMem (Finset.mem_insert_self a _)
        · intro x hMem
          rcases List.mem_cons.1 hMem with rfl | hOld
          · exact hNew
          · exact fun hSeen => hApart x hOld (Finset.mem_insert_of_mem hSeen)

theorem not_above_self_of_revisits
    (hEnds : revisits next fuel seen (some a) = some false) :
    ¬ Above next a a := by
  rcases ancestors_of_revisits hEnds with ⟨l, hWalk, hNodup, -⟩
  cases fuel with
  | zero => cases hWalk
  | succ fuel =>
    rcases Option.map_eq_some_iff.1 hWalk with ⟨rest, hRest, rfl⟩
    rw [← mem_ancestors_iff hRest]
    exact (List.nodup_cons.1 hNodup).1

end Base
