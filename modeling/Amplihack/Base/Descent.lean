import Mathlib.Data.Finset.Card
import Mathlib.Data.Finset.Image
import Mathlib.Order.Interval.Finset.Nat
import Mathlib.Data.Finset.Lattice.Basic

/-
  Sequences that stay, or move down a rank.

  Sets that grow within finitely many points until a pass
  adds nothing.
-/

-- Ranked Sequences

namespace Base

variable {σ : Type}

/- Each step stays where it is, or lowers the rank. -/
def Descends (rank : σ → ℕ) (run : ℕ → σ) : Prop :=
  ∀ n, run (n + 1) = run n ∨ rank (run (n + 1)) < rank (run n)

namespace Descends

variable {rank : σ → ℕ} {run : ℕ → σ}

theorem le_or_lt
    (hRun : Descends rank run) {i j : ℕ} (hLe : i ≤ j) :
    run j = run i ∨ rank (run j) < rank (run i) := by
  induction j, hLe using Nat.le_induction with
  | base => exact Or.inl rfl
  | succ j _ ih =>
    rcases hRun j with hStay | hLower
    · rw [hStay]
      exact ih
    · rcases ih with hSame | hBelow
      · rw [hSame] at hLower
        exact Or.inr hLower
      · exact Or.inr (hLower.trans hBelow)

/- What was left is never come back to. -/
theorem no_return
    (hRun : Descends rank run) {i j k : ℕ} (hij : i ≤ j)
    (hjk : j ≤ k) (hReturn : run k = run i) :
    run j = run i := by
  rcases hRun.le_or_lt hij with hSame | hBelow
  · exact hSame
  · rcases hRun.le_or_lt hjk with hSame | hLower
    · rw [← hSame, hReturn]
    · rw [hReturn] at hLower
      omega

/- From some point on the sequence stays. -/
theorem settles (hRun : Descends rank run) :
    ∃ n, ∀ k ≥ n, run k = run n := by
  have hFrom :
      ∀ (r m : ℕ), rank (run m) = r → ∃ n, ∀ k ≥ n, run k = run n := by
    intro r
    induction r using Nat.strong_induction_on with
    | _ r ih =>
      intro m hRank
      by_cases hStays : ∀ k ≥ m, run k = run m
      · exact ⟨m, hStays⟩
      · push Not at hStays
        rcases hStays with ⟨k, hk, hMoved⟩
        have hLower := (hRun.le_or_lt hk).resolve_left hMoved
        exact ih _ (hRank ▸ hLower) k rfl
  exact hFrom _ 0 rfl

variable [DecidableEq σ]

/- The steps among the first `n` that move. -/
def moves (run : ℕ → σ) (n : ℕ) : Finset ℕ :=
  (Finset.range n).filter fun k => run (k + 1) ≠ run k

/- Each move reaches a place not yet visited. -/
theorem card_moves_lt_card_visited
    (hRun : Descends rank run) (n : ℕ) :
    (moves run n).card < ((Finset.range (n + 1)).image run).card := by
  induction n with
  | zero => simp [moves]
  | succ n ih =>
    rw [Finset.range_add_one (n := n + 1), Finset.image_insert]
    have hMoves : moves run (n + 1) =
        if run (n + 1) ≠ run n then
          Insert.insert n (moves run n)
        else moves run n := by
      rw [moves, Finset.range_add_one, Finset.filter_insert]
      rfl
    rw [hMoves]
    split
    · next hMoved =>
        have hFresh : run (n + 1) ∉ (Finset.range (n + 1)).image run := by
          intro hMem
          rcases Finset.mem_image.mp hMem with ⟨i, hi, hEq⟩
          have hi := Finset.mem_range_succ_iff.mp hi
          have hSame := hRun.no_return hi (Nat.le_succ n) hEq.symm
          exact hMoved (hEq.symm.trans hSame.symm)
        have hNew : n ∉ moves run n := by simp [moves]
        rw [Finset.card_insert_of_notMem hFresh,
          Finset.card_insert_of_notMem hNew]
        omega
    · exact ih.trans_le (Finset.card_le_card (Finset.subset_insert _ _))

/- Fewer moves than places. -/
theorem card_moves_lt
    (hRun : Descends rank run) {places : Finset σ}
    (hPlaces : ∀ n, run n ∈ places) (n : ℕ) :
    (moves run n).card < places.card := by
  refine (hRun.card_moves_lt_card_visited n).trans_le ?_
  apply Finset.card_le_card
  intro x hx
  rcases Finset.mem_image.mp hx with ⟨k, _, rfl⟩
  exact hPlaces k

end Descends

end Base

-- Growing Sets

namespace Base

variable {α : Type} [DecidableEq α]

/- A pass that only adds points, of a finite set. -/
structure Growth (α : Type) [DecidableEq α] where
  grow : Finset α → Finset α
  points : Finset α
  subset_grow : ∀ s, s ⊆ grow s
  grow_subset : ∀ s, grow s ⊆ s ∪ points

namespace Growth

variable (g : Growth α)

/- A pass that adds something leaves fewer points to add. -/
theorem card_sdiff_lt
    {s : Finset α} (hMore : (g.grow s).card ≠ s.card) :
    (g.points \ g.grow s).card < (g.points \ s).card := by
  have hNe : s ≠ g.grow s := fun hSame => hMore (by rw [← hSame])
  obtain ⟨a, hNew, hOld⟩ : ∃ a ∈ g.grow s, a ∉ s := by
    by_contra hNone
    push Not at hNone
    exact hNe (Finset.Subset.antisymm (g.subset_grow s) hNone)
  have hPoint : a ∈ g.points :=
    (Finset.mem_union.mp (g.grow_subset s hNew)).resolve_left hOld
  apply Finset.card_lt_card
  rw [Finset.ssubset_iff_of_subset
    (Finset.sdiff_subset_sdiff Finset.Subset.rfl (g.subset_grow s))]
  refine ⟨a, Finset.mem_sdiff.mpr ⟨hPoint, hOld⟩, ?_⟩
  rw [Finset.mem_sdiff]
  exact fun hBoth => hBoth.2 hNew

/- Passes until one adds nothing. -/
def saturate (s : Finset α) : Finset α :=
  if (g.grow s).card = s.card then g.grow s
  else saturate (g.grow s)
termination_by (g.points \ s).card
decreasing_by exact g.card_sdiff_lt ‹_›

theorem eq_grow_of_card
    {s : Finset α} (hSame : (g.grow s).card = s.card) :
    g.grow s = s :=
  (Finset.eq_of_subset_of_card_le (g.subset_grow s) hSame.le).symm

/- What the start has and each pass keeps holds at the end. -/
theorem saturate_induction
    (P : Finset α → Prop) (hGrow : ∀ s, P s → P (g.grow s))
    {s : Finset α} (hStart : P s) :
    P (g.saturate s) := by
  induction s using saturate.induct g with
  | case1 s hSame =>
    rw [saturate, if_pos hSame]
    exact hGrow s hStart
  | case2 s hMore ih =>
    rw [saturate, if_neg hMore]
    exact ih (hGrow s hStart)

theorem subset_saturate (s : Finset α) :
    s ⊆ g.saturate s :=
  g.saturate_induction (s ⊆ ·)
    (fun _ hSubset => hSubset.trans (g.subset_grow _))
    Finset.Subset.rfl

/- A further pass adds nothing. -/
theorem grow_saturate (s : Finset α) :
    g.grow (g.saturate s) = g.saturate s := by
  induction s using saturate.induct g with
  | case1 s hSame =>
    rw [saturate, if_pos hSame, g.eq_grow_of_card hSame]
    exact g.eq_grow_of_card hSame
  | case2 s hMore ih =>
    rw [saturate, if_neg hMore]
    exact ih

end Growth

end Base
