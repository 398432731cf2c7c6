import Mathlib.Logic.Relation

/-
  Runs of a system whose steps carry labels.

  A label says which operation runs and what it sees of the
  world; `allowed` limits the labels a run may use from a
  state.
-/

namespace Base

variable {σ ι : Type}

/- One step under a label that `allowed` admits. -/
def StepBy
    (step : σ → ι → σ) (allowed : σ → ι → Prop) (s t : σ) :
    Prop :=
  ∃ l, allowed s l ∧ t = step s l

/- `t` is reached from `s` by finitely many allowed steps. -/
def Reaches
    (step : σ → ι → σ) (allowed : σ → ι → Prop) :
    σ → σ → Prop :=
  Relation.ReflTransGen (StepBy step allowed)

namespace Reaches

variable {step : σ → ι → σ}
variable {allowed allowed' : σ → ι → Prop}
variable {s t u : σ}

theorem refl (s : σ) : Reaches step allowed s s :=
  Relation.ReflTransGen.refl

theorem tail
    (hRun : Reaches step allowed s t) (l : ι) (hAllowed : allowed t l) :
    Reaches step allowed s (step t l) :=
  Relation.ReflTransGen.tail hRun ⟨l, hAllowed, rfl⟩

theorem trans
    (hLeft : Reaches step allowed s t) (hRight : Reaches step allowed t u) :
    Reaches step allowed s u :=
  Relation.ReflTransGen.trans hLeft hRight

/- Labels that are allowed everywhere may run in a row. -/
theorem foldl
    (labels : List ι) (hAllowed : ∀ s, ∀ l ∈ labels, allowed s l) (s : σ) :
    Reaches step allowed s (labels.foldl step s) := by
  induction labels generalizing s with
  | nil => exact refl s
  | cons l labels ih =>
    have hFirst : Reaches step allowed s (step s l) :=
      (refl s).tail l (hAllowed s l List.mem_cons_self)
    refine hFirst.trans (ih ?_ (step s l))
    intro t m hMem
    exact hAllowed t m (List.mem_cons_of_mem l hMem)

/- What every allowed step keeps holds of every state reached. -/
theorem invariant
    (Inv : σ → Prop) (hStep : ∀ s l, Inv s → allowed s l → Inv (step s l))
    (hRun : Reaches step allowed s t) (hStart : Inv s) :
    Inv t := by
  induction hRun with
  | refl => exact hStart
  | tail _ hLast ih =>
    rcases hLast with ⟨l, hAllowed, rfl⟩
    exact hStep _ l ih hAllowed

/- A run may use any label a weaker guard admits. -/
theorem mono
    (hWeaker : ∀ s l, allowed s l → allowed' s l)
    (hRun : Reaches step allowed s t) :
    Reaches step allowed' s t := by
  induction hRun with
  | refl => exact refl _
  | tail _ hLast ih =>
    rcases hLast with ⟨l, hAllowed, rfl⟩
    exact ih.tail l (hWeaker _ _ hAllowed)

end Reaches

-- Runs as lists of labels

/- Each label is allowed where it runs. -/
def Admits
    (step : σ → ι → σ) (allowed : σ → ι → Prop) :
    σ → List ι → Prop
| _, [] => True
| s, l :: rest => allowed s l ∧ Admits step allowed (step s l) rest

namespace Admits

variable {step : σ → ι → σ}
variable {allowed allowed' : σ → ι → Prop}
variable {s : σ} {labels : List ι}

theorem and
    (hLeft : Admits step allowed s labels)
    (hRight : Admits step allowed' s labels) :
    Admits step (fun s l => allowed s l ∧ allowed' s l) s labels := by
  induction labels generalizing s with
  | nil => exact trivial
  | cons l labels ih => exact ⟨⟨hLeft.1, hRight.1⟩, ih hLeft.2 hRight.2⟩

theorem invariant
    (Inv : σ → Prop) (hStep : ∀ s l, Inv s → allowed s l → Inv (step s l))
    (hRun : Admits step allowed s labels) (hStart : Inv s) :
    Inv (labels.foldl step s) := by
  induction labels generalizing s with
  | nil => exact hStart
  | cons l labels ih => exact ih hRun.2 (hStep s l hStart hRun.1)

theorem mono
    (hWeaker : ∀ s l, allowed s l → allowed' s l)
    (hRun : Admits step allowed s labels) :
    Admits step allowed' s labels := by
  induction labels generalizing s with
  | nil => exact trivial
  | cons l labels ih => exact ⟨hWeaker s l hRun.1, ih hRun.2⟩

theorem of_forall
    (hAllowed : ∀ s, ∀ l ∈ labels, allowed s l) (s : σ) :
    Admits step allowed s labels := by
  induction labels generalizing s with
  | nil => exact trivial
  | cons l labels ih =>
    refine ⟨hAllowed s l List.mem_cons_self, ih ?_ _⟩
    intro t m hMem
    exact hAllowed t m (List.mem_cons_of_mem l hMem)

theorem foldl_of_done
    {Done : σ → Prop} (hDone : ∀ s l, Done s → Done (step s l))
    (hStart : Done s) :
    Done (labels.foldl step s) := by
  induction labels generalizing s with
  | nil => exact hStart
  | cons l labels ih => exact ih (hDone s l hStart)

/- A measure that each step raises counts the steps. -/
theorem done_or_measure
    (Done : σ → Prop) (μ : σ → Nat) (hDone : ∀ s l, Done s → Done (step s l))
    (hStep : ∀ s l, Done (step s l) ∨ μ (step s l) = μ s + 1)
    (s : σ) (labels : List ι) :
    Done (labels.foldl step s) ∨
      μ (labels.foldl step s) = μ s + labels.length := by
  induction labels generalizing s with
  | nil => exact Or.inr rfl
  | cons l labels ih =>
    rw [List.foldl_cons]
    rcases hStep s l with hEnd | hRaise
    · exact Or.inl (foldl_of_done hDone hEnd)
    · rcases ih (step s l) with hEnd | hCount
      · exact Or.inl hEnd
      · refine Or.inr ?_
        rw [hCount, hRaise, List.length_cons]
        omega

end Admits

end Base
