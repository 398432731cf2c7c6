import Mathlib.Data.List.Basic

/-
  A loop that visits the elements of a list in order, changes
  each of them, and carries a state from one to the next.

  Every visit has an input of its own, `inputs k` for the
  element at position `k`: what the visit sees of the world.
-/

-- Sweeps

namespace Base

variable {ε α σ : Type}

def sweep
    (visit : ε → α → σ → α × σ) (inputs : Nat → ε) :
    Nat → List α → σ → List α × σ
| _, [], s => ([], s)
| k, a :: rest, s =>
  let visited := visit (inputs k) a s
  let swept := sweep visit inputs (k + 1) rest visited.2
  (visited.1 :: swept.1, swept.2)

variable {visit : ε → α → σ → α × σ}
variable {inputs : Nat → ε}

theorem sweep_nil (k : Nat) (s : σ) :
    sweep visit inputs k [] s = ([], s) :=
  rfl

theorem sweep_cons (k : Nat) (a : α) (rest : List α) (s : σ) :
    sweep visit inputs k (a :: rest) s =
      ((visit (inputs k) a s).1 ::
          (sweep visit inputs (k + 1) rest (visit (inputs k) a s).2).1,
        (sweep visit inputs (k + 1) rest (visit (inputs k) a s).2).2) :=
  rfl

@[simp]
theorem length_sweep (as : List α) :
    ∀ (k : Nat) (s : σ),
      (sweep visit inputs k as s).1.length = as.length := by
  induction as with
  | nil =>
    intro k s
    rfl
  | cons a rest ih =>
    intro k s
    rw [sweep_cons, List.length_cons, List.length_cons, ih]

/- A sweep of two lists in a row sweeps one, then the other. -/
theorem sweep_append (as bs : List α) :
    ∀ (k : Nat) (s : σ),
      sweep visit inputs k (as ++ bs) s =
        ((sweep visit inputs k as s).1 ++
            (sweep visit inputs (k + as.length) bs
              (sweep visit inputs k as s).2).1,
          (sweep visit inputs (k + as.length) bs
            (sweep visit inputs k as s).2).2) := by
  induction as with
  | nil =>
    intro k s
    rfl
  | cons a rest ih =>
    intro k s
    rw [List.cons_append, sweep_cons, ih, sweep_cons,
      List.length_cons, List.cons_append]
    rw [Nat.add_assoc, Nat.add_comm 1]

/- The state in which a sweep visits position `j`. -/
def sweptTo
    (visit : ε → α → σ → α × σ) (inputs : Nat → ε) (k : Nat)
    (as : List α) (s : σ) (j : Nat) :
    σ :=
  (sweep visit inputs k (as.take j) s).2

variable {as : List α} {j : Nat} {a : α}

theorem take_split
    (hAt : as[j]? = some a) :
    ∃ rest, as = as.take j ++ a :: rest ∧ (as.take j).length = j := by
  rcases List.getElem?_eq_some_iff.mp hAt with ⟨hLt, hGet⟩
  refine ⟨as.drop (j + 1), ?_, ?_⟩
  · rw [← hGet, List.getElem_cons_drop, List.take_append_drop]
  · rw [List.length_take]
    omega

/- A visit leaves its result at its position. -/
theorem getElem?_sweep
    (k : Nat) (s : σ) (hAt : as[j]? = some a) :
    (sweep visit inputs k as s).1[j]? =
      some (visit (inputs (k + j)) a (sweptTo visit inputs k as s j)).1 := by
  rcases take_split hAt with ⟨rest, hSplit, hLength⟩
  rw [sweptTo]
  generalize as.take j = before at hSplit hLength
  subst hSplit
  rw [sweep_append, sweep_cons,
    List.getElem?_append_right (by simp [hLength])]
  simp [hLength]

variable {k : Nat} {b : α} {s : σ}

/- What a sweep leaves at a position, a visit left there. -/
theorem getElem?_of_sweep
    (hAt : (sweep visit inputs k as s).1[j]? = some b) :
    ∃ a, as[j]? = some a ∧
      b = (visit (inputs (k + j)) a (sweptTo visit inputs k as s j)).1 := by
  have hLt : j < as.length := by
    rcases List.getElem?_eq_some_iff.mp hAt with ⟨hLt, _⟩
    rwa [length_sweep] at hLt
  have hSome : as[j]? = some as[j] := List.getElem?_eq_getElem hLt
  rw [getElem?_sweep k s hSome] at hAt
  exact ⟨as[j], hSome, (Option.some.inj hAt).symm⟩

/- What each visit keeps holds of the state at the end. -/
theorem sweep_state
    (Inv : Nat → σ → Prop)
    (hVisit : ∀ j a s, a ∈ as → Inv j s →
      Inv (j + 1) (visit (inputs j) a s).2) :
    ∀ {k : Nat} {s : σ}, Inv k s →
      Inv (k + as.length) (sweep visit inputs k as s).2 := by
  induction as with
  | nil =>
    intro k s hStart
    exact hStart
  | cons a rest ih =>
    intro k s hStart
    have hRest := ih
      (fun j b t hMem =>
        hVisit j b t (List.mem_cons_of_mem a hMem))
      (hVisit k a s List.mem_cons_self hStart)
    rw [sweep_cons, List.length_cons, Nat.add_comm _ 1, ← Nat.add_assoc]
    exact hRest

/- The same for the state a position is visited in. -/
theorem sweptTo_state
    (Inv : Nat → σ → Prop)
    (hVisit : ∀ j a s, a ∈ as → Inv j s →
      Inv (j + 1) (visit (inputs j) a s).2)
    (hLe : j ≤ as.length)
    (hStart : Inv k s) :
    Inv (k + j) (sweptTo visit inputs k as s j) := by
  have hLength : (as.take j).length = j := by
    rw [List.length_take]
    omega
  have hTaken : ∀ i a t, a ∈ as.take j → Inv i t →
      Inv (i + 1) (visit (inputs i) a t).2 := by
    intro i a t hMem
    exact hVisit i a t (List.mem_of_mem_take hMem)
  have hEnd := sweep_state Inv hTaken hStart
  rwa [hLength] at hEnd

/-
  A preorder every visit respects relates the state after a
  visit to the state at the end.
-/
theorem visit_relates_end
    (R : σ → σ → Prop) (hRefl : ∀ s, R s s)
    (hTrans : ∀ s t u, R s t → R t u → R s u)
    (hVisit : ∀ j a s, a ∈ as → R s (visit (inputs j) a s).2)
    (hAt : as[j]? = some a) :
    R (visit (inputs (k + j)) a
        (sweptTo visit inputs k as s j)).2
      (sweep visit inputs k as s).2 := by
  rcases take_split hAt with ⟨rest, hSplit, hLength⟩
  rw [sweptTo]
  generalize as.take j = before at hSplit hLength
  subst hSplit
  rw [sweep_append, sweep_cons, hLength]
  refine sweep_state (fun _ t => R _ t) ?_ (hRefl _)
  intro i b t hMem hRel
  exact hTrans _ _ _ hRel (hVisit i b t (by simp [hMem]))

/-
  What a sweep leaves at a position: the result of a visit,
  made between the start and the end.
-/
theorem visited_of_sweep
    (R : σ → σ → Prop) (hRefl : ∀ s, R s s)
    (hTrans : ∀ s t u, R s t → R t u → R s u)
    (hVisit : ∀ j a s, R s (visit (inputs j) a s).2)
    (hAt : (sweep visit inputs k as s).1[j]? = some b) :
    ∃ a, as[j]? = some a ∧
      R s (sweptTo visit inputs k as s j) ∧
      b = (visit (inputs (k + j)) a (sweptTo visit inputs k as s j)).1 ∧
      R (visit (inputs (k + j)) a
          (sweptTo visit inputs k as s j)).2
        (sweep visit inputs k as s).2 := by
  rcases getElem?_of_sweep hAt with ⟨a, hBefore, hResult⟩
  have hLe : j ≤ as.length := by
    rcases List.getElem?_eq_some_iff.mp hBefore with ⟨hLt, _⟩
    omega
  refine ⟨a, hBefore, ?_, hResult, ?_⟩
  · exact sweptTo_state (fun _ t => R s t)
      (fun i b t _ hRel => hTrans _ _ _ hRel (hVisit i b t))
      hLe (hRefl s)
  · exact visit_relates_end R hRefl hTrans
      (fun i b t _ => hVisit i b t) hBefore

end Base
