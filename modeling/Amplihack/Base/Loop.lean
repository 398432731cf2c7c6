import Mathlib.Data.Nat.Notation
import Mathlib.Logic.Basic

/-
  Loops over a buffer whose accesses are checked.

  A fault is an access out of bounds, or a loop that has not
  ended within its fuel.

  Computations that may fault and that carry a state.

  `Total` says that no fault is met, and `Keeps` says so from
  every state, and that a measure of the state has not grown.
-/

-- Checked Accesses

namespace Base

inductive Fault where
  | outOfBounds
  | outOfFuel
deriving DecidableEq

abbrev Checked :=
  Except Fault

variable {α β σ : Type}

namespace Checked

@[simp]
theorem ok_bind (a : α) (f : α → Checked β) :
    ((.ok a : Checked α) >>= f) = f a :=
  rfl

@[simp]
theorem pure_eq (a : α) : (pure a : Checked α) = .ok a :=
  rfl

/- `xs[i]` -/
def get (xs : List α) (i : ℕ) : Checked α :=
  match xs[i]? with
  | some a => .ok a
  | none => .error .outOfBounds

/- `xs[start..stop]` -/
def slice (xs : List α) (start stop : ℕ) : Checked (List α) :=
  if start ≤ stop ∧ stop ≤ xs.length then
    .ok ((xs.take stop).drop start)
  else .error .outOfBounds

/- `a - b` of unsigned integers -/
def sub (a b : ℕ) : Checked ℕ :=
  if b ≤ a then .ok (a - b) else .error .outOfBounds

theorem get_of_getElem?
    {xs : List α} {i : ℕ} {a : α} (hGet : xs[i]? = some a) :
    get xs i = .ok a := by
  unfold get
  rw [hGet]

theorem slice_of_le
    {xs : List α} {start stop : ℕ} (hStart : start ≤ stop)
    (hStop : stop ≤ xs.length) :
    slice xs start stop = .ok ((xs.take stop).drop start) :=
  if_pos ⟨hStart, hStop⟩

end Checked

-- Loops

/- Repeats the body until it breaks off with a result. -/
def loop (body : σ → Checked (σ ⊕ β)) : ℕ → σ → Checked β
| 0, _ => .error .outOfFuel
| fuel + 1, s =>
  match body s with
  | .error e => .error e
  | .ok (.inl t) => loop body fuel t
  | .ok (.inr b) => .ok b

theorem loop_next
    {body : σ → Checked (σ ⊕ β)} {s t : σ}
    (hBody : body s = .ok (.inl t)) (fuel : ℕ) :
    loop body (fuel + 1) s = loop body fuel t := by
  rw [loop, hBody]

theorem loop_last
    {body : σ → Checked (σ ⊕ β)} {s : σ} {b : β}
    (hBody : body s = .ok (.inr b)) (fuel : ℕ) :
    loop body (fuel + 1) s = .ok b := by
  rw [loop, hBody]

/- Without a fault, what holds of what follows. -/
def Safe (onward : σ → Prop) (result : β → Prop) :
    Checked (σ ⊕ β) → Prop
| .ok (.inl t) => onward t
| .ok (.inr b) => result b
| .error _ => False

variable {onward : σ → Prop}
variable {result : β → Prop}

theorem Safe.inl {t : σ} (hOnward : onward t) :
    Safe onward result (pure (.inl t)) :=
  hOnward

theorem Safe.inr {b : β} (hResult : result b) :
    Safe onward result (pure (.inr b)) :=
  hResult

theorem Safe.mono
    {onward' : σ → Prop} {result' : β → Prop}
    {r : Checked (σ ⊕ β)} (hSafe : Safe onward result r)
    (hOnward : ∀ t, onward t → onward' t)
    (hResult : ∀ b, result b → result' b) :
    Safe onward' result' r := by
  rcases r with e | (t | b)
  · exact hSafe
  · exact hOnward t hSafe
  · exact hResult b hSafe

/- A measure that each round lowers ends the loop. -/
theorem loop_ok
    {body : σ → Checked (σ ⊕ β)} (Inv : σ → Prop)
    (Post : β → Prop) (μ : σ → ℕ)
    (hBody : ∀ s, Inv s → Safe (fun t => Inv t ∧ μ t < μ s) Post (body s))
    {fuel : ℕ} {s : σ} (hFuel : μ s < fuel) (hInv : Inv s) :
    ∃ b, loop body fuel s = .ok b ∧ Post b := by
  induction fuel generalizing s with
  | zero => exact absurd hFuel (Nat.not_lt_zero _)
  | succ fuel ih =>
    have hSafe := hBody s hInv
    cases hRound : body s with
    | error e =>
      rw [hRound] at hSafe
      exact hSafe.elim
    | ok r =>
      rw [hRound] at hSafe
      cases r with
      | inl t =>
        have hLess : μ t < μ s := hSafe.2
        rw [loop_next hRound]
        exact ih (by omega) hSafe.1
      | inr b =>
        rw [loop_last hRound]
        exact ⟨b, rfl, hSafe⟩

-- Runs Of A Loop

/- The loop, entered in a state, ends with a result. -/
inductive Ends (body : σ → Checked (σ ⊕ β)) : σ → β → Prop
where
| last {s : σ} {b : β}
    (hBody : body s = .ok (.inr b)) :
    Ends body s b
| next {s t : σ} {b : β}
    (hBody : body s = .ok (.inl t))
    (hRest : Ends body t b) :
    Ends body s b

/- The loop, entered in a state, comes to another. -/
inductive Visits (body : σ → Checked (σ ⊕ β)) : σ → σ → Prop
where
| here {s : σ} : Visits body s s
| next {s t u : σ}
    (hBody : body s = .ok (.inl t))
    (hRest : Visits body t u) :
    Visits body s u

variable {body : σ → Checked (σ ⊕ β)}

theorem ends_of_loop
    {fuel : ℕ} {s : σ} {b : β} (hLoop : loop body fuel s = .ok b) :
    Ends body s b := by
  induction fuel generalizing s with
  | zero => cases hLoop
  | succ fuel ih =>
    unfold loop at hLoop
    split at hLoop
    next => cases hLoop
    next t hBody => exact .next hBody (ih hLoop)
    next c hBody =>
      rcases Except.ok.inj hLoop with rfl
      exact .last hBody

theorem Ends.unique
    {s : σ} {b c : β} (hLeft : Ends body s b) (hRight : Ends body s c) :
    b = c := by
  induction hLeft with
  | last hBody =>
    cases hRight with
    | last hBody' =>
      rw [hBody] at hBody'
      exact Sum.inr.inj (Except.ok.inj hBody')
    | next hBody' _ =>
      rw [hBody] at hBody'
      cases hBody'
  | next hBody _ ih =>
    cases hRight with
    | last hBody' =>
      rw [hBody] at hBody'
      cases hBody'
    | next hBody' hRest =>
      rw [hBody] at hBody'
      rcases Sum.inl.inj (Except.ok.inj hBody') with rfl
      exact ih hRest

theorem ends_next_iff
    {s t : σ} {b : β} (hBody : body s = .ok (.inl t)) :
    Ends body s b ↔ Ends body t b := by
  constructor
  · intro hEnds
    cases hEnds with
    | last hLast =>
      rw [hBody] at hLast
      cases hLast
    | next hNext hRest =>
      rw [hBody] at hNext
      rcases Sum.inl.inj (Except.ok.inj hNext) with rfl
      exact hRest
  · exact .next hBody

end Base

-- Without A Fault

namespace Base

variable {α β σ : Type}

def Total (x : Checked α) : Prop :=
  ∃ a, x = .ok a

theorem Total.pure (a : α) : Total (pure a) :=
  ⟨a, rfl⟩

theorem Total.bind
    {x : Checked α} {f : α → Checked β} (hLeft : Total x)
    (hRight : ∀ a, Total (f a)) :
    Total (x >>= f) := by
  rcases hLeft with ⟨a, rfl⟩
  exact hRight a

theorem Total.foldlM
    {f : β → α → Checked β} (hStep : ∀ b a, Total (f b a))
    (xs : List α) (b : β) :
    Total (xs.foldlM f b) := by
  induction xs generalizing b with
  | nil => exact .pure b
  | cons a xs ih =>
    rw [List.foldlM_cons]
    exact (hStep b a).bind ih

theorem Total.anyM
    {p : α → Checked Bool} (hEach : ∀ a, Total (p a)) (xs : List α) :
    Total (xs.anyM p) := by
  induction xs with
  | nil => exact .pure false
  | cons a xs ih =>
    refine (hEach a).bind ?_
    intro found
    cases found with
    | true => exact .pure true
    | false => exact ih

-- Within A Measure

abbrev Metered (σ : Type) :=
  StateT σ Checked

/- No fault, and no more of the measure than before. -/
def Keeps (μ : σ → ℕ) (m : Metered σ α) : Prop :=
  ∀ s, ∃ a t, m s = .ok (a, t) ∧ μ t ≤ μ s

variable {μ : σ → ℕ}

theorem Keeps.pure (a : α) :
    Keeps μ (pure a : Metered σ α) :=
  fun s => ⟨a, s, rfl, Nat.le_refl _⟩

theorem Keeps.bind
    {m : Metered σ α} {f : α → Metered σ β} (hLeft : Keeps μ m)
    (hRight : ∀ a, Keeps μ (f a)) :
    Keeps μ (m >>= f) := by
  intro s
  rcases hLeft s with ⟨a, t, hRun, hLe⟩
  rcases hRight a t with ⟨b, u, hRest, hLe'⟩
  refine ⟨b, u, ?_, Nat.le_trans hLe' hLe⟩
  change (m s).bind (fun p => f p.1 p.2) = _
  rw [hRun]
  exact hRest

theorem Keeps.lift
    {x : Checked α} (hTotal : Total x) :
    Keeps μ (StateT.lift x : Metered σ α) := by
  rcases hTotal with ⟨a, rfl⟩
  exact fun s => ⟨a, s, rfl, Nat.le_refl _⟩

theorem Keeps.get : Keeps μ (get : Metered σ σ) :=
  fun s => ⟨s, s, rfl, Nat.le_refl _⟩

theorem Keeps.modify
    {f : σ → σ} (hLe : ∀ s, μ (f s) ≤ μ s) :
    Keeps μ (modify f : Metered σ PUnit) :=
  fun s => ⟨.unit, f s, rfl, hLe s⟩

theorem Keeps.foldlM
    {f : β → α → Metered σ β} (hStep : ∀ b a, Keeps μ (f b a))
    (xs : List α) (b : β) :
    Keeps μ (xs.foldlM f b) := by
  induction xs generalizing b with
  | nil => exact .pure b
  | cons a xs ih =>
    rw [List.foldlM_cons]
    exact (hStep b a).bind ih

theorem Keeps.anyM
    {p : α → Metered σ Bool} (hEach : ∀ a, Keeps μ (p a)) (xs : List α) :
    Keeps μ (xs.anyM p) := by
  induction xs with
  | nil => exact .pure false
  | cons a xs ih =>
    refine (hEach a).bind ?_
    intro found
    cases found with
    | true => exact .pure true
    | false => exact ih

end Base
