import Mathlib.Data.Nat.Notation

/-
  Programs that call a service one operation at a time.

  Between two operations the state of the service may change
  (another program runs) and any operation may meet a fault.
  A contract says what a program relies on meanwhile and
  what it guarantees of its own operations.

  Programs that run alone and may stop between any two of
  their operations.

  A run is given the fault that each operation meets. When no
  more faults are given, the program stops there.
-/

-- Programs

namespace Base

/- A result, or an operation and what follows its reply. -/
inductive Program {Op : Type} (Reply : Op → Type) (α : Type)
where
| ret (a : α)
| call (op : Op) (next : Reply op → Program Reply α)

namespace Program

variable {Op : Type} {Reply : Op → Type}
variable {α β : Type}

def bind (p : Program Reply α) (f : α → Program Reply β) :
    Program Reply β :=
  match p with
  | .ret a => f a
  | .call op next => .call op (fun reply => (next reply).bind f)

instance : Monad (Program Reply) where
  pure := .ret
  bind := bind

/- The program of a single operation. -/
def perform (op : Op) : Program Reply (Reply op) :=
  .call op .ret

@[simp]
theorem pure_eq (a : α) :
    (pure a : Program Reply α) = .ret a :=
  rfl

@[simp]
theorem bind_eq (p : Program Reply α) (f : α → Program Reply β) :
    (p >>= f) = p.bind f :=
  rfl

@[simp]
theorem ret_bind (a : α) (f : α → Program Reply β) :
    (Program.ret a).bind f = f a :=
  rfl

@[simp]
theorem call_bind
    (op : Op) (next : Reply op → Program Reply α) (f : α → Program Reply β) :
    (Program.call op next).bind f =
      .call op (fun reply => (next reply).bind f) :=
  rfl

@[simp]
theorem perform_bind
    (op : Op) (f : Reply op → Program Reply β) :
    (perform op).bind f = .call op f :=
  rfl

end Program

-- Contracts

/- What a service does with an operation under a fault. -/
structure Service (σ φ : Type) {Op : Type}
    (Reply : Op → Type) where
  after : σ → φ → Op → σ
  reply : (s : σ) → φ → (op : Op) → Reply op

/-
  What may happen between a program's operations, which
  operations it may be let run, and what each one does.
-/
structure Contract (σ φ Op : Type) where
  rely : σ → σ → Prop
  allows : σ → φ → Op → Prop
  guarantee : σ → Op → σ → Prop
  rely_refl : ∀ s, rely s s
  rely_trans : ∀ s t u, rely s t → rely t u → rely s u

namespace Program

variable {Op : Type} {Reply : Op → Type}
variable {α β σ φ : Type}
variable {S : Service σ φ Reply} {C : Contract σ φ Op}

/-
  Every operation keeps the guarantee and a result satisfies
  `post`, if the rest of the world keeps to `rely` and no
  operation runs where it is not allowed.
-/
def Upholds
    (S : Service σ φ Reply) (C : Contract σ φ Op) (post : α → σ → Prop) :
    Program Reply α → σ → Prop
  | .ret a, s => post a s
  | .call op next, s =>
    ∀ t, C.rely s t → ∀ fault, C.allows t fault op →
      C.guarantee t op (S.after t fault op) ∧
        (next (S.reply t fault op)).Upholds S C post (S.after t fault op)

namespace Upholds

variable {post : α → σ → Prop} {post' : β → σ → Prop}
variable {s t : σ}

/- A program between operations may be delayed. -/
theorem later
    {op : Op} {next : Reply op → Program Reply α}
    (hProgram : (Program.call op next).Upholds S C post s)
    (hRely : C.rely s t) :
    (Program.call op next).Upholds S C post t :=
  fun u hLater =>
    hProgram u (C.rely_trans s t u hRely hLater)

theorem mono
    {post₁ post₂ : α → σ → Prop} {p : Program Reply α}
    (hProgram : p.Upholds S C post₁ s)
    (hPost : ∀ a u, post₁ a u → post₂ a u) :
    p.Upholds S C post₂ s := by
  induction p generalizing s with
  | ret a => exact hPost a s hProgram
  | call op next ih =>
    intro u hRely fault hAllows
    have hOp := hProgram u hRely fault hAllows
    exact ⟨hOp.1, ih _ hOp.2⟩

theorem bind
    {p : Program Reply α} {f : α → Program Reply β}
    (hFirst : p.Upholds S C post s)
    (hRest : ∀ a u, post a u → (f a).Upholds S C post' u) :
    (p.bind f).Upholds S C post' s := by
  induction p generalizing s with
  | ret a => exact hRest a s hFirst
  | call op next ih =>
    intro u hRely fault hAllows
    have hOp := hFirst u hRely fault hAllows
    exact ⟨hOp.1, ih _ hOp.2⟩

end Upholds

end Program

-- Programs That Run Alone

namespace Program

variable {Op : Type} {Reply : Op → Type}
variable {α β σ φ ω : Type}
variable {S : Service σ φ Reply}
variable {P : Op → Prop}
variable {p : Program Reply α}

/- The result and the state after it, under given faults. -/
def exec (S : Service σ φ Reply) :
    Program Reply α → (ℕ → φ) → σ → α × σ
| .ret a, _, s => (a, s)
| .call op next, faults, s =>
  (next (S.reply s (faults 0) op)).exec S
    (fun n => faults (n + 1)) (S.after s (faults 0) op)

/- Whatever the replies, every operation satisfies `P`. -/
def Only (P : Op → Prop) : Program Reply α → Prop
| .ret _ => True
| .call op next => P op ∧ ∀ reply, (next reply).Only P

theorem Only.bind
    {f : α → Program Reply β} (hFirst : p.Only P)
    (hRest : ∀ a, (f a).Only P) :
    (p.bind f).Only P := by
  induction p with
  | ret a => exact hRest a
  | call op next ih =>
    exact ⟨hFirst.1, fun reply => ih reply (hFirst.2 reply)⟩

/- What no operation changes, the program does not change. -/
theorem exec_keeps
    (obs : σ → ω) (hOnly : p.Only P)
    (hKeeps : ∀ s fault op, P op → obs (S.after s fault op) = obs s)
    (faults : ℕ → φ) (s : σ) :
    obs (p.exec S faults s).2 = obs s := by
  induction p generalizing faults s with
  | ret a => rfl
  | call op next ih =>
    exact (ih _ (hOnly.2 _) _ _).trans (hKeeps s (faults 0) op hOnly.1)

/- What every reply depends on determines the result. -/
theorem exec_congr
    (obs : σ → ω) (hOnly : p.Only P)
    (hReply : ∀ s t fault op, P op → obs s = obs t →
      S.reply s fault op = S.reply t fault op)
    (hAfter : ∀ s t fault op, P op → obs s = obs t →
      obs (S.after s fault op) = obs (S.after t fault op))
    (faults : ℕ → φ)
    {s t : σ}
    (hSame : obs s = obs t) :
    (p.exec S faults s).1 = (p.exec S faults t).1 := by
  induction p generalizing faults s t with
  | ret a => rfl
  | call op next ih =>
    unfold exec
    rw [hReply s t (faults 0) op hOnly.1 hSame]
    exact ih _ (hOnly.2 _) _ (hAfter s t (faults 0) op hOnly.1 hSame)

end Program

end Base

-- Runs that stop

namespace Base

namespace Program

variable {Op : Type} {Reply : Op → Type}
variable {α σ φ : Type}

/- The state when the program stops, and its result if any. -/
def execute (S : Service σ φ Reply) :
    Program Reply α → List φ → σ → σ × Option α
| .ret a, _, s => (s, some a)
| .call _ _, [], s => (s, none)
| .call op next, fault :: rest, s =>
  (next (S.reply s fault op)).execute S rest (S.after s fault op)

/- Every operation that runs is allowed where it runs. -/
def Within
    (S : Service σ φ Reply) (allows : σ → φ → Op → Prop) :
    Program Reply α → List φ → σ → Prop
| .ret _, _, _ => True
| .call _ _, [], _ => True
| .call op next, fault :: rest, s =>
  allows s fault op ∧
    (next (S.reply s fault op)).Within S allows rest (S.after s fault op)

theorem within_of_forall
    {S : Service σ φ Reply} {allows : σ → φ → Op → Prop}
    (hAllows : ∀ s fault op, allows s fault op) (p : Program Reply α) :
    ∀ (faults : List φ) (s : σ), p.Within S allows faults s := by
  induction p with
  | ret a => exact fun _ _ => trivial
  | call op next ih =>
    intro faults s
    cases faults with
    | nil => exact trivial
    | cons fault rest => exact ⟨hAllows _ _ _, ih _ _ _⟩

end Program

-- What holds at every moment

variable {Op : Type} {Reply : Op → Type}
variable {α σ φ : Type}

/- Nothing else runs, and `Inv` holds after each operation. -/
def alone
    (Inv : σ → Prop) (allows : σ → φ → Op → Prop) :
    Contract σ φ Op where
  rely s t := s = t
  allows := allows
  guarantee _ _ t := Inv t
  rely_refl _ := rfl
  rely_trans _ _ _ := Eq.trans

namespace Program

namespace Upholds

variable {S : Service σ φ Reply}
variable {Inv : σ → Prop}
variable {allows : σ → φ → Op → Prop}
variable {post : α → σ → Prop}
variable {s : σ}

/- An operation of a program that runs alone. -/
theorem call_alone
    {op : Op} {next : Reply op → Program Reply α}
    (hOp : ∀ fault, allows s fault op →
      Inv (S.after s fault op) ∧
        (next (S.reply s fault op)).Upholds S
          (alone Inv allows) post (S.after s fault op)) :
    (Program.call op next).Upholds S (alone Inv allows) post s := by
  rintro t rfl fault hAllows
  exact hOp fault hAllows

/- `Inv` holds when the program returns as well. -/
theorem keeps
    {p : Program Reply α} (hProgram : p.Upholds S (alone Inv allows) post s)
    (hInv : Inv s) :
    p.Upholds S (alone Inv allows) (fun a t => Inv t ∧ post a t) s := by
  induction p generalizing s with
  | ret a => exact ⟨hInv, hProgram⟩
  | call op next ih =>
    apply call_alone
    intro fault hAllows
    have hOp := hProgram s rfl fault hAllows
    exact ⟨hOp.1, ih _ hOp.2 hOp.1⟩

/- Wherever it stops, `Inv` holds; a result satisfies `post`. -/
theorem execute
    {p : Program Reply α} {faults : List φ}
    (hProgram : p.Upholds S (alone Inv allows) post s)
    (hInv : Inv s) (hWithin : p.Within S allows faults s) :
    Inv (p.execute S faults s).1 ∧
      ∀ a, (p.execute S faults s).2 = some a →
        post a (p.execute S faults s).1 := by
  induction p generalizing s faults with
  | ret a =>
    refine ⟨hInv, ?_⟩
    intro b hSome
    rw [← Option.some.inj hSome]
    exact hProgram
  | call op next ih =>
    cases faults with
    | nil => exact ⟨hInv, nofun⟩
    | cons fault rest =>
      have hOp := hProgram s rfl fault hWithin.1
      exact ih _ hOp.2 hOp.1 hWithin.2

end Upholds

end Program

end Base
