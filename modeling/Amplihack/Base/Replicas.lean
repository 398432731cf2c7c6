import Amplihack.Base.Runs
import Mathlib.Data.Finset.Card
import Mathlib.Logic.Function.Basic

/-
  Replicas of one value that perform operations and merge
  each other's states.

  The log and the sets of received operations say what
  happened; the replicas' states do not depend on them. An
  operation is identified by its place in the log.
-/

-- Networks

namespace Base

/- A replicated value: its states and its operations. -/
structure Replicated (ι σ α β : Type) where
  initial : ι → σ
  apply : σ → β → σ
  merge : σ → σ → σ
  record : Finset ℕ → β → α

/- All operations so far, and what each replica received. -/
structure Network (ι σ α : Type) where
  log : List α
  received : ι → Finset ℕ
  state : ι → σ

/- A local operation, or `r` merging the state of `s`. -/
inductive Delivery (ι β : Type) where
| perform (r : ι) (op : β)
| merge (r s : ι)

namespace Network

variable {ι σ α β : Type}
variable [DecidableEq ι]

def start (T : Replicated ι σ α β) : Network ι σ α where
  log := []
  received := fun _ => ∅
  state := T.initial

def step (T : Replicated ι σ α β) (net : Network ι σ α) :
    Delivery ι β → Network ι σ α
| .perform r op =>
  { log := net.log ++ [T.record (net.received r) op]
    received := Function.update net.received r
      (insert net.log.length (net.received r))
    state := Function.update net.state r
      (T.apply (net.state r) op) }
| .merge r s =>
  { log := net.log
    received := Function.update net.received r
      (net.received r ∪ net.received s)
    state := Function.update net.state r
      (T.merge (net.state r) (net.state s)) }

variable {T : Replicated ι σ α β}
variable {allowed : Network ι σ α → Delivery ι β → Prop}
variable {net : Network ι σ α}

/- What is received is in the log. -/
def Logged (net : Network ι σ α) : Prop :=
  ∀ r, ∀ i ∈ net.received r, i < net.log.length

theorem Logged.step
    (hLogged : net.Logged) (d : Delivery ι β) :
    (net.step T d).Logged := by
  intro r i hMem
  cases d with
  | perform q op =>
    simp only [Network.step, List.length_append,
      List.length_singleton] at hMem ⊢
    by_cases hr : r = q
    · subst hr
      rw [Function.update_self, Finset.mem_insert] at hMem
      rcases hMem with rfl | hMem
      · exact Nat.lt_succ_self _
      · exact Nat.lt_succ_of_lt (hLogged r i hMem)
    · rw [Function.update_of_ne hr] at hMem
      exact Nat.lt_succ_of_lt (hLogged r i hMem)
  | merge q s =>
    simp only [Network.step] at hMem ⊢
    by_cases hr : r = q
    · subst hr
      rw [Function.update_self, Finset.mem_union] at hMem
      exact hMem.elim (hLogged r i) (hLogged s i)
    · rw [Function.update_of_ne hr] at hMem
      exact hLogged r i hMem

/- Each operation received was performed. -/
theorem logged
    (hRun : Reaches (step T) allowed (start T) net) :
    net.Logged :=
  hRun.invariant Logged
    (fun _ d hLogged _ => hLogged.step d)
    (fun _ _ hMem => absurd hMem (Finset.notMem_empty _))

/-
  A description of a state by the operations received holds
  of every replica of every network reached: of the initial
  states, after an operation, after a merge, and as the log
  grows. `Side` is what is known of the networks reached.
-/
theorem holds
    {Side : Network ι σ α → Prop} (Holds : List α → Finset ℕ → σ → Prop)
    (hSide : ∀ net, Reaches (step T) allowed (start T) net → Side net)
    (hInitial : ∀ r, Holds [] ∅ (T.initial r))
    (hGrow : ∀ net r a, Side net → net.Logged →
      Holds net.log (net.received r) (net.state r) →
      Holds (net.log ++ [a]) (net.received r) (net.state r))
    (hPerform : ∀ net r op, Side net → net.Logged →
      allowed net (.perform r op) →
      Holds net.log (net.received r) (net.state r) →
      Holds (net.log ++ [T.record (net.received r) op])
        (insert net.log.length (net.received r))
        (T.apply (net.state r) op))
    (hMerge : ∀ net r s, Side net →
      Holds net.log (net.received r) (net.state r) →
      Holds net.log (net.received s) (net.state s) →
      Holds net.log (net.received r ∪ net.received s)
        (T.merge (net.state r) (net.state s)))
    (hRun : Reaches (step T) allowed (start T) net)
    (r : ι) :
    Holds net.log (net.received r) (net.state r) := by
  let Inv := fun net : Network ι σ α =>
    Reaches (step T) allowed (start T) net ∧
      ∀ r, Holds net.log (net.received r) (net.state r)
  refine (hRun.invariant Inv ?_ ⟨Reaches.refl _, hInitial⟩).2 r
  rintro net d ⟨hReached, hHolds⟩ hAllowed
  refine ⟨hReached.tail d hAllowed, fun r => ?_⟩
  have hKnown := hSide net hReached
  have hLogged := logged hReached
  cases d with
  | perform q op =>
    simp only [step]
    by_cases hr : r = q
    · subst hr
      rw [Function.update_self, Function.update_self]
      exact hPerform net r op hKnown hLogged hAllowed (hHolds r)
    · rw [Function.update_of_ne hr, Function.update_of_ne hr]
      exact hGrow net r _ hKnown hLogged (hHolds r)
  | merge q s =>
    simp only [step]
    by_cases hr : r = q
    · subst hr
      rw [Function.update_self, Function.update_self]
      exact hMerge net r s hKnown (hHolds r) (hHolds s)
    · rw [Function.update_of_ne hr, Function.update_of_ne hr]
      exact hHolds r

-- Operations With A Home

variable {κ : Type}

/-
  Each key's operations are made at its home, so a replica
  has received a first part of them.
-/
structure InOrder
    (key : α → κ) (home : κ → ι) (net : Network ι σ α) :
    Prop where
  atHome : ∀ i a, net.log[i]? = some a → i ∈ net.received (home (key a))
  earlier : ∀ r i j a b, i ∈ net.received r →
    net.log[i]? = some a → net.log[j]? = some b →
    key b = key a → j ≤ i → j ∈ net.received r

/- An entry of a longer log is an old one or the new one. -/
theorem getElem?_append_singleton
    {log : List α} {x a : α} {i : ℕ} (hGet : (log ++ [x])[i]? = some a) :
    log[i]? = some a ∨ i = log.length ∧ a = x := by
  rcases Nat.lt_trichotomy i log.length with hLt | rfl | hGt
  · rw [List.getElem?_append_left hLt] at hGet
    exact .inl hGet
  · rw [List.getElem?_concat_length] at hGet
    exact .inr ⟨rfl, (Option.some.inj hGet).symm⟩
  · have hLe : (log ++ [x]).length ≤ i := by
      rw [List.length_append, List.length_singleton]
      omega
    rw [List.getElem?_eq_none hLe] at hGet
    cases hGet

theorem InOrder.perform
    {key : α → κ} {home : κ → ι} {q : ι} {op : β}
    (hOrder : net.InOrder key home) (hLogged : net.Logged)
    (hHome : home (key (T.record (net.received q) op)) = q) :
    (net.step T (.perform q op)).InOrder key home where
  atHome := by
    intro i a hGet
    rcases getElem?_append_singleton hGet with
      hOld | ⟨rfl, rfl⟩
    · have hMem := hOrder.atHome i a hOld
      by_cases hr : home (key a) = q
      · rw [hr] at hMem ⊢
        simp [step, hMem]
      · simpa [step, Function.update_of_ne hr] using hMem
    · rw [hHome]
      simp [step]
  earlier := by
    intro r i j a b hMem hi hj hKey hLe
    by_cases hr : r = q
    · subst hr
      simp only [step, Function.update_self, Finset.mem_insert] at hMem ⊢
      rcases getElem?_append_singleton hj with
        hOldJ | ⟨rfl, _⟩
      · right
        rcases getElem?_append_singleton hi with
          hOldI | ⟨rfl, rfl⟩
        · have hLt := (List.getElem?_eq_some_iff.mp hOldI).1
          have hOldMem := hMem.resolve_left (by omega)
          exact hOrder.earlier r i j a b hOldMem hOldI hOldJ hKey hLe
        · have hAt := hOrder.atHome j b hOldJ
          rwa [hKey, hHome] at hAt
      · exact .inl rfl
    · simp only [step, Function.update_of_ne hr] at hMem ⊢
      have hLt := hLogged r i hMem
      have hLtJ : j < net.log.length := by omega
      have hOldI : net.log[i]? = some a := by
        rwa [step, List.getElem?_append_left hLt] at hi
      have hOldJ : net.log[j]? = some b := by
        rwa [step, List.getElem?_append_left hLtJ] at hj
      exact hOrder.earlier r i j a b hMem hOldI hOldJ hKey hLe

theorem InOrder.merge
    {key : α → κ} {home : κ → ι} {q s : ι} (hOrder : net.InOrder key home) :
    (net.step T (.merge q s)).InOrder key home where
  atHome := by
    intro i a hGet
    have hMem := hOrder.atHome i a hGet
    by_cases hr : home (key a) = q
    · rw [hr] at hMem ⊢
      simp [step, hMem]
    · simpa [step, Function.update_of_ne hr] using hMem
  earlier := by
    intro r i j a b hMem hi hj hKey hLe
    by_cases hr : r = q
    · subst hr
      simp only [step, Function.update_self, Finset.mem_union] at hMem ⊢
      exact hMem.imp
        (fun hMem =>
          hOrder.earlier r i j a b hMem hi hj hKey hLe)
        (fun hMem =>
          hOrder.earlier s i j a b hMem hi hj hKey hLe)
    · simp only [step, Function.update_of_ne hr] at hMem ⊢
      exact hOrder.earlier r i j a b hMem hi hj hKey hLe

/- Operations made only at their homes arrive in order. -/
theorem inOrder
    {key : α → κ} {home : κ → ι}
    (hHome : ∀ net q op, allowed net (.perform q op) →
      home (key (T.record (net.received q) op)) = q)
    (hRun : Reaches (step T) allowed (start T) net) :
    net.InOrder key home := by
  let Inv := fun net : Network ι σ α =>
    net.Logged ∧ net.InOrder key home
  refine (hRun.invariant Inv ?_ ⟨?_, ?_⟩).2
  · rintro net d ⟨hLogged, hOrder⟩ hAllowed
    refine ⟨hLogged.step d, ?_⟩
    cases d with
    | perform q op => exact hOrder.perform hLogged (hHome net q op hAllowed)
    | merge q s => exact hOrder.merge
  · exact fun _ _ hMem => absurd hMem (Finset.notMem_empty _)
  · exact
      { atHome := by simp [start]
        earlier := by simp [start] }

end Network

-- Counting Operations

section Tally

variable {α : Type}

/- How many of the operations in `R` satisfy `p`. -/
def tally (log : List α) (R : Finset ℕ) (p : α → Bool) : ℕ :=
  (R.filter fun i => log[i]?.any p).card

@[simp] theorem tally_empty (log : List α) (p : α → Bool) :
    tally log ∅ p = 0 := by
  simp [tally]

theorem tally_append
    {log : List α} {R : Finset ℕ}
    (hLogged : ∀ i ∈ R, i < log.length) (a : α) (p : α → Bool) :
    tally (log ++ [a]) R p = tally log R p := by
  unfold tally
  congr 1
  refine Finset.filter_congr fun i hMem => ?_
  rw [List.getElem?_append_left (hLogged i hMem)]

/- The new operation counts when it satisfies `p`. -/
theorem tally_insert
    {log : List α} {R : Finset ℕ}
    (hLogged : ∀ i ∈ R, i < log.length) (a : α) (p : α → Bool) :
    tally (log ++ [a]) (insert log.length R) p =
      tally log R p + if p a then 1 else 0 := by
  have hNew : log.length ∉ R := fun hMem =>
    absurd (hLogged _ hMem) (lt_irrefl _)
  have hRest := tally_append hLogged a p
  unfold tally at hRest ⊢
  rw [Finset.filter_insert, ← hRest]
  by_cases hp : p a = true
  · rw [if_pos (by simp [hp]), if_pos hp,
      Finset.card_insert_of_notMem (by simp [hNew])]
  · rw [if_neg (by simpa using hp), if_neg hp, Nat.add_zero]

/-
  Of two first parts of one key's operations, one holds the
  other, so their union has as many as the larger.
-/
theorem tally_union
    {ι σ κ : Type} [DecidableEq ι] [DecidableEq κ]
    {key : α → κ} {home : κ → ι} {net : Network ι σ α}
    (hOrder : net.InOrder key home) (r s : ι) (k : κ) :
    tally net.log (net.received r ∪ net.received s)
        (fun a => key a = k) =
      max (tally net.log (net.received r) fun a => key a = k)
        (tally net.log (net.received s) fun a => key a = k) := by
  let mine := fun q : ι => (net.received q).filter fun i =>
    net.log[i]?.any fun a => key a = k
  have hNested : ∀ q q' : ι, ∀ i ∈ mine q, i ∉ mine q' →
      mine q' ⊆ mine q := by
    intro q q' i hMem hNot j hMem'
    simp only [mine, Finset.mem_filter, Option.any_eq_true,
      decide_eq_true_eq] at hMem hNot hMem' ⊢
    rcases hMem with ⟨hi, a, ha, hKeyA⟩
    rcases hMem' with ⟨hj, b, hb, hKeyB⟩
    refine ⟨?_, b, hb, hKeyB⟩
    rcases Nat.le_total j i with hLe | hLe
    · exact hOrder.earlier q i j a b hi ha hb (hKeyB.trans hKeyA.symm) hLe
    · refine absurd ⟨?_, a, ha, hKeyA⟩ hNot
      exact hOrder.earlier q' j i b a hj hb ha (hKeyA.trans hKeyB.symm) hLe
  unfold tally
  rw [Finset.filter_union]
  change (mine r ∪ mine s).card = max (mine r).card (mine s).card
  by_cases hSubset : mine r ⊆ mine s
  · rw [Finset.union_eq_right.mpr hSubset,
      max_eq_right (Finset.card_le_card hSubset)]
  · rcases Finset.not_subset.mp hSubset with ⟨i, hMem, hNot⟩
    have hOther := hNested r s i hMem hNot
    rw [Finset.union_eq_left.mpr hOther,
      max_eq_left (Finset.card_le_card hOther)]

end Tally

end Base
