import Mathlib.Data.List.Basic
import Mathlib.Data.List.Rotate
import Mathlib.Data.Set.Lattice
import Mathlib.Logic.Function.Basic

/-
  Bloom filters over any function from items to positions.

  The items that were added are kept for reference, with the
  proof that none of their positions is missing.

  Members of a ring that each pull from the one before them.

  The first round brings everything to the first member, the
  second brings it from there to all.
-/

-- Filters

namespace Base

variable {α : Type}

/- The set positions, and the items that set them. -/
structure Bloom (positions : α → List ℕ) where
  bits : List ℕ
  items : List α
  sound : ∀ a ∈ items, ∀ p ∈ positions a, p ∈ bits

namespace Bloom

variable {positions : α → List ℕ}
variable {b : Bloom positions}
variable {a c : α}

def empty : Bloom positions where
  bits := []
  items := []
  sound := fun _ hMem => (List.not_mem_nil hMem).elim

def add (b : Bloom positions) (a : α) : Bloom positions where
  bits := positions a ++ b.bits
  items := a :: b.items
  sound := by
    intro c hMem p hP
    rcases List.mem_cons.mp hMem with rfl | hOld
    · exact List.mem_append_left _ hP
    · exact List.mem_append_right _ (b.sound c hOld p hP)

def addAll (b : Bloom positions) (items : List α) :
    Bloom positions :=
  items.foldl add b

def mightContain (b : Bloom positions) (a : α) : Bool :=
  (positions a).all b.bits.contains

/- The items that are certainly not in the filter. -/
def missingFrom (b : Bloom positions) (items : List α) :
    List α :=
  items.filter fun a => !b.mightContain a

@[simp] theorem items_add :
    (b.add a).items = a :: b.items := rfl

theorem mem_items_addAll (items : List α) :
    c ∈ (b.addAll items).items ↔ c ∈ items ∨ c ∈ b.items := by
  unfold addAll
  induction items generalizing b with
  | nil => simp
  | cons a items ih =>
    rw [List.foldl_cons, ih, items_add, List.mem_cons, List.mem_cons]
    tauto

/- There are no false negatives. -/
theorem mightContain_of_mem (hMem : a ∈ b.items) :
    b.mightContain a = true := by
  unfold mightContain
  rw [List.all_eq_true]
  intro p hP
  exact List.contains_iff_mem.mpr (b.sound a hMem p hP)

/- None of the items gets a false answer. -/
def ExactOn (b : Bloom positions) (items : List α) : Prop :=
  ∀ a ∈ items, b.mightContain a = true → a ∈ b.items

/- Then what is missing is what was not added. -/
theorem mem_missingFrom
    {items : List α} (hExact : b.ExactOn items) :
    a ∈ b.missingFrom items ↔ a ∈ items ∧ a ∉ b.items := by
  unfold missingFrom
  rw [List.mem_filter, Bool.not_eq_true']
  constructor
  · rintro ⟨hMem, hMissing⟩
    refine ⟨hMem, ?_⟩
    intro hAdded
    rw [mightContain_of_mem hAdded] at hMissing
    cases hMissing
  · rintro ⟨hMem, hNot⟩
    refine ⟨hMem, ?_⟩
    cases hAnswer : b.mightContain a with
    | false => rfl
    | true => exact absurd (hExact a hMem hAnswer) hNot

end Bloom

end Base

-- Pulling

namespace Base

variable {ι α : Type} [DecidableEq ι]

/- The second member takes over what the first has. -/
def pull (has : ι → Set α) (pair : ι × ι) : ι → Set α :=
  Function.update has pair.2 (has pair.2 ∪ has pair.1)

def pullAll (pairs : List (ι × ι)) (has : ι → Set α) :
    ι → Set α :=
  pairs.foldl pull has

/- Each member with the next one around the ring. -/
def ringPairs (members : List ι) : List (ι × ι) :=
  members.zip (members.rotate 1)

/- A member and the next, down the list to the last. -/
def chain : ι → List ι → ι → List (ι × ι)
| a, [], last => [(a, last)]
| a, b :: rest, last => (a, b) :: chain b rest last

omit [DecidableEq ι] in
theorem ringPairs_cons (a : ι) (rest : List ι) :
    ringPairs (a :: rest) = chain a rest a := by
  have hChain : ∀ (b last : ι) (rest : List ι),
      (b :: rest).zip (rest ++ [last]) = chain b rest last := by
    intro b last rest
    induction rest generalizing b with
    | nil => rfl
    | cons c rest ih =>
      rw [List.cons_append, List.zip_cons_cons, ih c]
      rfl
  unfold ringPairs
  rw [List.rotate_cons_succ, List.rotate_zero, hChain]

theorem subset_pull
    (has : ι → Set α) (pair : ι × ι) (b : ι) :
    has b ⊆ pull has pair b := by
  unfold pull
  by_cases hSelf : b = pair.2
  · rw [hSelf, Function.update_self]
    exact Set.subset_union_left
  · rw [Function.update_of_ne hSelf]

theorem subset_pullAll
    (pairs : List (ι × ι)) (has : ι → Set α) (b : ι) :
    has b ⊆ pullAll pairs has b := by
  induction pairs generalizing has with
  | nil => exact Set.Subset.rfl
  | cons pair pairs ih => exact (subset_pull has pair b).trans (ih _)

variable {has : ι → Set α} {a b : ι} {x : α}

theorem mem_pull_self
    (hMem : x ∈ has a) :
    x ∈ pull has (a, b) b := by
  unfold pull
  rw [Function.update_self]
  exact Or.inr hMem

variable {last : ι} {rest : List ι}

/- What anyone on the way has reaches the last. -/
theorem collected
    (hMem : x ∈ has b) (hMember : b ∈ a :: rest) :
    x ∈ pullAll (chain a rest last) has last := by
  induction rest generalizing a b has with
  | nil =>
    rw [List.mem_singleton.mp hMember] at hMem
    exact mem_pull_self hMem
  | cons c rest ih =>
    rcases List.mem_cons.mp hMember with hFirst | hRest
    · rw [hFirst] at hMem
      have hNext : x ∈ pull has (a, c) c := mem_pull_self hMem
      exact ih hNext List.mem_cons_self
    · exact ih (subset_pull has (a, c) b hMem) hRest

/- What the first has reaches everyone on the way. -/
theorem broadcast
    (hMem : x ∈ has a) (hMember : b ∈ rest ++ [last]) :
    x ∈ pullAll (chain a rest last) has b := by
  induction rest generalizing a has with
  | nil =>
    rw [List.mem_singleton.mp hMember]
    exact mem_pull_self hMem
  | cons c rest ih =>
    have hNext : x ∈ pull has (a, c) c := mem_pull_self hMem
    rcases List.mem_cons.mp hMember with hHere | hLater
    · rw [hHere]
      exact subset_pullAll (chain c rest last) _ c hNext
    · exact ih hNext hLater

/- After two rounds each member has what any had before. -/
theorem subset_pullAll_twice
    {members : List ι} (hA : a ∈ members) (hB : b ∈ members) :
    has a ⊆ pullAll (ringPairs members)
      (pullAll (ringPairs members) has) b := by
  intro x hMem
  cases members with
  | nil => exact (List.not_mem_nil hA).elim
  | cons first rest =>
    rw [ringPairs_cons]
    have hFirst : x ∈ pullAll (chain first rest first) has
        first := collected hMem hA
    refine broadcast hFirst ?_
    rcases List.mem_cons.mp hB with hSelf | hRest
    · rw [hSelf]
      exact List.mem_append_right _ (List.mem_singleton_self _)
    · exact List.mem_append_left _ hRest

end Base
