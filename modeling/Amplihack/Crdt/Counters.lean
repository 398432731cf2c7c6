import Amplihack.Base.JoinMap
import Amplihack.Base.Replicas
import Mathlib.Algebra.BigOperators.Group.Finset.Basic
import Mathlib.Algebra.Order.BigOperators.Group.Finset
import Mathlib.Algebra.GroupWithZero.Nat
import Mathlib.Order.Lattice.Nat

/-
  The grow-only counter and the counter that also goes down.

  Each node's count is kept apart and merged by the larger
  one. As a node counts at one replica, what the others
  received of it is a first part of its operations.
-/

-- Saturating Counts

namespace Crdt

open Base

/- The largest count. -/
def u64Max : ℕ := 18446744073709551615

def saturatingAdd (a b : ℕ) : ℕ :=
  min (a + b) u64Max

theorem saturatingAdd_right_comm (a b c : ℕ) :
    saturatingAdd (saturatingAdd a b) c =
      saturatingAdd (saturatingAdd a c) b := by
  unfold saturatingAdd
  omega

-- The Grow-Only Counter

/- A count for each node. -/
structure GCounter where
  counts : JoinMap String ℕ

namespace GCounter

def new : GCounter where
  counts := ∅

def get (c : GCounter) (node : String) : ℕ :=
  c.counts.get node

/- Count one more for `node`; the node's count is returned. -/
def increment (c : GCounter) (node : String) : GCounter × ℕ :=
  let count := saturatingAdd (c.counts.get node) 1
  ({ counts := c.counts.insert node count }, count)

/- The sum of the counts, in whatever order they come. -/
def value (c : GCounter) : ℕ :=
  c.counts.foldl (fun acc _ v => saturatingAdd acc v)
    (fun acc _ v _ w => saturatingAdd_right_comm acc v w) 0

/- The larger count of each node. -/
def merge (c d : GCounter) : GCounter where
  counts := c.counts.merge d.counts

theorem merge_comm (c d : GCounter) :
    c.merge d = d.merge c := by
  rw [merge, merge, JoinMap.merge_comm]

theorem merge_assoc (c d e : GCounter) :
    (c.merge d).merge e = c.merge (d.merge e) := by
  simp only [merge, JoinMap.merge_assoc]

theorem merge_self (c : GCounter) : c.merge c = c := by
  rw [merge, JoinMap.merge_self]

@[simp] theorem get_merge (c d : GCounter) (node : String) :
    (c.merge d).get node = max (c.get node) (d.get node) :=
  JoinMap.get_merge c.counts d.counts node

/- Merging lowers no count. -/
theorem get_le_merge (c d : GCounter) (node : String) :
    c.get node ≤ (c.merge d).get node ∧
      d.get node ≤ (c.merge d).get node := by
  rw [get_merge]
  exact ⟨le_max_left _ _, le_max_right _ _⟩

@[simp] theorem get_new (node : String) : new.get node = 0 :=
  JoinMap.get_empty node

theorem get_increment (c : GCounter) (node node' : String) :
    (c.increment node).1.get node' =
      if node' = node then saturatingAdd (c.get node') 1
      else c.get node' := by
  unfold get increment JoinMap.get
  simp only [JoinMap.lookup_insert]
  by_cases hEq : node' = node
  · rw [if_pos hEq, if_pos hEq, hEq, Option.getD_some]
  · rw [if_neg hEq, if_neg hEq]

/- Saturating sums are sums, up to the largest count. -/
theorem foldl_saturatingAdd :
    ∀ (entries : List (Sigma fun _ : String => ℕ)) (acc : ℕ),
      acc ≤ u64Max →
        entries.foldl (fun acc e => saturatingAdd acc e.2) acc =
          min (acc + (entries.map Sigma.snd).sum) u64Max := by
  intro entries
  induction entries with
  | nil =>
    intro acc hAcc
    simp [hAcc]
  | cons e entries ih =>
    intro acc _
    have hNext : saturatingAdd acc e.2 ≤ u64Max := min_le_right _ _
    rw [List.foldl_cons, ih _ hNext, List.map_cons,
      List.sum_cons, saturatingAdd]
    omega

theorem sum_get_eq (m : AList fun _ : String => ℕ) :
    ∑ node ∈ m.toFinmap.keys, JoinMap.get m.toFinmap node =
      (m.entries.map Sigma.snd).sum := by
  have hValues :
      m.entries.map (fun e => JoinMap.get m.toFinmap e.1) =
        m.entries.map Sigma.snd := by
    refine List.map_congr_left fun e hMem => ?_
    have hLookup : m.lookup e.1 = some e.2 := AList.mem_lookup_iff.mpr hMem
    rw [JoinMap.get, Finmap.lookup_toFinmap, hLookup, Option.getD_some]
  rw [← hValues]
  change (Multiset.map _ (m.entries.map Sigma.fst : Multiset String)).sum = _
  rw [Multiset.map_coe, Multiset.sum_coe, List.map_map]
  rfl

/- The value is the sum of the counts, up to the largest. -/
theorem value_eq (c : GCounter) :
    c.value = min (∑ node ∈ c.counts.keys, c.get node) u64Max := by
  rcases c with ⟨counts⟩
  induction counts using Finmap.induction_on with
  | H m =>
    have hSum := sum_get_eq m
    have hFold := foldl_saturatingAdd m.entries 0 (Nat.zero_le _)
    rw [Nat.zero_add, ← hSum] at hFold
    exact hFold

end GCounter

-- The Counter That Also Goes Down

/- What was counted up, and what was counted down. -/
structure PNCounter where
  positive : GCounter
  negative : GCounter

namespace PNCounter

def new : PNCounter where
  positive := .new
  negative := .new

def increment (c : PNCounter) (node : String) : PNCounter :=
  { c with positive := (c.positive.increment node).1 }

def decrement (c : PNCounter) (node : String) : PNCounter :=
  { c with negative := (c.negative.increment node).1 }

/- The difference of the two values. -/
def value (c : PNCounter) : ℤ :=
  (c.positive.value : ℤ) - (c.negative.value : ℤ)

def merge (c d : PNCounter) : PNCounter where
  positive := c.positive.merge d.positive
  negative := c.negative.merge d.negative

theorem merge_comm (c d : PNCounter) :
    c.merge d = d.merge c := by
  rw [merge, merge, GCounter.merge_comm c.positive,
    GCounter.merge_comm c.negative]

theorem merge_assoc (c d e : PNCounter) :
    (c.merge d).merge e = c.merge (d.merge e) := by
  simp only [merge, GCounter.merge_assoc]

theorem merge_self (c : PNCounter) : c.merge c = c := by
  rw [merge, GCounter.merge_self, GCounter.merge_self]

end PNCounter

-- Counts And Operations

/- Each node's count is that of its operations among `R`. -/
def Tallies {α : Type} (pick : α → Option String)
    (log : List α) (R : Finset ℕ) (c : GCounter) :
    Prop :=
  ∀ node, c.get node = min (tally log R fun a => pick a = some node) u64Max

namespace Tallies

variable {α : Type}
variable {pick : α → Option String}
variable {log : List α}
variable {R : Finset ℕ}
variable {c : GCounter}

theorem new : Tallies pick log ∅ .new := by
  intro node
  simp

/- Operations made elsewhere change nothing. -/
theorem grow
    (hTallies : Tallies pick log R c)
    (hLogged : ∀ i ∈ R, i < log.length) (a : α) :
    Tallies pick (log ++ [a]) R c := by
  intro node
  rw [tally_append hLogged]
  exact hTallies node

/- A counted operation adds one to its node. -/
theorem increment
    (hTallies : Tallies pick log R c)
    (hLogged : ∀ i ∈ R, i < log.length) {a : α} {node : String}
    (hPick : pick a = some node) :
    Tallies pick (log ++ [a]) (insert log.length R) (c.increment node).1 := by
  intro node'
  rw [tally_insert hLogged, GCounter.get_increment, hTallies node', hPick]
  by_cases hEq : node' = node
  · rw [if_pos hEq, if_pos (by simp [hEq]), saturatingAdd]
    omega
  · rw [if_neg hEq, if_neg (by simp [Ne.symm hEq]), Nat.add_zero]

/- An operation that is not counted changes nothing. -/
theorem skip
    (hTallies : Tallies pick log R c)
    (hLogged : ∀ i ∈ R, i < log.length) {a : α} (hPick : pick a = none) :
    Tallies pick (log ++ [a]) (insert log.length R) c := by
  intro node
  rw [tally_insert hLogged, hPick]
  simpa using hTallies node

/- Sums of saturated counts saturate as the sums do. -/
theorem min_sum_min
    (nodes : Finset String) (f : String → ℕ) :
    min (∑ n ∈ nodes, min (f n) u64Max) u64Max =
      min (∑ n ∈ nodes, f n) u64Max := by
  induction nodes using Finset.induction_on with
  | empty => rfl
  | insert n nodes hNew ih =>
    rw [Finset.sum_insert hNew, Finset.sum_insert hNew]
    omega

/- A node with an operation received has an entry. -/
theorem mem_keys
    (hTallies : Tallies pick log R c)
    {i : ℕ} {a : α} {node : String} (hMem : i ∈ R)
    (hGet : log[i]? = some a) (hPick : pick a = some node) :
    node ∈ c.counts.keys := by
  have hPos : 0 < tally log R fun a => pick a = some node := by
    refine Finset.card_pos.mpr ⟨i, ?_⟩
    simp [hMem, hGet, hPick]
  have hCount : c.get node ≠ 0 := by
    rw [hTallies node, u64Max]
    omega
  rw [Finmap.mem_keys]
  by_contra hNot
  refine hCount ?_
  rw [GCounter.get, JoinMap.get, Finmap.lookup_eq_none.mpr hNot]
  rfl

/- The value counts every operation that is counted. -/
theorem value
    (hTallies : Tallies pick log R c) :
    c.value = min (tally log R fun a => (pick a).isSome) u64Max := by
  let nodeAt := fun i : ℕ => (log[i]?.bind pick).getD ""
  have hFibers :
      tally log R (fun a => (pick a).isSome) =
        ∑ node ∈ c.counts.keys, tally log R fun a => pick a = some node := by
    unfold tally
    rw [Finset.card_eq_sum_card_fiberwise (f := nodeAt) (t := c.counts.keys)]
    · refine Finset.sum_congr rfl fun node _ => ?_
      rw [Finset.filter_filter]
      congr 1
      refine Finset.filter_congr fun i _ => ?_
      cases hGet : log[i]? with
      | none => simp
      | some a =>
        cases hPick : pick a with
        | none => simp [hPick]
        | some other => simp [nodeAt, hGet, hPick]
    · intro i hMem
      rw [Finset.mem_coe, Finset.mem_filter] at hMem
      rcases hMem with ⟨hi, hAny⟩
      rcases (Option.any_eq_true _ _).mp hAny with ⟨a, hGet, hSome⟩
      rcases Option.isSome_iff_exists.mp hSome with ⟨node, hPick⟩
      have hNode : nodeAt i = node := by simp [nodeAt, hGet, hPick]
      rw [hNode]
      exact hTallies.mem_keys hi hGet hPick
  rw [GCounter.value_eq, hFibers,
    Finset.sum_congr rfl fun node _ => hTallies node, min_sum_min]

/- Merged counts are those of all the operations received. -/
theorem merge
    {ι σ κ : Type} [DecidableEq ι] [DecidableEq κ]
    {key : α → κ} {home : κ → ι} {net : Network ι σ α}
    (hOrder : net.InOrder key home)
    (hKey : ∀ node, ∃ k, ∀ a, pick a = some node ↔ key a = k)
    {r s : ι} {d : GCounter} (hLeft : Tallies pick net.log (net.received r) c)
    (hRight : Tallies pick net.log (net.received s) d) :
    Tallies pick net.log (net.received r ∪ net.received s) (c.merge d) := by
  intro node
  rcases hKey node with ⟨k, hk⟩
  have hUnion := tally_union hOrder r s k
  simp only [← hk] at hUnion
  rw [GCounter.get_merge, hLeft node, hRight node, hUnion,
    min_max_distrib_right]

end Tallies

-- Replicas

/- The grow-only counter as a replicated value. -/
def gcounter (ι : Type) :
    Replicated ι GCounter String String where
  initial := fun _ => .new
  apply := fun c node => (c.increment node).1
  merge := GCounter.merge
  record := fun _ node => node

inductive Direction where
| up
| down
deriving DecidableEq

/- The other counter; an operation has a node and a direction. -/
def pncounter (ι : Type) :
    Replicated ι PNCounter (String × Direction)
      (String × Direction) where
  initial := fun _ => .new
  apply := fun c op =>
    match op.2 with
    | .up => c.increment op.1
    | .down => c.decrement op.1
  merge := PNCounter.merge
  record := fun _ op => op

section

variable {ι : Type}
variable [DecidableEq ι]

/- Each node counts at its own replica. -/
def OwnIncrements (home : String → ι)
    (_ : Network ι GCounter String) :
    Delivery ι String → Prop
| .perform r node => home node = r
| .merge _ _ => True

def OwnChanges (home : String → ι)
    (_ : Network ι PNCounter (String × Direction)) :
    Delivery ι (String × Direction) → Prop
| .perform r op => home op.1 = r
| .merge _ _ => True

/- A network that increments at the nodes' homes have led to. -/
abbrev CounterReached (home : String → ι)
    (net : Network ι GCounter String) : Prop :=
  Reaches (Network.step (gcounter ι)) (OwnIncrements home)
    (Network.start (gcounter ι)) net

abbrev PNCounterReached (home : String → ι)
    (net : Network ι PNCounter (String × Direction)) : Prop :=
  Reaches (Network.step (pncounter ι)) (OwnChanges home)
    (Network.start (pncounter ι)) net

theorem inOrder_of_reached
    {home : String → ι} {net : Network ι GCounter String}
    (hRun : CounterReached home net) :
    net.InOrder (fun node => node) home :=
  Network.inOrder (fun _ _ _ hHome => hHome) hRun

variable {net : Network ι PNCounter (String × Direction)}

theorem inOrder_of_pnReached
    {home : String → ι} (hRun : PNCounterReached home net) :
    net.InOrder (fun op => op) (fun op => home op.1) :=
  Network.inOrder (fun _ _ _ hHome => hHome) hRun

/- Every replica's counts are those of what it received. -/
theorem tallies_of_reached
    {home : String → ι} {net : Network ι GCounter String}
    (hRun : CounterReached home net) (r : ι) :
    Tallies some net.log (net.received r) (net.state r) := by
  refine Network.holds (Tallies some)
    (fun _ hRun => inOrder_of_reached hRun)
    (fun _ => Tallies.new)
    (fun net r a _ hLogged hTallies =>
      hTallies.grow (hLogged r) a)
    (fun net r node _ hLogged _ hTallies =>
      hTallies.increment (hLogged r) rfl)
    (fun net r s hOrder hLeft hRight =>
      Tallies.merge hOrder (fun node => ⟨node, by simp⟩) hLeft hRight)
    hRun r

/- A replica's value is how many increments it received. -/
theorem gcounter_value
    {home : String → ι} {net : Network ι GCounter String}
    (hRun : CounterReached home net) (r : ι) :
    (net.state r).value = min (net.received r).card u64Max := by
  rw [(tallies_of_reached hRun r).value]
  congr 1
  unfold tally
  congr 1
  refine Finset.filter_true_of_mem fun i hMem => ?_
  have hLt := Network.logged hRun r i hMem
  simp [List.getElem?_eq_getElem hLt]

/- The node of an operation in one direction. -/
def inDirection (d : Direction)
    (op : String × Direction) : Option String :=
  if op.2 = d then some op.1 else none

theorem inDirection_eq_some_iff
    (d : Direction) (node : String) (op : String × Direction) :
    inDirection d op = some node ↔ op = (node, d) := by
  rcases op with ⟨n, e⟩
  by_cases hEq : e = d
  · simp [inDirection, hEq]
  · simp [inDirection, hEq]

/- Both counters hold the counts of what was received. -/
structure PNTallies
    (log : List (String × Direction)) (R : Finset ℕ) (c : PNCounter) :
    Prop where
  ups : Tallies (inDirection .up) log R c.positive
  downs : Tallies (inDirection .down) log R c.negative

theorem pnTallies_of_reached
    {home : String → ι} (hRun : PNCounterReached home net) (r : ι) :
    PNTallies net.log (net.received r) (net.state r) := by
  have hKey : ∀ (d : Direction) (node : String),
      ∃ k, ∀ op, inDirection d op = some node ↔ op = k :=
    fun d node => ⟨(node, d), inDirection_eq_some_iff d node⟩
  refine Network.holds PNTallies
    (fun _ hRun => inOrder_of_pnReached hRun)
    (fun _ => ⟨Tallies.new, Tallies.new⟩)
    (fun net r a _ hLogged hTallies =>
      ⟨hTallies.ups.grow (hLogged r) a, hTallies.downs.grow (hLogged r) a⟩)
    ?_
    (fun net r s hOrder hLeft hRight =>
      ⟨Tallies.merge hOrder (hKey .up) hLeft.ups hRight.ups,
        Tallies.merge hOrder (hKey .down) hLeft.downs hRight.downs⟩)
    hRun r
  rintro net r ⟨node, d⟩ _ hLogged _ hTallies
  cases d with
  | up =>
    exact ⟨hTallies.ups.increment (hLogged r) rfl,
      hTallies.downs.skip (hLogged r) rfl⟩
  | down =>
    exact ⟨hTallies.ups.skip (hLogged r) rfl,
      hTallies.downs.increment (hLogged r) rfl⟩

/- How many operations in one direction `r` received. -/
def received
    (net : Network ι PNCounter (String × Direction)) (r : ι)
    (d : Direction) : ℕ :=
  tally net.log (net.received r) fun op => op.2 = d

/- A replica's value is the increments less the decrements. -/
theorem pncounter_value
    {home : String → ι} (hRun : PNCounterReached home net) (r : ι) :
    (net.state r).value =
      (min (received net r .up) u64Max : ℕ) -
        (min (received net r .down) u64Max : ℕ) := by
  have hTallies := pnTallies_of_reached hRun r
  have hDirection : ∀ d,
      (fun op => (inDirection d op).isSome) =
        fun op : String × Direction => decide (op.2 = d) := by
    intro d
    funext op
    by_cases hEq : op.2 = d
    · simp [inDirection, hEq]
    · simp [inDirection, hEq]
  rw [PNCounter.value, hTallies.ups.value,
    hTallies.downs.value, hDirection, hDirection]
  rfl

end

end Crdt
