import Amplihack.Base.JoinMap
import Amplihack.Base.Replicas
import Amplihack.Crdt.Counters

/-
  The observed-remove set.

  Every add has a tag of its own; a remove buries the tags its
  replica has seen. An item is present when one of its tags is
  not buried, so an add that a remove has not seen wins.

  Replicas that received the same operations agree, whatever
  the order and the repetitions of merges.
-/

-- The Set

namespace Crdt

open Base

/- Tags by item, and the tags buried by removes. -/
structure ORSet where
  elements : JoinMap String (Finset String)
  tombstones : JoinMap String (Finset String)

namespace ORSet

def new : ORSet where
  elements := ∅
  tombstones := ∅

/- Add `item` under the tag that was drawn. -/
def add (s : ORSet) (item tag : String) : ORSet :=
  { s with elements := s.elements.joinAt item {tag} }

/- Bury all the tags of `item`. -/
def remove (s : ORSet) (item : String) : ORSet :=
  match s.elements.lookup item with
  | none => s
  | some tags =>
    { s with tombstones := s.tombstones.joinAt item tags }

/- Some tag is not among the buried ones. -/
def hasLive (tags : Finset String) : Option (Finset String) → Bool
| some dead => decide (∃ t ∈ tags, t ∉ dead)
| none => decide tags.Nonempty

def contains (s : ORSet) (item : String) : Bool :=
  match s.elements.lookup item with
  | none => false
  | some tags => hasLive tags (s.tombstones.lookup item)

/- The union of both sides, entry by entry. -/
def merge (s t : ORSet) : ORSet where
  elements := s.elements.merge t.elements
  tombstones := s.tombstones.merge t.tombstones

/- Keep `item` when one of its tags is live. -/
def keepLive (s : ORSet) (result : Finset String)
    (item : String) (tags : Finset String) :
    Finset String :=
  if hasLive tags (s.tombstones.lookup item) then
    insert item result
  else result

theorem keepLive_comm
    (s : ORSet) (result : Finset String)
    (item : String) (tags : Finset String)
    (item' : String) (tags' : Finset String) :
    s.keepLive (s.keepLive result item tags) item' tags' =
      s.keepLive (s.keepLive result item' tags') item tags := by
  unfold keepLive
  split_ifs
  · exact Finset.insert_comm _ _ _
  · rfl
  · rfl
  · rfl

def items (s : ORSet) : Finset String :=
  s.elements.foldl s.keepLive s.keepLive_comm ∅

theorem merge_comm (s t : ORSet) : s.merge t = t.merge s := by
  rw [merge, merge, JoinMap.merge_comm s.elements,
    JoinMap.merge_comm s.tombstones]

theorem merge_assoc (s t u : ORSet) :
    (s.merge t).merge u = s.merge (t.merge u) := by
  simp only [merge, JoinMap.merge_assoc]

theorem merge_self (s : ORSet) : s.merge s = s := by
  rw [merge, JoinMap.merge_self, JoinMap.merge_self]

-- Membership

/- An item is contained when it has a tag that is not buried. -/
theorem contains_iff {s : ORSet} {item : String} :
    s.contains item = true ↔
      ∃ tag ∈ s.elements.get item, tag ∉ s.tombstones.get item := by
  unfold contains JoinMap.get
  cases s.elements.lookup item with
  | none => simp
  | some tags =>
    cases s.tombstones.lookup item with
    | none =>
      change decide tags.Nonempty = true ↔ _
      rw [decide_eq_true_eq]
      exact exists_congr fun tag =>
        (and_iff_left (Finset.notMem_empty tag)).symm
    | some dead => simp [hasLive]

theorem contains_eq_true_iff {s : ORSet} {item : String} :
    s.contains item = true ↔
      ∃ tags, s.elements.lookup item = some tags ∧
        hasLive tags (s.tombstones.lookup item) = true := by
  unfold contains
  cases s.elements.lookup item with
  | none | some _ => simp

/- The items are those contained. -/
theorem mem_items_iff {s : ORSet} {item : String} :
    item ∈ s.items ↔ s.contains item = true := by
  have hFold :
      ∀ (entries : List (Sigma fun _ : String => Finset String))
        (result : Finset String),
        item ∈ entries.foldl
            (fun acc e => s.keepLive acc e.1 e.2) result ↔
          item ∈ result ∨ ∃ tags,
            ⟨item, tags⟩ ∈ entries ∧
              hasLive tags (s.tombstones.lookup item) = true := by
    intro entries
    induction entries with
    | nil => simp
    | cons e entries ih =>
      intro result
      have hOne : item ∈ s.keepLive result e.1 e.2 ↔
          item ∈ result ∨ ∃ tags, ⟨item, tags⟩ = e ∧
            hasLive tags (s.tombstones.lookup item) =
              true := by
        rcases e with ⟨item', tags⟩
        unfold keepLive
        by_cases hLive : hasLive tags (s.tombstones.lookup item') = true
        · rw [if_pos hLive, Finset.mem_insert, or_comm]
          refine or_congr_right ⟨?_, ?_⟩
          · rintro rfl
            exact ⟨tags, rfl, hLive⟩
          · rintro ⟨tags', hEq, _⟩
            exact congrArg Sigma.fst hEq
        · rw [if_neg hLive]
          refine (or_iff_left ?_).symm
          rintro ⟨tags', hEq, hLive'⟩
          cases hEq
          exact hLive hLive'
      rw [List.foldl_cons, ih, hOne, or_assoc, ← exists_or]
      simp only [List.mem_cons, or_and_right]
  have hEntries : ∀ tags,
      s.elements.lookup item = some tags ↔
        ⟨item, tags⟩ ∈ s.elements.entries := by
    intro tags
    induction s.elements using Finmap.induction_on with
    | H m => exact AList.mem_lookup_iff
  rw [contains_eq_true_iff]
  simp only [hEntries]
  unfold items
  induction s.elements using Finmap.induction_on with
  | H m =>
    refine (hFold m.entries ∅).trans ?_
    simp

theorem get_elements_add
    (s : ORSet) (item tag item' : String) :
    (s.add item tag).elements.get item' =
      if item' = item then s.elements.get item' ∪ {tag}
      else s.elements.get item' := by
  rw [add, JoinMap.get_joinAt]
  rfl

@[simp] theorem elements_remove (s : ORSet) (item : String) :
    (s.remove item).elements = s.elements := by
  unfold remove
  split <;> rfl

/- A remove buries what its replica holds of the item. -/
theorem get_tombstones_remove
    (s : ORSet) (item item' : String) :
    (s.remove item).tombstones.get item' =
      if item' = item then
        s.tombstones.get item' ∪ s.elements.get item'
      else s.tombstones.get item' := by
  unfold remove
  split
  · next hNone =>
      by_cases hEq : item' = item
      · rw [if_pos hEq, hEq, JoinMap.get, JoinMap.get, hNone]
        simp
      · rw [if_neg hEq]
  · next tags hTags =>
      rw [JoinMap.get_joinAt]
      by_cases hEq : item' = item
      · have hGet : s.elements.get item = tags := by
          rw [JoinMap.get, hTags, Option.getD_some]
        rw [if_pos hEq, if_pos hEq, hEq, hGet]
        rfl
      · rw [if_neg hEq, if_neg hEq]

end ORSet

-- Replicas

/- What a replica does: an add with its tag, or a remove. -/
inductive Change where
| add (item tag : String)
| remove (item : String)

/- What is logged: a remove with the operations it has seen. -/
inductive Operation where
| add (item tag : String)
| remove (item : String) (seen : Finset ℕ)

/- The set as a replicated value. -/
def orset (ι : Type) : Replicated ι ORSet Operation Change where
  initial := fun _ => .new
  apply := fun s op =>
    match op with
    | .add item tag => s.add item tag
    | .remove item => s.remove item
  merge := ORSet.merge
  record := fun received op =>
    match op with
    | .add item tag => .add item tag
    | .remove item => .remove item received

section

variable {ι : Type}
variable [DecidableEq ι]

/- The tag of an add was not drawn before. -/
def FreshTags (net : Network ι ORSet Operation) :
    Delivery ι Change → Prop
| .perform _ (.add _ tag) =>
  ∀ item, Operation.add item tag ∉ net.log
| _ => True

/- A network that adds under fresh tags have led to. -/
abbrev SetReached (net : Network ι ORSet Operation) : Prop :=
  Reaches (Network.step (orset ι)) FreshTags (Network.start (orset ι)) net

/- The `i`th operation adds `item` under `tag`. -/
def AddsAt (log : List Operation) (i : ℕ)
    (item tag : String) : Prop :=
  log[i]? = some (Operation.add item tag)

/- The `j`th operation removes `item`, having seen `seen`. -/
def RemovesAt (log : List Operation) (j : ℕ)
    (item : String) (seen : Finset ℕ) : Prop :=
  log[j]? = some (Operation.remove item seen)

theorem addsAt_append
    {log : List Operation} {i : ℕ} (hLt : i < log.length)
    (op : Operation) (item tag : String) :
    AddsAt (log ++ [op]) i item tag ↔ AddsAt log i item tag := by
  rw [AddsAt, AddsAt, List.getElem?_append_left hLt]

theorem removesAt_append
    {log : List Operation} {j : ℕ} (hLt : j < log.length)
    (op : Operation) (item : String) (seen : Finset ℕ) :
    RemovesAt (log ++ [op]) j item seen ↔ RemovesAt log j item seen := by
  rw [RemovesAt, RemovesAt, List.getElem?_append_left hLt]

/- Each tag is of one add, and what a remove saw came before. -/
structure Tagged (log : List Operation) : Prop where
  unique : ∀ i j x y tag, AddsAt log i x tag → AddsAt log j y tag → i = j
  seen : ∀ j x seen, RemovesAt log j x seen → ∀ i ∈ seen, i < log.length

/- The state a replica has after the operations in `R`. -/
structure Summarizes
    (log : List Operation) (R : Finset ℕ) (s : ORSet) :
    Prop where
  added : ∀ x tag, tag ∈ s.elements.get x ↔ ∃ i ∈ R, AddsAt log i x tag
  buried : ∀ x tag, tag ∈ s.tombstones.get x ↔
    ∃ j ∈ R, ∃ seen, RemovesAt log j x seen ∧ ∃ i ∈ seen, AddsAt log i x tag

theorem Tagged.append
    {log : List Operation} {op : Operation} (hTagged : Tagged log)
    (hFresh : ∀ x tag, op = .add x tag → ∀ y, Operation.add y tag ∉ log)
    (hSeen : ∀ x seen, op = .remove x seen → ∀ i ∈ seen, i < log.length) :
    Tagged (log ++ [op]) where
  unique := by
    intro i j x y tag hi hj
    rcases Network.getElem?_append_singleton hi with
      hOldI | ⟨hEndI, hNewI⟩
    · rcases Network.getElem?_append_singleton hj with
        hOldJ | ⟨_, hNewJ⟩
      · exact hTagged.unique i j x y tag hOldI hOldJ
      · exact absurd (List.mem_of_getElem? hOldI) (hFresh y tag hNewJ.symm x)
    · rcases Network.getElem?_append_singleton hj with
        hOldJ | ⟨hEndJ, _⟩
      · exact absurd (List.mem_of_getElem? hOldJ) (hFresh x tag hNewI.symm y)
      · rw [hEndI, hEndJ]
  seen := by
    intro j x seen hj i hMem
    rw [List.length_append, List.length_singleton]
    refine Nat.lt_succ_of_lt ?_
    rcases Network.getElem?_append_singleton hj with
      hj | ⟨_, hj⟩
    · exact hTagged.seen j x seen hj i hMem
    · exact hSeen x seen hj.symm i hMem

variable {net : Network ι ORSet Operation}

theorem tagged_of_reached
    (hRun : SetReached net) :
    Tagged net.log := by
  let Inv := fun net : Network ι ORSet Operation =>
    net.Logged ∧ Tagged net.log
  refine (hRun.invariant Inv ?_ ⟨?_, ?_⟩).2
  · rintro net d ⟨hLogged, hTagged⟩ hFresh
    refine ⟨hLogged.step d, ?_⟩
    cases d with
    | perform r change =>
      cases change with
      | add item tag =>
        refine hTagged.append ?_ ?_
        · intro x t hEq
          cases hEq
          exact hFresh
        · intro x seen hEq
          cases hEq
      | remove item =>
        refine hTagged.append ?_ ?_
        · intro x t hEq
          cases hEq
        · intro x seen hEq
          cases hEq
          exact hLogged r
    | merge r s => exact hTagged
  · exact fun _ _ hMem => absurd hMem (Finset.notMem_empty _)
  · exact
      { unique := fun i j x y tag hi => by
          simp [AddsAt, Network.start] at hi
        seen := fun j x seen hj => by
          simp [RemovesAt, Network.start] at hj }

namespace Summarizes

variable {log : List Operation}
variable {R S : Finset ℕ}
variable {s t : ORSet}

theorem new : Summarizes [] ∅ .new where
  added := by simp [ORSet.new]
  buried := by simp [ORSet.new]

/- Operations made elsewhere change nothing. -/
theorem grow
    (hSum : Summarizes log R s) (hTagged : Tagged log)
    (hLogged : ∀ i ∈ R, i < log.length) (op : Operation) :
    Summarizes (log ++ [op]) R s where
  added := by
    intro x tag
    rw [hSum.added]
    refine exists_congr fun i => and_congr_right fun hMem => ?_
    rw [addsAt_append (hLogged i hMem)]
  buried := by
    intro x tag
    rw [hSum.buried]
    refine exists_congr fun j => and_congr_right fun hMem => ?_
    refine exists_congr fun seen => ?_
    rw [removesAt_append (hLogged j hMem)]
    refine and_congr_right fun hRemoves => ?_
    refine exists_congr fun i => and_congr_right fun hSeen => ?_
    rw [addsAt_append (hTagged.seen j x seen hRemoves i hSeen)]

theorem merge
    (hLeft : Summarizes log R s) (hRight : Summarizes log S t) :
    Summarizes log (R ∪ S) (s.merge t) where
  added := by
    intro x tag
    rw [ORSet.merge, JoinMap.get_merge, Finset.sup_eq_union,
      Finset.mem_union, hLeft.added, hRight.added]
    simp only [Finset.mem_union, or_and_right, exists_or]
  buried := by
    intro x tag
    rw [ORSet.merge, JoinMap.get_merge, Finset.sup_eq_union,
      Finset.mem_union, hLeft.buried, hRight.buried]
    simp only [Finset.mem_union, or_and_right, exists_or]

/- The new operation, at the end of the log. -/
theorem exists_mem_insert_iff
    {p : ℕ → Prop} :
    (∃ i ∈ insert log.length R, p i) ↔ p log.length ∨ ∃ i ∈ R, p i := by
  simp only [Finset.mem_insert, or_and_right, exists_or, exists_eq_left]

theorem add
    (hSum : Summarizes log R s) (hTagged : Tagged log)
    (hLogged : ∀ i ∈ R, i < log.length) (item tag : String) :
    Summarizes (log ++ [.add item tag])
      (insert log.length R) (s.add item tag) where
  added := by
    intro x t
    have hOld := (hSum.grow hTagged hLogged (.add item tag)).added x t
    have hNew : AddsAt (log ++ [.add item tag]) log.length x t ↔
        x = item ∧ t = tag := by simp [AddsAt, eq_comm]
    rw [exists_mem_insert_iff, hNew, ORSet.get_elements_add, ← hOld]
    by_cases hx : x = item
    · simp [hx]
    · simp [hx]
  buried := by
    intro x t
    have hOld := (hSum.grow hTagged hLogged (.add item tag)).buried x t
    have hNew : ¬ ∃ seen,
        RemovesAt (log ++ [.add item tag]) log.length x seen ∧
          ∃ i ∈ seen, AddsAt (log ++ [.add item tag]) i x t := by
      simp [RemovesAt]
    rw [exists_mem_insert_iff, or_iff_right hNew, ← hOld]
    rfl

theorem remove
    (hSum : Summarizes log R s) (hTagged : Tagged log)
    (hLogged : ∀ i ∈ R, i < log.length) (item : String) :
    Summarizes (log ++ [.remove item R])
      (insert log.length R) (s.remove item) where
  added := by
    intro x t
    have hOld := (hSum.grow hTagged hLogged (.remove item R)).added x t
    have hNew : ¬ AddsAt (log ++ [.remove item R]) log.length x t := by
      simp [AddsAt]
    rw [exists_mem_insert_iff, or_iff_right hNew, ← hOld,
      ORSet.elements_remove]
  buried := by
    intro x t
    have hGrown := hSum.grow hTagged hLogged (.remove item R)
    have hNew : (∃ seen,
        RemovesAt (log ++ [.remove item R]) log.length x seen ∧
          ∃ i ∈ seen, AddsAt (log ++ [.remove item R]) i x t) ↔
        x = item ∧ t ∈ s.elements.get x := by
      rw [hGrown.added x t]
      simp [RemovesAt, eq_comm, and_assoc]
    rw [exists_mem_insert_iff, hNew, ← hGrown.buried x t,
      ORSet.get_tombstones_remove]
    by_cases hx : x = item
    · simp [hx, or_comm]
    · simp [hx]

end Summarizes

/- Every replica holds what it received says. -/
theorem summarizes_of_reached
    (hRun : SetReached net) (r : ι) :
    Summarizes net.log (net.received r) (net.state r) := by
  refine Network.holds Summarizes
    (fun net hRun => tagged_of_reached hRun)
    (fun _ => Summarizes.new)
    (fun net r op hTagged hLogged hSum =>
      hSum.grow hTagged (hLogged r) op)
    ?_
    (fun net r s _ hLeft hRight => hLeft.merge hRight)
    hRun r
  intro net r change hTagged hLogged _ hSum
  cases change with
  | add item tag => exact hSum.add hTagged (hLogged r) item tag
  | remove item => exact hSum.remove hTagged (hLogged r) item

/-
  `r` received an add of `item` that no remove it received
  had seen.
-/
def AddWins
    (net : Network ι ORSet Operation) (r : ι) (item : String) :
    Prop :=
  ∃ i ∈ net.received r, ∃ tag, AddsAt net.log i item tag ∧
    ∀ j ∈ net.received r, ∀ seen, RemovesAt net.log j item seen → i ∉ seen

/- The items of a replica are those whose add wins there. -/
theorem mem_items_iff_addWins
    (hRun : SetReached net) (r : ι) (item : String) :
    item ∈ (net.state r).items ↔ AddWins net r item := by
  have hTagged := tagged_of_reached hRun
  have hSum := summarizes_of_reached hRun r
  rw [ORSet.mem_items_iff, ORSet.contains_iff]
  constructor
  · rintro ⟨tag, hAdded, hNotBuried⟩
    rcases (hSum.added item tag).mp hAdded with ⟨i, hi, hAdds⟩
    refine ⟨i, hi, tag, hAdds, fun j hj seen hRemoves hSeen => ?_⟩
    exact hNotBuried ((hSum.buried item tag).mpr
      ⟨j, hj, seen, hRemoves, i, hSeen, hAdds⟩)
  · rintro ⟨i, hi, tag, hAdds, hUnseen⟩
    refine ⟨tag, (hSum.added item tag).mpr ⟨i, hi, hAdds⟩, ?_⟩
    intro hBuried
    rcases (hSum.buried item tag).mp hBuried with
      ⟨j, hj, seen, hRemoves, i', hSeen, hAdds'⟩
    have hSame := hTagged.unique i' i item item tag hAdds' hAdds
    rw [hSame] at hSeen
    exact hUnseen j hj seen hRemoves hSeen

/- The same operations received, the same items. -/
theorem items_eq_of_received_eq
    (hRun : SetReached net) {r s : ι}
    (hSame : net.received r = net.received s) :
    (net.state r).items = (net.state s).items := by
  ext item
  rw [mem_items_iff_addWins hRun, mem_items_iff_addWins hRun,
    AddWins, AddWins, hSame]

end

end Crdt

-- Convergence

namespace Crdt

open Base

/- Neither order nor repetition of merges matters. -/
structure MergeLaws {σ : Type} (merge : σ → σ → σ) :
    Prop where
  comm : ∀ s t, merge s t = merge t s
  assoc : ∀ s t u, merge (merge s t) u = merge s (merge t u)
  self : ∀ s, merge s s = s

theorem mergeLaws_orset : MergeLaws ORSet.merge where
  comm := ORSet.merge_comm
  assoc := ORSet.merge_assoc
  self := ORSet.merge_self

theorem mergeLaws_gcounter : MergeLaws GCounter.merge where
  comm := GCounter.merge_comm
  assoc := GCounter.merge_assoc
  self := GCounter.merge_self

theorem mergeLaws_pncounter : MergeLaws PNCounter.merge where
  comm := PNCounter.merge_comm
  assoc := PNCounter.merge_assoc
  self := PNCounter.merge_self

/- Merging lowers no node's count, on either side. -/
structure CountsKept : Prop where
  grow : ∀ (c d : GCounter) node, c.get node ≤ (c.merge d).get node
  up : ∀ (c d : PNCounter) node,
    c.positive.get node ≤ (c.merge d).positive.get node
  down : ∀ (c d : PNCounter) node,
    c.negative.get node ≤ (c.merge d).negative.get node

theorem countsKept : CountsKept where
  grow := fun c d node => (c.get_le_merge d node).1
  up := fun c d node =>
    (c.positive.get_le_merge d.positive node).1
  down := fun c d node =>
    (c.negative.get_le_merge d.negative node).1

section

variable {ι : Type}

/- An unseen add wins, and equal knowledge gives equal items. -/
structure SetsConverge (net : Network ι ORSet Operation) :
    Prop where
  items : ∀ r item, item ∈ (net.state r).items ↔ AddWins net r item
  contains : ∀ r item,
    (net.state r).contains item = true ↔ item ∈ (net.state r).items
  agree : ∀ r s, net.received r = net.received s →
    (net.state r).items = (net.state s).items

/- Values count what was received, up to the largest count. -/
structure CountersConverge
    (counters : Network ι GCounter String)
    (signed : Network ι PNCounter (String × Direction)) :
    Prop where
  value : ∀ r, (counters.state r).value =
    min (counters.received r).card u64Max
  agree : ∀ r s, counters.received r = counters.received s →
    (counters.state r).value = (counters.state s).value
  difference : ∀ r, (signed.state r).value =
    (min (received signed r .up) u64Max : ℕ) -
      (min (received signed r .down) u64Max : ℕ)
  signedAgree : ∀ r s, signed.received r = signed.received s →
    (signed.state r).value = (signed.state s).value

variable [DecidableEq ι]

/-
  In every network that adds under fresh tags, or counts at
  the nodes' homes, merges are order-free and replicas with
  the same operations agree.
-/
theorem replicas_converge
    {home : String → ι} {sets : Network ι ORSet Operation}
    {counters : Network ι GCounter String}
    {signed : Network ι PNCounter (String × Direction)}
    (hSets : SetReached sets) (hCounters : CounterReached home counters)
    (hSigned : PNCounterReached home signed) :
    MergeLaws ORSet.merge ∧
      MergeLaws GCounter.merge ∧
      MergeLaws PNCounter.merge ∧
      CountsKept ∧
      SetsConverge sets ∧
      CountersConverge counters signed := by
  refine ⟨mergeLaws_orset, mergeLaws_gcounter,
    mergeLaws_pncounter, countsKept, ?_, ?_⟩
  · exact
      { items := mem_items_iff_addWins hSets
        contains := fun _ _ => ORSet.mem_items_iff.symm
        agree := fun _ _ => items_eq_of_received_eq hSets }
  · exact
      { value := gcounter_value hCounters
        agree := by
          intro r s hSame
          rw [gcounter_value hCounters, gcounter_value hCounters, hSame]
        difference := pncounter_value hSigned
        signedAgree := by
          intro r s hSame
          rw [pncounter_value hSigned, pncounter_value hSigned]
          unfold received
          rw [hSame] }

end

/- Two replicas: the second removes `x` while the first adds
   it again. -/
def concurrentAdds : Network Bool ORSet Operation :=
  [.perform false (.add "x" "t1"), .merge true false,
    .perform false (.add "x" "t2"), .perform true (.remove "x"),
    .merge true false].foldl
      (Network.step (orset Bool)) (Network.start (orset Bool))

def oneIncrement : Network Bool GCounter String :=
  (Network.start (gcounter Bool)).step (gcounter Bool) (.perform false "node")

def oneDecrement :
    Network Bool PNCounter (String × Direction) :=
  (Network.start (pncounter Bool)).step (pncounter Bool)
    (.perform false ("node", .down))

/- The add that the remove has not seen wins. -/
theorem replicas_converge_of_concurrent_adds :
    "x" ∈ (concurrentAdds.state true).items ∧
      (oneIncrement.state false).value = 1 ∧
      (oneDecrement.state false).value = -1 := by
  have hFirst : ∀ item, Operation.add item "t1" ∉
      (Network.start (orset Bool)).log := fun _ =>
    List.not_mem_nil
  have hSecond : ∀ item, Operation.add item "t2" ∉
      [Operation.add "x" "t1"] := by simp
  have hStart : SetReached (Network.start (orset Bool)) := Reaches.refl _
  have hSets : SetReached concurrentAdds :=
    ((((hStart.tail
      (Delivery.perform false (.add "x" "t1")) hFirst).tail
      (Delivery.merge true false) trivial).tail
      (Delivery.perform false (.add "x" "t2")) hSecond).tail
      (Delivery.perform true (.remove "x")) trivial).tail
      (Delivery.merge true false) trivial
  have hCounters : CounterReached (fun _ => false) oneIncrement :=
    Reaches.tail (Reaches.refl (Network.start (gcounter Bool)))
      (Delivery.perform false "node") rfl
  have hSigned : PNCounterReached (fun _ => false) oneDecrement :=
    Reaches.tail (Reaches.refl (Network.start (pncounter Bool)))
      (Delivery.perform false ("node", Direction.down)) rfl
  rcases replicas_converge hSets hCounters hSigned with
    ⟨_, _, _, _, hSet, hCount⟩
  refine ⟨(hSet.items true "x").mpr ?_, ?_, ?_⟩
  · refine ⟨1, by decide, "t2", rfl, ?_⟩
    intro j hMem seen hRemoves hSeen
    have hLog : concurrentAdds.log =
        [.add "x" "t1", .add "x" "t2", .remove "x" {0}] := rfl
    rw [RemovesAt, hLog] at hRemoves
    rcases j with _ | _ | _ | j
    · cases hRemoves
    · cases hRemoves
    · cases hRemoves
      simp at hSeen
    · cases hRemoves
  · rw [hCount.value false]
    decide
  · rw [hCount.difference false]
    decide

-- Grow-Only Sets

/- A set of items that are never removed. -/
structure GSet where
  items : Finset String

namespace GSet

def new : GSet where
  items := ∅

def add (s : GSet) (item : String) : GSet where
  items := insert item s.items

def contains (s : GSet) (item : String) : Bool :=
  item ∈ s.items

def merge (s t : GSet) : GSet where
  items := s.items ∪ t.items

theorem mergeLaws : MergeLaws merge where
  comm := fun s t => by simp [merge, Finset.union_comm]
  assoc := fun s t u => by simp [merge, Finset.union_assoc]
  self := fun s => by simp [merge]

end GSet

/- The set as a replicated value: an add is logged as its item. -/
def gset (ι : Type) : Replicated ι GSet String String where
  initial := fun _ => .new
  apply := GSet.add
  merge := GSet.merge
  record := fun _ item => item

section

variable {ι : Type} [DecidableEq ι]

/-
  Whatever the order, the loss and the repetition of merges,
  a replica holds exactly the items whose adds it received.
-/
theorem gset_converges
    {net : Network ι GSet String}
    (hRun : Reaches (Network.step (gset ι)) (fun _ _ => True)
      (Network.start (gset ι)) net) :
    MergeLaws GSet.merge ∧
      (∀ r item, (net.state r).contains item = true ↔
        ∃ i ∈ net.received r, net.log[i]? = some item) ∧
      ∀ r s, net.received r ⊆ net.received s →
        (net.state r).items ⊆ (net.state s).items := by
  have hItems : ∀ r item, item ∈ (net.state r).items ↔
      ∃ i ∈ net.received r, net.log[i]? = some item := by
    intro r
    refine Network.holds
      (fun log R s => ∀ item, item ∈ s.items ↔ ∃ i ∈ R, log[i]? = some item)
      (fun _ _ => True.intro) (fun _ => by simp [gset, GSet.new])
      ?_ ?_ ?_ hRun r
    · intro net r new _ hLogged hHolds item
      rw [hHolds]
      refine exists_congr fun i => and_congr_right fun hMem => ?_
      rw [List.getElem?_append_left (hLogged r i hMem)]
    · intro net r new _ hLogged _ hHolds item
      simp only [gset, GSet.add, Finset.mem_insert, hHolds,
        or_and_right, exists_or, exists_eq_left,
        List.getElem?_concat_length, Option.some.injEq]
      refine or_congr eq_comm (exists_congr fun i =>
        and_congr_right fun hMem => ?_)
      rw [List.getElem?_append_left (hLogged r i hMem)]
    · intro net r s _ hLeft hRight item
      simp only [gset, GSet.merge, Finset.mem_union, hLeft, hRight,
        or_and_right, exists_or]
  refine ⟨GSet.mergeLaws, fun r item => ?_, fun r s hSubset item => ?_⟩
  · rw [← hItems, GSet.contains, decide_eq_true_iff]
  · rw [hItems, hItems]
    exact fun ⟨i, hMem, hLog⟩ => ⟨i, hSubset hMem, hLog⟩

end

/- An item added at one replica is merged into the other. -/
theorem gset_converges_of_one_add :
    ((([.perform false "x", .merge true false].foldl
      (Network.step (gset Bool))
      (Network.start (gset Bool))).state true).contains "x") = true := by
  refine ((gset_converges (Reaches.foldl _
    (fun _ _ _ => trivial) _)).2.1 true "x").mpr ⟨0, ?_, ?_⟩
  · decide
  · rfl

end Crdt
