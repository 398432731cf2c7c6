import Amplihack.Base.Replicas
import Mathlib.Data.Prod.Lex
import Mathlib.Data.String.Basic

/-
  The last-writer-wins register.

  Merging prefers the later timestamp, then the higher node.
  A local write is only compared by its timestamp, so a write
  at the register's own timestamp is dropped, whatever its
  node; a new register already has the timestamp 0.
-/

-- The Register

namespace Crdt

open Base

structure LWWRegister (α : Type) where
  value : Option α
  timestamp : ℕ
  nodeId : String

namespace LWWRegister

variable {α : Type}

def new (nodeId : String) : LWWRegister α where
  value := none
  timestamp := 0
  nodeId := nodeId

/- Only a later timestamp replaces the value. -/
def set (r : LWWRegister α) (value : α) (timestamp : ℕ)
    (nodeId : String) :
    LWWRegister α :=
  if r.timestamp < timestamp then
    { value := some value, timestamp, nodeId }
  else r

/- A later timestamp wins, then a higher node. -/
def merge (r other : LWWRegister α) : LWWRegister α :=
  if r.timestamp < other.timestamp ∨
      other.timestamp = r.timestamp ∧
        r.nodeId < other.nodeId then
    other
  else r

/- What registers are ordered by. -/
def key (r : LWWRegister α) : ℕ ×ₗ String :=
  toLex (r.timestamp, r.nodeId)

/- Merging keeps the register with the greater key. -/
theorem merge_eq (r other : LWWRegister α) :
    r.merge other = if r.key < other.key then other else r := by
  have hKey : r.key < other.key ↔
      r.timestamp < other.timestamp ∨
        other.timestamp = r.timestamp ∧ r.nodeId < other.nodeId := by
    rw [key, key, Prod.Lex.toLex_lt_toLex, eq_comm]
  rw [merge]
  exact if_congr hKey.symm rfl rfl

end LWWRegister

-- Writes

structure Write (α : Type) where
  value : α
  timestamp : ℕ
  nodeId : String

/- By timestamp, then by node. -/
def Write.key {α : Type} (w : Write α) : ℕ ×ₗ String :=
  toLex (w.timestamp, w.nodeId)

/- The register as a replicated value; `owner` makes each. -/
def lwwRegister {ι : Type} (α : Type) (owner : ι → String) :
    Replicated ι (LWWRegister α) (Write α) (Write α) where
  initial := fun r => .new (owner r)
  apply := fun r w => r.set w.value w.timestamp w.nodeId
  merge := LWWRegister.merge
  record := fun _ w => w

/- The register right after a write it takes. -/
def Write.register {α : Type} (w : Write α) : LWWRegister α where
  value := some w.value
  timestamp := w.timestamp
  nodeId := w.nodeId

/- The register is that of the greatest write among `R`. -/
def Holds {α : Type} (log : List (Write α)) (R : Finset ℕ)
    (r : LWWRegister α) :
    Prop :=
  ∃ i ∈ R, ∃ w, log[i]? = some w ∧ r = w.register ∧
    ∀ j ∈ R, ∀ v, log[j]? = some v → v.key ≤ w.key

/- Nothing was received, or the greatest write is held. -/
structure Current {α : Type} (log : List (Write α))
    (R : Finset ℕ) (r : LWWRegister α) :
    Prop where
  empty : R = ∅ → r.value = none ∧ r.timestamp = 0
  holds : R.Nonempty → 0 < r.timestamp ∧ Holds log R r

namespace Current

variable {α : Type}
variable {log : List (Write α)}
variable {R S : Finset ℕ}
variable {r other : LWWRegister α}

theorem new (log : List (Write α)) (nodeId : String) :
    Current log ∅ (.new nodeId) where
  empty := fun _ => ⟨rfl, rfl⟩
  holds := fun hSome => absurd hSome Finset.not_nonempty_empty

/- Writes made elsewhere change nothing. -/
theorem grow
    (hCurrent : Current log R r)
    (hLogged : ∀ i ∈ R, i < log.length) (w : Write α) :
    Current (log ++ [w]) R r where
  empty := hCurrent.empty
  holds := by
    intro hSome
    rcases hCurrent.holds hSome with ⟨hPos, i, hi, v, hGet, hState, hGreatest⟩
    refine ⟨hPos, i, hi, v, ?_, hState, ?_⟩
    · rwa [List.getElem?_append_left (hLogged i hi)]
    · intro j hj u hu
      rw [List.getElem?_append_left (hLogged j hj)] at hu
      exact hGreatest j hj u hu

/- The newest write is the greatest of what was received. -/
theorem of_newest
    {w : Write α} (hPos : 0 < w.timestamp)
    (hGreatest : ∀ j ∈ R, ∀ v, log[j]? = some v → v.key ≤ w.key)
    (hLogged : ∀ i ∈ R, i < log.length) :
    Current (log ++ [w]) (insert log.length R)
      w.register where
  empty := fun hEmpty =>
    absurd hEmpty (Finset.insert_ne_empty _ _)
  holds := by
    intro _
    refine ⟨hPos, log.length, Finset.mem_insert_self _ _, w,
      List.getElem?_concat_length, rfl, ?_⟩
    intro j hj v hv
    rcases Finset.mem_insert.mp hj with rfl | hj
    · rw [List.getElem?_concat_length] at hv
      rw [Option.some.inj hv]
    · rw [List.getElem?_append_left (hLogged j hj)] at hv
      exact hGreatest j hj v hv

/- A write in step with the register leaves it current. -/
theorem set
    {w : Write α} (hCurrent : Current log R r)
    (hLogged : ∀ i ∈ R, i < log.length)
    (hTie : w.timestamp = r.timestamp →
      0 < w.timestamp ∧ w.nodeId ≤ r.nodeId) :
    Current (log ++ [w]) (insert log.length R)
      (r.set w.value w.timestamp w.nodeId) := by
  unfold LWWRegister.set
  by_cases hLater : r.timestamp < w.timestamp
  · rw [if_pos hLater]
    refine of_newest (Nat.zero_lt_of_lt hLater) ?_ hLogged
    intro j hj v hv
    rcases hCurrent.holds ⟨j, hj⟩ with ⟨_, i, _, u, _, rfl, hGreatest⟩
    refine le_trans (hGreatest j hj v hv) ?_
    exact (Prod.Lex.toLex_lt_toLex.mpr (.inl hLater)).le
  · rw [if_neg hLater]
    rcases R.eq_empty_or_nonempty with rfl | hSome
    · have hZero := (hCurrent.empty rfl).2
      have hPos := (hTie (by omega)).1
      omega
    · rcases hCurrent.holds hSome with
        ⟨hPos, i, hi, u, hu, rfl, hGreatest⟩
      have hBelow : w.key ≤ u.key := by
        rw [Write.key, Write.key, Prod.Lex.toLex_le_toLex]
        rcases Nat.lt_or_eq_of_le (not_lt.mp hLater) with
          hLt | hEq
        · exact .inl hLt
        · exact .inr ⟨hEq, (hTie hEq).2⟩
      refine ⟨fun hEmpty =>
        absurd hEmpty (Finset.insert_ne_empty _ _), fun _ =>
        ⟨hPos, i, Finset.mem_insert_of_mem hi, u, ?_, rfl, ?_⟩⟩
      · rwa [List.getElem?_append_left (hLogged i hi)]
      · intro j hj v hv
        rcases Finset.mem_insert.mp hj with rfl | hj
        · rw [List.getElem?_concat_length] at hv
          rw [← Option.some.inj hv]
          exact hBelow
        · rw [List.getElem?_append_left (hLogged j hj)] at hv
          exact hGreatest j hj v hv

theorem holds_union_left
    {i : ℕ} {w : Write α} (hi : i ∈ R) (hGet : log[i]? = some w)
    (hLeft : ∀ j ∈ R, ∀ v, log[j]? = some v → v.key ≤ w.key)
    (hRight : ∀ j ∈ S, ∀ v, log[j]? = some v → v.key ≤ w.key) :
    Holds log (R ∪ S) w.register :=
  ⟨i, Finset.mem_union_left _ hi, w, hGet, rfl,
    fun j hj v hv => (Finset.mem_union.mp hj).elim
      (fun hj => hLeft j hj v hv)
      (fun hj => hRight j hj v hv)⟩

/- The greater of two greatest writes is the greatest. -/
theorem merge
    (hLeft : Current log R r) (hRight : Current log S other) :
    Current log (R ∪ S) (r.merge other) := by
  rw [LWWRegister.merge_eq]
  rcases R.eq_empty_or_nonempty with rfl | hSome
  · rw [Finset.empty_union]
    by_cases hKey : r.key < other.key
    · rw [if_pos hKey]
      exact hRight
    · rw [if_neg hKey]
      have hZero := (hLeft.empty rfl).2
      refine ⟨fun _ => hLeft.empty rfl, fun hSome => ?_⟩
      have hPos := (hRight.holds hSome).1
      refine absurd (Prod.Lex.toLex_lt_toLex.mpr (.inl ?_)) hKey
      omega
  · rcases hLeft.holds hSome with
      ⟨hPos, i, hi, u, hu, rfl, hGreatest⟩
    have hNonempty : R ∪ S ≠ ∅ := fun hEmpty =>
      hSome.ne_empty (Finset.union_eq_empty.mp hEmpty).1
    refine ⟨fun hEmpty => absurd hEmpty hNonempty, fun _ => ?_⟩
    rcases S.eq_empty_or_nonempty with rfl | hOther
    · have hZero := (hRight.empty rfl).2
      rw [if_neg, Finset.union_empty]
      · exact ⟨hPos, i, hi, u, hu, rfl, hGreatest⟩
      · refine not_lt.mpr (Prod.Lex.toLex_lt_toLex.mpr (.inl ?_)).le
        omega
    · rcases hRight.holds hOther with
        ⟨hPos', i', hi', u', hu', rfl, hGreatest'⟩
      by_cases hKey : u.register.key < u'.register.key
      · rw [if_pos hKey, Finset.union_comm]
        exact ⟨hPos', holds_union_left hi' hu' hGreatest'
          fun j hj v hv => (hGreatest j hj v hv).trans hKey.le⟩
      · rw [if_neg hKey]
        exact ⟨hPos, holds_union_left hi hu hGreatest
          fun j hj v hv =>
            (hGreatest' j hj v hv).trans (not_lt.mp hKey)⟩

end Current

-- Replicas

section

variable {ι α : Type}
variable [DecidableEq ι]
variable {owner : ι → String}

/- A write at the register's own timestamp is not the first at
   0, and its node is not above the register's. -/
def TieKept (r : LWWRegister α) (w : Write α) : Prop :=
  w.timestamp = r.timestamp → 0 < w.timestamp ∧ w.nodeId ≤ r.nodeId

/- Writes that differ have different timestamps or nodes. -/
def WritesDistinct
    (net : Network ι (LWWRegister α) (Write α)) :
    Delivery ι (Write α) → Prop
| .perform _ w => ∀ v ∈ net.log, v.key = w.key → v = w
| .merge _ _ => True

/- No write is dropped for a tie. -/
def TiesKept (net : Network ι (LWWRegister α) (Write α)) :
    Delivery ι (Write α) → Prop
| .perform r w => TieKept (net.state r) w
| .merge _ _ => True

/- A network that writes kept at every tie have led to. -/
abbrev RegisterReached (owner : ι → String)
    (net : Network ι (LWWRegister α) (Write α)) : Prop :=
  Reaches (Network.step (lwwRegister α owner))
    (fun net d => WritesDistinct net d ∧ TiesKept net d)
    (Network.start (lwwRegister α owner)) net

theorem unique_of_reached
    {net : Network ι (LWWRegister α) (Write α)}
    (hRun : RegisterReached owner net) :
    ∀ v ∈ net.log, ∀ w ∈ net.log, v.key = w.key → v = w := by
  refine hRun.invariant
    (fun net => ∀ v ∈ net.log, ∀ w ∈ net.log, v.key = w.key → v = w) ?_ ?_
  · intro net d hUnique hKept
    cases d with
    | merge r s => exact hUnique
    | perform r u =>
      intro v hv w hw hKey
      rcases List.mem_append.mp hv with hv | hv
      · rcases List.mem_append.mp hw with hw | hw
        · exact hUnique v hv w hw hKey
        · rw [List.mem_singleton.mp hw] at hKey ⊢
          exact hKept.1 v hv hKey
      · rcases List.mem_append.mp hw with hw | hw
        · rw [List.mem_singleton.mp hv] at hKey ⊢
          exact (hKept.1 w hw hKey.symm).symm
        · rw [List.mem_singleton.mp hv, List.mem_singleton.mp hw]
  · exact fun v hv => absurd hv List.not_mem_nil

/- Every replica is current with what it received. -/
theorem current_of_reached
    {net : Network ι (LWWRegister α) (Write α)}
    (hRun : RegisterReached owner net) (r : ι) :
    Current net.log (net.received r) (net.state r) := by
  refine Network.holds Current (fun _ _ => trivial)
    (fun r => Current.new [] (owner r))
    (fun net r w _ hLogged hCurrent =>
      hCurrent.grow (hLogged r) w)
    (fun net r w _ hLogged hKept hCurrent =>
      hCurrent.set (hLogged r) hKept.2)
    (fun net r s _ hLeft hRight => hLeft.merge hRight)
    hRun r

/- Every write made has reached `r`, by whatever way. -/
def ReceivedAll (net : Network ι (LWWRegister α) (Write α))
    (r : ι) : Prop :=
  ∀ w ∈ net.log, ∃ i ∈ net.received r, net.log[i]? = some w

/-
  When no write is dropped for a tie, a replica that received
  all the writes holds the value of the greatest one, so all
  such replicas agree.
-/
theorem greatest_write_wins
    {net : Network ι (LWWRegister α) (Write α)}
    (hRun : RegisterReached owner net) :
    (∀ r, ReceivedAll net r → net.log ≠ [] →
      ∃ w ∈ net.log, (∀ v ∈ net.log, v.key ≤ w.key) ∧
        (net.state r).value = some w.value) ∧
      ∀ r s, ReceivedAll net r → ReceivedAll net s →
        (net.state r).value = (net.state s).value := by
  have hWinner : ∀ r, ReceivedAll net r → net.log ≠ [] →
      ∃ w ∈ net.log, (∀ v ∈ net.log, v.key ≤ w.key) ∧
        (net.state r).value = some w.value := by
    intro r hAll hSome
    rcases List.exists_mem_of_ne_nil _ hSome with ⟨u, hu⟩
    rcases hAll u hu with ⟨i, hi, _⟩
    rcases ((current_of_reached hRun r).holds ⟨i, hi⟩).2 with
      ⟨j, _, w, hw, hState, hGreatest⟩
    refine ⟨w, List.mem_of_getElem? hw, fun v hv => ?_, ?_⟩
    · rcases hAll v hv with ⟨k, hk, hGet⟩
      exact hGreatest k hk v hGet
    · rw [hState]
      rfl
  refine ⟨hWinner, fun r s hAllR hAllS => ?_⟩
  by_cases hEmpty : net.log = []
  · have hNone : ∀ q, (net.state q).value = none := by
      intro q
      refine ((current_of_reached hRun q).empty ?_).1
      refine Finset.eq_empty_iff_forall_notMem.mpr fun i hi => ?_
      have hLt := Network.logged hRun q i hi
      rw [hEmpty] at hLt
      exact absurd hLt (Nat.not_lt_zero i)
    rw [hNone, hNone]
  · rcases hWinner r hAllR hEmpty with ⟨v, hv, hMaxV, hR⟩
    rcases hWinner s hAllS hEmpty with ⟨w, hw, hMaxW, hS⟩
    have hKey := le_antisymm (hMaxW v hv) (hMaxV w hw)
    rw [hR, hS, unique_of_reached hRun v hv w hw hKey]

end

def writeA : Write String := ⟨"value-a", 10, "node-a"⟩

def writeB : Write String := ⟨"value-b", 10, "node-b"⟩

/- Two replicas of registers made by `node-a`. -/
abbrev twoRegisters :
    Replicated Bool (LWWRegister String) (Write String) (Write String) :=
  lwwRegister String fun _ => "node-a"

theorem writeA_key_lt : writeA.key < writeB.key := by
  decide

/- The second write is a write of its own. -/
theorem writeB_distinct :
    ∀ v ∈ [writeA], v.key = writeB.key → v = writeB := by
  intro v hv hKey
  rw [List.mem_singleton.mp hv] at hKey
  exact absurd hKey writeA_key_lt.ne

/- Two writes at 10, each at a replica of its own; the second
   replica then has both. -/
def mergedTie : Network Bool (LWWRegister String) (Write String) :=
  [Delivery.perform false writeA, .perform true writeB,
    .merge true false].foldl
      (Network.step twoRegisters) (Network.start twoRegisters)

/- Merging breaks the tie by the node. -/
theorem greatest_write_wins_of_merged_tie :
    (mergedTie.state true).value = some "value-b" := by
  have hStart : RegisterReached (fun _ => "node-a")
      (Network.start twoRegisters) := Reaches.refl _
  have hRun : RegisterReached (fun _ => "node-a") mergedTie :=
    ((hStart.tail (Delivery.perform false writeA)
      ⟨fun v hv => absurd hv List.not_mem_nil,
        fun hEq => absurd hEq (by decide)⟩).tail
      (Delivery.perform true writeB)
      ⟨writeB_distinct, fun hEq => absurd hEq (by decide)⟩).tail
      (Delivery.merge true false) ⟨trivial, trivial⟩
  have hLog : mergedTie.log = [writeA, writeB] := rfl
  have hAll : ReceivedAll mergedTie true := by
    intro w hw
    rw [hLog] at hw ⊢
    rcases List.mem_cons.mp hw with rfl | hw
    · exact ⟨0, by decide, rfl⟩
    · rw [List.mem_singleton.mp hw]
      exact ⟨1, by decide, rfl⟩
  rcases (greatest_write_wins hRun).1 true hAll
    (by rw [hLog]; exact List.cons_ne_nil _ _) with
      ⟨w, hw, hGreatest, hValue⟩
  rw [hLog] at hw hGreatest
  rcases List.mem_cons.mp hw with rfl | hw
  · exact absurd (hGreatest writeB (by simp)) (not_le.mpr writeA_key_lt)
  · rw [hValue, List.mem_singleton.mp hw]
    rfl

/- The same two writes, both at the first replica. -/
def tiedWrites : Network Bool (LWWRegister String) (Write String) :=
  [Delivery.perform false writeA, .perform false writeB].foldl
    (Network.step twoRegisters) (Network.start twoRegisters)

/- Written at the timestamp the register has, the greater write
   is dropped. -/
theorem tied_write_dropped :
    ¬ ∀ net : Network Bool (LWWRegister String) (Write String),
        Reaches (Network.step twoRegisters) WritesDistinct
          (Network.start twoRegisters) net →
        ∀ r, ReceivedAll net r → net.log ≠ [] →
          ∃ w ∈ net.log, (∀ v ∈ net.log, v.key ≤ w.key) ∧
            (net.state r).value = some w.value := by
  intro hClaim
  have hStart : Reaches (Network.step twoRegisters)
      WritesDistinct (Network.start twoRegisters)
      (Network.start twoRegisters) := Reaches.refl _
  have hRun : Reaches (Network.step twoRegisters)
      WritesDistinct (Network.start twoRegisters) tiedWrites :=
    (hStart.tail (Delivery.perform false writeA)
      (fun v hv => absurd hv List.not_mem_nil)).tail
      (Delivery.perform false writeB) writeB_distinct
  have hLog : tiedWrites.log = [writeA, writeB] := rfl
  have hAll : ReceivedAll tiedWrites false := by
    intro w hw
    rw [hLog] at hw ⊢
    rcases List.mem_cons.mp hw with rfl | hw
    · exact ⟨0, by decide, rfl⟩
    · rw [List.mem_singleton.mp hw]
      exact ⟨1, by decide, rfl⟩
  rcases hClaim tiedWrites hRun false hAll
    (by rw [hLog]; exact List.cons_ne_nil _ _) with
      ⟨w, hw, hGreatest, hValue⟩
  have hKept : (tiedWrites.state false).value = some "value-a" := by decide
  rw [hLog] at hw hGreatest
  rcases List.mem_cons.mp hw with rfl | hw
  · exact absurd (hGreatest writeB (by simp)) (not_le.mpr writeA_key_lt)
  · rw [hKept, List.mem_singleton.mp hw] at hValue
    exact absurd hValue (by decide)

end Crdt
