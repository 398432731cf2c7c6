import Mathlib.Data.List.Rotate
import Amplihack.Base.Dict
import Amplihack.Base.TopMerge

/-
  The hash ring with its three structures: the sorted
  positions, the agent of each, and the positions of each
  agent. The hash is any function.
-/

-- The Ring

namespace Hive

open Base

structure HashRing where
  ring : List ℕ
  ringToAgent : Dict ℕ String
  agentPositions : Dict String (List ℕ)
  replicationFactor : ℕ

def virtualNodesPerAgent : ℕ := 64

/- Where a sorted list has `x`, or where it would go. -/
def binarySearch (xs : List ℕ) (x : ℕ) : Except ℕ ℕ :=
  match xs.idxOf? x with
  | some i => .ok i
  | none => .error (xs.countP (· < x))

namespace HashRing

def new (replicationFactor : ℕ) : HashRing where
  ring := []
  ringToAgent := .empty
  agentPositions := .empty
  replicationFactor := replicationFactor

section Hashed

variable (hashKey : String → ℕ)

def vnodePositions (agentId : String) : List ℕ :=
  (List.range virtualNodesPerAgent).map fun i =>
    hashKey (agentId ++ ":vnode:" ++ toString i)

def addAgent (r : HashRing) (agentId : String) : HashRing :=
  if (r.agentPositions.get? agentId).isSome then r
  else
    let positions := vnodePositions hashKey agentId
    let ringToAgent := positions.foldl
      (fun m pos => m.insert pos agentId) r.ringToAgent
    { ring := ringToAgent.keys.mergeSort (· ≤ ·)
      ringToAgent := ringToAgent
      agentPositions := r.agentPositions.insert agentId positions
      replicationFactor := r.replicationFactor }

def removeAgent (r : HashRing) (agentId : String) : HashRing :=
  match r.agentPositions.get? agentId with
  | none => r
  | some positions =>
    let ringToAgent := positions.foldl
      (fun m pos => m.remove pos) r.ringToAgent
    { ring := ringToAgent.keys.mergeSort (· ≤ ·)
      ringToAgent := ringToAgent
      agentPositions := r.agentPositions.remove agentId
      replicationFactor := r.replicationFactor }

/- The loop over the offsets, until there are `n` agents. -/
def collect (r : HashRing) (n idx : ℕ) :
    List ℕ → List String → List String
| [], seen => seen
| offset :: offsets, seen =>
  match (r.ring[(idx + offset) % r.ring.length]?).bind
      r.ringToAgent.get? with
  | none => collect r n idx offsets seen
  | some agent =>
    if seen.contains agent then
      collect r n idx offsets seen
    else if n ≤ seen.length + 1 then seen ++ [agent]
    else collect r n idx offsets (seen ++ [agent])

def getAgents (r : HashRing) (key : String) (n : Option ℕ) :
    List String :=
  let n := n.getD r.replicationFactor
  if r.ring.isEmpty then []
  else
    let idx := match binarySearch r.ring (hashKey key) with
      | .ok i => i + 1
      | .error i => i
    collect r n idx (List.range r.ring.length) []

def agentCount (r : HashRing) : ℕ :=
  r.agentPositions.entries.length

-- Sequences Of Calls

inductive Call where
| add (agentId : String)
| remove (agentId : String)

def call (r : HashRing) : Call → HashRing
| .add agentId => r.addAgent hashKey agentId
| .remove agentId => r.removeAgent agentId

def run (replicationFactor : ℕ) (calls : List Call) : HashRing :=
  calls.foldl (call hashKey) (new replicationFactor)

end Hashed

/- The agents that are there after one more call. -/
def Call.after (present : List String) : Call → List String
| .add agentId =>
  if present.contains agentId then present
  else present ++ [agentId]
| .remove agentId => present.filter (· != agentId)

def presentAfter (calls : List Call) : List String :=
  calls.foldl Call.after []

/- The agents that are ever added. -/
def added (calls : List Call) : List String :=
  calls.filterMap fun c =>
    match c with
    | .add agentId => some agentId
    | .remove _ => none

/- No position of an agent is one of another's. -/
def Apart (hashKey : String → ℕ) (agents : List String) : Prop :=
  ∀ a ∈ agents, ∀ b ∈ agents, a ≠ b →
    ∀ pos ∈ vnodePositions hashKey a, pos ∉ vnodePositions hashKey b

-- Three Structures In Step

structure InStep
    (hashKey : String → ℕ) (present : List String) (r : HashRing) :
    Prop where
  nodup : present.Nodup
  positions : ∀ a, r.agentPositions.get? a =
    if present.contains a then some (vnodePositions hashKey a)
    else none
  owners : ∀ pos a, r.ringToAgent.get? pos = some a ↔
    a ∈ present ∧ pos ∈ vnodePositions hashKey a
  ring : r.ring = r.ringToAgent.keys.mergeSort (· ≤ ·)

variable {hashKey : String → ℕ}
variable {present agents : List String}
variable {r : HashRing}

theorem Apart.subset
    (hApart : Apart hashKey agents) (hSubset : present ⊆ agents) :
    Apart hashKey present :=
  fun a hA b hB => hApart a (hSubset hA) b (hSubset hB)

theorem get?_foldl_insert
    (agentId : String) (positions : List ℕ) (m : Dict ℕ String) (pos : ℕ) :
    (positions.foldl (fun m p => m.insert p agentId) m).get? pos =
      if pos ∈ positions then some agentId else m.get? pos := by
  induction positions generalizing m with
  | nil => rfl
  | cons q positions ih =>
    rw [List.foldl_cons, ih, Dict.get?_insert]
    by_cases hRest : pos ∈ positions
    · simp [hRest]
    · by_cases hHead : pos = q
      · simp [hHead]
      · simp [hRest, hHead]

theorem get?_foldl_remove
    (positions : List ℕ) (m : Dict ℕ String) (pos : ℕ) :
    (positions.foldl (fun m p => m.remove p) m).get? pos =
      if pos ∈ positions then none else m.get? pos := by
  induction positions generalizing m with
  | nil => rfl
  | cons q positions ih =>
    rw [List.foldl_cons, ih, Dict.get?_remove]
    by_cases hRest : pos ∈ positions
    · simp [hRest]
    · by_cases hHead : pos = q
      · simp [hHead]
      · simp [hRest, hHead]

theorem inStep_new (replicationFactor : ℕ) :
    InStep hashKey [] (new replicationFactor) where
  nodup := List.nodup_nil
  positions := fun _ => rfl
  owners := by
    intro pos a
    constructor
    · intro hGet
      cases hGet
    · intro hIn
      exact (List.not_mem_nil hIn.1).elim
  ring := List.mergeSort_nil.symm

theorem isSome_iff_mem
    (hInStep : InStep hashKey present r) (a : String) :
    (r.agentPositions.get? a).isSome ↔ a ∈ present := by
  rw [hInStep.positions]
  split
  next hIn => exact iff_of_true rfl (List.contains_iff_mem.mp hIn)
  next hOut =>
    exact iff_of_false Bool.false_ne_true (mt List.contains_iff_mem.mpr hOut)

theorem InStep.add
    {agentId : String} (hInStep : InStep hashKey present r)
    (hApart : Apart hashKey (agentId :: present)) :
    InStep hashKey (Call.after present (.add agentId))
      (r.addAgent hashKey agentId) := by
  unfold addAgent Call.after
  dsimp only
  by_cases hThere : agentId ∈ present
  · rw [if_pos ((isSome_iff_mem hInStep agentId).mpr hThere),
      if_pos (List.contains_iff_mem.mpr hThere)]
    exact hInStep
  rw [if_neg (mt (isSome_iff_mem hInStep agentId).mp hThere),
    if_neg (mt List.contains_iff_mem.mp hThere)]
  constructor
  case nodup =>
    rw [List.nodup_append]
    refine ⟨hInStep.nodup, List.nodup_singleton _, ?_⟩
    rintro a hA b hB rfl
    rw [List.mem_singleton.mp hB] at hA
    exact hThere hA
  case positions =>
    intro a
    dsimp only
    rw [Dict.get?_insert, hInStep.positions]
    simp only [List.contains_iff_mem, List.mem_append, List.mem_singleton]
    by_cases hSelf : a = agentId
    · simp [hSelf]
    · simp [hSelf]
  case owners =>
    intro pos a
    dsimp only
    rw [get?_foldl_insert, List.mem_append, List.mem_singleton]
    by_cases hPos : pos ∈ vnodePositions hashKey agentId
    · rw [if_pos hPos]
      constructor
      · intro hSame
        cases hSame
        exact ⟨Or.inr rfl, hPos⟩
      · rintro ⟨hIn | rfl, hTheirs⟩
        · have hOther : agentId ≠ a := by
            rintro rfl
            exact hThere hIn
          exact absurd hTheirs (hApart agentId
            List.mem_cons_self a (List.mem_cons_of_mem _ hIn) hOther pos hPos)
        · rfl
    · rw [if_neg hPos, hInStep.owners]
      constructor
      · exact And.imp_left Or.inl
      · rintro ⟨hIn | rfl, hTheirs⟩
        · exact ⟨hIn, hTheirs⟩
        · exact absurd hTheirs hPos
  case ring => dsimp only

theorem InStep.remove
    (hInStep : InStep hashKey present r)
    (hApart : Apart hashKey present) (agentId : String) :
    InStep hashKey (Call.after present (.remove agentId))
      (r.removeAgent agentId) := by
  unfold removeAgent Call.after
  dsimp only
  have hGet := hInStep.positions agentId
  by_cases hThere : agentId ∈ present
  case neg =>
    rw [if_neg (mt List.contains_iff_mem.mp hThere)] at hGet
    rw [hGet, List.filter_eq_self.mpr]
    · exact hInStep
    · intro a hA
      rw [bne_iff_ne]
      rintro rfl
      exact hThere hA
  rw [if_pos (List.contains_iff_mem.mpr hThere)] at hGet
  rw [hGet]
  constructor
  case nodup => exact hInStep.nodup.filter _
  case positions =>
    intro a
    dsimp only
    rw [Dict.get?_remove, hInStep.positions]
    simp only [List.contains_iff_mem, List.mem_filter, bne_iff_ne]
    by_cases hSelf : a = agentId
    · simp [hSelf]
    · simp [hSelf]
  case owners =>
    intro pos a
    dsimp only
    rw [get?_foldl_remove, List.mem_filter, bne_iff_ne]
    by_cases hPos : pos ∈ vnodePositions hashKey agentId
    · rw [if_pos hPos]
      constructor
      · intro hNone
        cases hNone
      · rintro ⟨⟨hIn, hOther⟩, hTheirs⟩
        exact absurd hPos (hApart a hIn agentId hThere hOther pos hTheirs)
    · rw [if_neg hPos, hInStep.owners]
      constructor
      · rintro ⟨hIn, hTheirs⟩
        refine ⟨⟨hIn, ?_⟩, hTheirs⟩
        rintro rfl
        exact hPos hTheirs
      · rintro ⟨⟨hIn, -⟩, hTheirs⟩
        exact ⟨hIn, hTheirs⟩
  case ring => dsimp only

theorem presentAfter_append (calls : List Call) (c : Call) :
    presentAfter (calls ++ [c]) = Call.after (presentAfter calls) c :=
  List.foldl_append

theorem run_append
    (replicationFactor : ℕ) (calls : List Call) (c : Call) :
    run hashKey replicationFactor (calls ++ [c]) =
      call hashKey (run hashKey replicationFactor calls) c :=
  List.foldl_append

theorem added_subset_append (calls : List Call) (c : Call) :
    added calls ⊆ added (calls ++ [c]) := by
  unfold added
  rw [List.filterMap_append]
  exact List.subset_append_left _ _

theorem mem_added_append (calls : List Call) (agentId : String) :
    agentId ∈ added (calls ++ [.add agentId]) := by
  unfold added
  rw [List.filterMap_append]
  exact List.mem_append_right _ List.mem_cons_self

theorem mem_after
    {c : Call} {a : String} (hA : a ∈ Call.after present c) :
    a ∈ present ∨ c = .add a := by
  cases c with
  | add agentId =>
    unfold Call.after at hA
    dsimp only at hA
    split at hA
    · exact Or.inl hA
    · rcases List.mem_append.mp hA with hIn | hLast
      · exact Or.inl hIn
      · rw [List.mem_singleton.mp hLast]
        exact Or.inr rfl
  | remove agentId => exact Or.inl (List.mem_filter.mp hA).1

theorem presentAfter_subset (calls : List Call) :
    presentAfter calls ⊆ added calls := by
  induction calls using List.reverseRecOn with
  | nil => exact List.Subset.refl _
  | append_singleton calls c ih =>
    intro a hA
    rw [presentAfter_append] at hA
    rcases mem_after hA with hIn | rfl
    · exact added_subset_append calls c (ih hIn)
    · exact mem_added_append calls a

/- After any calls on a new ring, the structures agree. -/
theorem inStep_run
    (replicationFactor : ℕ) (calls : List Call)
    (hApart : Apart hashKey (added calls)) :
    InStep hashKey (presentAfter calls)
      (run hashKey replicationFactor calls) := by
  induction calls using List.reverseRecOn with
  | nil => exact inStep_new replicationFactor
  | append_singleton calls c ih =>
    have hEarlier := added_subset_append calls c
    have hBefore := ih (hApart.subset hEarlier)
    have hPresent : presentAfter calls ⊆ added (calls ++ [c]) :=
      fun a hA => hEarlier (presentAfter_subset calls hA)
    rw [presentAfter_append, run_append]
    cases c with
    | add agentId =>
      refine hBefore.add (hApart.subset ?_)
      intro a hA
      rcases List.mem_cons.mp hA with rfl | hIn
      · exact mem_added_append calls a
      · exact hPresent hIn
    | remove agentId => exact hBefore.remove (hApart.subset hPresent) agentId

end HashRing

end Hive
