import Mathlib.Algebra.BigOperators.Group.List.Basic
import Mathlib.Data.List.Nodup
import Mathlib.Data.List.Perm.Basic
import Mathlib.Order.Lattice

/-
  Finite maps as lists of entries sorted by key, so a map is
  determined by its lookups, and iteration is by key.
-/

-- Maps and lookup

namespace Base

/- A finite map: entries in the order of their keys. -/
structure OrderedMap (κ ν : Type) [LinearOrder κ] where
  entries : List (κ × ν)
  sorted : (entries.map Prod.fst).Pairwise (· < ·)

namespace OrderedMap

variable {κ ν μ : Type}
variable [LinearOrder κ]
variable {m n : OrderedMap κ ν}
variable {k k' : κ}
variable {v : ν}

theorem ext_entries (hEntries : m.entries = n.entries) :
    m = n := by
  cases m
  cases n
  cases hEntries
  rfl

def empty : OrderedMap κ ν where
  entries := []
  sorted := List.Pairwise.nil

theorem nodupKeys (m : OrderedMap κ ν) :
    (m.entries.map Prod.fst).Nodup :=
  m.sorted.imp ne_of_lt

/- The value stored under `k`. -/
def get? (m : OrderedMap κ ν) (k : κ) : Option ν :=
  (m.entries.find? fun e => e.1 = k).map Prod.snd

theorem mem_entries_of_get? (hGet : m.get? k = some v) :
    (k, v) ∈ m.entries := by
  rcases Option.map_eq_some_iff.1 hGet with ⟨⟨k', v'⟩, hFind, hValue⟩
  have hKey : k' = k := by simpa using List.find?_some hFind
  rw [← hKey, ← hValue]
  exact List.mem_of_find?_eq_some hFind

theorem get?_of_mem_entries (hMem : (k, v) ∈ m.entries) :
    m.get? k = some v := by
  cases hFind : m.get? k with
  | none =>
    have hNone := List.find?_eq_none.1
      (Option.map_eq_none_iff.1 hFind) (k, v) hMem
    simp at hNone
  | some w =>
    have hOther := mem_entries_of_get? hFind
    have hSame := List.inj_on_of_nodup_map m.nodupKeys hMem hOther rfl
    exact congrArg some (congrArg Prod.snd hSame).symm

theorem get?_eq_some_iff :
    m.get? k = some v ↔ (k, v) ∈ m.entries :=
  ⟨mem_entries_of_get?, get?_of_mem_entries⟩

@[simp]
theorem get?_empty : (empty : OrderedMap κ ν).get? k = none :=
  rfl

/- A map is determined by its lookups. -/
theorem ext_get? (hGet : ∀ k, m.get? k = n.get? k) : m = n := by
  apply ext_entries
  have hMem : ∀ e, e ∈ m.entries ↔ e ∈ n.entries := by
    rintro ⟨k, v⟩
    rw [← get?_eq_some_iff, ← get?_eq_some_iff, hGet k]
  have hPerm : m.entries.Perm n.entries :=
    (List.perm_ext_iff_of_nodup m.nodupKeys.of_map n.nodupKeys.of_map).2 hMem
  have hLeft := List.pairwise_map.1 m.sorted
  have hRight := List.pairwise_map.1 n.sorted
  refine hPerm.eq_of_pairwise ?_ hLeft hRight
  intro a b _ _ hLt hGt
  exact absurd hLt (lt_asymm hGt)

-- Updates

/- The entries with that of `k` made or changed by `f`. -/
def upsertIn (k : κ) (f : Option ν → ν) :
    List (κ × ν) → List (κ × ν)
| [] => [(k, f none)]
| (k', v) :: rest =>
  if k < k' then (k, f none) :: (k', v) :: rest
  else if k = k' then (k, f (some v)) :: rest
  else (k', v) :: upsertIn k f rest

variable {f : Option ν → ν} {entries : List (κ × ν)}

theorem mem_keys_upsertIn
    (hMem : k' ∈ (upsertIn k f entries).map Prod.fst) :
    k' = k ∨ k' ∈ entries.map Prod.fst := by
  induction entries with
  | nil => exact .inl (by simpa [upsertIn] using hMem)
  | cons e rest ih =>
    rcases e with ⟨j, v⟩
    unfold upsertIn at hMem
    split at hMem
    next =>
      rcases List.mem_cons.1 hMem with hHead | hTail
      · exact .inl hHead
      · exact .inr hTail
    next =>
      split at hMem
      next hSame =>
        rcases List.mem_cons.1 hMem with hHead | hTail
        · exact .inl hHead
        · exact .inr (List.mem_cons_of_mem _ hTail)
      next =>
        rcases List.mem_cons.1 hMem with hHead | hTail
        · exact .inr (List.mem_cons.2 (.inl hHead))
        · rcases ih hTail with hKey | hRest
          · exact .inl hKey
          · exact .inr (List.mem_cons_of_mem _ hRest)

theorem sorted_upsertIn
    (hSorted : (entries.map Prod.fst).Pairwise (· < ·)) :
    ((upsertIn k f entries).map Prod.fst).Pairwise (· < ·) := by
  induction entries with
  | nil => exact List.pairwise_singleton _ _
  | cons e rest ih =>
    rcases e with ⟨j, v⟩
    rcases List.pairwise_cons.1 hSorted with ⟨hHead, hTail⟩
    unfold upsertIn
    split
    next hLt =>
      refine List.pairwise_cons.2 ⟨?_, hSorted⟩
      intro i hMem
      rcases List.mem_cons.1 hMem with rfl | hRest
      · exact hLt
      · exact hLt.trans (hHead i hRest)
    next hNotLt =>
      split
      next hSame =>
        rw [hSame]
        exact List.pairwise_cons.2 ⟨hHead, hTail⟩
      next hOther =>
        refine List.pairwise_cons.2 ⟨?_, ih hTail⟩
        intro i hMem
        rcases mem_keys_upsertIn hMem with rfl | hRest
        · exact lt_of_le_of_ne (not_lt.1 hNotLt) (Ne.symm hOther)
        · exact hHead i hRest

/- The entry of `k`, made or changed by `f`. -/
def upsert (m : OrderedMap κ ν) (k : κ) (f : Option ν → ν) :
    OrderedMap κ ν where
  entries := upsertIn k f m.entries
  sorted := sorted_upsertIn m.sorted

/- An update puts an entry in, or changes the one there is. -/
theorem entries_upsert (f : Option ν → ν) :
    (∃ before after,
      m.entries = before ++ after ∧
        (m.upsert k f).entries = before ++ (k, f none) :: after) ∨
      ∃ before v after,
        m.entries = before ++ (k, v) :: after ∧
          (m.upsert k f).entries = before ++ (k, f (some v)) :: after := by
  unfold upsert
  dsimp only
  induction m.entries with
  | nil => exact .inl ⟨[], [], rfl, rfl⟩
  | cons e rest ih =>
    rcases e with ⟨j, v⟩
    unfold upsertIn
    split
    next hLess => exact .inl ⟨[], (j, v) :: rest, rfl, rfl⟩
    next hNotLess =>
      split
      next hSame =>
        subst hSame
        exact .inr ⟨[], v, rest, rfl, rfl⟩
      next hOther =>
        rcases ih with
          ⟨before, after, hOld, hNew⟩ |
          ⟨before, w, after, hOld, hNew⟩
        · left
          exact ⟨(j, v) :: before, after,
            by rw [hOld]; rfl, by rw [hNew]; rfl⟩
        · right
          exact ⟨(j, v) :: before, w, after,
            by rw [hOld]; rfl, by rw [hNew]; rfl⟩

theorem find?_upsertIn
    (hSorted : (entries.map Prod.fst).Pairwise (· < ·)) :
    ((upsertIn k f entries).find? fun e => e.1 = k').map Prod.snd =
      if k' = k then
        some (f ((entries.find? fun e => e.1 = k).map Prod.snd))
      else (entries.find? fun e => e.1 = k').map Prod.snd := by
  induction entries with
  | nil =>
    by_cases hKey : k' = k
    · simp [upsertIn, hKey]
    · simp [upsertIn, hKey, Ne.symm hKey]
  | cons e rest ih =>
    rcases e with ⟨j, v⟩
    rcases List.pairwise_cons.1 hSorted with ⟨hHead, hTail⟩
    unfold upsertIn
    split
    next hLt =>
      have hAbsent :
          ((j, v) :: rest).find? (fun e => e.1 = k) =
            none := by
        rw [List.find?_eq_none]
        intro e hMem hKey
        rw [decide_eq_true_eq] at hKey
        rcases List.mem_cons.1 hMem with rfl | hRest
        · exact hLt.ne hKey.symm
        · have hLater := hHead e.1 (List.mem_map_of_mem hRest)
          exact (hLt.trans hLater).ne hKey.symm
      by_cases hKey : k' = k
      · rw [if_pos hKey, hAbsent, hKey]
        simp
      · rw [if_neg hKey, List.find?_cons_of_neg]
        simpa using Ne.symm hKey
    next hNotLt =>
      split
      next hSame =>
        subst hSame
        by_cases hKey : k' = k
        · simp [hKey]
        · simp [hKey, Ne.symm hKey]
      next hOther =>
        by_cases hThere : j = k'
        · subst hThere
          simp [Ne.symm hOther]
        · have hRest := ih hTail
          simp [hThere, Ne.symm hOther, hRest]

@[simp]
theorem get?_upsert (f : Option ν → ν) :
    (m.upsert k f).get? k' =
      if k' = k then some (f (m.get? k)) else m.get? k' :=
  find?_upsertIn m.sorted

-- Values and sums

def values (m : OrderedMap κ ν) : List ν :=
  m.entries.map Prod.snd

def mapValues (f : κ → ν → μ) (m : OrderedMap κ ν) :
    OrderedMap κ μ where
  entries := m.entries.map fun e => (e.1, f e.1 e.2)
  sorted := by
    rw [List.map_map]
    exact m.sorted

@[simp]
theorem get?_mapValues (f : κ → ν → μ) :
    (m.mapValues f).get? k = (m.get? k).map (f k) := by
  unfold get? mapValues
  rw [List.find?_map, Option.map_map, Option.map_map]
  apply Option.map_congr
  intro e hFind
  have hKey : e.1 = k := by simpa using List.find?_some hFind
  simp [hKey]

/- The entries that have a value under `f`, with that value. -/
def filterMap (f : κ → ν → Option μ) (m : OrderedMap κ ν) :
    OrderedMap κ μ where
  entries := m.entries.filterMap fun e =>
    (f e.1 e.2).map fun v => (e.1, v)
  sorted := by
    have hKeys :
        (m.entries.filterMap fun e =>
          (f e.1 e.2).map fun v => (e.1, v)).map Prod.fst =
        (m.entries.filter fun e => (f e.1 e.2).isSome).map
          Prod.fst := by
      induction m.entries with
      | nil => rfl
      | cons e rest ih =>
        cases hValue : f e.1 e.2 with
        | none => simp [hValue, ih]
        | some v => simp [hValue, ih]
    rw [hKeys]
    exact m.sorted.sublist (List.filter_sublist.map Prod.fst)

/- Values that are all kept are only mapped. -/
theorem filterMap_mapValues
    {α : Type} {f : κ → ν → μ} {g : κ → μ → Option α} {h : κ → ν → α}
    (hKept : ∀ k v, (k, v) ∈ m.entries → g k (f k v) = some (h k v)) :
    (m.mapValues f).filterMap g = m.mapValues h := by
  apply ext_entries
  unfold filterMap mapValues
  dsimp only
  rw [List.filterMap_map, ← List.filterMap_eq_map]
  apply List.filterMap_congr
  intro e hMem
  change (g e.1 (f e.1 e.2)).map (fun v => (e.1, v)) = _
  rw [hKept e.1 e.2 hMem]
  rfl

/- The entries whose keys satisfy `p`. -/
def restrict (p : κ → Bool) (m : OrderedMap κ ν) :
    OrderedMap κ ν where
  entries := m.entries.filter fun e => p e.1
  sorted := m.sorted.sublist (List.filter_sublist.map Prod.fst)

@[simp]
theorem get?_restrict (p : κ → Bool) :
    (m.restrict p).get? k = if p k then m.get? k else none := by
  unfold get? restrict
  rw [List.find?_filter]
  by_cases hKeep : p k
  · rw [if_pos hKeep]
    congr 2
    funext e
    by_cases hKey : e.1 = k
    · simp [hKey, hKeep]
    · simp [hKey]
  · rw [if_neg hKeep, Option.map_eq_none_iff, List.find?_eq_none]
    intro e _ hFound
    simp only [Bool.decide_and, Bool.decide_eq_true,
      Bool.and_eq_true, decide_eq_true_eq] at hFound
    rw [hFound.2] at hFound
    exact hKeep hFound.1

section Sum

variable {M : Type}
variable [AddCommMonoid M]

def sumOf (f : κ → ν → M) (m : OrderedMap κ ν) : M :=
  (m.entries.map fun e => f e.1 e.2).sum

/- An update that adds `x` to the entry adds it to the sum. -/
theorem sumOf_upsert
    {f : κ → ν → M} {g : Option ν → ν} {x : M} (hNone : f k (g none) = x)
    (hSome : ∀ v, f k (g (some v)) = f k v + x) :
    sumOf f (m.upsert k g) = sumOf f m + x := by
  unfold sumOf upsert
  dsimp only
  induction m.entries with
  | nil => simp [upsertIn, hNone]
  | cons e rest ih =>
    rcases e with ⟨j, v⟩
    unfold upsertIn
    split
    next =>
      rw [List.map_cons, List.sum_cons, hNone, add_comm]
    next =>
      split
      next hSame =>
        subst hSame
        simp only [List.map_cons, List.sum_cons, hSome]
        exact add_right_comm _ _ _
      next =>
        simp only [List.map_cons, List.sum_cons, ih]
        exact (add_assoc _ _ _).symm

end Sum

end OrderedMap

end Base
