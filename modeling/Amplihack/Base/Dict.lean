import Mathlib.Data.Finset.Card
import Mathlib.Data.Finset.Insert
import Mathlib.Data.List.Nodup

/-
  Finite maps as association lists with distinct keys.

  The entry order is the order in which the map is
  iterated; no operation below lets it decide a value.

  Maps in which at most one entry has a given index.

  An index is a part of the value that some entries have; a
  change of one entry keeps it unique when no other entry has
  the index the entry is given.

  Items placed in the holders of a map, each in one place.
-/

-- Maps And Lookup

namespace Base

/- A finite map: entries in iteration order, keys distinct. -/
structure Dict (κ ν : Type) where
  entries : List (κ × ν)
  nodupKeys : (entries.map Prod.fst).Nodup

namespace Dict

variable {κ ν : Type}

/- Maps with the same entries in the same order are equal. -/
theorem ext_entries
    {left right : Dict κ ν} (hEntries : left.entries = right.entries) :
    left = right := by
  cases left
  cases right
  simp_all

/- The map with no entry. -/
def empty : Dict κ ν where
  entries := []
  nodupKeys := by simp

instance : Inhabited (Dict κ ν) := ⟨empty⟩

/- The keys in iteration order. -/
def keys (d : Dict κ ν) : List κ :=
  d.entries.map Prod.fst

/- Two entries of one map with the same key are equal. -/
theorem eq_of_mem_of_mem
    (d : Dict κ ν) {k : κ} {v w : ν} (hv : (k, v) ∈ d.entries)
    (hw : (k, w) ∈ d.entries) :
    v = w := by
  have hInj := List.inj_on_of_nodup_map d.nodupKeys hv hw rfl
  exact congrArg Prod.snd hInj

variable [DecidableEq κ]

/- The value stored under `k`. -/
def get? (d : Dict κ ν) (k : κ) : Option ν :=
  (d.entries.find? (fun e => e.1 = k)).map Prod.snd

theorem mem_entries_of_get?
    {d : Dict κ ν} {k : κ} {v : ν} (hGet : d.get? k = some v) :
    (k, v) ∈ d.entries := by
  simp only [get?, Option.map_eq_some_iff] at hGet
  rcases hGet with ⟨⟨k', v'⟩, hFind, hSnd⟩
  have hKey : k' = k := by simpa using List.find?_some hFind
  have hMem := List.mem_of_find?_eq_some hFind
  simp only at hSnd
  subst hKey hSnd
  exact hMem

theorem get?_of_mem_entries
    {d : Dict κ ν} {k : κ} {v : ν} (hMem : (k, v) ∈ d.entries) :
    d.get? k = some v := by
  cases hFind : d.entries.find? (fun e => e.1 = k) with
  | none =>
    rw [List.find?_eq_none] at hFind
    simpa using hFind _ hMem
  | some e =>
    have hKey : e.1 = k := by simpa using List.find?_some hFind
    have hOther : (k, e.2) ∈ d.entries := by
      rw [← hKey]
      exact List.mem_of_find?_eq_some hFind
    simp [get?, hFind, d.eq_of_mem_of_mem hOther hMem]

/- Lookup finds exactly the stored entries. -/
theorem get?_eq_some_iff
    {d : Dict κ ν} {k : κ} {v : ν} :
    d.get? k = some v ↔ (k, v) ∈ d.entries :=
  ⟨mem_entries_of_get?, get?_of_mem_entries⟩

theorem get?_eq_none_iff
    {d : Dict κ ν} {k : κ} :
    d.get? k = none ↔ k ∉ d.keys := by
  simp only [get?, Option.map_eq_none_iff,
    List.find?_eq_none, keys, List.mem_map]
  constructor
  · rintro hAbsent ⟨e, hMem, hKey⟩
    exact hAbsent e hMem (by simpa using hKey)
  · intro hAbsent e hMem hKey
    exact hAbsent ⟨e, hMem, by simpa using hKey⟩

@[simp] theorem get?_empty (k : κ) :
    (empty : Dict κ ν).get? k = none := rfl

-- Updates

/- Apply `f` to every entry, leaving the keys alone. -/
def mapValues (f : κ → ν → ν) (d : Dict κ ν) : Dict κ ν where
  entries := d.entries.map (fun e => (e.1, f e.1 e.2))
  nodupKeys := by
    have hKeys :
        (d.entries.map (fun e => (e.1, f e.1 e.2))).map Prod.fst =
          d.entries.map Prod.fst := by simp [Function.comp_def]
    rw [hKeys]
    exact d.nodupKeys

/- Change the value under `k`, when there is one. -/
def modify (k : κ) (f : ν → ν) (d : Dict κ ν) : Dict κ ν :=
  d.mapValues (fun k' v => if k' = k then f v else v)

/- Keep the entries that satisfy `p`. -/
def retain (p : κ → ν → Bool) (d : Dict κ ν) : Dict κ ν where
  entries := d.entries.filter (fun e => p e.1 e.2)
  nodupKeys :=
    d.nodupKeys.sublist (List.filter_sublist.map Prod.fst)

/- Store `v` under `k`, replacing what was there. -/
def insert (k : κ) (v : ν) (d : Dict κ ν) : Dict κ ν :=
  if hKey : k ∈ d.keys then
    d.modify k (fun _ => v)
  else
    { entries := d.entries ++ [(k, v)]
      nodupKeys := by
        rw [List.map_append, List.nodup_append]
        refine ⟨d.nodupKeys, by simp, ?_⟩
        intro a hMem b hLast hEq
        simp only [List.map_cons, List.map_nil, List.mem_singleton] at hLast
        subst hLast hEq
        exact hKey hMem }

/- Remove the entry under `k`, when there is one. -/
def remove (k : κ) (d : Dict κ ν) : Dict κ ν :=
  d.retain (fun k' _ => k' ≠ k)

/- The map of a list of pairs; a repeated key keeps its last value. -/
def ofList (pairs : List (κ × ν)) : Dict κ ν :=
  pairs.foldl (fun d e => d.insert e.1 e.2) empty

@[simp] theorem get?_mapValues
    (f : κ → ν → ν) (d : Dict κ ν) (k : κ) :
    (d.mapValues f).get? k = (d.get? k).map (f k) := by
  cases hGet : d.get? k with
  | none =>
    rw [get?_eq_none_iff] at hGet
    rw [Option.map_none, get?_eq_none_iff]
    simpa [keys, mapValues] using hGet
  | some v =>
    rw [Option.map_some, get?_eq_some_iff]
    rw [get?_eq_some_iff] at hGet
    exact List.mem_map.mpr ⟨(k, v), hGet, rfl⟩

@[simp] theorem get?_modify
    (k : κ) (f : ν → ν) (d : Dict κ ν) (k' : κ) :
    (d.modify k f).get? k' =
      if k' = k then (d.get? k').map f else d.get? k' := by
  rw [modify, get?_mapValues]
  split <;> simp

theorem get?_retain_eq_some_iff
    {p : κ → ν → Bool} {d : Dict κ ν} {k : κ} {v : ν} :
    (d.retain p).get? k = some v ↔ d.get? k = some v ∧ p k v = true := by
  simp [get?_eq_some_iff, retain]

@[simp] theorem get?_remove
    (k : κ) (d : Dict κ ν) (k' : κ) :
    (d.remove k).get? k' =
      if k' = k then none else d.get? k' := by
  apply Option.ext
  intro v
  rw [remove, get?_retain_eq_some_iff]
  by_cases hKey : k' = k
  · simp [hKey]
  · simp [hKey]

omit [DecidableEq κ] in
theorem retain_eq_self
    {p : κ → ν → Bool} {d : Dict κ ν}
    (hAll : ∀ e ∈ d.entries, p e.1 e.2 = true) :
    d.retain p = d := by
  apply ext_entries
  exact List.filter_eq_self.mpr hAll

omit [DecidableEq κ] in
theorem mem_of_mem_retain
    {p : κ → ν → Bool} {d : Dict κ ν} {e : κ × ν}
    (hMem : e ∈ (d.retain p).entries) :
    e ∈ d.entries ∧ p e.1 e.2 = true :=
  List.mem_filter.mp hMem

omit [DecidableEq κ] in
theorem length_retain_le
    (p : κ → ν → Bool) (d : Dict κ ν) :
    (d.retain p).entries.length ≤ d.entries.length :=
  List.length_filter_le _ _

@[simp] theorem get?_insert
    (k : κ) (v : ν) (d : Dict κ ν) (k' : κ) :
    (d.insert k v).get? k' =
      if k' = k then some v else d.get? k' := by
  unfold insert
  split
  · next hKey =>
      rw [get?_modify]
      split
      · next hEq =>
          subst hEq
          cases hGet : d.get? k' with
          | none => exact absurd hKey (get?_eq_none_iff.mp hGet)
          | some w => rfl
      · rfl
  · next hKey =>
      simp only [get?, List.find?_append]
      split
      · next hEq =>
          subst hEq
          have hNone : d.entries.find? (fun e => e.1 = k') = none := by
            have hGet := get?_eq_none_iff.mpr hKey
            simpa [get?] using hGet
          simp [hNone]
      · next hNe =>
          cases d.entries.find? (fun e => e.1 = k') with
          | none => simp [Ne.symm hNe]
          | some e => simp

omit [DecidableEq κ] in
@[simp] theorem keys_mapValues
    (f : κ → ν → ν) (d : Dict κ ν) :
    (d.mapValues f).keys = d.keys := by
  simp [keys, mapValues, Function.comp_def]

theorem entries_insert_of_not_mem
    {d : Dict κ ν} {k : κ} (v : ν) (hKey : k ∉ d.keys) :
    (d.insert k v).entries = d.entries ++ [(k, v)] := by
  simp [insert, hKey]

/- A stored entry is the new one or an old one. -/
theorem mem_of_mem_insert
    {k : κ} {v : ν} {d : Dict κ ν} {e : κ × ν}
    (hMem : e ∈ (d.insert k v).entries) :
    e = (k, v) ∨ e ∈ d.entries := by
  have hGet := get?_of_mem_entries hMem
  rw [get?_insert] at hGet
  split at hGet
  · next hEq =>
      left
      rw [← hEq, Option.some.inj hGet]
  · right
    exact mem_entries_of_get? hGet

theorem length_insert_le
    (k : κ) (v : ν) (d : Dict κ ν) :
    (d.insert k v).entries.length ≤ d.entries.length + 1 := by
  unfold insert
  split
  · simp [modify, mapValues]
  · simp

/- Collecting the entries of a map gives the map back. -/
theorem ofList_entries (d : Dict κ ν) :
    ofList d.entries = d := by
  have hGo :
      ∀ (pairs : List (κ × ν)) (acc : Dict κ ν),
        ((acc.entries ++ pairs).map Prod.fst).Nodup →
          (pairs.foldl (fun d e => d.insert e.1 e.2)
            acc).entries = acc.entries ++ pairs := by
    intro pairs
    induction pairs with
    | nil =>
      intro acc _
      simp
    | cons e pairs ih =>
      intro acc hNodup
      have hFresh : e.1 ∉ acc.keys := by
        intro hMem
        simp only [List.map_append, List.map_cons,
          List.nodup_append] at hNodup
        exact hNodup.2.2 _ hMem _ (by simp) rfl
      have hEntries := entries_insert_of_not_mem e.2 hFresh
      rw [List.foldl_cons, ih _ (by
        rw [hEntries]
        simpa [List.append_assoc] using hNodup), hEntries]
      simp
  apply ext_entries
  simpa [ofList, empty] using
    hGo d.entries empty (by simpa [empty] using d.nodupKeys)

-- Selecting Keys

/- How many entries hold a value that satisfies `p`. -/
def countValues (p : ν → Bool) (d : Dict κ ν) : Nat :=
  d.entries.countP (fun e => p e.2)

/- The keys whose value satisfies `p`. -/
def keysWhere (p : ν → Bool) (d : Dict κ ν) : Finset κ :=
  (d.retain (fun _ v => p v)).keys.toFinset

theorem mem_keysWhere_iff
    {p : ν → Bool} {d : Dict κ ν} {k : κ} :
    k ∈ d.keysWhere p ↔ ∃ v, d.get? k = some v ∧ p v = true := by
  simp [keysWhere, keys, retain, get?_eq_some_iff]

/- Distinct keys: as many keys as entries. -/
theorem card_keysWhere (p : ν → Bool) (d : Dict κ ν) :
    (d.keysWhere p).card = d.countValues p := by
  have hNodup := (d.retain (fun _ v => p v)).nodupKeys
  rw [keysWhere, keys, List.toFinset_card_of_nodup hNodup]
  simp [retain, countValues, List.countP_eq_length_filter]

/- Values that only fall out of `p` keep the keys within bounds. -/
theorem keysWhere_subset
    {p : ν → Bool} {d d' : Dict κ ν}
    (hFalls : ∀ k v, d'.get? k = some v → p v = true →
      ∃ w, d.get? k = some w ∧ p w = true) :
    d'.keysWhere p ⊆ d.keysWhere p := by
  intro k hMem
  rw [mem_keysWhere_iff] at hMem ⊢
  rcases hMem with ⟨v, hGet, hHolds⟩
  exact hFalls k v hGet hHolds

theorem keysWhere_retain_subset
    (p : ν → Bool) (q : κ → ν → Bool) (d : Dict κ ν) :
    (d.retain q).keysWhere p ⊆ d.keysWhere p :=
  keysWhere_subset fun _ v hGet hHolds =>
    ⟨v, (get?_retain_eq_some_iff.mp hGet).1, hHolds⟩

theorem keysWhere_mapValues_subset
    {p : ν → Bool} {f : κ → ν → ν} (d : Dict κ ν)
    (hFalls : ∀ k v, p (f k v) = true → p v = true) :
    (d.mapValues f).keysWhere p ⊆ d.keysWhere p := by
  apply keysWhere_subset
  intro k v hGet hHolds
  rw [get?_mapValues, Option.map_eq_some_iff] at hGet
  rcases hGet with ⟨w, hGet, rfl⟩
  exact ⟨w, hGet, hFalls k w hHolds⟩

theorem keysWhere_modify_subset
    {p : ν → Bool} (k : κ) {f : ν → ν} (d : Dict κ ν)
    (hFalls : ∀ v, p (f v) = true → p v = true) :
    (d.modify k f).keysWhere p ⊆ d.keysWhere p := by
  apply keysWhere_mapValues_subset
  intro k' v hHolds
  split at hHolds
  · exact hFalls v hHolds
  · exact hHolds

/- Storing under `k` selects at most `k` besides. -/
theorem keysWhere_insert_subset
    (p : ν → Bool) (k : κ) (v : ν) (d : Dict κ ν) :
    (d.insert k v).keysWhere p ⊆ Insert.insert k (d.keysWhere p) := by
  intro k' hMem
  rw [mem_keysWhere_iff] at hMem
  rcases hMem with ⟨w, hGet, hHolds⟩
  rw [get?_insert] at hGet
  rw [Finset.mem_insert, mem_keysWhere_iff]
  split at hGet
  · next hEq => exact Or.inl hEq
  · exact Or.inr ⟨w, hGet, hHolds⟩

end Dict

end Base

-- Unique Indices

namespace Base

namespace Dict

variable {κ ν γ : Type}
variable [DecidableEq κ]

/- Two entries with the same index are one entry. -/
def UniqueIndex (index : ν → Option γ) (d : Dict κ ν) :
    Prop :=
  ∀ k l v w g,
    d.get? k = some v → d.get? l = some w →
      index v = some g → index w = some g → k = l

namespace UniqueIndex

variable {index : ν → Option γ}
variable {d : Dict κ ν}

theorem empty :
    UniqueIndex index (Dict.empty : Dict κ ν) := by
  intro k l v w g hLeft
  simp at hLeft

/- A stored value keeps an index that no other entry has. -/
theorem insert
    {k : κ} {v : ν} (hUnique : UniqueIndex index d)
    (hFree : ∀ g, index v = some g →
      ∀ l w, d.get? l = some w → l ≠ k → index w ≠ some g) :
    UniqueIndex index (d.insert k v) := by
  intro l m w x g hLeft hRight hIndex hSame
  rw [get?_insert] at hLeft hRight
  by_cases hl : l = k
  · by_cases hm : m = k
    · exact hl.trans hm.symm
    · rw [if_pos hl] at hLeft
      rw [if_neg hm] at hRight
      cases hLeft
      exact absurd hSame (hFree g hIndex m x hRight hm)
  · rw [if_neg hl] at hLeft
    by_cases hm : m = k
    · rw [if_pos hm] at hRight
      cases hRight
      exact absurd hIndex (hFree g hSame l w hLeft hl)
    · rw [if_neg hm] at hRight
      exact hUnique l m w x g hLeft hRight hIndex hSame

/- A value may give up its index or keep it. -/
theorem insert_of_kept
    {k : κ} {v w : ν} (hUnique : UniqueIndex index d)
    (hGet : d.get? k = some v)
    (hKept : ∀ g, index w = some g → index v = some g) :
    UniqueIndex index (d.insert k w) := by
  apply hUnique.insert
  intro g hIndex l x hOther hNe hSame
  exact hNe (hUnique l k x v g hOther hGet hSame (hKept g hIndex))

theorem remove
    (hUnique : UniqueIndex index d) (k : κ) :
    UniqueIndex index (d.remove k) := by
  intro l m w x g hLeft hRight hIndex hSame
  rw [Dict.remove, get?_retain_eq_some_iff] at hLeft hRight
  exact hUnique l m w x g hLeft.1 hRight.1 hIndex hSame

/- A change of every value that moves no index keeps them. -/
theorem mapValues
    {f : κ → ν → ν} (hUnique : UniqueIndex index d)
    (hKept : ∀ k v g, index (f k v) = some g → index v = some g) :
    UniqueIndex index (d.mapValues f) := by
  intro l m w x g hLeft hRight hIndex hSame
  rw [get?_mapValues, Option.map_eq_some_iff] at hLeft hRight
  rcases hLeft with ⟨w', hLeft, rfl⟩
  rcases hRight with ⟨x', hRight, rfl⟩
  exact hUnique l m w' x' g hLeft hRight
    (hKept l w' g hIndex) (hKept m x' g hSame)

end UniqueIndex

end Dict

end Base

-- Placements

namespace Base

variable {κ ν ι : Type}
variable [DecidableEq κ]

/- The item is in some holder of the map. -/
def Placed (items : ν → List ι) (d : Dict κ ν) (i : ι) : Prop :=
  ∃ k v, d.get? k = some v ∧ i ∈ items v

/- Each item is in one holder at most, and there once. -/
structure PlacedOnce
    (items : ν → List ι) (d : Dict κ ν) :
    Prop where
  nodup : ∀ k v, d.get? k = some v → (items v).Nodup
  holder : ∀ k k' v v' i, d.get? k = some v → d.get? k' = some v' →
    i ∈ items v → i ∈ items v' → k = k'

variable {items : ν → List ι}
variable {d d' : Dict κ ν}

theorem placedOnce_empty :
    PlacedOnce items (Dict.empty : Dict κ ν) where
  nodup k v hGet := by simp at hGet
  holder k k' v v' i hGet := by simp at hGet

/-
  One holder may be replaced when its new items occur once
  and in no other holder.
-/
theorem PlacedOnce.of_update
    (hOnce : PlacedOnce items d) {k : κ} {w : ν}
    (hOthers : ∀ k', k' ≠ k → d'.get? k' = d.get? k')
    (hSelf : d'.get? k = some w) (hNodup : (items w).Nodup)
    (hFresh : ∀ i ∈ items w, ∀ k' v',
      d.get? k' = some v' → i ∈ items v' → k' = k) :
    PlacedOnce items d' := by
  have hBack :
      ∀ a v, d'.get? a = some v →
        (a = k ∧ v = w) ∨ (a ≠ k ∧ d.get? a = some v) := by
    intro a v hGet
    by_cases hKey : a = k
    · subst hKey
      rw [hSelf] at hGet
      exact Or.inl ⟨rfl, (Option.some.inj hGet).symm⟩
    · rw [hOthers a hKey] at hGet
      exact Or.inr ⟨hKey, hGet⟩
  refine ⟨?_, ?_⟩
  · intro a v hGet
    rcases hBack a v hGet with ⟨-, rfl⟩ | ⟨-, hOld⟩
    · exact hNodup
    · exact hOnce.nodup a v hOld
  · intro a b v v' i hGet hGet' hMem hMem'
    rcases hBack a v hGet with ⟨rfl, rfl⟩ | ⟨hNe, hOld⟩
    · rcases hBack b v' hGet' with ⟨rfl, -⟩ | ⟨-, hOld'⟩
      · rfl
      · exact (hFresh i hMem b v' hOld' hMem').symm
    · rcases hBack b v' hGet' with ⟨rfl, rfl⟩ | ⟨-, hOld'⟩
      · exact hFresh i hMem' a v hOld hMem
      · exact hOnce.holder a b v v' i hOld hOld' hMem hMem'

/- Holders may lose items. -/
theorem PlacedOnce.of_sublists
    (hOnce : PlacedOnce items d)
    (hSub : ∀ k v, d'.get? k = some v →
      ∃ w, d.get? k = some w ∧ (items v).Sublist (items w)) :
    PlacedOnce items d' := by
  refine ⟨?_, ?_⟩
  · intro k v hGet
    rcases hSub k v hGet with ⟨w, hOld, hLess⟩
    exact (hOnce.nodup k w hOld).sublist hLess
  · intro k k' v v' i hGet hGet' hMem hMem'
    rcases hSub k v hGet with ⟨w, hOld, hLess⟩
    rcases hSub k' v' hGet' with ⟨w', hOld', hLess'⟩
    exact hOnce.holder k k' w w' i hOld hOld'
      (hLess.subset hMem) (hLess'.subset hMem')

/-
  What is placed stays placed when the replaced holder keeps
  the items it had.
-/
theorem kept_of_update
    {k : κ} {w : ν} (hOthers : ∀ k', k' ≠ k → d'.get? k' = d.get? k')
    (hSelf : d'.get? k = some w)
    (hKeeps : ∀ v, d.get? k = some v → items v ⊆ items w)
    {a : κ} {v : ν} {i : ι} (hGet : d.get? a = some v) (hMem : i ∈ items v) :
    ∃ v', d'.get? a = some v' ∧ i ∈ items v' := by
  by_cases hKey : a = k
  · subst hKey
    exact ⟨w, hSelf, hKeeps v hGet hMem⟩
  · rw [← hOthers a hKey] at hGet
    exact ⟨v, hGet, hMem⟩

end Base
