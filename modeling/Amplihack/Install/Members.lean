import Amplihack.Install.Hooks

/-
  The members of an object under a change of one value, and
  under a sweep over several events.
-/

-- Members

namespace Install

open Base

variable {key k : String} {value v : Json}
variable {members m : Members}

theorem member?_cons
    (e : String × Json) (m : Members) (k : String) :
    Json.member? (e :: m) k =
      if e.1 = k then some e.2 else Json.member? m k := by
  by_cases hKey : e.1 = k <;> simp [Json.member?, hKey]

@[simp] theorem member?_changeAt_self
    (key : String) (f : Json → Json) (m : Members) :
    Json.member? (changeAt key f m) key = (Json.member? m key).map f := by
  induction m with
  | nil => rfl
  | cons e m ih =>
    rw [changeAt, List.map_cons, member?_cons, member?_cons]
    by_cases hKey : e.1 = key
    · simp [hKey]
    · simpa [hKey, changeAt] using ih

theorem member?_changeAt_ne
    (f : Json → Json) (m : Members) (hNe : k ≠ key) :
    Json.member? (changeAt key f m) k = Json.member? m k := by
  induction m with
  | nil => rfl
  | cons e m ih =>
    rw [changeAt, List.map_cons, member?_cons, member?_cons]
    by_cases hKey : e.1 = key
    · simpa [hKey, hNe.symm, changeAt] using ih
    · rw [changeAt] at ih
      rw [if_neg hKey, ih]

theorem member?_insertSorted_ne
    (value : Json) (m : Members) (hNe : k ≠ key) :
    Json.member? (insertSorted key value m) k = Json.member? m k := by
  induction m with
  | nil => simp [insertSorted, Json.member?, hNe.symm]
  | cons e m ih =>
    rcases e with ⟨k', v'⟩
    unfold insertSorted
    split
    · rw [member?_cons, if_neg (by exact hNe.symm)]
    · rw [member?_cons, member?_cons, ih]

theorem member?_insertSorted_self
    (key : String) (value : Json) {m : Members}
    (hNew : Json.member? m key = none) :
    Json.member? (insertSorted key value m) key = some value := by
  induction m with
  | nil => simp [insertSorted, Json.member?]
  | cons e m ih =>
    rcases e with ⟨k', v'⟩
    rw [member?_cons] at hNew
    split at hNew
    · cases hNew
    · next hNe =>
        unfold insertSorted
        split
        · rw [member?_cons, if_pos rfl]
        · rw [member?_cons, if_neg hNe, ih hNew]

theorem member?_isSome
    (m : Members) (k : String) :
    (Json.member? m k).isSome = m.any fun e => e.1 = k := by
  rw [Json.member?, Option.isSome_map, Bool.eq_iff_iff,
    List.find?_isSome, List.any_eq_true]

theorem member?_orInsert_self
    (key : String) (value : Json) (m : Members) :
    Json.member? (orInsert key value m) key =
      some ((Json.member? m key).getD value) := by
  unfold orInsert
  rw [← member?_isSome]
  cases hGet : Json.member? m key with
  | none => exact member?_insertSorted_self key value hGet
  | some v => simpa using hGet

theorem member?_orInsert_ne
    (value : Json) (m : Members) (hNe : k ≠ key) :
    Json.member? (orInsert key value m) k = Json.member? m k := by
  unfold orInsert
  split
  · rfl
  · exact member?_insertSorted_ne value m hNe

theorem mem_changeAt
    {f : Json → Json} (hMem : (k, v) ∈ changeAt key f m) :
    (k ≠ key ∧ (k, v) ∈ m) ∨ k = key ∧ ∃ old, (k, old) ∈ m ∧ v = f old := by
  rcases List.mem_map.mp hMem with ⟨⟨k', old⟩, hIn, hEq⟩
  by_cases hKey : k' = key
  · simp only [hKey, if_true, Prod.mk.injEq] at hEq
    rcases hEq with ⟨rfl, rfl⟩
    exact .inr ⟨rfl, old, hKey ▸ hIn, rfl⟩
  · simp only [hKey, if_false, Prod.mk.injEq] at hEq
    rcases hEq with ⟨rfl, rfl⟩
    exact .inl ⟨hKey, hIn⟩

theorem mem_insertSorted
    (hMem : (k, v) ∈ insertSorted key value m) :
    (k = key ∧ v = value) ∨ (k, v) ∈ m := by
  induction m with
  | nil => simpa [insertSorted] using hMem
  | cons e m ih =>
    rcases e with ⟨k', v'⟩
    unfold insertSorted at hMem
    split at hMem
    · rcases List.mem_cons.mp hMem with hNew | hOld
      · exact .inl (by simpa using hNew)
      · exact .inr hOld
    · rcases List.mem_cons.mp hMem with hHead | hRest
      · exact .inr (by rw [hHead]; exact List.mem_cons_self)
      · rcases ih hRest with hNew | hOld
        · exact .inl hNew
        · exact .inr (List.mem_cons_of_mem _ hOld)

theorem mem_orInsert_ne
    (hMem : (k, v) ∈ orInsert key value m) (hNe : k ≠ key) :
    (k, v) ∈ m := by
  unfold orInsert at hMem
  split at hMem
  · exact hMem
  · rcases mem_insertSorted hMem with ⟨hKey, -⟩ | hOld
    · exact absurd hKey hNe
    · exact hOld

theorem mem_orInsert
    (hMem : (key, v) ∈ orInsert key value m) :
    (key, v) ∈ m ∨ v = value := by
  unfold orInsert at hMem
  split at hMem
  · exact .inl hMem
  · rcases mem_insertSorted hMem with ⟨-, hNew⟩ | hOld
    · exact .inr hNew
    · exact .inl hOld

theorem changeAt_changeAt
    (key : String) (f g : Json → Json) (m : Members) :
    changeAt key f (changeAt key g m) =
      changeAt key (fun v => f (g v)) m := by
  rw [changeAt, changeAt, changeAt, List.map_map]
  apply List.map_congr_left
  intro e _
  by_cases hKey : e.1 = key <;> simp [hKey]

/- Values that the change leaves alone. -/
theorem changeAt_eq_self
    {f : Json → Json} (hSame : ∀ v, (key, v) ∈ m → f v = v) :
    changeAt key f m = m := by
  rw [changeAt]
  conv_rhs => rw [← List.map_id m]
  apply List.map_congr_left
  rintro ⟨k', v'⟩ hMem
  by_cases hKey : k' = key
  · subst hKey
    simp [hSame v' hMem]
  · simp [hKey]

theorem any_changeAt
    (key : String) (f : Json → Json) (m : Members) (k : String) :
    (changeAt key f m).any (fun e => e.1 = k) = m.any fun e => e.1 = k := by
  rw [← member?_isSome, ← member?_isSome]
  by_cases hKey : k = key
  · rw [hKey, member?_changeAt_self, Option.isSome_map]
  · rw [member?_changeAt_ne f m hKey]

theorem orInsert_of_any
    (value : Json) (hAny : (m.any fun e => e.1 = key) = true) :
    orInsert key value m = m := by
  rw [orInsert, if_pos hAny]

-- Sweeps over the events

/- Give each event a value, then change it. -/
def sweepEvents
    (events : List String) (f : String → Json → Json) (members : Members) :
    Members :=
  events.foldl (fun m event =>
    changeAt event (f event) (orInsert event (.arr []) m))
    members

variable {events : List String} {f : String → Json → Json}

theorem member?_sweepEvents
    (hNodup : events.Nodup) (m : Members) (k : String) :
    Json.member? (sweepEvents events f m) k =
      if k ∈ events then
        some (f k ((Json.member? m k).getD (.arr [])))
      else Json.member? m k := by
  induction events generalizing m with
  | nil => rfl
  | cons event events ih =>
    rcases List.nodup_cons.mp hNodup with ⟨hNew, hRest⟩
    rw [sweepEvents, List.foldl_cons, ← sweepEvents, ih hRest]
    by_cases hKey : k = event
    · subst hKey
      rw [if_neg hNew, if_pos List.mem_cons_self,
        member?_changeAt_self, member?_orInsert_self]
      rfl
    · rw [member?_changeAt_ne _ _ hKey, member?_orInsert_ne _ _ hKey]
      by_cases hIn : k ∈ events
      · rw [if_pos hIn, if_pos (List.mem_cons_of_mem _ hIn)]
      · rw [if_neg hIn, if_neg]
        intro hMem
        rcases List.mem_cons.mp hMem with hEq | hMem
        · exact hKey hEq
        · exact hIn hMem

theorem mem_sweepEvents
    (hNodup : events.Nodup) (hMem : (k, v) ∈ sweepEvents events f m) :
    (k ∉ events ∧ (k, v) ∈ m) ∨
      k ∈ events ∧ ∃ old, v = f k old ∧ ((k, old) ∈ m ∨ old = .arr []) := by
  induction events generalizing m with
  | nil => exact .inl ⟨by simp, hMem⟩
  | cons event events ih =>
    rcases List.nodup_cons.mp hNodup with ⟨hNew, hRest⟩
    rw [sweepEvents, List.foldl_cons, ← sweepEvents] at hMem
    rcases ih hRest hMem with ⟨hOut, hIn⟩ | ⟨hIn, old, hValue, hOld⟩
    · rcases mem_changeAt hIn with
        ⟨hNe, hOld⟩ | ⟨rfl, old, hOld, hValue⟩
      · refine .inl ⟨?_, mem_orInsert_ne hOld hNe⟩
        intro hCons
        rcases List.mem_cons.mp hCons with hEq | hCons
        · exact hNe hEq
        · exact hOut hCons
      · exact .inr ⟨List.mem_cons_self, old, hValue, mem_orInsert hOld⟩
    · refine .inr ⟨List.mem_cons_of_mem _ hIn, old, hValue, ?_⟩
      rcases hOld with hOld | hEmpty
      · have hNe : k ≠ event := by
          rintro rfl
          exact hNew hIn
        rcases mem_changeAt hOld with ⟨-, hOld⟩ | ⟨hEq, -⟩
        · exact .inl (mem_orInsert_ne hOld hNe)
        · exact absurd hEq hNe
      · exact .inr hEmpty

/- Events that are there, with values that stay. -/
theorem sweepEvents_eq_self
    (hThere : ∀ event ∈ events, (m.any fun e => e.1 = event) = true)
    (hSame : ∀ event ∈ events, ∀ v, (event, v) ∈ m → f event v = v) :
    sweepEvents events f m = m := by
  induction events with
  | nil => rfl
  | cons event events ih =>
    rw [sweepEvents, List.foldl_cons,
      orInsert_of_any _ (hThere event List.mem_cons_self),
      changeAt_eq_self (hSame event List.mem_cons_self), ← sweepEvents]
    exact ih
      (fun other hMem =>
        hThere other (List.mem_cons_of_mem _ hMem))
      (fun other hMem =>
        hSame other (List.mem_cons_of_mem _ hMem))

end Install
