import Amplihack.Base.Json.Record
import Amplihack.Base.Json.RoundTrip
import Amplihack.Base.OrderedMap
import Mathlib.Data.String.Basic

/-
  The compact text of JSON values, read back, and objects as
  maps, in which the last member of a name counts.
-/

-- Printer

namespace Base

namespace Json

mutual

/- The text of a value with no blanks between tokens. -/
def compact : Json → List Char
| .null => "null".toList
| .bool true => "true".toList
| .bool false => "false".toList
| .num text => text.chars
| .str s => quote s
| .arr items => '[' :: (compactItems items ++ [']'])
| .obj members => '{' :: (compactMembers members ++ ['}'])
termination_by structural j => j

def compactItems : List Json → List Char
| [] => []
| item :: items => compact item ++
    (if items.isEmpty then [] else [',']) ++
    compactItems items
termination_by structural items => items

def compactMembers : List (String × Json) → List Char
| [] => []
| member :: members => compactMember member ++
    (if members.isEmpty then [] else [',']) ++
    compactMembers members
termination_by structural members => members

def compactMember : String × Json → List Char
| (key, value) => quote key ++ (':' :: compact value)
termination_by structural member => member

end

/- Nothing between the tokens. -/
def compactLayout : Layout where
  line := fun _ => []
  gap := []
  blanks_line := fun _ _ hMem => (List.not_mem_nil hMem).elim
  blanks_gap := fun _ hMem => (List.not_mem_nil hMem).elim

mutual

theorem compact_eq (d : Nat) :
    (j : Json) → compact j = compactLayout.text d j
| .null => rfl
| .bool true => rfl
| .bool false => rfl
| .num _ => rfl
| .str _ => rfl
| .arr items => by
    rw [compact, Layout.text, compactItems_eq (d + 1) items]
    simp [compactLayout]
| .obj members => by
    rw [compact, Layout.text, compactMembers_eq (d + 1) members]
    simp [compactLayout]
termination_by structural j => j

theorem compactItems_eq (d : Nat) :
    (items : List Json) → compactItems items = compactLayout.items d items
| [] => rfl
| item :: items => by
    rw [compactItems, Layout.items, compact_eq d item,
      compactItems_eq d items]
    rfl
termination_by structural items => items

theorem compactMembers_eq (d : Nat) :
    (members : List (String × Json)) →
      compactMembers members = compactLayout.members d members
| [] => rfl
| member :: members => by
    rw [compactMembers, Layout.members, compactMember_eq d member,
      compactMembers_eq d members]
    rfl
termination_by structural members => members

theorem compactMember_eq (d : Nat) :
    (member : String × Json) →
      compactMember member = compactLayout.member d member
| (key, value) => by
    rw [compactMember, Layout.member, compact_eq d value]
    rfl
termination_by structural member => member

end

/- A printed value is read back. -/
theorem parse_compact (j : Json) :
    parse (compact j) = some j := by
  rw [compact_eq 0]
  exact compactLayout.parse_text 0 j

/- An object's text holds that of each of its members. -/
theorem length_compactMember_le
    {member : String × Json} {members : List (String × Json)}
    (hMem : member ∈ members) :
    (compactMember member).length ≤ (compactMembers members).length := by
  induction members with
  | nil => cases hMem
  | cons head members ih =>
    rw [compactMembers]
    simp only [List.length_append]
    rcases List.mem_cons.mp hMem with rfl | hTail
    · omega
    · have hRest := ih hTail
      omega

theorem mul_length_le_compactMembers
    {n : Nat} {members : List (String × Json)}
    (hShare : ∀ m ∈ members, n ≤ (compactMember m).length) :
    n * members.length ≤ (compactMembers members).length := by
  induction members with
  | nil => simp
  | cons member members ih =>
    have hHead := hShare member (by simp)
    have hTail := ih fun m hMem =>
      hShare m (List.mem_cons_of_mem _ hMem)
    rw [compactMembers, List.length_cons, Nat.mul_succ]
    simp only [List.length_append]
    omega

-- Objects

/- The members by name; a repeated name keeps its last value. -/
def object (members : List (String × Json)) :
    OrderedMap String Json :=
  members.foldl (fun m e => m.upsert e.1 fun _ => e.2) .empty

theorem object_append
    (members : List (String × Json)) (e : String × Json) :
    object (members ++ [e]) = (object members).upsert e.1 fun _ => e.2 := by
  unfold object
  rw [List.foldl_append]
  rfl

theorem get?_object_of_not_mem
    {members : List (String × Json)} {key : String}
    (hKey : key ∉ members.map Prod.fst) :
    (object members).get? key = none := by
  induction members using List.reverseRecOn with
  | nil => rfl
  | append_singleton members e ih =>
    rw [List.map_append, List.mem_append, not_or] at hKey
    rw [object_append, OrderedMap.get?_upsert, if_neg, ih hKey.1]
    rintro rfl
    exact hKey.2 (by simp)

/- With distinct names each member is found by its name. -/
theorem get?_object
    {members : List (String × Json)} (hNodup : (members.map Prod.fst).Nodup)
    {key : String} {j : Json} (hMem : (key, j) ∈ members) :
    (object members).get? key = some j := by
  induction members using List.reverseRecOn with
  | nil => cases hMem
  | append_singleton members e ih =>
    rw [List.map_append, List.nodup_append] at hNodup
    rw [object_append, OrderedMap.get?_upsert]
    rcases List.mem_append.mp hMem with hOld | hNew
    · rw [if_neg, ih hNodup.1 hOld]
      rintro rfl
      exact hNodup.2.2 e.1 (List.mem_map.mpr ⟨_, hOld, rfl⟩) e.1 (by simp) rfl
    · cases List.mem_singleton.mp hNew
      rw [if_pos rfl]

theorem keys_present_sublist
    (fields : List (String × Option Json)) :
    ((present fields).map Prod.fst).Sublist (fields.map Prod.fst) := by
  induction fields with
  | nil => exact List.Sublist.refl _
  | cons f fields ih =>
    rcases f with ⟨key, value⟩
    cases value with
    | none =>
      rw [present_cons_none, List.map_cons]
      exact ih.cons key
    | some j =>
      rw [present_cons_some, List.map_cons, List.map_cons]
      exact ih.cons_cons key

/- A field is found under its name, if it was written. -/
theorem get?_object_present
    {fields : List (String × Option Json)}
    (hKeys : (fields.map Prod.fst).Nodup)
    {key : String} {value : Option Json} (hMem : (key, value) ∈ fields) :
    (object (present fields)).get? key = value := by
  have hMember := (member?_present hKeys hMem).1
  unfold member? at hMember
  cases value with
  | none =>
    rw [Option.map_eq_none_iff, List.find?_eq_none] at hMember
    refine get?_object_of_not_mem ?_
    intro hKey
    rcases List.mem_map.mp hKey with ⟨e, hIn, hSame⟩
    exact hMember e hIn (decide_eq_true hSame)
  | some j =>
    rcases Option.map_eq_some_iff.mp hMember with ⟨e, hFind, rfl⟩
    have hIn := List.mem_of_find?_eq_some hFind
    have hSame : e.1 = key := by simpa using List.find?_some hFind
    rw [← hSame]
    exact get?_object (hKeys.sublist (keys_present_sublist fields)) hIn

/- A map's entries, written in order, are the map again. -/
theorem object_map_entries
    {α : Type} (write : α → Json) (m : OrderedMap String α) :
    object (m.entries.map fun e => (e.1, write e.2)) =
      m.mapValues fun _ => write := by
  apply OrderedMap.ext_get?
  intro key
  have hKeys :
      ((m.entries.map fun e => (e.1, write e.2)).map Prod.fst).Nodup := by
    rw [List.map_map]
    exact m.nodupKeys
  rw [OrderedMap.get?_mapValues]
  cases hGet : m.get? key with
  | none =>
    refine get?_object_of_not_mem ?_
    rw [List.map_map]
    intro hKey
    rcases List.mem_map.mp hKey with ⟨e, hIn, rfl⟩
    have hSome := OrderedMap.get?_of_mem_entries hIn
    change m.get? e.1 = none at hGet
    rw [hSome] at hGet
    cases hGet
  | some a =>
    refine get?_object hKeys (List.mem_map.mpr
      ⟨_, OrderedMap.mem_entries_of_get? hGet, rfl⟩)

end Json

end Base
