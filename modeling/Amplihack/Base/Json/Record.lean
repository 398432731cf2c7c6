import Amplihack.Base.Dict
import Amplihack.Base.Json.Text

/-
  Reading typed records, lists and maps from JSON values.

  A key given twice is an error. An optional field may be
  missing or null; a defaulted field may only be missing.
-/

-- Fields

namespace Base

namespace Json

variable {α : Type}

/- A field that has to be there. -/
def required
    (members : List (String × Json)) (key : String) (read : Json → Option α) :
    Option α :=
  if isRepeated members key then none
  else (member? members key).bind read

/- A value, or null for none. -/
def readOption (read : Json → Option α) :
    Json → Option (Option α)
| .null => some none
| j => (read j).map some

@[simp] theorem readOption_null (read : Json → Option α) :
    readOption read .null = some none := rfl

@[simp] theorem readOption_str
    (read : Json → Option α) (s : String) :
    readOption read (.str s) = (read (.str s)).map some := rfl

@[simp] theorem readOption_ofNat
    (read : Json → Option α) (n : Nat) :
    readOption read (ofNat n) = (read (ofNat n)).map some :=
  rfl

@[simp] theorem readOption_ofInt
    (read : Json → Option α) (i : Int) :
    readOption read (ofInt i) = (read (ofInt i)).map some :=
  rfl

theorem readOption_of_not_null
    {read : Json → Option α} {j : Json} (hNull : j.isNull = false) :
    readOption read j = (read j).map some := by
  cases j <;> first | rfl | simp [isNull] at hNull

/- A field whose absence, or null, is no value. -/
def optional
    (members : List (String × Json)) (key : String) (read : Json → Option α) :
    Option (Option α) :=
  if isRepeated members key then none
  else
    match member? members key with
    | none => some none
    | some j => readOption read j

/- A field that takes `value` when it is missing. -/
def defaulted
    (members : List (String × Json)) (key : String) (value : α)
    (read : Json → Option α) :
    Option α :=
  if isRepeated members key then none
  else
    match member? members key with
    | none => some value
    | some j => read j

/- A member that is left out when there is no value. -/
def unlessNone
    (key : String) (write : α → Json) :
    Option α → List (String × Json)
| none => []
| some a => [(key, write a)]

/- A value, or null. -/
def orNull (write : α → Json) : Option α → Json
| none => .null
| some a => write a

-- Written Records

/- The fields that have a value, in order. -/
def present
    (fields : List (String × Option Json)) :
    List (String × Json) :=
  fields.filterMap fun f => f.2.map fun j => (f.1, j)

theorem key_mem_of_mem_present
    {fields : List (String × Option Json)} {e : String × Json}
    (hMem : e ∈ present fields) :
    e.1 ∈ fields.map Prod.fst := by
  rcases List.mem_filterMap.mp hMem with ⟨f, hf, hSome⟩
  rcases Option.map_eq_some_iff.mp hSome with ⟨j, _, rfl⟩
  exact List.mem_map_of_mem hf

@[simp] theorem present_cons_none
    (key : String) (fields : List (String × Option Json)) :
    present ((key, none) :: fields) = present fields := rfl

@[simp] theorem present_cons_some
    (key : String) (j : Json) (fields : List (String × Option Json)) :
    present ((key, some j) :: fields) = (key, j) :: present fields := rfl

theorem countP_present_of_not_mem
    {fields : List (String × Option Json)} {key : String}
    (hKey : key ∉ fields.map Prod.fst) :
    (present fields).countP (fun m => m.1 = key) = 0 := by
  rw [List.countP_eq_zero]
  intro e he hEq
  have hMem := key_mem_of_mem_present he
  simp only [decide_eq_true_eq] at hEq
  exact hKey (hEq ▸ hMem)

theorem member?_present_of_not_mem
    {fields : List (String × Option Json)} {key : String}
    (hKey : key ∉ fields.map Prod.fst) :
    member? (present fields) key = none := by
  rw [member?, Option.map_eq_none_iff, List.find?_eq_none]
  have hCount := countP_present_of_not_mem hKey
  rwa [List.countP_eq_zero] at hCount

/- With distinct keys each field is found as it was written. -/
theorem member?_present
    {fields : List (String × Option Json)}
    (hKeys : (fields.map Prod.fst).Nodup)
    {key : String} {value : Option Json} (hMem : (key, value) ∈ fields) :
    member? (present fields) key = value ∧
      (present fields).countP (fun m => m.1 = key) ≤ 1 := by
  induction fields with
  | nil => simp at hMem
  | cons f fields ih =>
    rw [List.map_cons, List.nodup_cons] at hKeys
    rcases f with ⟨k, v⟩
    rcases List.mem_cons.mp hMem with hHead | hTail
    · cases hHead
      have hNone := member?_present_of_not_mem hKeys.1
      have hCount := countP_present_of_not_mem hKeys.1
      cases value with
      | none => simp [hNone, hCount]
      | some j => simp [member?, hCount]
    · have hOther : k ≠ key := by
        rintro rfl
        exact hKeys.1 (List.mem_map.mpr ⟨_, hTail, rfl⟩)
      cases v with
      | none => exact ih hKeys.2 hTail
      | some j => simpa [member?, hOther] using ih hKeys.2 hTail

section Present

variable {fields : List (String × Option Json)}
variable (hKeys : (fields.map Prod.fst).Nodup)
include hKeys

theorem required_present
    {key : String} {j : Json} {read : Json → Option α}
    (hMem : (key, some j) ∈ fields) :
    required (present fields) key read = read j := by
  rcases member?_present hKeys hMem with ⟨hMember, hCount⟩
  simp [required, isRepeated, hMember, hCount]

theorem optional_present
    {key : String} {a : Option α} {read : Json → Option α}
    (write : α → Json) (hMem : (key, a.map write) ∈ fields)
    (hNull : ∀ a, (write a).isNull = false)
    (hRead : ∀ a, read (write a) = some a) :
    optional (present fields) key read = some a := by
  rcases member?_present hKeys hMem with ⟨hMember, hCount⟩
  cases a with
  | none => simp [optional, isRepeated, hMember, hCount]
  | some a =>
    simp [optional, isRepeated, hMember, hCount,
      readOption_of_not_null (hNull a), hRead]

theorem defaulted_present
    {key : String} {value : α} {j : Option Json}
    {read : Json → Option α} (hMem : (key, j) ∈ fields) :
    defaulted (present fields) key value read = j.elim (some value) read := by
  rcases member?_present hKeys hMem with ⟨hMember, hCount⟩
  cases j <;> simp [defaulted, isRepeated, hMember, hCount]

end Present

-- Machine Integers

/- A whole number of 32 bits. -/
def readUInt32 (j : Json) : Option UInt32 := do
  let n ← j.toNat?
  if n < UInt32.size then some (UInt32.ofNat n) else none

/- A whole number of 64 bits. -/
def readUInt64 (j : Json) : Option UInt64 := do
  let n ← j.toNat?
  if n < UInt64.size then some (UInt64.ofNat n) else none

/- A whole number of 64 bits with a sign. -/
def readInt64 (j : Json) : Option Int64 := do
  let i ← j.toInt?
  if Int64.minValue.toInt ≤ i ∧ i ≤ Int64.maxValue.toInt then
    some (Int64.ofInt i)
  else none

@[simp] theorem readInt64_ofInt_toInt (n : Int64) :
    readInt64 (ofInt n.toInt) = some n := by
  have hRange : Int64.minValue.toInt ≤ n.toInt ∧
      n.toInt ≤ Int64.maxValue.toInt := ⟨n.minValue_le_toInt, n.toInt_le⟩
  rw [readInt64, toInt?_ofInt]
  simp only [Option.bind_eq_bind, Option.bind_some]
  rw [if_pos hRange, Int64.ofInt_toInt]

@[simp] theorem readUInt32_ofNat_toNat (n : UInt32) :
    readUInt32 (ofNat n.toNat) = some n := by
  simp [readUInt32, n.toNat_lt_size]

@[simp] theorem readUInt64_ofNat_toNat (n : UInt64) :
    readUInt64 (ofNat n.toNat) = some n := by
  simp [readUInt64, n.toNat_lt_size]

-- Lists And Maps

/- Every item, or nothing when one cannot be read. -/
def readItems
    (read : Json → Option α) :
    List Json → Option (List α)
| [] => some []
| item :: items => do
    let a ← read item
    let rest ← readItems read items
    some (a :: rest)

/- An array of values. -/
def readList (read : Json → Option α) (j : Json) :
    Option (List α) := do
  let items ← j.toArr?
  readItems read items

/- Every member, or nothing when one cannot be read. -/
def readPairs
    (read : Json → Option α) :
    List (String × Json) → Option (List (String × α))
| [] => some []
| (key, value) :: members => do
    let a ← read value
    let rest ← readPairs read members
    some ((key, a) :: rest)

/- An object as a map; the last of two equal keys counts. -/
def readDict (read : Json → Option α) (j : Json) :
    Option (Dict String α) := do
  let members ← j.toObj?
  let pairs ← readPairs read members
  some (Dict.ofList pairs)

/- Reading back a list of written values. -/
theorem readList_map
    (read : Json → Option α) (write : α → Json) (items : List α)
    (hRead : ∀ a ∈ items, read (write a) = some a) :
    readList read (.arr (items.map write)) = some items := by
  have hItems : readItems read (items.map write) = some items := by
    induction items with
    | nil => rfl
    | cons a items ih =>
      have hRest := ih fun b hMem =>
        hRead b (List.mem_cons_of_mem _ hMem)
      simp [readItems, hRead a (by simp), hRest]
  simp [readList, toArr?, hItems]

/- Reading back a map of written values. -/
theorem readDict_entries
    (read : Json → Option α) (write : α → Json)
    (d : Dict String α) (hRead : ∀ a, read (write a) = some a) :
    readDict read
        (.obj (d.entries.map fun e => (e.1, write e.2))) =
      some d := by
  have hPairs :
      ∀ pairs : List (String × α),
        readPairs read (pairs.map fun e => (e.1, write e.2)) =
          some pairs := by
    intro pairs
    induction pairs with
    | nil => rfl
    | cons e pairs ih => simp [readPairs, hRead, ih]
  simp [readDict, toObj?, hPairs, Dict.ofList_entries]

end Json

end Base
