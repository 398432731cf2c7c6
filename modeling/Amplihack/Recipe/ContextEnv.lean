import Amplihack.Base.Greedy
import Amplihack.Base.OrderedMap
import Mathlib.Data.List.Sort
import Mathlib.Data.String.Basic

/-
  The context variables a recipe run finds in its
  environment.
-/

-- Names And Sizes

namespace Recipe

open Base

abbrev EnvPair :=
  String × String

def contextEnvValueMaxBytes : ℕ :=
  96 * 1024

def envEntryOverheadBytes : ℕ :=
  16

/- The largest `usize`. -/
def usizeMax : ℕ :=
  2 ^ 64 - 1

def reservedEnvDenylist : List String :=
  ["PATH", "HOME", "SHELL", "PWD", "USER", "LOGNAME",
    "LD_PRELOAD", "LD_LIBRARY_PATH",
    "DYLD_INSERT_LIBRARIES", "DYLD_LIBRARY_PATH",
    "GLIBC_TUNABLES", "BASH_ENV", "ENV", "PS4",
    "PROMPT_COMMAND", "SHELLOPTS", "BASHOPTS", "IFS",
    "PYTHONPATH", "NODE_OPTIONS", "PERL5OPT", "RUBYOPT"]

def startsWith (text start : String) : Bool :=
  start.toList.isPrefixOf text.toList

def toAsciiUppercase (key : String) : String :=
  String.ofList (key.toList.map Char.toUpper)

def isValidEnvIdentifier (name : String) : Bool :=
  match name.toList with
  | [] => false
  | c :: rest =>
    (c.isUpper || c == '_') &&
      rest.all fun c => c.isUpper || c.isDigit || c == '_'

def isEssentialContextKey (key : String) : Bool :=
  key == "task_description" || key == "repo_path" ||
    key == "existing_branch" || startsWith key "should_"

def envEntryBytes (pair : EnvPair) : ℕ :=
  pair.1.utf8ByteSize + pair.2.utf8ByteSize + envEntryOverheadBytes

def isReservedContextKey (key : String) : Bool :=
  startsWith (toAsciiUppercase key) "AMPLIHACK_"

/- The name of an entry, or why it is not exported. -/
def validateContextEntry
    (key value : String) :
    Except String String :=
  let name := toAsciiUppercase key
  if !isValidEnvIdentifier name then
    .error "invalid_identifier"
  else if isReservedContextKey key ||
      reservedEnvDenylist.contains name then
    .error "reserved_name"
  else if value.toList.contains (Char.ofNat 0) then
    .error "value_contains_nul"
  else if value.utf8ByteSize > contextEnvValueMaxBytes then
    .error "value_too_large"
  else .ok name

-- The Export

/- The pairs of the valid entries of some of the keys. -/
def validPairs
    (keep : String → Bool) (context : OrderedMap String String) :
    List EnvPair :=
  context.entries.filterMap fun (key, value) =>
    match validateContextEntry key value with
    | .ok name => if keep key then some (name, value) else none
    | .error _ => none

def essentialPairs : OrderedMap String String → List EnvPair :=
  validPairs isEssentialContextKey

def optionalPairs : OrderedMap String String → List EnvPair :=
  validPairs fun key => !isEssentialContextKey key

/- The cheaper pair first, then by name. -/
def Cheaper (p q : EnvPair) : Prop :=
  envEntryBytes p < envEntryBytes q ∨
    envEntryBytes p = envEntryBytes q ∧ p.1 ≤ q.1

instance (p q : EnvPair) : Decidable (Cheaper p q) := by
  unfold Cheaper
  infer_instance

/- The bytes of the pairs in saturating `usize` sums. -/
def usedBytes (pairs : List EnvPair) : ℕ :=
  spend envEntryBytes usizeMax 0 pairs

def contextEnvPairs
    (context : OrderedMap String String) (budget : ℕ) :
    List EnvPair :=
  let essential := essentialPairs context
  essential ++
    fill envEntryBytes usizeMax budget (usedBytes essential)
      ((optionalPairs context).insertionSort Cheaper)

/- The value of a name when later pairs override earlier. -/
def readLast (pairs : List EnvPair) (name : String) :
    Option String :=
  (pairs.reverse.find? fun p => p.1 == name).map Prod.snd

/-
  What the environment holds. An essential entry is promised
  for a value that an environment can hold, and where no
  other valid entry takes its name.
-/
structure Fits
    (context : OrderedMap String String) (budget : ℕ) (pairs : List EnvPair) :
    Prop where
  essential : ∀ key value,
    (key, value) ∈ context.entries →
    isEssentialContextKey key = true →
    isValidEnvIdentifier (toAsciiUppercase key) = true →
    Char.ofNat 0 ∉ value.toList →
    value.utf8ByteSize ≤ contextEnvValueMaxBytes →
    (∀ other ∈ context.entries,
      validateContextEntry other.1 other.2 =
        .ok (toAsciiUppercase key) → other.1 = key) →
    readLast pairs (toAsciiUppercase key) = some value
  allowed : ∀ p ∈ pairs, isValidEnvIdentifier p.1 = true ∧
    startsWith p.1 "AMPLIHACK_" = false ∧
    p.1 ∉ reservedEnvDenylist
  within : usedBytes pairs ≤ budget ∨
    budget < usedBytes (essentialPairs context)
  most : ∃ exported, pairs = essentialPairs context ++ exported ∧
    exported.Subperm (optionalPairs context) ∧
    (exported = [] ∨
      usedBytes (essentialPairs context ++ exported) ≤ budget) ∧
    ∀ chosen : List EnvPair, chosen.Sublist (optionalPairs context) →
      usedBytes (essentialPairs context ++ chosen) ≤ budget →
      chosen.length ≤ exported.length

-- Valid Entries

variable {keep : String → Bool}
variable {context : OrderedMap String String}
variable {key value name : String}
variable {pairs : List EnvPair}
variable {p q r : EnvPair}

theorem validateContextEntry_name
    (hValid : validateContextEntry key value = .ok name) :
    name = toAsciiUppercase key ∧
      isValidEnvIdentifier name = true ∧
      startsWith name "AMPLIHACK_" = false ∧
      name ∉ reservedEnvDenylist := by
  unfold validateContextEntry at hValid
  simp only at hValid
  split at hValid
  · cases hValid
  next hIdentifier =>
    split at hValid
    · cases hValid
    next hReserved =>
      split at hValid
      · cases hValid
      split at hValid
      · cases hValid
      rcases Except.ok.inj hValid with rfl
      unfold isReservedContextKey at hReserved
      simpa using And.intro hIdentifier hReserved

theorem mem_validPairs :
    p ∈ validPairs keep context ↔
      ∃ key, keep key = true ∧
        (key, p.2) ∈ context.entries ∧
        validateContextEntry key p.2 = .ok p.1 := by
  unfold validPairs
  rw [List.mem_filterMap]
  constructor
  · rintro ⟨⟨key, value⟩, hEntry, hPair⟩
    simp only at hPair
    split at hPair
    next name hName =>
      split at hPair
      next hKeep =>
        rcases Option.some.inj hPair with rfl
        exact ⟨key, hKeep, hEntry, hName⟩
      next => cases hPair
    next => cases hPair
  · rintro ⟨key, hKeep, hEntry, hName⟩
    refine ⟨(key, p.2), hEntry, ?_⟩
    simp only [hName, hKeep, if_true]

/- Every pair comes of a valid entry. -/
theorem entry_of_mem
    {budget : ℕ} (hPair : p ∈ contextEnvPairs context budget) :
    ∃ key, (key, p.2) ∈ context.entries ∧
      validateContextEntry key p.2 = .ok p.1 := by
  rcases List.mem_append.mp hPair with hEssential | hFilled
  · rcases mem_validPairs.mp hEssential with
      ⟨key, _, hEntry, hName⟩
    exact ⟨key, hEntry, hName⟩
  · have hSorted := (fill_sublist _ _).subset hFilled
    have hOptional := (List.mem_insertionSort _).mp hSorted
    rcases mem_validPairs.mp hOptional with ⟨key, _, hEntry, hName⟩
    exact ⟨key, hEntry, hName⟩

-- Essential Entries

theorem startsWith_toAsciiUppercase
    {start : String} (hStarts : startsWith key start = true) :
    startsWith (toAsciiUppercase key) (toAsciiUppercase start) = true := by
  unfold startsWith toAsciiUppercase at *
  rw [List.isPrefixOf_iff_prefix] at *
  rw [String.toList_ofList, String.toList_ofList]
  exact hStarts.map Char.toUpper

theorem toAsciiUppercase_should :
    toAsciiUppercase "should_" = "SHOULD_" := by
  decide

/- No reserved name starts like the name of a flag. -/
theorem reserved_not_flag :
    reservedEnvDenylist.all (fun name => !startsWith name "SHOULD_") = true :=
  rfl

theorem not_reserved_of_flag
    (hFlag : startsWith name "SHOULD_" = true) :
    startsWith name "AMPLIHACK_" = false ∧ name ∉ reservedEnvDenylist := by
  constructor
  · unfold startsWith at *
    cases hLetters : name.toList with
    | nil => rfl
    | cons c rest =>
      rw [hLetters] at hFlag
      have hc : c = 'S' := by
        rw [List.isPrefixOf_iff_prefix] at hFlag
        exact (List.cons_prefix_cons.mp hFlag).1.symm
      rw [hc]
      rfl
  · intro hReserved
    have hNot := List.all_eq_true.mp reserved_not_flag name hReserved
    rw [hFlag] at hNot
    cases hNot

/- An essential key has no reserved name. -/
theorem not_reserved_of_essential
    (hEssential : isEssentialContextKey key = true) :
    isReservedContextKey key = false ∧
      toAsciiUppercase key ∉ reservedEnvDenylist := by
  unfold isEssentialContextKey at hEssential
  simp only [Bool.or_eq_true, beq_iff_eq] at hEssential
  rcases hEssential with ((rfl | rfl) | rfl) | hFlag
  · decide
  · decide
  · decide
  · have hUpper := startsWith_toAsciiUppercase hFlag
    rw [toAsciiUppercase_should] at hUpper
    exact not_reserved_of_flag hUpper

theorem validateContextEntry_of_essential
    (hEssential : isEssentialContextKey key = true)
    (hName : isValidEnvIdentifier (toAsciiUppercase key) = true)
    (hNul : Char.ofNat 0 ∉ value.toList)
    (hSize : value.utf8ByteSize ≤ contextEnvValueMaxBytes) :
    validateContextEntry key value = .ok (toAsciiUppercase key) := by
  rcases not_reserved_of_essential hEssential with ⟨hPrefix, hDenied⟩
  unfold validateContextEntry
  simp [hName, hPrefix, hDenied, hNul, hSize]

/- A pair whose name has no other value is read. -/
theorem readLast_eq
    (hPair : (name, value) ∈ pairs)
    (hOnly : ∀ p ∈ pairs, p.1 = name → p.2 = value) :
    readLast pairs name = some value := by
  unfold readLast
  cases hFind : pairs.reverse.find? fun p => p.1 == name with
  | none =>
    have hNone := List.find?_eq_none.mp hFind (name, value)
      (List.mem_reverse.mpr hPair)
    simp at hNone
  | some p =>
    have hName : p.1 = name := by simpa using List.find?_some hFind
    have hIn := List.mem_reverse.mp (List.mem_of_find?_eq_some hFind)
    rw [Option.map_some, hOnly p hIn hName]

theorem essential_read
    {budget : ℕ} (hEntry : (key, value) ∈ context.entries)
    (hEssential : isEssentialContextKey key = true)
    (hValid : validateContextEntry key value = .ok (toAsciiUppercase key))
    (hAlone : ∀ other ∈ context.entries,
      validateContextEntry other.1 other.2 =
        .ok (toAsciiUppercase key) → other.1 = key) :
    readLast (contextEnvPairs context budget)
      (toAsciiUppercase key) = some value := by
  apply readLast_eq
  · apply List.mem_append_left
    exact mem_validPairs.mpr ⟨key, hEssential, hEntry, hValid⟩
  · intro p hPair hName
    rcases entry_of_mem hPair with ⟨other, hOther, hOk⟩
    rw [hName] at hOk
    have hSame : other = key := hAlone (other, p.2) hOther hOk
    rw [hSame] at hOther
    have hValue := OrderedMap.get?_of_mem_entries hOther
    rw [OrderedMap.get?_of_mem_entries hEntry] at hValue
    exact (Option.some.inj hValue).symm

-- The Budget

instance : Std.Total Cheaper where
  total p q := by
    rcases lt_trichotomy (envEntryBytes p) (envEntryBytes q)
      with hLess | hEqual | hMore
    · exact .inl (.inl hLess)
    · rcases le_total p.1 q.1 with hFirst | hSecond
      · exact .inl (.inr ⟨hEqual, hFirst⟩)
      · exact .inr (.inr ⟨hEqual.symm, hSecond⟩)
    · exact .inr (.inl hMore)

instance : IsTrans EnvPair Cheaper where
  trans p q r hLeft hRight := by
    unfold Cheaper at *
    rcases hLeft with hLeft | ⟨hLeft, hFirst⟩
    · rcases hRight with hRight | ⟨hRight, _⟩
      · exact .inl (hLeft.trans hRight)
      · exact .inl (hRight ▸ hLeft)
    · rcases hRight with hRight | ⟨hRight, hSecond⟩
      · exact .inl (hLeft ▸ hRight)
      · exact .inr ⟨hLeft.trans hRight, hFirst.trans hSecond⟩

theorem sorted_by_bytes (pairs : List EnvPair) :
    (pairs.insertionSort Cheaper).Pairwise fun p q =>
      envEntryBytes p ≤ envEntryBytes q := by
  have hSorted := List.pairwise_insertionSort Cheaper pairs
  apply hSorted.imp
  intro p q hCheaper
  rcases hCheaper with hLess | ⟨hEqual, _⟩
  · exact hLess.le
  · exact hEqual.le

theorem usedBytes_eq (pairs : List EnvPair) :
    usedBytes pairs = capped usizeMax 0 (costOf envEntryBytes pairs) :=
  spend_eq (Nat.zero_le _) pairs

theorem usedBytes_le (pairs : List EnvPair) :
    usedBytes pairs ≤ usizeMax := by
  rw [usedBytes_eq]
  exact min_le_right _ _

theorem usedBytes_append (essential chosen : List EnvPair) :
    usedBytes (essential ++ chosen) =
      capped usizeMax (usedBytes essential)
        (costOf envEntryBytes chosen) := by
  rw [← spend_eq (usedBytes_le essential)]
  unfold usedBytes spend
  rw [List.foldl_append]

theorem fill_within
    (essential optional : List EnvPair) (budget : ℕ) :
    let exported := fill envEntryBytes usizeMax budget
      (usedBytes essential) optional
    exported = [] ∨ usedBytes (essential ++ exported) ≤ budget := by
  intro exported
  by_cases hWithin : usedBytes essential ≤ budget
  · right
    rw [usedBytes_append]
    apply capped_fill_le
    unfold capped
    omega
  · left
    exact fill_eq_nil (usedBytes_le essential) (not_le.mp hWithin) optional

theorem fill_most
    {budget : ℕ} {chosen : List EnvPair}
    (hChosen : chosen.Sublist (optionalPairs context))
    (hFits : usedBytes (essentialPairs context ++ chosen) ≤ budget) :
    chosen.length ≤
      (fill envEntryBytes usizeMax budget
        (usedBytes (essentialPairs context))
        ((optionalPairs context).insertionSort Cheaper)).length := by
  rw [usedBytes_append] at hFits
  exact length_le_fill_of_perm (sorted_by_bytes _)
    (List.perm_insertionSort _ _).symm hChosen hFits

-- What The Environment Holds

theorem contextEnvPairs_fits
    (context : OrderedMap String String) (budget : ℕ) :
    Fits context budget (contextEnvPairs context budget) where
  essential key value hEntry hEssential hName hNul hSize := by
    intro hAlone
    exact essential_read hEntry hEssential
      (validateContextEntry_of_essential hEssential hName hNul hSize) hAlone
  allowed p hPair := by
    rcases entry_of_mem hPair with ⟨key, _, hOk⟩
    exact (validateContextEntry_name hOk).2
  within := by
    rcases fill_within (essentialPairs context)
      ((optionalPairs context).insertionSort Cheaper) budget
      with hNone | hWithin
    · simp only [contextEnvPairs]
      rw [hNone, List.append_nil]
      exact le_or_gt _ _
    · exact .inl hWithin
  most := by
    refine ⟨_, rfl, ?_, fill_within _ _ _, ?_⟩
    · exact (fill_sublist _ _).subperm.trans
        (List.perm_insertionSort _ _).subperm
    · intro chosen hChosen hFits
      exact fill_most hChosen hFits

def nulTask : OrderedMap String String where
  entries :=
    [("task_description", String.ofList [Char.ofNat 0])]
  sorted := List.pairwise_singleton _ _

def twoTasks : OrderedMap String String where
  entries := [("Task_Description", "x"),
    ("task_description", "y")]
  sorted := by decide

/-
  A value with a NUL byte is not exported, and an entry whose
  key differs in case overrides the essential one.
-/
theorem essential_not_read :
    (¬∀ (context : OrderedMap String String)
      (budget : ℕ)
      (key value : String),
      (key, value) ∈ context.entries →
      isEssentialContextKey key = true →
      isValidEnvIdentifier (toAsciiUppercase key) = true →
      readLast (contextEnvPairs context budget)
        (toAsciiUppercase key) = some value) ∧
    contextEnvPairs nulTask usizeMax = [] ∧
    readLast (contextEnvPairs twoTasks usizeMax)
      "TASK_DESCRIPTION" = some "x" := by
  have hNul : contextEnvPairs nulTask usizeMax = [] := by decide +kernel
  refine ⟨?_, hNul, ?_⟩
  · intro hAll
    have hRead := hAll nulTask usizeMax "task_description"
      (String.ofList [Char.ofNat 0]) List.mem_cons_self
      (by decide) (by decide)
    rw [hNul] at hRead
    cases hRead
  · decide +kernel

end Recipe
