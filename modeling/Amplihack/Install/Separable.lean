import Mathlib.Data.List.Flatten
import Amplihack.Install.Registered

/-
  Exactly when the registration of the hooks adds one entry
  for each specification and keeps the rest of the document.
-/

-- Keys of a document

namespace Install

open Base

/- A step from a value to one of its parts. -/
inductive Step
| key (name : String)
| item
deriving DecidableEq

abbrev Path := List Step

mutual

/- The path to each key under a value, in order. -/
def keys : Json → List Path
| .null => []
| .bool _ => []
| .num _ => []
| .str _ => []
| .arr items => keysOfItems items
| .obj members => keysOfMembers members
termination_by structural value => value

def keysOfItems : List Json → List Path
| [] => []
| value :: rest =>
  (keys value).map (Step.item :: ·) ++ keysOfItems rest
termination_by structural items => items

def keysOfMembers : List (String × Json) → List Path
| [] => []
| e :: rest => keysOfMember e ++ keysOfMembers rest
termination_by structural members => members

def keysOfMember : String × Json → List Path
| (k, value) =>
  [.key k] :: (keys value).map (Step.key k :: ·)
termination_by structural e => e

end

theorem keysOfMembers_eq (members : Members) :
    keysOfMembers members = members.flatMap keysOfMember := by
  induction members with
  | nil => rfl
  | cons e rest ih => rw [keysOfMembers, List.flatMap_cons, ih]

variable {members : Members} {path : Path}

/- Under an object, every path begins with a key. -/
theorem exists_key_of_mem
    (hMem : path ∈ keys (.obj members)) :
    ∃ k value rest, (k, value) ∈ members ∧
      path = .key k :: rest ∧
      (rest = [] ∨ rest ∈ keys value) := by
  rw [keys, keysOfMembers_eq] at hMem
  rcases List.mem_flatMap.mp hMem with ⟨⟨k, value⟩, hIn, hPath⟩
  rw [keysOfMember] at hPath
  rcases List.mem_cons.mp hPath with rfl | hPath
  · exact ⟨k, value, [], hIn, rfl, .inl rfl⟩
  · rcases List.mem_map.mp hPath with ⟨rest, hRest, rfl⟩
    exact ⟨k, value, rest, hIn, rfl, .inr hRest⟩

theorem exists_item_of_mem
    {items : List Json} (hMem : path ∈ keys (.arr items)) :
    ∃ rest, path = .item :: rest := by
  rw [keys] at hMem
  induction items with
  | nil => simp [keysOfItems] at hMem
  | cons value items ih =>
    rw [keysOfItems] at hMem
    rcases List.mem_append.mp hMem with hHead | hRest
    · rcases List.mem_map.mp hHead with ⟨rest, -, rfl⟩
      exact ⟨rest, rfl⟩
    · exact ih hRest

-- Parts that the specifications do not own

/- Some specification of the event owns the entry. -/
def isOwnedEntry
    (withXpia : Bool) (event : String) (entry : Json) :
    Bool :=
  (ownersOf withXpia event).any fun owner =>
    ownsEntry owner.2 owner.1 entry

def foreignIn
    (withXpia : Bool) (event : String) (wrapper : Json) :
    List Json :=
  (entriesOf wrapper).filter (!isOwnedEntry withXpia event ·)

/- The entries of an event that nobody owns. -/
def foreignEntries
    (withXpia : Bool) (event : String) (wrappers : List Json) :
    List Json :=
  wrappers.flatMap (foreignIn withXpia event)

/- The wrappers of an event that nobody owns. -/
def foreignWrappers
    (withXpia : Bool) (event : String) (wrappers : List Json) :
    List Json :=
  wrappers.filter (!isOwned withXpia event ·)

/- The wrappers of an event and what they hold do not count,
   nor the key of an event with owned wrappers only. -/
def keysOfEvent
    (withXpia : Bool) (e : String × Json) :
    List Path :=
  if e.1 ∈ eventsOf amplihackHookSpecs then
    match e.2 with
    | .arr wrappers =>
      if wrappers.isEmpty ||
          !(foreignWrappers withXpia e.1 wrappers).isEmpty then
        [[.key e.1]]
      else []
    | _ => keysOfMember e
  else keysOfMember e

def keysOfHooks (withXpia : Bool) : Json → List Path
| .obj hooks => hooks.flatMap (keysOfEvent withXpia)
| value => keys value

def outsideKeys (withXpia : Bool) : Json → List Path
| .obj root => root.flatMap fun e =>
  if e.1 = "hooks" then
    [.key "hooks"] :: (keysOfHooks withXpia e.2).map (Step.key "hooks" :: ·)
  else keysOfMember e
| value => keys value

-- A registration

/- `bin_dir.join("amplihack-hooks")` -/
def hooksBinary (dir : String) : String :=
  if dir = "" || endsWith dir "/" then
    dir ++ "amplihack-hooks"
  else dir ++ "/" ++ "amplihack-hooks"

/- A document: an object has a key once. -/
structure Settings where
  value : Json
  rootKeys : ((ensureObject value).map Prod.fst).Nodup
  hookKeys : ((hooksIn value).map Prod.fst).Nodup

/- The specifications that are registered. -/
def ownersFor (withXpia limitResume : Bool) :
    List (String × HookSpec) :=
  (amplihackSpecs limitResume).map
      (fun spec => ("amplihack", spec)) ++
    if withXpia then
      xpiaHookSpecs.map fun spec => ("xpia", spec)
    else []

/- The entries that run the hook of the specification, with
   its matcher, its timeout and its flag. -/
def registrations
    (owner : String × HookSpec) (wrappers : List Json) :
    List Json :=
  wrappers.flatMap fun wrapper =>
    if matcherMatches wrapper owner.2 then
      (entriesOf wrapper).filter fun entry =>
        ownsEntry owner.2 owner.1 entry && isCurrent owner.2 entry
    else []

/- What the registration is to leave of a document. -/
structure Registered
    (hooksBin : String) (withXpia limitResume : Bool)
    (settings after : Json) :
    Prop where
  once : ∀ owner ∈ ownersFor withXpia limitResume,
    registrations owner (wrappersOf after owner.2.event) =
      [hookEntry owner.2 hooksBin]
  complete : missingHookRegistrations after limitResume = []
  limit : hasLimitResumeRegistration after = limitResume
  again : registerHooks after hooksBin withXpia limitResume = some after
  wrappers : ∀ event,
    foreignWrappers withXpia event (wrappersOf after event) =
      foreignWrappers withXpia event (wrappersOf settings event)
  entries : ∀ event,
    foreignEntries withXpia event (wrappersOf after event) =
      foreignEntries withXpia event (wrappersOf settings event)
  keys : (outsideKeys withXpia settings).Sublist (keys after)

/- A document that holds the user's hooks apart. -/
structure Separable
    (hooksBin : String) (withXpia limitResume : Bool) (settings : Json) :
    Prop where
  buildable : Buildable hooksBin withXpia limitResume
  -- What is no object or array, and replaced, has no keys.
  root : (∃ root, settings = .obj root) ∨ keys settings = []
  hooks : ∀ value,
    Json.member? (ensureObject settings) "hooks" = some value →
      (∃ hooks, value = .obj hooks) ∨ keys value = []
  events : ∀ event ∈ eventsOf (amplihackSpecs limitResume),
    ∀ value, Json.member? (hooksIn settings) event = some value →
      (∃ wrappers, value = .arr wrappers) ∨ keys value = []
  -- A removal does not find an event without wrappers.
  limit : limitResume = false →
    Json.member? (hooksIn settings) limitResumeEvent ≠ some (.arr [])
  -- An owned wrapper bundles owned entries only.
  whole : ∀ event, ∀ wrapper ∈ wrappersOf settings event,
    isOwned withXpia event wrapper = true →
      ∀ entry ∈ entriesOf wrapper, isOwnedEntry withXpia event entry = true
  -- Another wrapper holds no registration.
  apart : ∀ owner ∈ ownersFor withXpia limitResume,
    ∀ wrapper ∈ wrappersOf settings owner.2.event,
      isOwned withXpia owner.2.event wrapper = false →
      matcherMatches wrapper owner.2 = true →
      ∀ entry ∈ entriesOf wrapper,
        ownsEntry owner.2 owner.1 entry = true →
          isCurrent owner.2 entry = false

-- Entries

variable {hooksBin : String} {withXpia limitResume : Bool}
variable {settings : Json} {event : String}

theorem containsText_hooksBinary (dir : String) :
    containsText (hooksBinary dir) "amplihack-hooks" = true := by
  rw [containsText_iff]
  unfold hooksBinary
  split <;> rw [String.toList_append]
  · exact (List.suffix_append _ _).isInfix
  · exact (List.suffix_append _ _).isInfix

theorem foreignIn_eq_nil_iff {wrapper : Json} :
    foreignIn withXpia event wrapper = [] ↔
      ∀ entry ∈ entriesOf wrapper,
        isOwnedEntry withXpia event entry = true := by
  simp [foreignIn]

/- Elements that are left out and add nothing. -/
theorem flatMap_filter_eq_iff
    {α β : Type} {own : α → Bool} {f : α → List β} {l : List α} :
    (l.filter (!own ·)).flatMap f = l.flatMap f ↔
      ∀ x ∈ l, own x = true → f x = [] := by
  induction l with
  | nil => simp
  | cons x l ih =>
    rw [List.forall_mem_cons, ← ih]
    cases hOwn : own x with
    | false => simp [hOwn]
    | true =>
      rw [List.filter_cons_of_neg (by simp [hOwn]), List.flatMap_cons]
      constructor
      · intro hEq
        have hLe : ((l.filter (!own ·)).flatMap f).length ≤
            (l.flatMap f).length := (List.filter_sublist.flatMap f).length_le
        have hLength := congrArg List.length hEq
        rw [List.length_append] at hLength
        have hNil : f x = [] :=
          List.length_eq_zero_iff.mp (by omega)
        rw [hNil, List.nil_append] at hEq
        exact ⟨fun _ => hNil, hEq⟩
      · rintro ⟨hNil, hEq⟩
        rw [hEq, hNil rfl, List.nil_append]

/- A new wrapper is owned, and so is its entry. -/
theorem isOwned_of_mem_rebuilt
    (hName : containsText hooksBin "amplihack-hooks" = true)
    (hBuild : Buildable hooksBin withXpia limitResume) {wrapper : Json}
    (hMem : wrapper ∈ rebuilt hooksBin limitResume event) :
    isOwned withXpia event wrapper = true ∧
      foreignIn withXpia event wrapper = [] := by
  rcases List.mem_map.mp hMem with ⟨spec, hSpec, rfl⟩
  have hIn : ("amplihack", spec) ∈ ownersOf withXpia event :=
    mem_ownersOf_amplihack hSpec
  have hBuildable := isBuildable_of_mem hBuild hSpec
  refine ⟨List.any_eq_true.mpr ⟨_, hIn,
    isOwnWrapper_build hName hBuildable "amplihack"⟩, ?_⟩
  rw [foreignIn_eq_nil_iff, entriesOf_build]
  intro entry hEntry
  rw [List.mem_singleton.mp hEntry]
  refine List.any_eq_true.mpr ⟨_, hIn, ?_⟩
  rw [ownsEntry_hookEntry]
  exact ownsCommand_hookCommand hName hBuildable "amplihack"

theorem foreignWrappers_append
    (left right : List Json) :
    foreignWrappers withXpia event (left ++ right) =
      foreignWrappers withXpia event left ++
        foreignWrappers withXpia event right :=
  List.filter_append ..

theorem foreignWrappers_rebuilt
    (hName : containsText hooksBin "amplihack-hooks" = true)
    (hBuild : Buildable hooksBin withXpia limitResume) (event : String) :
    foreignWrappers withXpia event
      (rebuilt hooksBin limitResume event) = [] := by
  rw [foreignWrappers, List.filter_eq_nil_iff]
  intro wrapper hMem
  simp [(isOwned_of_mem_rebuilt hName hBuild hMem).1]

theorem foreignEntries_rebuilt
    (hName : containsText hooksBin "amplihack-hooks" = true)
    (hBuild : Buildable hooksBin withXpia limitResume) (event : String) :
    foreignEntries withXpia event
      (rebuilt hooksBin limitResume event) = [] := by
  rw [foreignEntries, List.flatMap_eq_nil_iff]
  intro wrapper hMem
  exact (isOwned_of_mem_rebuilt hName hBuild hMem).2

/- The wrappers of an event after the registration. -/
theorem wrappersOf_rewriteHooks
    (hName : containsText hooksBin "amplihack-hooks" = true)
    (hBuild : Buildable hooksBin withXpia limitResume)
    (settings : Json) (event : String) :
    wrappersOf (rewriteHooks
        (registeredHooks hooksBin withXpia limitResume)
        settings) event =
      rebuilt hooksBin limitResume event ++
        foreignWrappers withXpia event (wrappersOf settings event) := by
  rw [wrappersOf_eq, hooksIn_rewriteHooks, wrappersOf_eq,
    wrappersIn_registeredHooks hName hBuild]
  rfl

theorem foreignWrappers_wrappersOf
    (hName : containsText hooksBin "amplihack-hooks" = true)
    (hBuild : Buildable hooksBin withXpia limitResume)
    (settings : Json) (event : String) :
    foreignWrappers withXpia event (wrappersOf (rewriteHooks
        (registeredHooks hooksBin withXpia limitResume)
        settings) event) =
      foreignWrappers withXpia event (wrappersOf settings event) := by
  rw [wrappersOf_rewriteHooks hName hBuild, foreignWrappers_append,
    foreignWrappers_rebuilt hName hBuild, List.nil_append]
  simp [foreignWrappers]

/- The entries stay where each owned wrapper is whole. -/
theorem foreignEntries_wrappersOf_iff
    (hName : containsText hooksBin "amplihack-hooks" = true)
    (hBuild : Buildable hooksBin withXpia limitResume) :
    foreignEntries withXpia event (wrappersOf (rewriteHooks
        (registeredHooks hooksBin withXpia limitResume)
        settings) event) =
      foreignEntries withXpia event (wrappersOf settings event) ↔
    ∀ wrapper ∈ wrappersOf settings event,
      isOwned withXpia event wrapper = true →
        ∀ entry ∈ entriesOf wrapper,
          isOwnedEntry withXpia event entry = true := by
  rw [wrappersOf_rewriteHooks hName hBuild, foreignEntries,
    List.flatMap_append, ← foreignEntries,
    foreignEntries_rebuilt hName hBuild, List.nil_append,
    foreignEntries, foreignWrappers, flatMap_filter_eq_iff]
  simp only [foreignIn_eq_nil_iff]

-- Registrations

theorem registrations_append
    (owner : String × HookSpec) (left right : List Json) :
    registrations owner (left ++ right) =
      registrations owner left ++ registrations owner right :=
  List.flatMap_append

variable {owner : String × HookSpec}

theorem registrations_eq_nil_iff
    {wrappers : List Json} :
    registrations owner wrappers = [] ↔
      ∀ wrapper ∈ wrappers,
        matcherMatches wrapper owner.2 = true →
          ∀ entry ∈ entriesOf wrapper,
            ownsEntry owner.2 owner.1 entry = true →
              isCurrent owner.2 entry = false := by
  rw [registrations, List.flatMap_eq_nil_iff]
  refine forall₂_congr fun wrapper _ => ?_
  cases matcherMatches wrapper owner.2 <;> simp

/- The specifications of both systems are in one table. -/
theorem mem_amplihackSpecs
    (hMem : owner ∈ ownersFor withXpia limitResume) :
    owner.2 ∈ amplihackSpecs limitResume := by
  have hXpia : ∀ spec ∈ xpiaHookSpecs,
      spec ∈ amplihackSpecs limitResume := by cases limitResume <;> decide
  rcases List.mem_append.mp hMem with hOwn | hOther
  · rcases List.mem_map.mp hOwn with ⟨spec, hSpec, rfl⟩
    exact hSpec
  · cases withXpia with
    | false => simp at hOther
    | true =>
      rcases List.mem_map.mp hOther with ⟨spec, hSpec, rfl⟩
      exact hXpia spec hSpec

/- Two hooks of an event differ in their timeout. -/
theorem timeouts_differ
    {spec spec' : HookSpec} (hSpec : spec ∈ amplihackSpecs limitResume)
    (hSpec' : spec' ∈ specsOf (amplihackSpecs limitResume) spec.event)
    (hTimeout : spec'.timeout = spec.timeout) :
    spec' = spec := by
  have hAll : ∀ spec ∈ amplihackSpecs limitResume,
      ∀ spec' ∈ specsOf (amplihackSpecs limitResume) spec.event,
        spec'.timeout = spec.timeout → spec' = spec := by
    cases limitResume <;> decide
  exact hAll spec hSpec spec' hSpec' hTimeout

variable {spec : HookSpec}

theorem filter_specsOf
    (hSpec : spec ∈ amplihackSpecs limitResume) :
    (specsOf (amplihackSpecs limitResume) spec.event).filter
      (· = spec) = [spec] := by
  have hAll : ∀ spec ∈ amplihackSpecs limitResume,
      (specsOf (amplihackSpecs limitResume) spec.event).filter
        (· = spec) = [spec] := by cases limitResume <;> decide
  exact hAll spec hSpec

theorem timeout_le
    (hSpec : spec ∈ amplihackSpecs limitResume) :
    ∀ n, spec.timeout = some n → n ≤ 18446744073709551615 := by
  have hAll : ∀ spec ∈ amplihackSpecs limitResume,
      spec.timeout.all (· ≤ 18446744073709551615) = true := by
    cases limitResume <;> decide
  intro n hSome
  have hOne := hAll spec hSpec
  rw [hSome] at hOne
  simpa using hOne

/- Of the new wrappers of an event, one holds the hook. -/
theorem registrations_rebuilt
    (hName : containsText hooksBin "amplihack-hooks" = true)
    (hBuild : Buildable hooksBin withXpia limitResume)
    (hOwner : owner ∈ ownersFor withXpia limitResume) :
    registrations owner
        (rebuilt hooksBin limitResume owner.2.event) =
      [hookEntry owner.2 hooksBin] := by
  have hSpec := mem_amplihackSpecs hOwner
  have hOne : ∀ spec ∈ specsOf (amplihackSpecs limitResume) owner.2.event,
      (if matcherMatches (buildHookWrapper spec hooksBin)
          owner.2 then
        (entriesOf (buildHookWrapper spec hooksBin)).filter
          fun entry => ownsEntry owner.2 owner.1 entry &&
            isCurrent owner.2 entry
      else []) =
        if spec = owner.2 then [hookEntry spec hooksBin]
        else [] := by
    intro spec hMem
    have hCurrent := isCurrent_hookEntry
      (timeout_le (List.mem_of_mem_filter hMem)) owner.2
      hooksBin
    rw [entriesOf_build]
    by_cases hEq : spec = owner.2
    · rw [if_pos hEq]
      subst hEq
      have hOwns := ownsCommand_hookCommand hName
        (isBuildable_of_mem hBuild hMem) owner.1
      simp [matcherMatches_build, ownsEntry_hookEntry, hOwns,
        hCurrent.mpr ⟨rfl, rfl⟩]
    · have hStale : isCurrent owner.2 (hookEntry spec hooksBin) = false := by
        rw [Bool.eq_false_iff]
        intro hTrue
        exact hEq (timeouts_differ hSpec hMem (hCurrent.mp hTrue).1)
      rw [if_neg hEq]
      simp [hStale]
  rw [registrations, rebuilt, List.flatMap_map, List.flatMap_congr hOne]
  have hFilter := filter_specsOf hSpec
  generalize specsOf (amplihackSpecs limitResume)
    owner.2.event = specs at hFilter
  have hCollect : ∀ specs : List HookSpec,
      (specs.flatMap fun spec => if spec = owner.2 then
        [hookEntry spec hooksBin] else []) =
      (specs.filter (· = owner.2)).map (hookEntry · hooksBin) := by
    intro specs
    induction specs with
    | nil => rfl
    | cons spec specs ih =>
      rw [List.flatMap_cons, ih]
      by_cases hEq : spec = owner.2 <;> simp [hEq]
  rw [hCollect, hFilter]
  rfl

/- Each hook is there once where no other wrapper has it. -/
theorem registrations_wrappersOf_iff
    (hName : containsText hooksBin "amplihack-hooks" = true)
    (hBuild : Buildable hooksBin withXpia limitResume)
    (hOwner : owner ∈ ownersFor withXpia limitResume) :
    registrations owner (wrappersOf (rewriteHooks
        (registeredHooks hooksBin withXpia limitResume)
        settings) owner.2.event) =
      [hookEntry owner.2 hooksBin] ↔
    ∀ wrapper ∈ wrappersOf settings owner.2.event,
      isOwned withXpia owner.2.event wrapper = false →
        matcherMatches wrapper owner.2 = true →
          ∀ entry ∈ entriesOf wrapper,
            ownsEntry owner.2 owner.1 entry = true →
              isCurrent owner.2 entry = false := by
  rw [wrappersOf_rewriteHooks hName hBuild, registrations_append,
    registrations_rebuilt hName hBuild hOwner, List.append_right_eq_self,
    registrations_eq_nil_iff, foreignWrappers]
  simp only [List.mem_filter, Bool.not_eq_true', and_imp]

/- No hook is missing after the registration. -/
theorem missing_eq_nil
    (hName : containsText hooksBin "amplihack-hooks" = true)
    (hBuild : Buildable hooksBin withXpia limitResume) (settings : Json) :
    missingHookRegistrations (rewriteHooks
        (registeredHooks hooksBin withXpia limitResume)
        settings) limitResume = [] := by
  have hNone : (amplihackSpecs limitResume).filter (fun spec =>
      !(wrappersOf (rewriteHooks
          (registeredHooks hooksBin withXpia limitResume)
          settings) spec.event).any
        (wrapperMatches · spec "amplihack")) = [] := by
    rw [List.filter_eq_nil_iff]
    intro spec hSpec
    have hMem : spec ∈ specsOf (amplihackSpecs limitResume)
        spec.event := List.mem_filter.mpr ⟨hSpec, by simp⟩
    have hCurrent : wrapperMatches
        (buildHookWrapper spec hooksBin) spec "amplihack" =
          true := by
      rw [wrapperMatches, isOwnWrapper_build hName
        (isBuildable_of_mem hBuild hMem), entriesOf_build]
      exact (isCurrent_hookEntry (timeout_le hSpec) spec
        hooksBin).mpr ⟨rfl, rfl⟩
    have hAny : (rebuilt hooksBin limitResume spec.event).any
        (wrapperMatches · spec "amplihack") = true :=
      List.any_eq_true.mpr ⟨buildHookWrapper spec hooksBin,
        List.mem_map.mpr ⟨spec, hMem, rfl⟩, hCurrent⟩
    rw [Bool.not_eq_true', Bool.not_eq_false,
      wrappersOf_rewriteHooks hName hBuild, List.any_append,
      hAny, Bool.true_or]
  unfold missingHookRegistrations
  dsimp only
  rw [hNone]
  simp

theorem hasLimitResumeRegistration_eq
    (hName : containsText hooksBin "amplihack-hooks" = true)
    (hBuild : Buildable hooksBin withXpia limitResume) (settings : Json) :
    hasLimitResumeRegistration (rewriteHooks
        (registeredHooks hooksBin withXpia limitResume)
        settings) = limitResume := by
  have hEvent : limitSpec.event = limitResumeEvent := rfl
  rw [hasLimitResumeRegistration, specsOf_limitResumeEvent,
    List.any_cons, List.any_nil, Bool.or_false,
    wrappersOf_rewriteHooks hName hBuild, List.any_append]
  have hForeign : (foreignWrappers withXpia limitSpec.event
      (wrappersOf settings limitSpec.event)).any
        (isOwnWrapper · limitSpec "amplihack") = false := by
    rw [List.any_eq_false]
    intro wrapper hMem
    have hNot := (List.mem_filter.mp hMem).2
    rw [Bool.not_eq_true', isOwned_false_iff, hEvent,
      specsOf_limitResumeEvent] at hNot
    simpa using hNot.1
  rw [hForeign, Bool.or_false, rebuilt, hEvent]
  cases limitResume with
  | false => rw [specsOf_amplihackSpecs_false]; rfl
  | true =>
    have hMem : limitSpec ∈
        specsOf (amplihackSpecs true) limitResumeEvent := by decide
    have hOwn := isOwnWrapper_build hName
      (isBuildable_of_mem hBuild hMem) "amplihack"
    exact List.any_eq_true.mpr
      ⟨_, List.mem_map.mpr ⟨limitSpec, hMem, rfl⟩, hOwn⟩

-- Keys that stay

theorem sublist_orInsert
    (key : String) (value : Json) (m : Members) :
    m.Sublist (orInsert key value m) := by
  unfold orInsert
  split
  · exact List.Sublist.refl m
  · induction m with
    | nil => exact List.nil_sublist _
    | cons e m ih =>
      rcases e with ⟨k, v⟩
      unfold insertSorted
      split
      · exact List.sublist_cons_self _ _
      · next hAny _ =>
          refine (ih ?_).cons_cons _
          intro hRest
          exact hAny (by simp [hRest])

variable {β : Type} {m : Members}

/- A change of one value, as what it does to its own part. -/
theorem flatMap_changeAt_sublist
    {key : String} {change : Json → Json} {f g : String × Json → List β}
    (hKey : ∀ v, (key, v) ∈ m → (f (key, v)).Sublist (g (key, change v)))
    (hOther : ∀ e ∈ m, e.1 ≠ key → (f e).Sublist (g e)) :
    (m.flatMap f).Sublist ((changeAt key change m).flatMap g) := by
  rw [changeAt, List.flatMap_map]
  apply List.Sublist.flatMap_right
  rintro ⟨k, v⟩ hMem
  by_cases hEq : k = key
  · subst hEq
    rw [if_pos rfl]
    exact hKey v hMem
  · rw [if_neg hEq]
    exact hOther (k, v) hMem hEq

/- What reads only the keys of the events that are swept. -/
theorem flatMap_sweepEvents_sublist
    {events : List String} {change : String → Json → Json}
    {f : String × Json → List β}
    (hKeys : ∀ event ∈ events, ∀ v w, f (event, v) = f (event, w))
    (m : Members) :
    (m.flatMap f).Sublist ((sweepEvents events change m).flatMap f) := by
  induction events generalizing m with
  | nil => exact List.Sublist.refl _
  | cons event events ih =>
    rw [sweepEvents, List.foldl_cons, ← sweepEvents]
    refine ((sublist_orInsert event (.arr []) m).flatMap f).trans ?_
    refine List.Sublist.trans ?_ (ih (fun other hMem =>
      hKeys other (List.mem_cons_of_mem _ hMem)) _)
    refine flatMap_changeAt_sublist ?_ fun e _ _ => List.Sublist.refl _
    intro v _
    rw [hKeys event List.mem_cons_self v]

theorem keysOfEvent_sublist (e : String × Json) :
    (keysOfEvent withXpia e).Sublist (keysOfMember e) := by
  have hHead : ([[.key e.1]] : List Path).Sublist (keysOfMember e) := by
    rw [keysOfMember]
    exact (List.nil_sublist _).cons_cons _
  unfold keysOfEvent
  split
  · split
    · split
      · exact hHead
      · exact List.nil_sublist _
    · exact List.Sublist.refl _
  · exact List.Sublist.refl _

/- The events whose values are rewritten give their key. -/
def stageKeys
    (limitResume : Bool) (f : String × Json → List Path) (e : String × Json) :
    List Path :=
  if e.1 ∈ eventsOf (amplihackSpecs limitResume) then
    [[.key e.1]]
  else f e

theorem stageKeys_sublist
    {f g : String × Json → List Path}
    (hSub : ∀ e, (f e).Sublist (g e)) (e : String × Json) :
    (stageKeys limitResume f e).Sublist (stageKeys limitResume g e) := by
  unfold stageKeys
  split
  · exact List.Sublist.refl _
  · exact hSub e

theorem stageKeys_updateHooks
    (f : String × Json → List Path) {specs : List HookSpec}
    (hSpecs : ∀ event ∈ eventsOf specs,
      event ∈ eventsOf (amplihackSpecs limitResume))
    (hookSystem hooksBin : String)
    (hooks : Members) :
    (hooks.flatMap (stageKeys limitResume f)).Sublist
      ((updateHooks hookSystem specs hooksBin hooks).flatMap
        (stageKeys limitResume f)) := by
  rw [updateHooks_eq_sweepEvents]
  apply flatMap_sweepEvents_sublist
  intro event hEvent v w
  rw [stageKeys, stageKeys, if_pos (hSpecs event hEvent),
    if_pos (hSpecs event hEvent)]

variable {v : Json}

theorem member?_of_mem
    {k : String} (hNodup : (m.map Prod.fst).Nodup) (hMem : (k, v) ∈ m) :
    Json.member? m k = some v := by
  induction m with
  | nil => simp at hMem
  | cons e m ih =>
    rw [List.map_cons, List.nodup_cons] at hNodup
    rw [member?_cons]
    rcases List.mem_cons.mp hMem with rfl | hRest
    · rw [if_pos rfl]
    · rw [if_neg, ih hNodup.2 hRest]
      intro hEq
      exact hNodup.1 (hEq ▸ List.mem_map_of_mem hRest)

variable {hooks : Members}

/- A value that is rewritten had no keys of its own. -/
theorem keysOfEvent_sublist_stage
    (hEvents : ∀ event ∈ eventsOf (amplihackSpecs limitResume),
      ∀ value, (event, value) ∈ hooks →
        (∃ wrappers, value = .arr wrappers) ∨ keys value = []) :
    (hooks.flatMap (keysOfEvent withXpia)).Sublist
      (hooks.flatMap (stageKeys limitResume (keysOfEvent withXpia))) := by
  have hTouched : ∀ event ∈ eventsOf (amplihackSpecs
      limitResume), event ∈ eventsOf amplihackHookSpecs := by
    cases limitResume <;> decide
  apply List.Sublist.flatMap_right
  rintro ⟨event, value⟩ hMem
  unfold stageKeys
  split
  · next hEvent =>
      rcases hEvents event hEvent value hMem with ⟨wrappers, rfl⟩ | hNone
      · rw [keysOfEvent, if_pos (hTouched event hEvent)]
        dsimp only
        split
        · exact List.Sublist.refl _
        · exact List.nil_sublist _
      · refine (keysOfEvent_sublist _).trans ?_
        rw [keysOfMember, hNone]
        exact List.Sublist.refl _
  · exact List.Sublist.refl _

/- A removal takes the key of owned wrappers only. -/
theorem stageKeys_removeFrom
    (hOne : ∀ v, (limitResumeEvent, v) ∈ hooks →
      Json.member? hooks limitResumeEvent = some v)
    (hLimit : Json.member? hooks limitResumeEvent ≠ some (.arr [])) :
    (hooks.flatMap
        (stageKeys false (keysOfEvent withXpia))).Sublist
      ((removeFrom limitSpec "amplihack" hooks).flatMap
        (stageKeys false keysOfMember)) := by
  have hEvent : limitSpec.event = limitResumeEvent := rfl
  have hOut : limitResumeEvent ∉ eventsOf (amplihackSpecs false) := by decide
  have hIn : limitResumeEvent ∈ eventsOf amplihackHookSpecs := by decide
  unfold removeFrom
  rw [hEvent]
  split
  · next hEmpty =>
      have hNone : ∀ e ∈ hooks,
          decide (e.1 = limitResumeEvent) = true →
            stageKeys false (keysOfEvent withXpia) e = [] := by
        rintro ⟨k, v⟩ hMem hKey
        have hKey : k = limitResumeEvent := by simpa using hKey
        subst hKey
        have hGet := hOne v hMem
        rw [hGet] at hEmpty hLimit
        rw [stageKeys, if_neg hOut, keysOfEvent, if_pos hIn]
        cases v with
        | arr wrappers =>
          simp only [Option.map_some, stripOwn, Option.some.injEq,
            Json.arr.injEq, List.filter_eq_nil_iff] at hEmpty
          have hForeign : foreignWrappers withXpia
              limitResumeEvent wrappers = [] := by
            rw [foreignWrappers, List.filter_eq_nil_iff]
            intro wrapper hWrapper hNot
            rw [Bool.not_eq_true', isOwned_false_iff,
              specsOf_limitResumeEvent] at hNot
            exact hEmpty wrapper hWrapper (by simpa using hNot.1)
          have hSome : wrappers.isEmpty = false := by
            cases wrappers with
            | nil => exact absurd rfl hLimit
            | cons _ _ => rfl
          dsimp only
          rw [hForeign, hSome]
          rfl
        | null | bool _ | num _ | str _ | obj _ => simp [stripOwn] at hEmpty
      rw [← flatMap_filter_eq_iff.mpr hNone]
      simp only [ne_eq, decide_not]
      exact List.Sublist.flatMap_right _ fun e _ =>
        stageKeys_sublist keysOfEvent_sublist e
  · apply flatMap_changeAt_sublist
    · intro v _
      rw [stageKeys, stageKeys, if_neg hOut, if_neg hOut]
      cases v with
      | arr wrappers =>
        have hHead : (keysOfEvent withXpia
            (limitResumeEvent, .arr wrappers)).Sublist
              [[.key limitResumeEvent]] := by
          rw [keysOfEvent, if_pos hIn]
          dsimp only
          split
          · exact List.Sublist.refl _
          · exact List.nil_sublist _
        refine hHead.trans ?_
        rw [keysOfMember]
        exact (List.nil_sublist _).cons_cons _
      | null | bool _ | num _ | str _ | obj _ => exact keysOfEvent_sublist _
    · intro e _ _
      exact stageKeys_sublist keysOfEvent_sublist e

theorem keysOfHooks_sublist
    (hNodup : (hooks.map Prod.fst).Nodup)
    (hEvents : ∀ event ∈ eventsOf (amplihackSpecs limitResume),
      ∀ value, Json.member? hooks event = some value →
        (∃ wrappers, value = .arr wrappers) ∨ keys value = [])
    (hLimit : limitResume = false →
      Json.member? hooks limitResumeEvent ≠ some (.arr []))
    (hooksBin : String) :
    (hooks.flatMap (keysOfEvent withXpia)).Sublist
      ((registeredHooks hooksBin withXpia limitResume
        hooks).flatMap keysOfMember) := by
  have hStart : (hooks.flatMap (keysOfEvent withXpia)).Sublist
      (hooks.flatMap (stageKeys limitResume (keysOfEvent withXpia))) :=
    keysOfEvent_sublist_stage
      fun event hEvent value hMem =>
        hEvents event hEvent value (member?_of_mem hNodup hMem)
  have hUpdate : (hooks.flatMap (stageKeys limitResume
      (keysOfEvent withXpia))).Sublist
      ((updateHooks "amplihack" (amplihackSpecs limitResume)
        hooksBin hooks).flatMap
          (stageKeys limitResume (keysOfEvent withXpia))) :=
    stageKeys_updateHooks _ (fun _ hMem => hMem) _ _ _
  have hRemoved : ((updateHooks "amplihack"
      (amplihackSpecs limitResume) hooksBin hooks).flatMap
        (stageKeys limitResume (keysOfEvent withXpia))).Sublist
      ((afterRemoval hooksBin limitResume hooks).flatMap
        (stageKeys limitResume keysOfMember)) := by
    cases hResume : limitResume with
    | true =>
      rw [afterRemoval, if_pos rfl]
      exact List.Sublist.flatMap_right _ fun e _ =>
        stageKeys_sublist keysOfEvent_sublist e
    | false =>
      have hOut : limitResumeEvent ∉
          eventsOf (amplihackSpecs false) := by decide
      have hSame : Json.member? (updateHooks "amplihack"
          (amplihackSpecs false) hooksBin hooks) limitResumeEvent =
          Json.member? hooks limitResumeEvent := by
        rw [updateHooks_eq_sweepEvents,
          member?_sweepEvents (nodup_eventsOf _), if_neg hOut]
      rw [afterRemoval, if_neg (by simp)]
      apply stageKeys_removeFrom
      · intro v hMem
        rw [updateHooks_eq_sweepEvents] at hMem
        rcases mem_sweepEvents (nodup_eventsOf _) hMem with
          ⟨-, hOld⟩ | ⟨hIn, -⟩
        · rw [hSame]
          exact member?_of_mem hNodup hOld
        · exact absurd hIn hOut
      · rw [hSame]
        exact hLimit hResume
  have hXpia : ((afterRemoval hooksBin limitResume
      hooks).flatMap (stageKeys limitResume keysOfMember)).Sublist
      ((registeredHooks hooksBin withXpia limitResume
        hooks).flatMap (stageKeys limitResume keysOfMember)) := by
    rw [registeredHooks_eq]
    cases withXpia with
    | false => exact List.Sublist.refl _
    | true =>
      rw [if_pos rfl]
      exact stageKeys_updateHooks _ (xpia_events_subset limitResume) _ _ _
  have hEnd : ∀ e, (stageKeys limitResume keysOfMember
      e).Sublist (keysOfMember e) := by
    intro e
    unfold stageKeys
    split
    · rw [keysOfMember]
      exact (List.nil_sublist _).cons_cons _
    · exact List.Sublist.refl _
  exact (((hStart.trans hUpdate).trans hRemoved).trans
    hXpia).trans (List.Sublist.flatMap_right _ fun e _ => hEnd e)

theorem eq_nil_of_keys_eq_nil
    (hNone : keys (.obj members) = []) :
    members = [] := by
  cases members with
  | nil => rfl
  | cons e rest =>
    rcases e with ⟨k, value⟩
    rw [keys, keysOfMembers_eq, List.flatMap_cons, keysOfMember] at hNone
    cases hNone

/- The keys stay where what is replaced has none. -/
theorem outsideKeys_sublist
    (doc : Settings)
    (hSeparable : Separable hooksBin withXpia limitResume doc.value) :
    (outsideKeys withXpia doc.value).Sublist
      (keys (rewriteHooks
        (registeredHooks hooksBin withXpia limitResume)
        doc.value)) := by
  rcases doc with ⟨settings, hRoot, hHooks⟩
  dsimp only at *
  rcases hSeparable.root with ⟨root, rfl⟩ | hNone
  · rw [outsideKeys, rewriteHooks, keys, keysOfMembers_eq, ensureObject]
    refine ((sublist_orInsert "hooks" (.obj []) root).flatMap _).trans ?_
    apply flatMap_changeAt_sublist
    · intro v hMem
      have hPart : (keysOfHooks withXpia v).Sublist
          (keys (.obj (registeredHooks hooksBin withXpia
            limitResume (ensureObject v)))) := by
        rw [keys, keysOfMembers_eq]
        rcases mem_orInsert hMem with hOld | rfl
        · have hGet := member?_of_mem hRoot hOld
          have hIn : hooksIn (.obj root) = ensureObject v := by
            rw [hooksIn, hGet, Option.getD_some]
          rcases hSeparable.hooks v hGet with ⟨hooks, rfl⟩ | hNone
          · have hEvents := hSeparable.events
            have hLimit := hSeparable.limit
            rw [hIn] at hEvents hLimit hHooks
            exact keysOfHooks_sublist hHooks hEvents hLimit hooksBin
          · cases v with
            | obj hooks =>
              rw [eq_nil_of_keys_eq_nil hNone]
              exact List.nil_sublist _
            | null | bool _ | num _ | str _ => exact List.nil_sublist _
            | arr items =>
              change (keys (.arr items)).Sublist _
              rw [hNone]
              exact List.nil_sublist _
        · exact List.nil_sublist _
      rw [if_pos rfl, keysOfMember]
      exact (hPart.map _).cons_cons _
    · intro e _ hNe
      rw [if_neg hNe]
  · cases settings with
    | obj root =>
      rw [eq_nil_of_keys_eq_nil hNone]
      exact List.nil_sublist _
    | null | bool _ | num _ | str _ => exact List.nil_sublist _
    | arr items =>
      change (keys (.arr items)).Sublist _
      rw [hNone]
      exact List.nil_sublist _

-- Keys that are lost

variable {change : Members → Members}

/- A path into the hooks, after the registration. -/
theorem mem_keys_rewriteHooks
    (hMem : Step.key "hooks" :: path ∈ keys (rewriteHooks change settings)) :
    path = [] ∨ ∃ value,
      (("hooks", value) ∈ ensureObject settings ∨ value = .obj []) ∧
      path ∈ keys (.obj (change (ensureObject value))) := by
  rw [rewriteHooks] at hMem
  rcases exists_key_of_mem hMem with ⟨k, value, rest, hIn, hPath, hRest⟩
  simp only [List.cons.injEq, Step.key.injEq] at hPath
  rcases hPath with ⟨rfl, rfl⟩
  rcases hRest with rfl | hRest
  · exact .inl rfl
  · rcases mem_changeAt hIn with ⟨hNe, -⟩ | ⟨-, old, hOld, rfl⟩
    · exact absurd rfl hNe
    · exact .inr ⟨old, mem_orInsert hOld, hRest⟩

theorem not_item_of_mem_obj
    {rest : Path} :
    Step.item :: rest ∉ keys (.obj members) := by
  intro hMem
  rcases exists_key_of_mem hMem with ⟨k, value, _, -, hEq, -⟩
  simp at hEq

variable {value : Json}

/- A value that is no object has keys below its items. -/
theorem exists_item_of_not_obj
    (hValue : ¬ ∃ members, value = .obj members) (hKeys : keys value ≠ []) :
    ∃ rest, Step.item :: rest ∈ keys value := by
  rcases List.exists_mem_of_ne_nil _ hKeys with ⟨path, hMem⟩
  cases value with
  | obj members => exact absurd ⟨members, rfl⟩ hValue
  | arr items =>
    rcases exists_item_of_mem hMem with ⟨rest, rfl⟩
    exact ⟨rest, hMem⟩
  | null | bool _ | num _ | str _ => simp [keys] at hMem

theorem exists_key_of_not_arr
    (hValue : ¬ ∃ items, value = .arr items) (hKeys : keys value ≠ []) :
    ∃ k rest, Step.key k :: rest ∈ keys value := by
  rcases List.exists_mem_of_ne_nil _ hKeys with ⟨path, hMem⟩
  cases value with
  | arr items => exact absurd ⟨items, rfl⟩ hValue
  | obj members =>
    rcases exists_key_of_mem hMem with ⟨k, value, rest, -, rfl, -⟩
    exact ⟨k, rest, hMem⟩
  | null | bool _ | num _ | str _ => simp [keys] at hMem

theorem outsideKeys_of_not_obj
    (hValue : ¬ ∃ members, settings = .obj members) :
    outsideKeys withXpia settings = keys settings := by
  cases settings with
  | obj members => exact absurd ⟨members, rfl⟩ hValue
  | _ => rfl

theorem keysOfHooks_of_not_obj
    (hValue : ¬ ∃ members, value = .obj members) :
    keysOfHooks withXpia value = keys value := by
  cases value with
  | obj members => exact absurd ⟨members, rfl⟩ hValue
  | _ => rfl

theorem mem_outsideKeys
    {root : Members} (hHooks : ("hooks", value) ∈ root)
    (hPath : path ∈ keysOfHooks withXpia value) :
    Step.key "hooks" :: path ∈ outsideKeys withXpia (.obj root) := by
  refine List.mem_flatMap.mpr ⟨_, hHooks, ?_⟩
  rw [if_pos rfl]
  exact List.mem_cons_of_mem _ (List.mem_map_of_mem hPath)

/- A root with keys that is replaced loses them. -/
theorem root_of_sublist
    (hKeys : (outsideKeys withXpia settings).Sublist
      (keys (rewriteHooks change settings))) :
    (∃ root, settings = .obj root) ∨ keys settings = [] := by
  by_contra hNot
  rw [not_or] at hNot
  rw [outsideKeys_of_not_obj hNot.1] at hKeys
  rcases exists_item_of_not_obj hNot.1 hNot.2 with ⟨rest, hMem⟩
  exact not_item_of_mem_obj (hKeys.subset hMem)

/- So does a value of the hooks. -/
theorem hooks_of_sublist
    (hHooks : Json.member? (ensureObject settings) "hooks" = some value)
    (hKeys : (outsideKeys withXpia settings).Sublist
      (keys (rewriteHooks change settings))) :
    (∃ hooks, value = .obj hooks) ∨ keys value = [] := by
  by_contra hNot
  rw [not_or] at hNot
  rcases exists_item_of_not_obj hNot.1 hNot.2 with ⟨rest, hMem⟩
  have hPath : Step.item :: rest ∈ keysOfHooks withXpia value := by
    rw [keysOfHooks_of_not_obj hNot.1]
    exact hMem
  cases settings with
  | obj root =>
    have hIn := hKeys.subset (mem_outsideKeys (mem_of_member? hHooks) hPath)
    rcases mem_keys_rewriteHooks hIn with
      hNil | ⟨_, -, hItem⟩
    · simp at hNil
    · exact not_item_of_mem_obj hItem
  | _ => simp [ensureObject, Json.member?] at hHooks

/- A path below an event, before and after. -/
theorem event_path_of_sublist
    (hKeys : (outsideKeys withXpia settings).Sublist
      (keys (rewriteHooks
        (registeredHooks hooksBin withXpia limitResume)
        settings)))
    (hGet : Json.member? (hooksIn settings) event = some value)
    (hPath : path ∈ keysOfEvent withXpia (event, value)) :
    ∃ k rest hooks after, path = .key k :: rest ∧
      (("hooks", hooks) ∈ ensureObject settings ∨ hooks = .obj []) ∧
      (k, after) ∈ registeredHooks hooksBin withXpia limitResume
        (ensureObject hooks) ∧
      (rest = [] ∨ rest ∈ keys after) := by
  rw [hooksIn] at hGet
  cases settings with
  | obj root =>
    rw [ensureObject] at hGet
    cases hHooks : Json.member? root "hooks" with
    | none =>
      rw [hHooks, Option.getD_none] at hGet
      simp [ensureObject, Json.member?] at hGet
    | some hooks =>
      rw [hHooks, Option.getD_some] at hGet
      cases hooks with
      | obj members =>
        have hIn : path ∈ keysOfHooks withXpia (.obj members) :=
          List.mem_flatMap.mpr ⟨_, mem_of_member? hGet, hPath⟩
        have hAfter := hKeys.subset
          (mem_outsideKeys (mem_of_member? hHooks) hIn)
        rcases mem_keys_rewriteHooks hAfter with
          rfl | ⟨hooks, hOld, hMem⟩
        · exact absurd hPath (by
            intro hNil
            have hMem := (keysOfEvent_sublist (event, value)).subset hNil
            simp [keysOfMember] at hMem)
        · rcases exists_key_of_mem hMem with
            ⟨k, after, rest, hEvent, rfl, hRest⟩
          exact ⟨k, rest, hooks, after, rfl, hOld, hEvent, hRest⟩
      | _ => simp [ensureObject, Json.member?] at hGet
  | _ => simp [ensureObject, Json.member?] at hGet

/- So does a value of an event. -/
theorem events_of_sublist
    (hName : containsText hooksBin "amplihack-hooks" = true)
    (hBuild : Buildable hooksBin withXpia limitResume)
    (hKeys : (outsideKeys withXpia settings).Sublist
      (keys (rewriteHooks
        (registeredHooks hooksBin withXpia limitResume)
        settings)))
    (hEvent : event ∈ eventsOf (amplihackSpecs limitResume))
    (hGet : Json.member? (hooksIn settings) event = some value) :
    (∃ wrappers, value = .arr wrappers) ∨ keys value = [] := by
  by_contra hNot
  rw [not_or] at hNot
  rcases exists_key_of_not_arr hNot.1 hNot.2 with ⟨k, rest, hMem⟩
  have hPath : Step.key event :: Step.key k :: rest ∈
      keysOfEvent withXpia (event, value) := by
    have hWhole : keysOfEvent withXpia (event, value) =
        keysOfMember (event, value) := by
      unfold keysOfEvent
      split
      · cases value with
        | arr items => exact absurd ⟨items, rfl⟩ hNot.1
        | _ => rfl
      · rfl
    rw [hWhole, keysOfMember]
    exact List.mem_cons_of_mem _ (List.mem_map_of_mem hMem)
  rcases event_path_of_sublist hKeys hGet hPath with
    ⟨k', rest', hooks, after, hEq, -, hIn, hRest⟩
  simp only [List.cons.injEq, Step.key.injEq] at hEq
  rcases hEq with ⟨rfl, rfl⟩
  rcases settledEvent_of_mem hName hBuild hEvent hIn with ⟨wrappers, rfl, -⟩
  rcases hRest with hNil | hRest
  · simp at hNil
  · rcases exists_item_of_mem hRest with ⟨_, hItem⟩
    simp at hItem

variable {hookSystem : String}

theorem not_mem_removeFrom
    (hGet : Json.member? hooks spec.event = some (.arr [])) :
    (spec.event, v) ∉ removeFrom spec hookSystem hooks := by
  unfold removeFrom
  rw [hGet]
  dsimp only [Option.map_some, stripOwn, List.filter_nil]
  intro hMem
  have hNe := (List.mem_filter.mp hMem).2
  simp at hNe

theorem mem_removeFrom
    (hMem : (spec.event, v) ∈ removeFrom spec hookSystem hooks) :
    ∃ old, (spec.event, old) ∈ hooks := by
  unfold removeFrom at hMem
  split at hMem
  · exact ⟨v, List.mem_of_mem_filter hMem⟩
  · rcases mem_changeAt hMem with ⟨-, hOld⟩ | ⟨-, old, hOld, -⟩
    · exact ⟨v, hOld⟩
    · exact ⟨old, hOld⟩

/- So does an event that holds nothing, when it is removed. -/
theorem limit_of_sublist
    (doc : Settings)
    (hKeys : (outsideKeys withXpia doc.value).Sublist
      (keys (rewriteHooks
        (registeredHooks hooksBin withXpia false) doc.value))) :
    Json.member? (hooksIn doc.value) limitResumeEvent ≠ some (.arr []) := by
  intro hGet
  have hLimit : limitSpec.event = limitResumeEvent := rfl
  have hIn : limitResumeEvent ∈ eventsOf amplihackHookSpecs := by decide
  have hPath : [Step.key limitResumeEvent] ∈
      keysOfEvent withXpia (limitResumeEvent, .arr []) := by
    rw [keysOfEvent, if_pos hIn]
    exact List.mem_cons_self
  rcases event_path_of_sublist hKeys hGet hPath with
    ⟨k, rest, hooks, after, hEq, hOld, hAfter, -⟩
  simp only [List.cons.injEq, Step.key.injEq] at hEq
  rcases hEq with ⟨rfl, -⟩
  have hSame : ensureObject hooks = hooksIn doc.value ∨
      ensureObject hooks = [] := by
    rcases hOld with hOld | rfl
    · left
      rw [hooksIn, member?_of_mem doc.rootKeys hOld, Option.getD_some]
    · exact .inr rfl
  have hRemoved : (limitResumeEvent, after) ∈
      afterRemoval hooksBin false (ensureObject hooks) := by
    rw [registeredHooks_eq] at hAfter
    cases withXpia with
    | false => simpa using hAfter
    | true =>
      rw [if_pos rfl, updateHooks_eq_sweepEvents] at hAfter
      rcases mem_sweepEvents (nodup_eventsOf _) hAfter with
        ⟨-, hIn⟩ | ⟨hXpia, -⟩
      · exact hIn
      · exact absurd hXpia (by decide)
  have hOut : limitResumeEvent ∉ eventsOf (amplihackSpecs false) := by decide
  have hUpdated : Json.member? (updateHooks "amplihack"
      (amplihackSpecs false) hooksBin (ensureObject hooks)) limitResumeEvent =
      Json.member? (ensureObject hooks) limitResumeEvent := by
    rw [updateHooks_eq_sweepEvents,
      member?_sweepEvents (nodup_eventsOf _), if_neg hOut]
  rw [afterRemoval, if_neg (by simp)] at hRemoved
  rcases hSame with hSame | hNil
  · rw [hSame, hGet, ← hLimit] at hUpdated
    rw [hSame, ← hLimit] at hRemoved
    exact not_mem_removeFrom hUpdated hRemoved
  · rw [hNil] at hRemoved
    have hNone : ∀ v, (limitResumeEvent, v) ∉
        updateHooks "amplihack" (amplihackSpecs false) hooksBin [] := by
      intro v hMem
      rw [updateHooks_eq_sweepEvents] at hMem
      rcases mem_sweepEvents (nodup_eventsOf _) hMem with
        ⟨-, hIn⟩ | ⟨hEvent, -⟩
      · simp at hIn
      · exact hOut hEvent
    rw [← hLimit] at hRemoved
    rcases mem_removeFrom hRemoved with ⟨v, hMem⟩
    exact hNone v hMem

-- Main result

/- The registration leaves one entry for each specification
   and the rest of the document exactly where the document
   holds the user's hooks apart. -/
theorem registers_iff
    (doc : Settings) (dir : String) (withXpia limitResume : Bool) :
    (∃ after, registerHooks doc.value (hooksBinary dir)
        withXpia limitResume = some after ∧
      Registered (hooksBinary dir) withXpia limitResume doc.value after) ↔
      Separable (hooksBinary dir) withXpia limitResume
        doc.value := by
  have hName := containsText_hooksBinary dir
  constructor
  · rintro ⟨after, hRegister, hRegistered⟩
    rcases registerHooks_eq_some_iff.mp hRegister with ⟨hBuild, rfl⟩
    have hKeys := hRegistered.keys
    refine ⟨hBuild, root_of_sublist hKeys, ?_, ?_, ?_, ?_, ?_⟩
    · intro value hGet
      exact hooks_of_sublist hGet hKeys
    · intro event hEvent value hGet
      exact events_of_sublist hName hBuild hKeys hEvent hGet
    · rintro rfl
      exact limit_of_sublist doc hKeys
    · intro event
      exact (foreignEntries_wrappersOf_iff hName hBuild).mp
        (hRegistered.entries event)
    · intro owner hOwner
      exact (registrations_wrappersOf_iff hName hBuild
        hOwner).mp (hRegistered.once owner hOwner)
  · intro hSeparable
    have hBuild := hSeparable.buildable
    have hRegister : registerHooks doc.value (hooksBinary dir)
        withXpia limitResume =
          some (rewriteHooks (registeredHooks (hooksBinary dir)
            withXpia limitResume) doc.value) :=
      registerHooks_eq_some_iff.mpr ⟨hBuild, rfl⟩
    refine ⟨_, hRegister, ?_, ?_, ?_, ?_, ?_, ?_, ?_⟩
    · intro owner hOwner
      exact (registrations_wrappersOf_iff hName hBuild
        hOwner).mpr (hSeparable.apart owner hOwner)
    · exact missing_eq_nil hName hBuild doc.value
    · exact hasLimitResumeRegistration_eq hName hBuild doc.value
    · exact registerHooks_idem hName hRegister
    · exact foreignWrappers_wrappersOf hName hBuild doc.value
    · intro event
      exact (foreignEntries_wrappersOf_iff hName hBuild).mpr
        (hSeparable.whole event)
    · exact outsideKeys_sublist doc hSeparable

/- A hook of the user beside the hook of a past install. -/
def userHook : Json :=
  .obj [("command", .str "notify-send done"), ("type", .str "command")]

def bundledHooks : Settings where
  value := .obj [("hooks", .obj [("Stop", .arr [.obj
    [("hooks", .arr [.obj
        [("command", .str "/opt/amplihack-hooks stop"),
          ("type", .str "command")],
      userHook])]])])]
  rootKeys := by decide
  hookKeys := by decide

/- Only the first entry of the wrapper is looked at. -/
theorem bundled_hook_dropped :
    ∃ after, registerHooks bundledHooks.value
        (hooksBinary "/opt") false true = some after ∧
      foreignEntries false "Stop"
        (wrappersOf bundledHooks.value "Stop") = [userHook] ∧
      foreignEntries false "Stop" (wrappersOf after "Stop") = [] ∧
      ¬ Registered (hooksBinary "/opt") false true
        bundledHooks.value after := by
  have hName := containsText_hooksBinary "/opt"
  have hBuild : Buildable (hooksBinary "/opt") false true := by
    unfold Buildable
    decide +kernel
  have hBefore : foreignEntries false "Stop"
      (wrappersOf bundledHooks.value "Stop") = [userHook] := by rfl
  have hAfter : foreignEntries false "Stop"
      (wrappersOf (rewriteHooks
        (registeredHooks (hooksBinary "/opt") false true)
        bundledHooks.value) "Stop") = [] := by
    rw [wrappersOf_rewriteHooks hName hBuild, foreignEntries,
      List.flatMap_append, ← foreignEntries,
      foreignEntries_rebuilt hName hBuild]
    rfl
  refine ⟨_, registerHooks_eq_some_iff.mpr ⟨hBuild, rfl⟩, hBefore, hAfter, ?_⟩
  intro hRegistered
  have hSame := hRegistered.entries "Stop"
  rw [hBefore, hAfter] at hSame
  cases hSame

end Install
