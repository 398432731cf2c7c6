import Amplihack.Install.Members

/-
  What the registration of the hooks leaves in a settings
  document.
-/

-- The registered object of the hooks

namespace Install

open Base

variable {k : String} {v : Json} {m : Members}

def limitSpec : HookSpec :=
  { event := limitResumeEvent, subcmd := "limit-resume",
    timeout := some limitResumeTimeoutSecs,
    matcher := some "rate_limit", asyncRewake := true }

theorem specsOf_limitResumeEvent :
    specsOf amplihackHookSpecs limitResumeEvent = [limitSpec] := rfl

/- The object of the hooks after the registration. -/
def registeredHooks
    (hooksBin : String) (withXpia limitResume : Bool) (hooks : Members) :
    Members :=
  let hooks := updateHooks "amplihack"
    (amplihackSpecs limitResume) hooksBin hooks
  let hooks :=
    if limitResume then hooks
    else removeFrom limitSpec "amplihack" hooks
  if withXpia then
    updateHooks "xpia" xpiaHookSpecs hooksBin hooks
  else hooks

/- No assertion on the path or a command fails. -/
def Buildable
    (hooksBin : String) (withXpia limitResume : Bool) :
    Prop :=
  (amplihackSpecs limitResume).all (isBuildable · hooksBin) = true ∧
    (withXpia = true → xpiaHookSpecs.all (isBuildable · hooksBin) = true)

/- The document with its object of hooks changed. -/
def rewriteHooks
    (change : Members → Members) (settings : Json) :
    Json :=
  .obj (changeAt "hooks"
    (fun v => .obj (change (ensureObject v)))
    (orInsert "hooks" (.obj []) (ensureObject settings)))

variable (change first : Members → Members)

theorem rewriteHooks_rewriteHooks
    (settings : Json) :
    rewriteHooks change (rewriteHooks first settings) =
      rewriteHooks (fun hooks => change (first hooks))
        settings := by
  have hThere : ((changeAt "hooks"
      (fun v => .obj (first (ensureObject v)))
      (orInsert "hooks" (.obj []) (ensureObject settings))).any
        fun e => e.1 = "hooks") = true := by
    rw [any_changeAt, ← member?_isSome, member?_orInsert_self]
    rfl
  have hSame : ensureObject (rewriteHooks first settings) =
      changeAt "hooks" (fun v => .obj (first (ensureObject v)))
        (orInsert "hooks" (.obj []) (ensureObject settings)) := rfl
  rw [rewriteHooks, hSame, orInsert_of_any _ hThere, changeAt_changeAt]
  rfl

theorem removeHookWrappers_rewriteHooks
    (settings : Json) (spec : HookSpec) (hookSystem : String) :
    removeHookWrappers (rewriteHooks first settings) spec hookSystem =
      rewriteHooks (fun hooks =>
        removeFrom spec hookSystem (first hooks)) settings := by
  rw [rewriteHooks, removeHookWrappers, changeAt_changeAt]
  rfl

variable {settings after : Json}

theorem registerHooks_eq_some_iff
    {hooksBin : String} {withXpia limitResume : Bool} :
    registerHooks settings hooksBin withXpia limitResume = some after ↔
      Buildable hooksBin withXpia limitResume ∧
        after = rewriteHooks
          (registeredHooks hooksBin withXpia limitResume)
          settings := by
  have hUpdate : ∀ (s : Json) (system : String)
      (specs : List HookSpec),
      updateHookPaths s system specs hooksBin =
        if specs.all (isBuildable · hooksBin) then
          some (rewriteHooks (updateHooks system specs hooksBin) s)
        else none := fun _ _ _ => rfl
  unfold registerHooks Buildable registeredHooks
  rw [specsOf_limitResumeEvent, hUpdate]
  by_cases hOwn : (amplihackSpecs limitResume).all
      (isBuildable · hooksBin) = true
  · rw [if_pos hOwn, Option.bind_eq_bind, Option.bind_some]
    simp only [List.foldl_cons, List.foldl_nil,
      removeHookWrappers_rewriteHooks, hUpdate]
    by_cases hXpia : xpiaHookSpecs.all (isBuildable · hooksBin) = true
    · rw [if_pos hXpia]
      cases limitResume <;> cases withXpia <;>
        simp only [hOwn, hXpia, if_true, if_false,
          Bool.false_eq_true, rewriteHooks_rewriteHooks,
          Option.pure_def, Option.some.injEq, true_and,
          implies_true] <;>
        rw [eq_comm]
    · rw [if_neg hXpia]
      cases limitResume <;> cases withXpia <;>
        simp only [hOwn, hXpia, if_true, if_false,
          Bool.false_eq_true, Option.pure_def, reduceCtorEq,
          Option.some.injEq, true_and, false_imp_iff,
          true_imp_iff, false_and] <;>
        rw [eq_comm]
  · rw [if_neg hOwn]
    simp [hOwn]

-- The tables

variable {hooksBin : String} {withXpia limitResume : Bool}

theorem nodup_eraseDups (names : List String) :
    names.eraseDups.Nodup := by
  induction hLength : names.length using
    Nat.strong_induction_on generalizing names with
  | h n ih =>
    cases names with
    | nil => exact List.nodup_nil
    | cons name names =>
      rw [List.eraseDups_cons, List.nodup_cons, List.mem_eraseDups]
      refine ⟨by simp, ih _ ?_ _ rfl⟩
      have hShort := List.length_filter_le (fun other => !other == name) names
      rw [List.length_cons] at hLength
      omega

theorem nodup_eventsOf (specs : List HookSpec) :
    (eventsOf specs).Nodup :=
  nodup_eraseDups _

variable {specs : List HookSpec}

theorem mem_eventsOf
    {event : String} :
    event ∈ eventsOf specs ↔ specsOf specs event ≠ [] := by
  rw [eventsOf, List.mem_eraseDups, List.mem_map, specsOf,
    Ne, List.filter_eq_nil_iff]
  push Not
  simp

variable {event : String}

/- Each xpia specification is one of amplihack's. -/
theorem specsOf_xpia
    (limitResume : Bool) (hEvent : event ∈ eventsOf xpiaHookSpecs) :
    specsOf xpiaHookSpecs event =
      specsOf (amplihackSpecs limitResume) event := by
  have hAll : ∀ event ∈ eventsOf xpiaHookSpecs,
      specsOf xpiaHookSpecs event =
        specsOf (amplihackSpecs limitResume) event := by
    cases limitResume <;> decide
  exact hAll event hEvent

theorem specsOf_amplihackSpecs_of_ne
    (limitResume : Bool) (hNe : event ≠ limitResumeEvent) :
    specsOf (amplihackSpecs limitResume) event =
      specsOf amplihackHookSpecs event := by
  rw [specsOf, specsOf, amplihackSpecs, List.filter_filter]
  apply List.filter_congr
  intro spec _
  by_cases hEvent : spec.event = event <;>
    simp [hEvent, hNe]

theorem specsOf_amplihackSpecs_false :
    specsOf (amplihackSpecs false) limitResumeEvent = [] := rfl

-- Wrappers event by event

def wrappersIn (hooks : Members) (event : String) : List Json :=
  match Json.member? hooks event with
  | some (.arr wrappers) => wrappers
  | _ => []

/- The object of the hooks that a document has. -/
def hooksIn (settings : Json) : Members :=
  ensureObject ((Json.member? (ensureObject settings) "hooks").getD (.obj []))

theorem wrappersOf_eq
    (settings : Json) (event : String) :
    wrappersOf settings event = wrappersIn (hooksIn settings) event := by
  unfold wrappersOf wrappersIn hooksIn get
  cases settings with
  | obj root =>
    dsimp only [ensureObject]
    cases hHooks : Json.member? root "hooks" with
    | none => rfl
    | some hooks => cases hooks <;> rfl
  | null | bool _ | num _ | str _ | arr _ => rfl

theorem hooksIn_rewriteHooks
    (settings : Json) :
    hooksIn (rewriteHooks change settings) =
      change (hooksIn settings) := by
  rw [hooksIn, rewriteHooks, ensureObject,
    member?_changeAt_self, member?_orInsert_self]
  rfl

theorem ensureArray_getD
    (hooks : Members) (event : String) :
    ensureArray ((Json.member? hooks event).getD (.arr [])) =
      wrappersIn hooks event := by
  unfold wrappersIn
  cases hGet : Json.member? hooks event with
  | none => rfl
  | some value => cases value <;> rfl

/- The wrappers of an event that are not the specifications'. -/
def others
    (hookSystem : String) (specs : List HookSpec) (wrappers : List Json) :
    List Json :=
  wrappers.filter fun wrapper =>
    !specs.any (isOwnWrapper wrapper · hookSystem)

theorem others_nil
    (hookSystem : String) (wrappers : List Json) :
    others hookSystem [] wrappers = wrappers := by
  simp [others]

theorem wrappersIn_updateHooks
    (hookSystem : String) (specs : List HookSpec)
    (hooksBin : String) (hooks : Members) (event : String) :
    wrappersIn (updateHooks hookSystem specs hooksBin hooks) event =
      (specsOf specs event).map (buildHookWrapper · hooksBin) ++
        others hookSystem (specsOf specs event) (wrappersIn hooks event) := by
  have hSweep : updateHooks hookSystem specs hooksBin hooks =
      sweepEvents (eventsOf specs) (fun event =>
        updateEvent hookSystem (specsOf specs event) hooksBin)
        hooks := rfl
  rw [hSweep, wrappersIn, member?_sweepEvents (nodup_eventsOf specs)]
  by_cases hEvent : event ∈ eventsOf specs
  · rw [if_pos hEvent, updateEvent, ensureArray_getD]
    rfl
  · rw [if_neg hEvent]
    rw [mem_eventsOf, not_not] at hEvent
    rw [hEvent, others_nil, List.map_nil, List.nil_append]
    rfl

/- Only the values of the event are changed or removed. -/
theorem member?_removeFrom_ne
    {spec : HookSpec} (hookSystem : String) (hooks : Members)
    (hNe : k ≠ spec.event) :
    Json.member? (removeFrom spec hookSystem hooks) k =
      Json.member? hooks k := by
  unfold removeFrom
  split
  · rw [Json.member?, Json.member?, List.find?_filter]
    congr 2
    funext e
    by_cases hKey : e.1 = k <;> simp [hKey, hNe]
  · exact member?_changeAt_ne _ _ hNe

/- Those of the event lose the wrappers of its own. -/
theorem wrappersIn_removeFrom_event
    (spec : HookSpec) (hookSystem : String) (hooks : Members) :
    wrappersIn (removeFrom spec hookSystem hooks) spec.event =
      others hookSystem [spec] (wrappersIn hooks spec.event) := by
  have hOthers : ∀ wrappers, others hookSystem [spec] wrappers =
      wrappers.filter fun wrapper =>
        !isOwnWrapper wrapper spec hookSystem := by
    intro wrappers
    simp [others]
  unfold removeFrom
  split
  · next hEmpty =>
      have hNone : Json.member?
          (hooks.filter fun e => e.1 ≠ spec.event)
          spec.event = none := by
        rw [← Option.not_isSome_iff_eq_none, member?_isSome]
        simp
      rw [wrappersIn, hNone, wrappersIn]
      cases hGet : Json.member? hooks spec.event with
      | none => rfl
      | some value =>
        rw [hGet] at hEmpty
        cases value with
        | arr wrappers =>
          simp only [Option.map_some, stripOwn,
            Option.some.injEq, Json.arr.injEq] at hEmpty
          rw [hOthers, hEmpty]
        | null => cases hEmpty
        | bool b => cases hEmpty
        | num n => cases hEmpty
        | str s => cases hEmpty
        | obj members => cases hEmpty
  · rw [wrappersIn, member?_changeAt_self, wrappersIn, hOthers]
    cases hGet : Json.member? hooks spec.event with
    | none => rfl
    | some value => cases value <;> rfl

theorem wrappersIn_removeFrom
    (spec : HookSpec) (hookSystem : String) (hooks : Members)
    (event : String) :
    wrappersIn (removeFrom spec hookSystem hooks) event =
      if event = spec.event then
        others hookSystem [spec] (wrappersIn hooks event)
      else wrappersIn hooks event := by
  by_cases hEvent : event = spec.event
  · subst hEvent
    rw [if_pos rfl, wrappersIn_removeFrom_event]
  · rw [if_neg hEvent, wrappersIn,
      member?_removeFrom_ne _ _ hEvent, wrappersIn]

-- New wrappers

variable {spec spec' : HookSpec} {hookSystem : String}

theorem containsText_iff {text sub : String} :
    containsText text sub = true ↔ sub.toList <:+: text.toList := by
  rw [containsText, find_isSome_iff]

/- A path that passes its assertion needs no escape. -/
theorem toList_shellQuotePath
    (hBuild : isBuildable spec hooksBin = true) :
    (shellQuotePath hooksBin).toList = '"' :: hooksBin.toList ++ ['"'] := by
  rw [isBuildable, Bool.and_eq_true] at hBuild
  have hFree : ∀ c ∈ blockedInPath, c ∉ hooksBin.toList := by
    intro c hMem
    simpa using List.all_eq_true.mp hBuild.1 c hMem
  have hPlain : hooksBin.toList.flatMap (fun c =>
      if c = '\\' then ['\\', '\\']
      else if c = '"' then ['\\', '"']
      else [c]) = hooksBin.toList.flatMap fun c => [c] := by
    apply List.flatMap_congr
    intro c hMem
    have hSlash : c ≠ '\\' := by
      rintro rfl
      exact hFree _ (by simp [blockedInPath]) hMem
    have hQuote : c ≠ '"' := by
      rintro rfl
      exact hFree _ (by simp [blockedInPath]) hMem
    rw [if_neg hSlash, if_neg hQuote]
  rw [shellQuotePath, String.toList_ofList, hPlain]
  simp

/- The command of a new hook is recognised. -/
theorem ownsCommand_hookCommand
    (hName : containsText hooksBin "amplihack-hooks" = true)
    (hBuild : isBuildable spec hooksBin = true) (hookSystem : String) :
    ownsCommand spec hookSystem (hookCommand spec hooksBin) =
      true := by
  have hText : (hookCommand spec hooksBin).toList =
      '"' :: hooksBin.toList ++ ['"'] ++ " ".toList ++
        spec.subcmd.toList := by
    rw [hookCommand, String.toList_append,
      String.toList_append, toList_shellQuotePath hBuild]
  have hContains : containsText (hookCommand spec hooksBin)
      "amplihack-hooks" = true := by
    rw [containsText_iff] at hName ⊢
    rw [hText]
    refine hName.trans ⟨['"'], ['"'] ++ " ".toList ++ spec.subcmd.toList, ?_⟩
    simp
  have hEnds : endsWith (hookCommand spec hooksBin) spec.subcmd = true := by
    rw [endsWith, List.isSuffixOf_iff_suffix, hText]
    exact List.suffix_append _ _
  rw [ownsCommand, hContains, hEnds]
  rfl

theorem entriesOf_build (spec : HookSpec) (hooksBin : String) :
    entriesOf (buildHookWrapper spec hooksBin) =
      [hookEntry spec hooksBin] := by
  cases hMatcher : spec.matcher <;>
    simp [entriesOf, get, buildHookWrapper, hMatcher, Json.member?]

theorem matcherMatches_build
    (spec : HookSpec) (hooksBin : String) :
    matcherMatches (buildHookWrapper spec hooksBin) spec =
      true := by
  cases hMatcher : spec.matcher <;>
    simp [matcherMatches, get, buildHookWrapper, hMatcher,
      Json.member?, asStr]

theorem ownsEntry_hookEntry
    (spec spec' : HookSpec) (hookSystem hooksBin : String) :
    ownsEntry spec hookSystem (hookEntry spec' hooksBin) =
      ownsCommand spec hookSystem (hookCommand spec' hooksBin) := by
  cases hAsync : spec'.asyncRewake <;>
    simp [ownsEntry, get, hookEntry, hAsync, Json.member?, asStr]

theorem isOwnWrapper_build
    (hName : containsText hooksBin "amplihack-hooks" = true)
    (hBuild : isBuildable spec hooksBin = true) (hookSystem : String) :
    isOwnWrapper (buildHookWrapper spec hooksBin) spec hookSystem = true := by
  rw [isOwnWrapper, matcherMatches_build, entriesOf_build]
  dsimp only
  rw [ownsEntry_hookEntry, ownsCommand_hookCommand hName hBuild]
  rfl

/- The timeouts are whole numbers of 64 bits. -/
theorem isCurrent_hookEntry
    {spec' : HookSpec}
    (hBound : ∀ n, spec'.timeout = some n → n ≤ 18446744073709551615)
    (spec : HookSpec) (hooksBin : String) :
    isCurrent spec (hookEntry spec' hooksBin) = true ↔
      spec'.timeout = spec.timeout ∧
        spec'.asyncRewake = spec.asyncRewake := by
  have hTimeout : (get (hookEntry spec' hooksBin)
      "timeout").bind asU64 = spec'.timeout := by
    cases hSome : spec'.timeout with
    | none =>
      cases hAsync : spec'.asyncRewake <;>
        simp [get, hookEntry, hAsync, hSome, Json.member?]
    | some n =>
      have hLe := hBound n hSome
      cases hAsync : spec'.asyncRewake <;>
        simp [get, hookEntry, hAsync, hSome, Json.member?, asU64, hLe]
  have hFlag : ((get (hookEntry spec' hooksBin)
      "asyncRewake").bind asBool).getD false =
        spec'.asyncRewake := by
    cases hSome : spec'.timeout <;>
      cases hAsync : spec'.asyncRewake <;>
        simp [get, hookEntry, hAsync, hSome, Json.member?, asBool]
  rw [isCurrent, hTimeout, hFlag, Bool.and_eq_true, beq_iff_eq, beq_iff_eq]

-- The wrappers that are left

/- The specifications of an event, with their hook system. -/
def ownersOf (withXpia : Bool) (event : String) :
    List (String × HookSpec) :=
  (specsOf amplihackHookSpecs event).map
      (fun spec => ("amplihack", spec)) ++
    if withXpia then
      (specsOf xpiaHookSpecs event).map fun spec =>
        ("xpia", spec)
    else []

def isOwned
    (withXpia : Bool) (event : String) (wrapper : Json) :
    Bool :=
  (ownersOf withXpia event).any fun owner =>
    isOwnWrapper wrapper owner.2 owner.1

/- The new wrappers of an event. -/
def rebuilt
    (hooksBin : String) (limitResume : Bool) (event : String) :
    List Json :=
  (specsOf (amplihackSpecs limitResume) event).map
    (buildHookWrapper · hooksBin)

theorem isBuildable_of_mem
    (hBuild : Buildable hooksBin withXpia limitResume)
    (hMem : spec ∈ specsOf (amplihackSpecs limitResume) event) :
    isBuildable spec hooksBin = true :=
  List.all_eq_true.mp hBuild.1 spec (List.mem_of_mem_filter hMem)

/- The new wrappers are recognised as one's own. -/
theorem others_rebuilt
    (hName : containsText hooksBin "amplihack-hooks" = true)
    (hBuild : Buildable hooksBin withXpia limitResume)
    (hookSystem : String) (event : String) (rest : List Json) :
    others hookSystem
        (specsOf (amplihackSpecs limitResume) event)
        (rebuilt hooksBin limitResume event ++ rest) =
      others hookSystem
        (specsOf (amplihackSpecs limitResume) event) rest := by
  rw [others, List.filter_append, List.filter_eq_nil_iff.mpr, List.nil_append]
  · rfl
  · intro wrapper hMem
    rcases List.mem_map.mp hMem with ⟨spec, hSpec, rfl⟩
    have hOwn := isOwnWrapper_build hName
      (isBuildable_of_mem hBuild hSpec) hookSystem
    rw [Bool.not_eq_true', Bool.not_eq_false, List.any_eq_true]
    exact ⟨spec, hSpec, hOwn⟩

theorem wrappersIn_afterRemoval
    (hooksBin : String) (limitResume : Bool) (hooks : Members)
    (event : String) :
    wrappersIn
        (if limitResume then
          updateHooks "amplihack" (amplihackSpecs limitResume) hooksBin hooks
        else removeFrom limitSpec "amplihack"
          (updateHooks "amplihack" (amplihackSpecs limitResume)
            hooksBin hooks)) event =
      rebuilt hooksBin limitResume event ++
        others "amplihack" (specsOf amplihackHookSpecs event)
          (wrappersIn hooks event) := by
  cases limitResume with
  | true =>
    rw [if_pos rfl, wrappersIn_updateHooks]
    rfl
  | false =>
    rw [if_neg (by simp), wrappersIn_removeFrom, wrappersIn_updateHooks]
    by_cases hEvent : event = limitSpec.event
    · have hLimit : limitSpec.event = limitResumeEvent := rfl
      rw [if_pos hEvent, hEvent, hLimit, rebuilt,
        specsOf_amplihackSpecs_false, specsOf_limitResumeEvent, others_nil]
      rfl
    · rw [if_neg hEvent, specsOf_amplihackSpecs_of_ne false hEvent, rebuilt,
        specsOf_amplihackSpecs_of_ne false hEvent]

/- The new wrappers of an event, then those of nobody. -/
theorem wrappersIn_registeredHooks
    (hName : containsText hooksBin "amplihack-hooks" = true)
    (hBuild : Buildable hooksBin withXpia limitResume)
    (hooks : Members) (event : String) :
    wrappersIn
        (registeredHooks hooksBin withXpia limitResume hooks)
        event =
      rebuilt hooksBin limitResume event ++
        (wrappersIn hooks event).filter fun wrapper =>
          !isOwned withXpia event wrapper := by
  have hStage := wrappersIn_afterRemoval hooksBin limitResume hooks event
  unfold registeredHooks
  dsimp only
  cases withXpia with
  | false =>
    rw [if_neg (by simp), hStage, others]
    congr 2
    funext wrapper
    simp [isOwned, ownersOf, List.any_map, Function.comp_def]
  | true =>
    rw [if_pos rfl, wrappersIn_updateHooks, hStage]
    have hOwned : ∀ wrapper, isOwned true event wrapper =
        ((specsOf amplihackHookSpecs event).any
            (isOwnWrapper wrapper · "amplihack") ||
          (specsOf xpiaHookSpecs event).any
            (isOwnWrapper wrapper · "xpia")) := by
      intro wrapper
      simp [isOwned, ownersOf, List.any_append, List.any_map,
        Function.comp_def]
    by_cases hXpia : event ∈ eventsOf xpiaHookSpecs
    · rw [specsOf_xpia limitResume hXpia, others_rebuilt hName hBuild,
        others, others, List.filter_filter]
      congr 2
      funext wrapper
      rw [hOwned, specsOf_xpia limitResume hXpia, Bool.not_or, Bool.and_comm]
    · rw [mem_eventsOf, not_not] at hXpia
      rw [hXpia, others_nil, List.map_nil, List.nil_append, others]
      congr 2
      funext wrapper
      rw [hOwned, hXpia, List.any_nil, Bool.or_false]

-- A second registration

theorem updateHooks_eq_sweepEvents
    (hookSystem : String) (specs : List HookSpec)
    (hooksBin : String) (hooks : Members) :
    updateHooks hookSystem specs hooksBin hooks =
      sweepEvents (eventsOf specs) (fun event =>
        updateEvent hookSystem (specsOf specs event) hooksBin)
        hooks := rfl

/- A value with the new wrappers and none that is owned. -/
def SettledEvent
    (hooksBin : String) (withXpia limitResume : Bool)
    (event : String) (value : Json) :
    Prop :=
  ∃ rest, value = .arr (rebuilt hooksBin limitResume event ++ rest) ∧
    ∀ wrapper ∈ rest, isOwned withXpia event wrapper = false

/- An object that a second registration leaves alone. -/
structure Settled
    (hooksBin : String) (withXpia limitResume : Bool) (hooks : Members) :
    Prop where
  there : ∀ event ∈ eventsOf (amplihackSpecs limitResume),
    (hooks.any fun e => e.1 = event) = true
  events : ∀ event ∈ eventsOf (amplihackSpecs limitResume),
    ∀ v, (event, v) ∈ hooks →
      SettledEvent hooksBin withXpia limitResume event v
  limit : limitResume = false → removeFrom limitSpec "amplihack" hooks = hooks

theorem xpia_events_subset
    (limitResume : Bool) :
    ∀ event ∈ eventsOf xpiaHookSpecs,
      event ∈ eventsOf (amplihackSpecs limitResume) := by
  cases limitResume <;> decide

theorem others_of_not_owned
    {rest : List Json}
    (hRest : ∀ wrapper ∈ rest, isOwned withXpia event wrapper = false)
    (hSpecs : ∀ spec ∈ specs, (hookSystem, spec) ∈ ownersOf withXpia event) :
    others hookSystem specs rest = rest := by
  rw [others, List.filter_eq_self]
  intro wrapper hMem
  have hNone := hRest wrapper hMem
  rw [isOwned, List.any_eq_false] at hNone
  rw [Bool.not_eq_true', List.any_eq_false]
  intro spec hSpec
  exact hNone (hookSystem, spec) (hSpecs spec hSpec)

theorem mem_ownersOf_amplihack
    (hMem : spec ∈ specsOf (amplihackSpecs limitResume) event) :
    ("amplihack", spec) ∈ ownersOf withXpia event := by
  refine List.mem_append_left _ (List.mem_map.mpr ⟨spec, ?_, rfl⟩)
  rcases List.mem_filter.mp hMem with ⟨hIn, hEvent⟩
  exact List.mem_filter.mpr ⟨List.mem_of_mem_filter hIn, hEvent⟩

theorem mem_ownersOf_xpia
    (hMem : spec ∈ specsOf xpiaHookSpecs event) :
    ("xpia", spec) ∈ ownersOf true event :=
  List.mem_append_right _ (List.mem_map.mpr ⟨spec, hMem, rfl⟩)

variable {hooks : Members}

/- A settled object is registered to itself. -/
theorem registeredHooks_of_settled
    (hName : containsText hooksBin "amplihack-hooks" = true)
    (hBuild : Buildable hooksBin withXpia limitResume)
    (hSettled : Settled hooksBin withXpia limitResume hooks) :
    registeredHooks hooksBin withXpia limitResume hooks =
      hooks := by
  have hAmplihack : updateHooks "amplihack"
      (amplihackSpecs limitResume) hooksBin hooks = hooks := by
    rw [updateHooks_eq_sweepEvents]
    refine sweepEvents_eq_self hSettled.there ?_
    intro event hEvent v hMem
    rcases hSettled.events event hEvent v hMem with ⟨rest, rfl, hRest⟩
    have hOthers := others_rebuilt hName hBuild "amplihack" event rest
    rw [others_of_not_owned hRest
      (fun spec hSpec => mem_ownersOf_amplihack hSpec)]
      at hOthers
    change Json.arr (rebuilt hooksBin limitResume event ++
      others "amplihack" _ _) = _
    rw [ensureArray, hOthers]
  have hXpia : withXpia = true →
      updateHooks "xpia" xpiaHookSpecs hooksBin hooks =
        hooks := by
    intro hWith
    subst hWith
    rw [updateHooks_eq_sweepEvents]
    have hIn := xpia_events_subset limitResume
    refine sweepEvents_eq_self
      (fun event hEvent =>
        hSettled.there event (hIn event hEvent)) ?_
    intro event hEvent v hMem
    rcases hSettled.events event (hIn event hEvent) v hMem with
      ⟨rest, rfl, hRest⟩
    have hSame := specsOf_xpia limitResume hEvent
    have hOthers := others_rebuilt hName hBuild "xpia" event rest
    rw [← hSame, others_of_not_owned hRest
      (fun spec hSpec => mem_ownersOf_xpia hSpec)] at hOthers
    rw [hSame] at hOthers ⊢
    change Json.arr (rebuilt hooksBin limitResume event ++
      others "xpia" _ _) = _
    rw [ensureArray, hOthers]
  unfold registeredHooks
  rw [hAmplihack]
  dsimp only
  have hLimit : (if limitResume then hooks
      else removeFrom limitSpec "amplihack" hooks) = hooks := by
    cases limitResume with
    | true => rfl
    | false => exact hSettled.limit rfl
  rw [hLimit]
  cases withXpia with
  | true => exact hXpia rfl
  | false => rfl

theorem mem_removeFrom_ne
    (hMem : (k, v) ∈ removeFrom spec hookSystem hooks)
    (hNe : k ≠ spec.event) :
    (k, v) ∈ hooks := by
  unfold removeFrom at hMem
  split at hMem
  · exact List.mem_of_mem_filter hMem
  · rcases mem_changeAt hMem with ⟨-, hOld⟩ | ⟨hEq, -⟩
    · exact hOld
    · exact absurd hEq hNe

theorem mem_of_member?
    (hGet : Json.member? m k = some v) :
    (k, v) ∈ m := by
  rw [Json.member?, Option.map_eq_some_iff] at hGet
  rcases hGet with ⟨⟨k', v'⟩, hFind, rfl⟩
  have hKey : k' = k := by simpa using List.find?_some hFind
  rw [← hKey]
  exact List.mem_of_find?_eq_some hFind

theorem stripOwn_stripOwn
    (spec : HookSpec) (hookSystem : String) (value : Json) :
    stripOwn spec hookSystem (stripOwn spec hookSystem value) =
      stripOwn spec hookSystem value := by
  cases value <;> simp [stripOwn]

/- What a removal leaves alone. -/
structure Stripped
    (spec : HookSpec) (hookSystem : String) (hooks : Members) :
    Prop where
  values : ∀ v, (spec.event, v) ∈ hooks → stripOwn spec hookSystem v = v
  nonempty : Json.member? hooks spec.event ≠ some (.arr [])

theorem removeFrom_of_stripped
    (hStripped : Stripped spec hookSystem hooks) :
    removeFrom spec hookSystem hooks = hooks := by
  unfold removeFrom
  split
  · next hEmpty =>
      rcases Option.map_eq_some_iff.mp hEmpty with ⟨value, hGet, hValue⟩
      rw [hStripped.values value (mem_of_member? hGet)]
        at hValue
      rw [hValue] at hGet
      exact absurd hGet hStripped.nonempty
  · exact changeAt_eq_self hStripped.values

theorem stripped_removeFrom
    (spec : HookSpec) (hookSystem : String) (hooks : Members) :
    Stripped spec hookSystem (removeFrom spec hookSystem hooks) := by
  unfold removeFrom
  split
  · have hNone : Json.member?
        (hooks.filter fun e => e.1 ≠ spec.event)
        spec.event = none := by
      rw [← Option.not_isSome_iff_eq_none, member?_isSome]
      simp
    refine ⟨?_, by rw [hNone]; simp⟩
    intro v hMem
    have hNe := (List.mem_filter.mp hMem).2
    simp at hNe
  · next hOther =>
      refine ⟨?_, ?_⟩
      · intro v hMem
        rcases mem_changeAt hMem with ⟨hNe, -⟩ | ⟨-, old, -, rfl⟩
        · exact absurd rfl hNe
        · exact stripOwn_stripOwn spec hookSystem old
      · rw [member?_changeAt_self]
        exact hOther

theorem Stripped.updateHooks
    (hStripped : Stripped spec hookSystem hooks)
    {system : String} (hOut : spec.event ∉ eventsOf specs)
    (hooksBin : String) :
    Stripped spec hookSystem (updateHooks system specs hooksBin hooks) := by
  rw [updateHooks_eq_sweepEvents]
  refine ⟨?_, ?_⟩
  · intro v hMem
    rcases mem_sweepEvents (nodup_eventsOf specs) hMem with
      ⟨-, hIn⟩ | ⟨hIn, -⟩
    · exact hStripped.values v hIn
    · exact absurd hIn hOut
  · rw [member?_sweepEvents (nodup_eventsOf specs), if_neg hOut]
    exact hStripped.nonempty

/- The object before the xpia hooks are registered. -/
def afterRemoval
    (hooksBin : String) (limitResume : Bool) (hooks : Members) :
    Members :=
  if limitResume then
    updateHooks "amplihack" (amplihackSpecs limitResume) hooksBin hooks
  else
    removeFrom limitSpec "amplihack"
      (updateHooks "amplihack" (amplihackSpecs limitResume) hooksBin hooks)

theorem registeredHooks_eq
    (hooksBin : String) (withXpia limitResume : Bool) (hooks : Members) :
    registeredHooks hooksBin withXpia limitResume hooks =
      if withXpia then
        updateHooks "xpia" xpiaHookSpecs hooksBin
          (afterRemoval hooksBin limitResume hooks)
      else afterRemoval hooksBin limitResume hooks := rfl

theorem ne_limit_of_mem
    (hMem : event ∈ eventsOf (amplihackSpecs false)) :
    event ≠ limitSpec.event := by
  have hAll : ∀ event ∈ eventsOf (amplihackSpecs false),
      event ≠ limitSpec.event := by decide
  exact hAll event hMem

theorem isSome_afterRemoval
    (hooks : Members) (hMem : event ∈ eventsOf (amplihackSpecs limitResume)) :
    (Json.member? (afterRemoval hooksBin limitResume hooks)
      event).isSome = true := by
  have hSweep := member?_sweepEvents (f := fun event =>
      updateEvent "amplihack"
        (specsOf (amplihackSpecs limitResume) event) hooksBin)
    (nodup_eventsOf (amplihackSpecs limitResume)) hooks event
  rw [if_pos hMem, ← updateHooks_eq_sweepEvents] at hSweep
  unfold afterRemoval
  cases limitResume with
  | true => rw [if_pos rfl, hSweep]; rfl
  | false =>
    rw [if_neg (by simp),
      member?_removeFrom_ne _ _ (ne_limit_of_mem hMem), hSweep]
    rfl

theorem mem_afterRemoval
    (hEvent : event ∈ eventsOf (amplihackSpecs limitResume))
    (hMem : (event, v) ∈ afterRemoval hooksBin limitResume hooks) :
    ∃ wrappers, v =
      .arr (rebuilt hooksBin limitResume event ++
        others "amplihack"
          (specsOf (amplihackSpecs limitResume) event)
          wrappers) := by
  have hUpdated : (event, v) ∈ updateHooks "amplihack"
      (amplihackSpecs limitResume) hooksBin hooks := by
    cases hLimit : limitResume with
    | true =>
      rw [hLimit, afterRemoval, if_pos rfl] at hMem
      exact hMem
    | false =>
      rw [hLimit] at hEvent
      rw [hLimit, afterRemoval, if_neg (by simp)] at hMem
      exact mem_removeFrom_ne hMem (ne_limit_of_mem hEvent)
  rw [updateHooks_eq_sweepEvents] at hUpdated
  rcases mem_sweepEvents (nodup_eventsOf _) hUpdated with
    ⟨hOut, -⟩ | ⟨-, old, hValue, -⟩
  · exact absurd hEvent hOut
  · exact ⟨ensureArray old, hValue⟩

/- Who owns nothing of a list owns nothing of its part. -/
theorem isOwned_false_iff
    {wrapper : Json} :
    isOwned withXpia event wrapper = false ↔
      ((specsOf amplihackHookSpecs event).any
        (isOwnWrapper wrapper · "amplihack")) = false ∧
      (withXpia = true → (specsOf xpiaHookSpecs event).any
        (isOwnWrapper wrapper · "xpia") = false) := by
  cases withXpia <;>
    simp [isOwned, ownersOf, List.any_append, List.any_map, Function.comp_def]

theorem specsOf_amplihackSpecs_of_mem
    (hMem : event ∈ eventsOf (amplihackSpecs limitResume)) :
    specsOf (amplihackSpecs limitResume) event =
      specsOf amplihackHookSpecs event := by
  cases limitResume with
  | true => rfl
  | false => exact specsOf_amplihackSpecs_of_ne false (ne_limit_of_mem hMem)

theorem not_own_of_mem_others
    {hookSystem : String} {wrapper : Json} {wrappers : List Json}
    (hMem : wrapper ∈ others hookSystem specs wrappers) :
    specs.any (isOwnWrapper wrapper · hookSystem) = false := by
  simpa using (List.mem_filter.mp hMem).2

theorem settledEvent_of_mem
    (hName : containsText hooksBin "amplihack-hooks" = true)
    (hBuild : Buildable hooksBin withXpia limitResume)
    (hEvent : event ∈ eventsOf (amplihackSpecs limitResume))
    (hMem : (event, v) ∈
      registeredHooks hooksBin withXpia limitResume hooks) :
    SettledEvent hooksBin withXpia limitResume event v := by
  have hSame := specsOf_amplihackSpecs_of_mem hEvent
  -- Settled as far as the system of amplihack goes.
  have hStage : ∀ v, (event, v) ∈ afterRemoval hooksBin limitResume hooks →
      (withXpia = true → specsOf xpiaHookSpecs event = []) →
      SettledEvent hooksBin withXpia limitResume event v := by
    intro v hMem hXpia
    rcases mem_afterRemoval hEvent hMem with ⟨wrappers, rfl⟩
    refine ⟨_, rfl, ?_⟩
    intro wrapper hIn
    rw [isOwned_false_iff, ← hSame]
    refine ⟨not_own_of_mem_others hIn, ?_⟩
    intro hWith
    rw [hXpia hWith]
    rfl
  rw [registeredHooks_eq] at hMem
  cases withXpia with
  | false =>
    rw [if_neg (by simp)] at hMem
    exact hStage v hMem (by simp)
  | true =>
    rw [if_pos rfl, updateHooks_eq_sweepEvents] at hMem
    rcases mem_sweepEvents (nodup_eventsOf _) hMem with
      ⟨hOut, hIn⟩ | ⟨hXpia, old, rfl, hOld⟩
    · refine hStage v hIn fun _ => ?_
      rw [mem_eventsOf, not_not] at hOut
      exact hOut
    · have hSpecs := specsOf_xpia limitResume hXpia
      have hValue : updateEvent "xpia"
          (specsOf xpiaHookSpecs event) hooksBin old =
            .arr (rebuilt hooksBin limitResume event ++
              others "xpia" (specsOf xpiaHookSpecs event)
                (ensureArray old)) := by
        rw [updateEvent, hSpecs]
        rfl
      rw [hValue]
      refine ⟨_, rfl, ?_⟩
      intro wrapper hIn
      rw [isOwned_false_iff, ← hSame]
      refine ⟨?_, fun _ => not_own_of_mem_others hIn⟩
      rcases hOld with hOld | rfl
      · rcases mem_afterRemoval hEvent hOld with
          ⟨wrappers, rfl⟩
        rw [ensureArray, hSpecs, others_rebuilt hName hBuild] at hIn
        exact not_own_of_mem_others (List.mem_of_mem_filter hIn)
      · simp [ensureArray, others] at hIn

theorem settled_registeredHooks
    (hName : containsText hooksBin "amplihack-hooks" = true)
    (hBuild : Buildable hooksBin withXpia limitResume) (hooks : Members) :
    Settled hooksBin withXpia limitResume
      (registeredHooks hooksBin withXpia limitResume hooks) := by
  refine ⟨?_, ?_, ?_⟩
  · intro event hEvent
    have hThere : (Json.member?
        (afterRemoval hooksBin limitResume hooks)
        event).isSome = true := isSome_afterRemoval hooks hEvent
    rw [registeredHooks_eq, ← member?_isSome]
    cases withXpia with
    | false => rw [if_neg (by simp), hThere]
    | true =>
      rw [if_pos rfl, updateHooks_eq_sweepEvents,
        member?_sweepEvents (nodup_eventsOf _)]
      split
      · rfl
      · exact hThere
  · intro event hEvent v hMem
    exact settledEvent_of_mem hName hBuild hEvent hMem
  · intro hLimit
    subst hLimit
    apply removeFrom_of_stripped
    have hRemoved : Stripped limitSpec "amplihack"
        (afterRemoval hooksBin false hooks) := by
      rw [afterRemoval, if_neg (by simp)]
      exact stripped_removeFrom _ _ _
    rw [registeredHooks_eq]
    cases withXpia with
    | false =>
      rw [if_neg (by simp)]
      exact hRemoved
    | true =>
      rw [if_pos rfl]
      exact hRemoved.updateHooks (by decide) hooksBin

theorem registeredHooks_idem
    (hName : containsText hooksBin "amplihack-hooks" = true)
    (hBuild : Buildable hooksBin withXpia limitResume) (hooks : Members) :
    registeredHooks hooksBin withXpia limitResume
        (registeredHooks hooksBin withXpia limitResume hooks) =
      registeredHooks hooksBin withXpia limitResume hooks :=
  registeredHooks_of_settled hName hBuild
    (settled_registeredHooks hName hBuild hooks)

/- A second registration leaves the document alone. -/
theorem registerHooks_idem
    (hName : containsText hooksBin "amplihack-hooks" = true)
    (hRegister : registerHooks settings hooksBin withXpia
      limitResume = some after) :
    registerHooks after hooksBin withXpia limitResume = some after := by
  rw [registerHooks_eq_some_iff] at hRegister ⊢
  rcases hRegister with ⟨hBuild, rfl⟩
  refine ⟨hBuild, ?_⟩
  rw [rewriteHooks_rewriteHooks]
  have hSame : (fun hooks => registeredHooks hooksBin withXpia limitResume
      (registeredHooks hooksBin withXpia limitResume hooks)) =
        registeredHooks hooksBin withXpia limitResume :=
    funext (registeredHooks_idem hName hBuild)
  rw [hSame]

end Install
