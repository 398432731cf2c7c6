import Amplihack.Base.Json.Text
import Amplihack.Base.Search

/-
  The hook registrations of a settings document: which
  wrappers are amplihack's, and their replacement.
-/

-- Specifications

namespace Install

open Base

/- The subcommand of the hooks binary that the hook runs. -/
structure HookSpec where
  event : String
  subcmd : String
  timeout : Option ℕ
  matcher : Option String
  asyncRewake : Bool
deriving DecidableEq

def limitResumeEvent : String := "StopFailure"

def limitResumeTimeoutSecs : ℕ := 608400

def amplihackHookSpecs : List HookSpec :=
  [{ event := "SessionStart", subcmd := "session-start",
      timeout := some 10, matcher := none,
      asyncRewake := false },
    { event := "Stop", subcmd := "stop",
      timeout := some 120, matcher := none,
      asyncRewake := false },
    { event := "PreToolUse", subcmd := "pre-tool-use",
      timeout := none, matcher := some "*",
      asyncRewake := false },
    { event := "PostToolUse", subcmd := "post-tool-use",
      timeout := none, matcher := some "*",
      asyncRewake := false },
    { event := "UserPromptSubmit",
      subcmd := "workflow-classification-reminder",
      timeout := some 5, matcher := none,
      asyncRewake := false },
    { event := "UserPromptSubmit",
      subcmd := "user-prompt-submit",
      timeout := some 10, matcher := none,
      asyncRewake := false },
    { event := "PreCompact", subcmd := "pre-compact",
      timeout := some 30, matcher := none,
      asyncRewake := false },
    { event := "SessionEnd", subcmd := "session-stop-event",
      timeout := some 30, matcher := none,
      asyncRewake := false },
    { event := limitResumeEvent, subcmd := "limit-resume",
      timeout := some limitResumeTimeoutSecs,
      matcher := some "rate_limit", asyncRewake := true }]

def xpiaHookSpecs : List HookSpec :=
  [{ event := "SessionStart", subcmd := "session-start",
      timeout := some 10, matcher := none,
      asyncRewake := false },
    { event := "PreToolUse", subcmd := "pre-tool-use",
      timeout := none, matcher := some "*",
      asyncRewake := false },
    { event := "PostToolUse", subcmd := "post-tool-use",
      timeout := none, matcher := some "*",
      asyncRewake := false }]

def amplihackSpecs (limitResume : Bool) : List HookSpec :=
  amplihackHookSpecs.filter fun spec =>
    limitResume || spec.event != limitResumeEvent

-- Members of documents

abbrev Members := List (String × Json)

/- `value.get(key)`, for the key of an object. -/
def get (value : Json) (key : String) : Option Json :=
  match value with
  | .obj members => Json.member? members key
  | _ => none

def asStr : Json → Option String
| .str s => some s
| _ => none

def asBool : Json → Option Bool
| .bool b => some b
| _ => none

/- A whole number over the bound is read as a float. -/
def asU64 (value : Json) : Option ℕ :=
  value.toNat?.filter (· ≤ 18446744073709551615)

def ensureObject : Json → Members
| .obj members => members
| _ => []

def ensureArray : Json → List Json
| .arr items => items
| _ => []

/- A new key goes to its place in the order of the keys. -/
def insertSorted (key : String) (value : Json) :
    Members → Members
| [] => [(key, value)]
| (k, v) :: rest =>
  if key < k then (key, value) :: (k, v) :: rest
  else (k, v) :: insertSorted key value rest

/- `entry(key).or_insert(value)` -/
def orInsert
    (key : String) (value : Json) (members : Members) :
    Members :=
  if members.any (fun e => e.1 = key) then members
  else insertSorted key value members

/- Change the value of a key in its place. -/
def changeAt
    (key : String) (f : Json → Json) (members : Members) :
    Members :=
  members.map fun e => if e.1 = key then (e.1, f e.2) else e

-- Own wrappers

def containsText (text sub : String) : Bool :=
  (find sub.toList text.toList).isSome

def endsWith (text sub : String) : Bool :=
  sub.toList.isSuffixOf text.toList

def legacyHookScriptName (subcmd : String) : Option String :=
  match subcmd with
  | "session-start" => some "session_start.py"
  | "stop" => some "stop.py"
  | "pre-tool-use" => some "pre_tool_use.py"
  | "post-tool-use" => some "post_tool_use.py"
  | "workflow-classification-reminder" =>
    some "workflow_classification_reminder.py"
  | "user-prompt-submit" => some "user_prompt_submit.py"
  | "pre-compact" => some "pre_compact.py"
  | _ => none

/- The command runs the hook, natively or as it once did. -/
def ownsCommand
    (spec : HookSpec) (hookSystem command : String) :
    Bool :=
  (containsText command "amplihack-hooks" &&
      endsWith command spec.subcmd) ||
    match legacyHookScriptName spec.subcmd with
    | none => false
    | some legacyName =>
      ((hookSystem == "amplihack" &&
          containsText command "tools/amplihack/hooks/") ||
        (hookSystem == "xpia" && containsText command "tools/xpia/hooks/")) &&
        containsText command legacyName

def matcherMatches (wrapper : Json) (spec : HookSpec) : Bool :=
  match spec.matcher with
  | some expected =>
    (get wrapper "matcher").bind asStr == some expected
  | none => (get wrapper "matcher").isNone

/- The entries that the wrapper bundles. -/
def entriesOf (wrapper : Json) : List Json :=
  match get wrapper "hooks" with
  | some (.arr entries) => entries
  | _ => []

def ownsEntry
    (spec : HookSpec) (hookSystem : String) (entry : Json) :
    Bool :=
  match (get entry "command").bind asStr with
  | none => false
  | some command => ownsCommand spec hookSystem command

/- Only the first entry of the wrapper is looked at. -/
def isOwnWrapper
    (wrapper : Json) (spec : HookSpec) (hookSystem : String) :
    Bool :=
  matcherMatches wrapper spec &&
    match entriesOf wrapper with
    | [] => false
    | entry :: _ => ownsEntry spec hookSystem entry

/- The entry has the timeout and the flag of the spec. -/
def isCurrent (spec : HookSpec) (entry : Json) : Bool :=
  (get entry "timeout").bind asU64 == spec.timeout &&
    ((get entry "asyncRewake").bind asBool).getD false == spec.asyncRewake

def wrapperMatches
    (wrapper : Json) (spec : HookSpec) (hookSystem : String) :
    Bool :=
  isOwnWrapper wrapper spec hookSystem &&
    match entriesOf wrapper with
    | [] => false
    | entry :: _ => isCurrent spec entry

-- New wrappers

def shellQuotePath (path : String) : String :=
  String.ofList ('"' :: path.toList.flatMap (fun c =>
    if c = '\\' then ['\\', '\\']
    else if c = '"' then ['\\', '"']
    else [c]) ++ ['"'])

def hookCommand (spec : HookSpec) (hooksBin : String) :
    String :=
  shellQuotePath hooksBin ++ " " ++ spec.subcmd

/- The grave accent of a shell command. -/
def grave : Char := Char.ofNat 96

def blockedInCommand : List Char :=
  ['|', '&', ';', '$', grave, '(', ')', '{', '}', '<', '!',
    '>', '#', '~', '*']

def blockedInPath : List Char :=
  blockedInCommand ++ [' ', '\'', '"', '\\']

/- Both assertions on the path and the command hold. -/
def isBuildable (spec : HookSpec) (hooksBin : String) : Bool :=
  blockedInPath.all (!hooksBin.toList.contains ·) &&
    blockedInCommand.all (!(hookCommand spec hooksBin).toList.contains ·)

def hookEntry (spec : HookSpec) (hooksBin : String) : Json :=
  .obj
    ((match spec.asyncRewake with
      | true => [("asyncRewake", .bool true)]
      | false => []) ++
      ("command", .str (hookCommand spec hooksBin)) ::
      (match spec.timeout with
      | some timeout => [("timeout", .ofNat timeout)]
      | none => []) ++
      [("type", .str "command")])

/- The keys of an object are in order. -/
def buildHookWrapper (spec : HookSpec) (hooksBin : String) :
    Json :=
  .obj (("hooks", .arr [hookEntry spec hooksBin]) ::
    match spec.matcher with
    | some pattern => [("matcher", .str pattern)]
    | none => [])

-- Registration

/- The wrappers of an event: the new ones, then the others. -/
def updateEvent
    (hookSystem : String) (eventSpecs : List HookSpec)
    (hooksBin : String) (wrappers : Json) :
    Json :=
  .arr (eventSpecs.map (buildHookWrapper · hooksBin) ++
    (ensureArray wrappers).filter fun wrapper =>
      !eventSpecs.any (isOwnWrapper wrapper · hookSystem))

def eventsOf (specs : List HookSpec) : List String :=
  (specs.map HookSpec.event).eraseDups

def specsOf (specs : List HookSpec) (event : String) :
    List HookSpec :=
  specs.filter fun spec => spec.event = event

/- What happens to the object of the hooks, event by event. -/
def updateHooks
    (hookSystem : String) (specs : List HookSpec)
    (hooksBin : String) (hooks : Members) :
    Members :=
  (eventsOf specs).foldl (fun hooks event =>
    changeAt event
      (updateEvent hookSystem (specsOf specs event) hooksBin)
      (orInsert event (.arr []) hooks)) hooks

/- The panic of an assertion gives no document. -/
def updateHookPaths
    (settings : Json) (hookSystem : String)
    (specs : List HookSpec) (hooksBin : String) :
    Option Json :=
  if specs.all (isBuildable · hooksBin) then
    some (.obj (changeAt "hooks"
      (fun hooks => .obj (updateHooks hookSystem specs hooksBin
        (ensureObject hooks)))
      (orInsert "hooks" (.obj []) (ensureObject settings))))
  else
    none

def stripOwn (spec : HookSpec) (hookSystem : String) :
    Json → Json
| .arr wrappers =>
  .arr (wrappers.filter fun wrapper =>
    !isOwnWrapper wrapper spec hookSystem)
| value => value

/- The event goes when no wrapper is left. -/
def removeFrom
    (spec : HookSpec) (hookSystem : String) (hooks : Members) :
    Members :=
  match (Json.member? hooks spec.event).map
      (stripOwn spec hookSystem) with
  | some (.arr []) =>
    hooks.filter fun e => e.1 ≠ spec.event
  | _ => changeAt spec.event (stripOwn spec hookSystem) hooks

def removeHookWrappers
    (settings : Json) (spec : HookSpec) (hookSystem : String) :
    Json :=
  match settings with
  | .obj root =>
    .obj (changeAt "hooks"
      (fun value =>
        match value with
        | .obj hooks => .obj (removeFrom spec hookSystem hooks)
        | other => other)
      root)
  | _ => settings

def registerHooks
    (settings : Json) (hooksBin : String) (withXpia limitResume : Bool) :
    Option Json := do
  let settings ← updateHookPaths settings "amplihack"
    (amplihackSpecs limitResume) hooksBin
  let settings :=
    if limitResume then settings
    else
      (specsOf amplihackHookSpecs limitResumeEvent).foldl
        (fun settings spec =>
          removeHookWrappers settings spec "amplihack")
        settings
  if withXpia then
    updateHookPaths settings "xpia" xpiaHookSpecs hooksBin
  else
    pure settings

-- Questions about a document

/- The wrappers that the document has for an event. -/
def wrappersOf (settings : Json) (event : String) : List Json :=
  match (get settings "hooks").bind (get · event) with
  | some (.arr wrappers) => wrappers
  | _ => []

def missingHookRegistrations
    (settings : Json) (limitResume : Bool) :
    List String :=
  let specs := amplihackSpecs limitResume
  let ours := fun (spec : HookSpec) =>
    (wrappersOf settings spec.event).any (isOwnWrapper · spec "amplihack")
  let current := fun (spec : HookSpec) =>
    (wrappersOf settings spec.event).any (wrapperMatches · spec "amplihack")
  if specs.any ours then
    (((specs.filter fun spec => !current spec).map
      fun spec => spec.event ++ " (" ++ spec.subcmd ++ ")")
      |>.eraseDups).mergeSort
  else []

def hasLimitResumeRegistration (settings : Json) : Bool :=
  (specsOf amplihackHookSpecs limitResumeEvent).any
    fun spec =>
      (wrappersOf settings spec.event).any (isOwnWrapper · spec "amplihack")

end Install
