import Amplihack.Base.Json.Record
import Amplihack.Base.Json.RoundTrip
import Amplihack.Base.Runs

/-
  The session tree's file: its contents, reader and writer.

  A tree is one JSON file. The writer prunes stale entries
  first; the reader takes a file it finds too large, or
  cannot parse, for an empty tree.

  The locked operations on one session tree.

  An operation loads the tree's file under the tree lock,
  decides, and saves or leaves the file alone. What a call
  sees of its process and of the world is a `Caller`.
-/

-- Constants And Ids

namespace SessionTree

open Base

/- The largest file the reader takes. -/
def maxStateFileBytes : Nat := 1024 * 1024

def defaultMaxDepth : UInt32 := 3

def defaultMaxSessions : UInt32 := 10

/- No ceiling is above this one. -/
def maxDepthCeiling : UInt32 := 32

def completedMaxAgeSecs : UInt64 := 24 * 60 * 60

def activeMaxAgeSecs : UInt64 := 4 * 60 * 60

/- A character of a tree id or session id. -/
def isIdChar (c : Char) : Bool :=
  c.isAlphanum || c = '_' || c = '-'

/- One to 64 letters, digits, underscores and hyphens. -/
def validateTreeId (id : String) : Bool :=
  id.toList.all isIdChar && 1 ≤ id.length && id.length ≤ 64

-- Tree State

/- Whether a session still holds its slot. -/
inductive SessionStatus where
| active
| completed
deriving DecidableEq

/- One session of a tree. -/
structure SessionEntry where
  depth : UInt32
  parent : Option String
  status : SessionStatus
  startedAt : UInt64
  completedAt : Option UInt64
  children : List String
  pid : Option UInt32
deriving DecidableEq

/- The session holds a slot. -/
def SessionEntry.isActive (entry : SessionEntry) : Bool :=
  entry.status = .active

/- What a tree's file holds. -/
structure TreeState where
  sessions : Dict String SessionEntry
  ceiling : Option UInt32
  writerVersion : Option String

namespace TreeState

/- The tree no session has entered. -/
def default : TreeState where
  sessions := Dict.empty
  ceiling := none
  writerVersion := none

/- The number of sessions that hold a slot. -/
def activeTotal (state : TreeState) : Nat :=
  state.sessions.countValues SessionEntry.isActive

/- That number as the 32-bit count the callers compare. -/
def activeCount (state : TreeState) : UInt32 :=
  UInt32.ofNat state.activeTotal

end TreeState

-- JSON

namespace SessionStatus

def toJson : SessionStatus → Json
| .active => .str "active"
| .completed => .str "completed"

def ofJson : Json → Option SessionStatus
| .str "active" => some .active
| .str "completed" => some .completed
| _ => none

@[simp] theorem ofJson_toJson (status : SessionStatus) :
    ofJson status.toJson = some status := by
  cases status <;> rfl

end SessionStatus

namespace SessionEntry

def toJson (entry : SessionEntry) : Json :=
  .obj (
    [("depth", Json.ofNat entry.depth.toNat),
     ("parent", Json.orNull .str entry.parent),
     ("status", entry.status.toJson),
     ("started_at", Json.ofNat entry.startedAt.toNat)] ++
    Json.unlessNone "completed_at"
      (fun n => Json.ofNat n.toNat) entry.completedAt ++
    [("children", .arr (entry.children.map .str))] ++
    Json.unlessNone "pid" (fun n => Json.ofNat n.toNat) entry.pid)

def ofJson (j : Json) : Option SessionEntry := do
  let members ← j.toObj?
  let depth ← Json.required members "depth" Json.readUInt32
  let parent ← Json.optional members "parent" Json.toStr?
  let status ←
    Json.required members "status" SessionStatus.ofJson
  let startedAt ←
    Json.required members "started_at" Json.readUInt64
  let completedAt ←
    Json.optional members "completed_at" Json.readUInt64
  let children ←
    Json.defaulted members "children" [] (Json.readList Json.toStr?)
  let pid ← Json.optional members "pid" Json.readUInt32
  some { depth, parent, status, startedAt, completedAt, children, pid }

/- Every entry is read back as it was written. -/
@[simp] theorem ofJson_toJson (entry : SessionEntry) :
    ofJson entry.toJson = some entry := by
  rcases entry with ⟨depth, parent, status, startedAt,
    completedAt, children, pid⟩
  have hChildren :
      Json.readList Json.toStr? (.arr (children.map .str)) = some children :=
    Json.readList_map Json.toStr? .str children (fun _ _ => rfl)
  cases parent <;> cases completedAt <;> cases pid <;>
    simp [ofJson, toJson, Json.toObj?, Json.unlessNone, Json.orNull,
      Json.required, Json.optional, Json.defaulted, Json.isRepeated,
      Json.member?, hChildren, Json.toStr?]

end SessionEntry

namespace TreeState

def toJson (state : TreeState) : Json :=
  .obj (
    [("sessions", .obj (state.sessions.entries.map
      fun e => (e.1, e.2.toJson)))] ++
    Json.unlessNone "ceiling" (fun n => Json.ofNat n.toNat) state.ceiling ++
    Json.unlessNone "writer_version" .str state.writerVersion)

def ofJson (j : Json) : Option TreeState := do
  let members ← j.toObj?
  let sessions ←
    Json.defaulted members "sessions" Dict.empty
      (Json.readDict SessionEntry.ofJson)
  let ceiling ←
    Json.optional members "ceiling" Json.readUInt32
  let writerVersion ←
    Json.optional members "writer_version" Json.toStr?
  some { sessions, ceiling, writerVersion }

/- Every state is read back as it was written. -/
theorem ofJson_toJson (state : TreeState) :
    ofJson state.toJson = some state := by
  rcases state with ⟨sessions, ceiling, writerVersion⟩
  have hSessions :=
    Json.readDict_entries SessionEntry.ofJson SessionEntry.toJson sessions
      SessionEntry.ofJson_toJson
  cases ceiling <;> cases writerVersion <;>
    simp [ofJson, toJson, Json.toObj?, Json.unlessNone, Json.optional,
      Json.defaulted, Json.isRepeated, Json.member?, hSessions, Json.toStr?]

end TreeState

-- Reader And Writer

/- A tree's file; `none` when there is none. -/
abbrev TreeFile : Type := Option (List Char)

/- What the file's text says, whatever its length. -/
def storedState : TreeFile → TreeState
| none => .default
| some text =>
  ((Json.parse text).bind TreeState.ofJson).getD .default

/- The reader takes the file's text. -/
def Readable : TreeFile → Prop
| none => True
| some text => textBytes text ≤ maxStateFileBytes

instance : DecidablePred Readable
| none => inferInstanceAs (Decidable True)
| some text =>
  inferInstanceAs (Decidable (textBytes text ≤ maxStateFileBytes))

/- A file over the limit reads as an empty tree. -/
def loadState (file : TreeFile) : TreeState :=
  if Readable file then storedState file else .default

/- Drop what completed a day ago or started four hours ago. -/
def isFresh (now : UInt64) (entry : SessionEntry) : Bool :=
  match entry.status with
  | .completed =>
    now.toNat - completedMaxAgeSecs.toNat ≤ (entry.completedAt.getD 0).toNat
  | .active =>
    now.toNat - activeMaxAgeSecs.toNat ≤ entry.startedAt.toNat

def pruneStale (now : UInt64) (state : TreeState) :
    TreeState :=
  { state with
    sessions := state.sessions.retain (fun _ e => isFresh now e) }

/- The text the writer leaves behind. -/
def saveState (now : UInt64) (state : TreeState) : TreeFile :=
  some (Json.pretty 0 (pruneStale now state).toJson)

/- The bytes of a state's text. -/
def TreeState.bytes (state : TreeState) : Nat :=
  textBytes (Json.pretty 0 state.toJson)

/- A saved file says what was saved, less what was stale. -/
@[simp] theorem storedState_saveState
    (now : UInt64) (state : TreeState) :
    storedState (saveState now state) = pruneStale now state := by
  simp [storedState, saveState, Json.parse_pretty, TreeState.ofJson_toJson]

@[simp] theorem storedState_none :
    storedState none = .default := rfl

theorem readable_saveState_iff
    {now : UInt64} {state : TreeState} :
    Readable (saveState now state) ↔
      (pruneStale now state).bytes ≤ maxStateFileBytes :=
  Iff.rfl

theorem loadState_of_readable
    {file : TreeFile} (hReadable : Readable file) :
    loadState file = storedState file :=
  if_pos hReadable

end SessionTree

-- Callers And Refusals

namespace SessionTree

open Base

/- What one call sees: its process, the clock, live pids. -/
structure Caller where
  processId : UInt32
  version : String
  alive : UInt32 → Bool
  reapedAt : String → UInt64
  stampedAt : UInt64
  prunedAt : UInt64

/- A process that sees every pid alive and one clock reading. -/
def Caller.steady (now : UInt64) : Caller where
  processId := 1
  version := "0.1.0"
  alive := fun _ => true
  reapedAt := fun _ => now
  stampedAt := now
  prunedAt := now

/- Why an operation is refused. -/
inductive Refusal where
| invalidId (what : String)
| depthExceeded (depth ceiling : UInt32)
| sessionsReached (maxSessions active : UInt32)
| versionMismatch (treeId seen thisVersion : String)
deriving DecidableEq

/- A holder with no recorded pid counts as live. -/
def holderIsLive (caller : Caller) (entry : SessionEntry) :
    Bool :=
  match entry.pid with
  | none => true
  | some pid => caller.alive pid

-- Ceilings

/- The environment may lower a sealed ceiling, never raise it. -/
def effectiveMaxDepth
    (sealed fromEnv : Option UInt32) :
    UInt32 :=
  let envValue :=
    min (fromEnv.getD defaultMaxDepth) maxDepthCeiling
  match sealed with
  | some sealed => min (min sealed maxDepthCeiling) envValue
  | none => envValue

/- Seal a tree's ceiling, or lower it to what is proposed. -/
def ensureSealed
    (treeId : String) (caller : Caller) (proposed : UInt32)
    (state : TreeState) :
    Except Refusal (UInt32 × Option TreeState) :=
  let resolved :=
    effectiveMaxDepth state.ceiling (some proposed)
  match state.writerVersion.filter (· ≠ caller.version) with
  | some seen =>
    .error (.versionMismatch treeId seen caller.version)
  | none =>
    if state.ceiling ≠ some resolved ∨
        state.writerVersion ≠ some caller.version then
      .ok (resolved, some { state with
        ceiling := some resolved
        writerVersion := some caller.version })
    else .ok (resolved, none)

-- Admission

/- What an admission granted. -/
structure AdmitOutcome where
  ceiling : UInt32
  active : UInt32

/- Complete the active entries whose holder is dead. -/
def reapDead (caller : Caller) (state : TreeState) :
    TreeState :=
  { state with
    sessions := state.sessions.mapValues (fun id entry =>
      if entry.status = .active ∧
          holderIsLive caller entry = false then
        { entry with
          status := .completed
          completedAt := some (caller.reapedAt id) }
      else entry) }

/- An entry that has just taken a slot. -/
def newEntry
    (caller : Caller) (depth : UInt32) (parent : Option String) :
    SessionEntry where
  depth := depth
  parent := parent
  status := .active
  startedAt := caller.stampedAt
  completedAt := none
  children := []
  pid := some caller.processId

/- Admit a node: seal, bound the depth, reap, bound the count. -/
def admitSession
    (caller : Caller) (sessionId : String)
    (depth proposedCeiling maxSessions : UInt32) (state : TreeState) :
    Except Refusal (AdmitOutcome × Option TreeState) :=
  let ceiling :=
    effectiveMaxDepth state.ceiling (some proposedCeiling)
  if ceiling < depth then .error (.depthExceeded depth ceiling)
  else
    let state := reapDead caller state
    let active := state.activeCount
    if maxSessions ≤ active then
      .error (.sessionsReached maxSessions active)
    else
      .ok ({ ceiling, active := active + 1 }, some {
        sessions := state.sessions.insert sessionId
          (newEntry caller depth none)
        ceiling := some ceiling
        writerVersion := some caller.version })

/- List a child under its parent, once. -/
def addChild (child : String) (entry : SessionEntry) :
    SessionEntry :=
  if child ∈ entry.children then entry
  else { entry with children := entry.children ++ [child] }

/- Register a session: no reaping; seal only when unsealed. -/
def runRegister
    (caller : Caller) (sessionId : String) (parentId : Option String)
    (depth maxDepth maxSessions : UInt32) (state : TreeState) :
    Except Refusal (Unit × Option TreeState) :=
  let active := state.activeCount
  if maxSessions ≤ active then
    .error (.sessionsReached maxSessions active)
  else
    let effective :=
      effectiveMaxDepth state.ceiling (some maxDepth)
    if effective < depth then
      .error (.depthExceeded depth effective)
    else
      let sessions := state.sessions.insert sessionId
        (newEntry caller depth parentId)
      .ok ((), some { state with
        ceiling := some (state.ceiling.getD effective)
        sessions :=
          match parentId with
          | none => sessions
          | some parent =>
            sessions.modify parent (addChild sessionId) })

/- Give a slot back; no matter when the session is unknown. -/
def markCompleted
    (caller : Caller) (sessionId : String) (state : TreeState) :
    TreeState :=
  { state with
    sessions := state.sessions.modify sessionId (fun entry =>
      { entry with
        status := .completed
        completedAt := some caller.stampedAt }) }

-- Operations Under The Tree Lock

/- The operations that share one tree file. -/
inductive Operation where
| admitSession (sessionId : String)
    (depth proposedCeiling maxSessions : UInt32)
| register (sessionId : String) (parentId : Option String)
    (depth maxDepth maxSessions : UInt32)
| complete (sessionId : String)
| release (sessionId : String)
| ensureSealed (proposed : UInt32)

/- What a successful operation hands its caller. -/
inductive Outcome where
| admitted (outcome : AdmitOutcome)
| registered
| completed
| released
| sealed (ceiling : UInt32)

namespace Operation

/- The session an operation names. -/
def sessionId? : Operation → Option String
| .admitSession id _ _ _ => some id
| .register id _ _ _ _ => some id
| .complete id => some id
| .release id => some id
| .ensureSealed _ => none

/- The cap an admitting operation passes. -/
def maxSessions? : Operation → Option UInt32
| .admitSession _ _ _ maxSessions => some maxSessions
| .register _ _ _ _ maxSessions => some maxSessions
| _ => none

/- The ceiling an operation proposes. -/
def proposal? : Operation → Option UInt32
| .admitSession _ _ proposed _ => some proposed
| .register _ _ _ maxDepth _ => some maxDepth
| .ensureSealed proposed => some proposed
| _ => none

/- The id checks that come before the lock is taken. -/
def validate : Operation → Except Refusal Unit
| .admitSession id _ _ _ =>
  if validateTreeId id then .ok ()
  else .error (.invalidId "session id")
| .register id parent _ _ _ =>
  if !validateTreeId id then
    .error (.invalidId "session_id")
  else if !parent.all validateTreeId then
    .error (.invalidId "parent_id")
  else .ok ()
| .complete id =>
  if validateTreeId id then .ok ()
  else .error (.invalidId "session_id")
| .release _ => .ok ()
| .ensureSealed _ => .ok ()

/- What an operation makes of the state it loaded. -/
def apply
    (treeId : String) (caller : Caller) :
    Operation → TreeState → Except Refusal (Outcome × Option TreeState)
| .admitSession id depth proposed maxSessions, state =>
  (SessionTree.admitSession caller id depth proposed maxSessions
    state).map fun r => (.admitted r.1, r.2)
| .register id parent depth maxDepth maxSessions, state =>
  (runRegister caller id parent depth maxDepth maxSessions
    state).map fun r => (.registered, r.2)
| .complete id, state =>
  .ok (.completed, some (markCompleted caller id state))
| .release id, state =>
  .ok (.released, some (markCompleted caller id state))
| .ensureSealed proposed, state =>
  (SessionTree.ensureSealed treeId caller proposed
    state).map fun r => (.sealed r.1, r.2)

end Operation

/- Load, decide, and save what was decided, if anything. -/
def withLockedTree
    {α : Type} (now : UInt64)
    (op : TreeState → Except Refusal (α × Option TreeState))
    (file : TreeFile) :
    Except Refusal α × TreeFile :=
  match op (loadState file) with
  | .error refusal => (.error refusal, file)
  | .ok (a, none) => (.ok a, file)
  | .ok (a, some state) => (.ok a, saveState now state)

structure Call where
  caller : Caller
  operation : Operation

/- A whole call: its checks, then the locked part. -/
def perform
    (treeId : String) (call : Call) (file : TreeFile) :
    Except Refusal Outcome × TreeFile :=
  match call.operation.validate with
  | .error refusal => (.error refusal, file)
  | .ok () =>
    withLockedTree call.caller.prunedAt
      (call.operation.apply treeId call.caller) file

/- The file a call leaves behind. -/
def nextFile
    (treeId : String) (file : TreeFile) (call : Call) :
    TreeFile :=
  (perform treeId call file).2

end SessionTree
