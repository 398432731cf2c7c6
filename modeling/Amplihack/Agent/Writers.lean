import Amplihack.Agent.Store

/-
  The updates of the registry: what each of its writers does
  to it under the lock.
-/

-- One Entry

namespace Agent

open Base

/- Change the entry under `name`, if there is one like that. -/
def changeIf
    (reg : Registry) (name : String) (guard : Entry → Bool)
    (f : Entry → Entry) :
    Registry :=
  match reg.get? name with
  | some e => if guard e then reg.insert name (f e) else reg
  | none => reg

-- Registration

/- The launch fields that both registrations record. -/
structure Launch where
  socket : Option String
  session : String
  window : String
  launchDir : String
  conversation : Option String
  model : Option String
  effort : Option String
  addDirs : List String
  permissionMode : Option String
  skipPermissions : Bool
  flags : AmplihackFlags
  env : List (String × String)

namespace Launch

def checkConflicts
    (defaultSocket : String) (launch : Launch) (reg : Registry)
    (name : String) :
    Except String Unit :=
  match launch.conversation.bind
      (activeWithConversation reg · name) with
  | some other =>
    .error ("this conversation is already used by " ++
      "registered agent " ++ other)
  | none =>
    match sessionConflict defaultSocket reg launch.socket
        launch.session name with
    | some other =>
      .error ("tmux session " ++ launch.session ++
        " is already used by registered agent " ++ other)
    | none => .ok ()

/- A permission mode wins over skipping permissions. -/
def apply (launch : Launch) (e : Entry) : Entry :=
  { e with
    tmuxSocket := launch.socket
    tmuxSession := launch.session
    tmuxWindow := launch.window
    launchDir := launch.launchDir
    conversationId := launch.conversation
    model := launch.model
    effort := launch.effort
    addDirs := launch.addDirs
    skipPermissions :=
      launch.skipPermissions && launch.permissionMode.isNone
    permissionMode := launch.permissionMode
    amplihackFlags := launch.flags
    env := launch.env }

def intoEntry
    (launch : Launch) (registeredAt freshId : String) :
    Entry :=
  launch.apply (Entry.new launch.session launch.window
    launch.launchDir registeredAt freshId)

end Launch

/- The update of `agent register`. -/
def register
    (c : Chrono) (defaultSocket : String) (now : ℤ)
    (name : String) (launch : Launch) (process : Option (ℕ × ℕ))
    (freshId : String) (reg : Registry) :
    Except String (Unit × Registry) := do
  launch.checkConflicts defaultSocket reg name
  let previous := (reg.get? name).map Entry.registeredAt
  let registeredAt := nextRegisteredAt c previous now
  let e := (launch.intoEntry registeredAt freshId).setProcess
    process
  return ((), reg.insert name e)

def unregister (name : String) (reg : Registry) :
    Except String (Unit × Registry) :=
  match reg.get? name with
  | some _ => .ok ((), reg.remove name)
  | none => .error ("no registered agent named " ++ name)

-- The Wrapper

/- The entry is created, or kept with its history. -/
def start
    (c : Chrono) (defaultSocket : String) (now : ℤ)
    (name launchId : String) (launch : Launch)
    (freshId : String) (reg : Registry) :
    Except String (Unit × Registry) := do
  launch.checkConflicts defaultSocket reg name
  match reg.get? name with
  | some e =>
    return ((), reg.insert name (launch.apply (e.activate c now launchId)))
  | none =>
    let e := launch.intoEntry (fmtTs c now) freshId
    return ((), reg.insert name (e.activate c now launchId))

/- What the id thread of the wrapper found. -/
structure Found where
  pid : ℕ
  start : ℕ
  conversation : String

def recordClaude
    (name launchId : String) (found : Found)
    (profile : Option String) (reg : Registry) :
    Except String (Unit × Registry) :=
  let held :=
    (activeWithConversation reg found.conversation name).isSome
  .ok ((), changeIf reg name
    (fun e =>
      e.state == .active && e.launchId == launchId && !held)
    fun e =>
      { e.setProcess (some (found.pid, found.start)) with
        conversationId := some found.conversation
        amplihackFlags :=
          { e.amplihackFlags with profile := profile } })

/- The write after a clean exit. -/
def markEnded
    (c : Chrono) (now : ℤ) (name launchId : String) (reg : Registry) :
    Except String (Unit × Registry) :=
  .ok ((), changeIf reg name
    (fun e => e.state == .active && e.launchId == launchId)
    (Entry.finish c now .wrapper))

/- The updates of the user's commands and of wrappers. -/
inductive Command where
| register
    (name : String) (launch : Launch)
    (process : Option (ℕ × ℕ)) (freshId : String)
| unregister (name : String)
| start
    (name launchId : String) (launch : Launch)
    (freshId : String)
| recordClaude
    (name launchId : String) (found : Found)
    (profile : Option String)
| markEnded (name launchId : String)

def Command.run
    (c : Chrono) (defaultSocket : String) (now : ℤ) :
    Command → Registry → Except String (Unit × Registry)
| .register name launch process freshId =>
  Agent.register c defaultSocket now name launch process freshId
| .unregister name => Agent.unregister name
| .start name launchId launch freshId =>
  Agent.start c defaultSocket now name launchId launch freshId
| .recordClaude name launchId found profile =>
  Agent.recordClaude name launchId found profile
| .markEnded name launchId =>
  Agent.markEnded c now name launchId

-- The Supervisor's Pass

/- An agent whose process now holds another conversation. -/
structure IdChange where
  name : String
  registeredAt : String
  launchId : String
  id : String

def refreshId (reg : Registry) (change : IdChange) :
    Registry :=
  if (activeWithConversation reg change.id
      change.name).isSome then reg
  else
    changeIf reg change.name
      (fun e => e.state == .active &&
        e.registeredAt == change.registeredAt &&
        e.launchId == change.launchId)
      fun e => { e with conversationId := some change.id }

def refreshIds (changes : List IdChange) (reg : Registry) :
    Except String (Unit × Registry) :=
  .ok ((), changes.foldl refreshId reg)

/- An agent that a marker of a session's end names. -/
structure MarkerEnd where
  name : String
  registeredAt : String
  sessionId : String

def applyMarker
    (c : Chrono) (now : ℤ) (reg : Registry) (mark : MarkerEnd) :
    Registry :=
  changeIf reg mark.name
    (fun e => e.state == .active && e.registeredAt == mark.registeredAt &&
      e.conversationId == some mark.sessionId)
    (Entry.finish c now .sessionEnd)

def applyMarkers
    (c : Chrono) (now : ℤ) (ends : List MarkerEnd) (reg : Registry) :
    Except String (Unit × Registry) :=
  .ok ((), ends.foldl (applyMarker c now) reg)

inductive Observation where
| healthy
| skipRunning (unknown : Option String)
| skipSession (unknown : Option String)
| lost
deriving DecidableEq

/- The result of a skipped agent. -/
def outcomeOf : Observation → Option Outcome
| .skipRunning none => some .alreadyRunning
| .skipRunning (some why) => some (.livenessUnknown why)
| .skipSession none => some .sessionExists
| .skipSession (some why) => some (.tmuxUnknown why)
| .healthy => none
| .lost => none

/- What one active agent looked like before the write. -/
structure Plan where
  name : String
  registeredAt : String
  launchId : String
  conv : Option String
  obs : Observation
  pre : Option Outcome
  launchDir : String

/- A lost agent that passed its checks. -/
structure Candidate where
  name : String
  registeredAt : String
  launchDir : String

/- What classifying one agent comes to. -/
inductive Verdict where
| healthy
| candidate
| result (outcome : Outcome)
deriving DecidableEq

def verdictOf
    (c : Chrono) (now : ℤ) (maxRestarts : ℕ) (p : Plan) (e : Entry) :
    Verdict :=
  if p.obs = .healthy then .healthy
  else
    match outcomeOf p.obs with
    | some skipped => .result skipped
    | none =>
      match p.pre with
      | some failed => .result failed
      | none =>
        if maxRestarts ≤ restartsWithin c e.restarts now hour
        then .result .restartLimit
        else .candidate

/- A lost agent is marked so before anything else. -/
def markLost (c : Chrono) (now : ℤ) (p : Plan) (e : Entry) :
    Entry :=
  if outcomeOf p.obs = none ∧ e.lostAt = none then
    { e with lostAt := some (fmtTs c now) }
  else e

def clearHealthy (e : Entry) : Entry :=
  { e with
    lostAt := none
    lastRecovery := e.lastRecovery.filter fun l =>
      !clearsWhenHealthy l.result }

/- The lines, the candidate and the entry of one plan. -/
def classifyEntry
    (c : Chrono) (now : ℤ) (maxRestarts : ℕ) (p : Plan) (e : Entry) :
    List String × Option Candidate × Entry :=
  match verdictOf c now maxRestarts p e with
  | .healthy => ([], none, clearHealthy e)
  | .candidate =>
    ([], some
      { name := p.name
        registeredAt := p.registeredAt
        launchDir := p.launchDir },
      markLost c now p e)
  | .result outcome =>
    let n := restartsWithin c e.restarts now hour
    let recorded :=
      recordLine c p.name now outcome (markLost c now p e)
    if outcome = .restartLimit then
      (recorded.1.toList ++ [alertLine c now p.name n], none,
        recorded.2.stop (alertText n))
    else (recorded.1.toList, none, recorded.2)

def sameAsPlanned (p : Plan) (e : Entry) : Bool :=
  e.state == .active && e.registeredAt == p.registeredAt &&
    e.launchId == p.launchId && e.conversationId == p.conv

/- The lines and the candidates so far, and the registry. -/
abbrev Classified :=
  (List String × List Candidate) × Registry

def classifyOne
    (c : Chrono) (now : ℤ) (maxRestarts : ℕ) (acc : Classified) (p : Plan) :
    Classified :=
  match acc.2.get? p.name with
  | none => acc
  | some e =>
    if sameAsPlanned p e then
      let r := classifyEntry c now maxRestarts p e
      ((acc.1.1 ++ r.1, acc.1.2 ++ r.2.1.toList), acc.2.insert p.name r.2.2)
    else acc

def classify
    (c : Chrono) (now : ℤ) (maxRestarts : ℕ) (plans : List Plan)
    (reg : Registry) :
    Except String ((List String × List Candidate) × Registry) :=
  .ok (plans.foldl (classifyOne c now maxRestarts) (([], []), reg))

/- The check before a resume found something else. -/
def settleEntry
    (c : Chrono) (now : ℤ) (name : String)
    (outcome : Option Outcome) (restart : Bool) (e : Entry) :
    Option String × Entry :=
  let counted :=
    if restart then
      { e with restarts := e.restarts ++ [fmtTs c now] }
    else e
  match outcome with
  | some o => recordLine c name now o counted
  | none => (none, { counted with lostAt := none })

def settle
    (c : Chrono) (now : ℤ) (name registeredAt : String)
    (outcome : Option Outcome) (restart : Bool) (reg : Registry) :
    Except String (Option String × Registry) :=
  match reg.get? name with
  | some e =>
    if e.registeredAt == registeredAt && e.state == .active
    then
      let r := settleEntry c now name outcome restart e
      .ok (r.1, reg.insert name r.2)
    else .ok (none, reg)
  | none => .ok (none, reg)

/- The write after a session was started. -/
def recordResumed
    (c : Chrono) (now : ℤ) (name registeredAt : String)
    (conv lost resumedAt : Option String) (reg : Registry) :
    Except String (Unit × Registry) :=
  .ok ((), changeIf reg name
    (fun e =>
      e.registeredAt == registeredAt && e.state == .active)
    (Entry.recordResume c now
      (lastRecoveryOf c now conv lost resumedAt Outcome.resumed.text)))

end Agent
