import Amplihack.Base.Program
import Amplihack.Base.Numbers
import Amplihack.Base.Runs

/-
  The loop guard of the limit-resume hook: event markers and
  session records on disk, and the commit that writes both.

  A commit is a program of file operations.  Each may fail,
  or be reported as failed though it was done; time passes
  while it runs.

  One invocation of the limit-resume hook: its checks when it
  starts, each of its polls, and what a commit makes of it.

  What the hook asks of the world besides the clock and the
  guard's files is an answer of any kind.

  Any number of hooks over one profile root.

  The lock serialises the commits, so that each is one step;
  it may stop after any of its file operations.
-/

-- Session records

namespace LimitResume

open Base

abbrev Text := List Char

abbrev Key := String

def maxResumesPerSession : ℕ := 3
def daySecs : ℤ := 86400
def markerRetentionSecs : ℤ := 7 * daySecs
def maxSessionBytes : ℕ := 4096

/- A positive number of seconds that a line of digits states. -/
def parseLine (line : Text) : Option ℤ :=
  if line ≠ [] ∧ line.all Char.isDigit then
    let n : ℤ := Nat.ofDigitChars 10 line 0
    if 0 < n ∧ n ≤ i64Max then some n else none
  else
    none

/- One value on each line; anything else is malformed. -/
def parseSession (raw : Text) : Option (List ℤ) :=
  let body :=
    if raw.getLast? = some '\n' then raw.dropLast else raw
  if body = [] then some []
  else (body.splitOn '\n').mapM parseLine

def recent (times : List ℤ) (now : ℤ) : List ℤ :=
  times.filter (now - · < daySecs)

def showInt : ℤ → Text
| .ofNat n => Nat.toDigits 10 n
| .negSucc n => '-' :: Nat.toDigits 10 (n + 1)

def formatSession (times : List ℤ) : Text :=
  times.flatMap fun t => showInt t ++ ['\n']

/- Keys are 64 lowercase hexadecimal digits. -/
def isKey (s : Key) : Bool :=
  s.length = 64 &&
    s.toList.all fun c =>
      c.isDigit || ('a' ≤ c && c ≤ 'f')

-- Files

/- What a look at a file finds. -/
inductive Look (α : Type) where
| found (a : α)
| missing
| failed
  deriving DecidableEq

/-
  The files under `resume/` that a commit reads or writes.  An
  event's marker has the time it was last written.
-/
structure Disk where
  clock : ℤ
  events : List (Key × ℤ)
  record : Key → Option Text

def Disk.marker (d : Disk) (event : Key) : Option ℤ :=
  (d.events.find? (·.1 = event)).map (·.2)

inductive FileOp where
| ensureDirs
| lock
| readEvents
| statEvent (event : Key)
| removeEvent (event : Key)
| readRecord (session : Key)
| createEvent (event : Key)
| syncEvent (event : Key)
| syncEvents
| writeRecord (session : Key) (raw : Text)

def Reply : FileOp → Type
| .readEvents => List Key
| .statEvent _ => Look ℤ
| .readRecord _ => Look Text
| .createEvent _ => Look Unit
| _ => Bool

inductive Mishap where
| none
| failed
| doneButFailed
  deriving DecidableEq

/- The time an operation takes and what befalls it. -/
structure Fault where
  elapsed : ℕ
  mishap : Mishap

def Fault.fine (fault : Fault) : Bool :=
  fault.mishap = .none

def Disk.tick (d : Disk) (elapsed : ℕ) : Disk :=
  { d with clock := d.clock + elapsed }

/- The files after an operation that was done. -/
def Disk.done (d : Disk) : FileOp → Disk
| .removeEvent event =>
  { d with events := d.events.filter (·.1 ≠ event) }
| .createEvent event =>
  match d.marker event with
  | some _ => d
  | none => { d with events := (event, d.clock) :: d.events }
| .writeRecord session raw =>
  { d with
    record := fun s =>
      if s = session then some raw else d.record s }
| _ => d

def after (d : Disk) (fault : Fault) (op : FileOp) : Disk :=
  match fault.mishap with
  | .failed => d.tick fault.elapsed
  | _ => (d.tick fault.elapsed).done op

def lookMarker (marker : Option ℤ) : Look ℤ :=
  match marker with
  | none => .missing
  | some mtime => .found mtime

/- The record as read; a file that is too large is refused. -/
def lookRecord (raw : Option Text) : Look Text :=
  match raw with
  | none => .missing
  | some raw =>
    if maxSessionBytes < raw.length then .failed
    else .found raw

def reply (d : Disk) (fault : Fault) :
    (op : FileOp) → Reply op
| .readEvents =>
  if fault.fine then d.events.map (·.1) else []
| .statEvent event =>
  if fault.fine then lookMarker (d.marker event)
  else .failed
| .readRecord session =>
  if fault.fine then lookRecord (d.record session)
  else .failed
| .createEvent event =>
  -- `O_EXCL`: an existing file is found, not opened.
  if fault.fine then
    if (d.marker event).isNone then .missing
    else .found ()
  else .failed
| .ensureDirs => fault.fine
| .lock => fault.fine
| .removeEvent _ => fault.fine
| .syncEvent _ => fault.fine
| .syncEvents => fault.fine
| .writeRecord _ _ => fault.fine

def files : Service Disk Fault Reply where
  after := after
  reply := reply

abbrev Files := @Program FileOp Reply

-- Commit

inductive CommitError where
| cap
| duplicate
| io
  deriving DecidableEq

abbrev Committed := Except CommitError Unit

/- Removes one marker when it is old; what fails stays. -/
def pruneEvent (oldest : ℤ) (event : Key) : Files Unit :=
  if isKey event then
    .call (.statEvent event) fun look =>
      match look with
      | .found mtime =>
        if mtime < oldest then
          .call (.removeEvent event) fun _ => .ret ()
        else
          .ret ()
      | _ => .ret ()
  else
    .ret ()

def pruneEvents (oldest : ℤ) : List Key → Files Unit
| [] => .ret ()
| event :: rest => do
    pruneEvent oldest event
    pruneEvents oldest rest

def prune (now retention : ℤ) : Files Unit :=
  .call .readEvents fun names =>
    pruneEvents (now - retention) names

def writeResume
    (event session : Key) (times : List ℤ) (now : ℤ) :
    Files Committed :=
  let raw := formatSession (times ++ [now])
  .call (.syncEvent event) fun synced =>
    if !synced then .ret (.error .io)
    else .call .syncEvents fun synced =>
      if !synced then .ret (.error .io)
      else .call (.writeRecord session raw) fun written =>
        if !written then .ret (.error .io)
        else .ret (.ok ())

/- Writes the marker, then the record. -/
def recordResume
    (event session : Key) (times : List ℤ) (now : ℤ) :
    Files Committed :=
  .call (.createEvent event) fun created =>
    match created with
    | .found _ => .ret (.error .duplicate)
    | .failed => .ret (.error .io)
    | .missing => writeResume event session times now

/- The session's resumes that count, or why there is no more. -/
def countedTimes
    (record : Option Text) (start now : ℤ) :
    Except CommitError (List ℤ) :=
  match record with
  | none => .ok []
  | some raw =>
    match parseSession raw with
    | none => .error .cap
    | some times =>
      if times.any (start < ·) then .error .duplicate
      else if maxResumesPerSession ≤
          (recent times now).length then
        .error .cap
      else .ok (recent times now)

def readTimes
    (look : Look Text) (start now : ℤ) :
    Except CommitError (List ℤ) :=
  match look with
  | .failed => .error .io
  | .missing => countedTimes none start now
  | .found raw => countedTimes (some raw) start now

def checkSession
    (event session : Key) (start now : ℤ) :
    Files Committed :=
  .call (.readRecord session) fun look =>
    match readTimes look start now with
    | .error e => .ret (.error e)
    | .ok times => recordResume event session times now

def checkEvent
    (event session : Key) (start now : ℤ) :
    Files Committed :=
  .call (.statEvent event) fun look =>
    match look with
    | .found _ => .ret (.error .duplicate)
    | .failed => .ret (.error .io)
    | .missing => checkSession event session start now

def lockedCommit
    (event session : Key) (start now : ℤ) :
    Files Committed := do
  prune now markerRetentionSecs
  checkEvent event session start now

def commit
    (event session : Key) (start now : ℤ) :
    Files Committed :=
  if !isKey event || !isKey session then
    .ret (.error .io)
  else
    .call .ensureDirs fun ensured =>
      if !ensured then .ret (.error .io)
      else .call .lock fun locked =>
        if !locked then .ret (.error .io)
        else lockedCommit event session start now

-- Checks before a wait

def seen (d : Disk) (event : Key) : Bool :=
  (d.marker event).isSome

def resumes (d : Disk) (session : Key) (now : ℤ) :
    Except CommitError ℕ :=
  match lookRecord (d.record session) with
  | .missing => .ok 0
  | .failed => .error .io
  | .found raw =>
    match parseSession raw with
    | none => .ok maxResumesPerSession
    | some times => .ok (recent times now).length

end LimitResume

-- Outcomes

namespace LimitResume

open Base

inductive Outcome where
| resumed
| noCapacityTimeout
| movedOn
| duplicate
| cap
| stopHookActive
| sessionGone
| rotatorDown
| guardFailed
| disabled
| notLimit
  deriving DecidableEq

-- The gate

structure Facts where
  enabled : Bool
  limit : Bool
  sessionOk : Bool
  stopHookActive : Bool
  duplicate : Bool
  capped : Bool

inductive Gate where
| disabled
| notLimit
| stopHookActive
| duplicate
| cap
| proceed
  deriving DecidableEq

/- The first reason not to wait. -/
def gate (f : Facts) : Gate :=
  if !f.enabled then .disabled
  else if !f.limit || !f.sessionOk then .notLimit
  else if f.stopHookActive then .stopHookActive
  else if f.duplicate then .duplicate
  else if f.capped then .cap
  else .proceed

-- The start

/- A hook that waits: its keys and when it started. -/
structure Hook where
  event : Key
  session : Key
  start : ℤ

/- The world's answers when a hook starts. -/
structure Arrival where
  enabled : Bool
  limit : Bool
  sessionOk : Bool
  stopHookActive : Bool
  seenFails : Bool
  resumesFails : Bool
  rotatorDown : Bool
  prepared : Bool

/- The checks of the guard's files before a wait. -/
def guarded
    (d : Disk) (a : Arrival) (facts : Facts) (h : Hook) :
    Except Outcome Facts :=
  if a.seenFails then .error .guardFailed
  else if a.resumesFails then .error .guardFailed
  else
    match resumes d h.session h.start with
    | .error _ => .error .guardFailed
    | .ok n =>
      .ok { facts with
        duplicate := seen d h.event,
        capped := maxResumesPerSession ≤ n }

/- Why the hook ends at once, or that it waits. -/
def arrive (d : Disk) (a : Arrival) (h : Hook) :
    Except Outcome Unit := do
  let facts : Facts :=
    { enabled := a.enabled, limit := a.limit,
      sessionOk := a.sessionOk,
      stopHookActive := a.stopHookActive,
      duplicate := false, capped := false }
  match gate facts with
  | .disabled => throw .disabled
  | .notLimit => throw .notLimit
  | .stopHookActive => throw .stopHookActive
  | _ => pure ()
  let facts ← guarded d a facts h
  match gate facts with
  | .duplicate => throw .duplicate
  | .cap => throw .cap
  | _ => pure ()
  if a.rotatorDown then throw .rotatorDown
  if !a.prepared then throw .guardFailed

-- The wait

def maxWait : ℤ := 7 * 24 * 60 * 60

/- The world's answers at a poll; `none` where reading fails. -/
structure Answers where
  enabled : Bool
  alive : Bool
  movedOn : Option Bool
  freshCapacity : Bool
  movedOnLast : Option Bool

inductive Polled where
| sleep
| finish (outcome : Outcome)
| commit
  deriving DecidableEq

/- A prompt since the start ends the wait. -/
def unlessMovedOn (movedOn : Option Bool) (next : Polled) :
    Polled :=
  match movedOn with
  | none => .finish .guardFailed
  | some true => .finish .movedOn
  | some false => next

def poll (a : Answers) (start now : ℤ) : Polled :=
  let deadline := saturatingAdd start maxWait
  if !a.enabled then .finish .disabled
  else if !a.alive then .finish .sessionGone
  else unlessMovedOn a.movedOn <|
    if a.freshCapacity then
      unlessMovedOn a.movedOnLast .commit
    else if deadline ≤ now then .finish .noCapacityTimeout
    else .sleep

-- The end

/- How a commit ends the hook; `none` when it crashed. -/
def settle : Option Committed → Option Outcome
| none => none
| some (.ok ()) => some .resumed
| some (.error .duplicate) => some .duplicate
| some (.error .cap) => some .cap
| some (.error .io) => some .guardFailed

end LimitResume

-- States

namespace LimitResume

open Base

inductive Phase where
| waiting (h : Hook)
| committing (h : Hook) (now : ℤ)
| ended (outcome : Option Outcome)

/- A commit that was tried, and the files it left. -/
structure Attempt where
  hook : Hook
  now : ℤ
  outcome : Option Outcome
  left : Disk

def Attempt.resumed (a : Attempt) : Bool :=
  a.outcome = some .resumed

/- The hooks that were started, and the commits in order. -/
structure System where
  disk : Disk
  hooks : ℕ → Option Phase
  attempts : List Attempt

/- No hook was started yet. -/
def System.fresh (d : Disk) : System where
  disk := d
  hooks := fun _ => none
  attempts := []

def System.set (s : System) (id : ℕ) (phase : Phase) :
    System :=
  { s with
    hooks := fun i =>
      if i = id then some phase else s.hooks i }

-- Steps

inductive Act where
| tick (elapsed : ℕ)
| arrive (id : ℕ) (event session : Key) (a : Arrival)
| poll (id : ℕ) (a : Answers)
| commit (id : ℕ) (faults : List Fault)

def arriveStep
    (s : System) (id : ℕ) (h : Hook) (a : Arrival) :
    System :=
  match arrive s.disk a h with
  | .ok () => s.set id (.waiting h)
  | .error outcome => s.set id (.ended (some outcome))

def pollStep
    (s : System) (id : ℕ) (h : Hook) (a : Answers) :
    System :=
  match poll a h.start s.disk.clock with
  | .sleep => s
  | .finish outcome => s.set id (.ended (some outcome))
  | .commit => s.set id (.committing h s.disk.clock)

def commitStep
    (s : System) (id : ℕ) (h : Hook) (now : ℤ) (faults : List Fault) :
    System :=
  let run := (commit h.event h.session h.start now).execute
    files faults s.disk
  let outcome := settle run.2
  { (s.set id (.ended outcome)) with
    disk := run.1,
    attempts := s.attempts ++ [⟨h, now, outcome, run.1⟩] }

def step (s : System) : Act → System
| .tick elapsed => { s with disk := s.disk.tick elapsed }
| .arrive id event session a =>
  match s.hooks id with
  | none =>
    arriveStep s id ⟨event, session, s.disk.clock⟩ a
  | some _ => s
| .poll id a =>
  match s.hooks id with
  | some (.waiting h) => pollStep s id h a
  | _ => s
| .commit id faults =>
  match s.hooks id with
  | some (.committing h now) => commitStep s id h now faults
  | _ => s

/- Every act may come at every moment. -/
def Anytime (_ : System) (_ : Act) : Prop :=
  True

end LimitResume
