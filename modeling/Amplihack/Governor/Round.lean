import Amplihack.Governor.Policy

/-
  One admission round under the store's lock.

  What the operating system answers is a parameter of the
  round: which processes are alive, their start times and
  ancestors, and the profiles' readings.
-/

-- Processes

namespace Governor

open Base

/- What a process sees of the system it runs on. -/
structure Host where
  now : ℤ
  now_range : 0 ≤ now ∧ now ≤ i64Max
  pid : ℕ
  signalled : ℕ → Bool
  startTime : ℕ → Option ℕ
  inAncestry : ℕ → ℕ → Bool
  snapshots : List ProfileSnapshot

/- A live PID is still the process that was recorded. -/
def sameProcess : Option ℕ → Option ℕ → Bool
| some want, some got => want == got
| some _, none => false
| none, _ => true

def i32Max : ℕ := 2147483647

def alive (host : Host) (pid : ℕ) (recordedStart : Option ℕ) :
    Bool :=
  2 ≤ pid && pid ≤ i32Max && host.signalled pid &&
    sameProcess recordedStart (host.startTime pid)

def selfOrAncestor (host : Host) (pid : ℕ) : Bool :=
  host.inAncestry host.pid pid

-- The slot a start runs under

/- The Unicode white space that `trim` removes. -/
def isWhiteSpace (c : Char) : Bool :=
  (9 ≤ c.toNat && c.toNat ≤ 13) || c == ' ' ||
    c.toNat == 0x85 || c.toNat == 0xa0 ||
    c.toNat == 0x1680 ||
    (0x2000 ≤ c.toNat && c.toNat ≤ 0x200a) ||
    c.toNat == 0x2028 || c.toNat == 0x2029 ||
    c.toNat == 0x202f || c.toNat == 0x205f ||
    c.toNat == 0x3000

def trim (cs : List Char) : List Char :=
  ((cs.dropWhile isWhiteSpace).reverse.dropWhile isWhiteSpace).reverse

/- Digits with an optional plus sign, up to `limit`. -/
def parseUnsigned (limit : ℕ) (cs : List Char) : Option ℕ :=
  let digits := if cs.head? = some '+' then cs.tail else cs
  if digits ≠ [] ∧ digits.all Char.isDigit then
    let n := digits.foldl
      (fun n c => 10 * n + (c.toNat - '0'.toNat)) 0
    if n ≤ limit then some n else none
  else
    none

/- The slot of an ancestor that the tree id names. -/
def slotOf (host : Host) (tree : String) (slots : List Slot) :
    Option ℕ :=
  slots.findIdx? fun s =>
    s.treeId == tree && selfOrAncestor host s.pid

/- The slot that a depth above 0 and the tree id name. -/
def nestedParent
    (host : Host) (depth treeId : Option String) (slots : List Slot) :
    Option ℕ := do
  let depth ← parseUnsigned u32Max (trim (← depth).toList)
  let tree ← treeId
  if depth = 0 ∨ !treeIdOk tree then none
  else slotOf host tree slots

/- The slot that the parent's marker names. -/
def markedParent
    (host : Host) (marker : Option String) (slots : List Slot) :
    Option ℕ := do
  let tree ← marker.filter treeIdOk
  slotOf host tree slots

/- The marker's process runs between this one and the slot. -/
def recipeBetween
    (host : Host) (slot : Slot) (marker : Option String) :
    Bool :=
  match (marker.map fun m => trim m.toList).filter (· ≠ []) with
  | none => false
  | some raw =>
    let parts : Option (List Char × Option ℕ) :=
      if raw.contains ':' then
        (parseUnsigned u64Max (raw.dropWhile (· ≠ ':')).tail).map
          fun start => (raw.takeWhile (· ≠ ':'), some start)
      else
        some (raw, none)
    match parts.bind fun p =>
        (parseUnsigned u32Max p.1).map fun pid =>
          (pid, p.2) with
    | none => false
    | some (pid, recorded) =>
      1 < pid && sameProcess recorded (host.startTime pid) &&
        selfOrAncestor host pid &&
        host.inAncestry pid slot.pid

/- What a nested start runs under. -/
def parentStart
    (host : Host) (slot : Slot) (marker : Option String) :
    Start :=
  if slot.start = .recipe ∨ recipeBetween host slot marker then
    .recipe
  else
    slot.start

-- The files of a round

/- The files as last written; `none` where there is none. -/
structure Disk where
  history : Option History
  queue : Option Queue
  state : Option State

structure Files where
  history : History
  queue : Queue
  state : State

/- The sizes of the texts that the files are written as. -/
structure Sizes where
  history : History → ℕ
  queue : Queue → ℕ
  state : State → ℕ

def maxFile : ℕ := 1048576

/- A missing file is the default; a bad one is corrupt. -/
def load {α : Type}
    (default : α) (size : α → ℕ) (validate : α → Except String Unit) :
    Option α → Except String α
| none => .ok default
| some v =>
  if maxFile < size v then .error "the file is too large"
  else
    match validate v with
    | .ok () => .ok v
    | .error why => .error why

def corrupt (file why : String) : FailOpen :=
  .new .corruptState
    (".governor.d/" ++ file ++ ": " ++ why ++ "; moved to " ++
      file ++ ".corrupt")

/- A corrupt file is renamed away; the first is reported. -/
def loadAll (sizes : Sizes) (now : ℤ) (disk : Disk) :
    Files × Option FailOpen :=
  let history := load .default sizes.history
    (·.validate now) disk.history
  let queue := load .default sizes.queue (·.validate now)
    disk.queue
  let state := load .default sizes.state (·.validate now)
    disk.state
  let fault :=
    match history, queue, state with
    | .error why, _, _ => some (corrupt "history.json" why)
    | _, .error why, _ => some (corrupt "queue.json" why)
    | _, _, .error why => some (corrupt "state.json" why)
    | _, _, _ => none
  ({ history := history.toOption.getD .default
     queue := queue.toOption.getD .default
     state := state.toOption.getD .default }, fault)

-- Bookkeeping

/- Everything one admission needs. -/
structure AdmitContext where
  settings : Settings
  class_ : Class
  start : Start
  workstream : String
  sessionDepth : Option String
  treeId : Option String
  parent : Option String
  recipe : Option String
  workstream_ok : workstreamOk workstream

/- The slots and entries of live processes. -/
def reclaim (host : Host) (files : Files) : Files :=
  { files with
    state :=
      { files.state with
        slots := files.state.slots.filter fun s =>
          alive host s.pid s.startTime }
    queue :=
      { entries := files.queue.entries.filter fun q =>
          alive host q.pid q.startTime } }

/- The ticket, if its entry is still this process's. -/
def checkTicket
    (host : Host) (queue : Queue) (ticket : Option ℕ) :
    Option ℕ :=
  ticket.filter fun seq =>
    queue.entries.any fun e => e.seq == seq && e.pid == host.pid

/- The queue without the ticket's entry. -/
def takeTicket (queue : Queue) (ticket : Option ℕ) : Queue :=
  match ticket with
  | some seq => { entries := withoutSeq seq queue.entries }
  | none => queue

inductive Guard where
| inert (code : FailOpenCode)
| slot (pid : ℕ) (treeId : String) (code : Option FailOpenCode)
| nested (parentPid : ℕ) (treeId : String)
deriving DecidableEq

/- What a round comes to, once its files are saved. -/
inductive Outcome where
| admitted (guard : Guard)
| denied (reason : Reason)
| waiting (reason : Reason) (retryAfter : Option ℤ)

/- The files to save, the outcome and the ticket left. -/
structure Round where
  files : Files
  outcome : Outcome
  ticket : Option ℕ

/- The key of a new slot replaces a record of a reused PID. -/
def pushSlot
    (host : Host) (ctx : AdmitContext) (treeId : String) (slots : List Slot) :
    List Slot :=
  (slots.filter fun s =>
    !(s.pid == host.pid && s.treeId == treeId)) ++
    [{ pid := host.pid
       startTime := host.startTime host.pid
       workstream := ctx.workstream
       class_ := ctx.class_
       treeId := treeId
       admittedAt := host.now
       nestedChildren := 0
       start := ctx.start }]

def addNested (slot : Slot) : Slot :=
  { slot with
    nestedChildren := addUpTo u32Max slot.nestedChildren 1 }

/- A top-level slot, and an admission in the window. -/
def admitSlot
    (host : Host) (ctx : AdmitContext) (treeId : String) (state : State) :
    State :=
  { state with
    slots := pushSlot host ctx treeId state.slots
    admissions := state.admissions ++
      [{ workstream := ctx.workstream, at_ := host.now }] }

/- One more nested child on the parent's slot. -/
def admitNested (parent : ℕ) (state : State) : State :=
  { state with slots := state.slots.modify parent addNested }

/- A waiting entry with the next seq. -/
def enqueue (host : Host) (ctx : AdmitContext) (files : Files) :
    Files :=
  let seq := files.state.nextSeq
  { files with
    state :=
      { files.state with nextSeq := addUpTo u64Max seq 1 }
    queue :=
      { entries := files.queue.entries ++
          [{ seq := seq
             workstream := ctx.workstream
             class_ := ctx.class_
             pid := host.pid
             startTime := host.startTime host.pid
             enqueuedAt := host.now }] } }

-- The round

/- A fault is recorded, and the start is let through. -/
def failOpenRound
    (now : ℤ) (fault : FailOpen) (files : Files) (ticket : Option ℕ) :
    Round where
  files :=
    { files with
      state :=
        { files.state with
          failOpen := some (record fault now) } }
  outcome := .admitted (.inert fault.code)
  ticket := ticket

/- An admission that the policy allowed. -/
def admitRound
    (host : Host) (ctx : AdmitContext) (treeId : String)
    (parent : Option ℕ) (reason : Reason) (files : Files)
    (ticket : Option ℕ) :
    Round :=
  let fault := if reason.code = .noReadings then
      some (FailOpen.new .noReadings reason.message)
    else none
  let state :=
    { files.state with
      failOpen := fault.map fun f => record f host.now }
  let queue := takeTicket files.queue ticket
  match parent.bind fun i =>
      (state.slots[i]?).map fun p => (i, p) with
  | some (i, p) =>
    { files :=
        { files with queue, state := admitNested i state }
      outcome := .admitted (.nested p.pid p.treeId)
      ticket := none }
  | none =>
    { files :=
        { files with
          queue
          state := admitSlot host ctx treeId state }
      outcome := .admitted
        (.slot host.pid treeId (fault.map FailOpen.code))
      ticket := none }

/- The bookkeeping of a decision. -/
def settleRound
    (host : Host) (ctx : AdmitContext) (treeId : String)
    (deadline : ℤ) (parent : Option ℕ) (d : Decision)
    (files : Files) (ticket : Option ℕ) :
    Round :=
  match d.kind with
  | .allow =>
    admitRound host ctx treeId parent d.reason files ticket
  | .deny =>
    { files :=
        { files with queue := takeTicket files.queue ticket }
      outcome := .denied
        { code := .weeklyExhausted, message := d.reason.message }
      ticket := none }
  | .wait =>
    if deadline ≤ host.now then
      { files :=
          { files with queue := takeTicket files.queue ticket }
        outcome := .denied
          { code := .waitExpired
            message := "the wait ended while held by " ++
              d.reason.code.asStr ++ ": " ++ d.reason.message }
        ticket := none }
    else if parent.isNone && ticket.isNone then
      { files := enqueue host ctx files
        outcome := .waiting d.reason d.retryAfter
        ticket := some files.state.nextSeq }
    else
      { files
        outcome := .waiting d.reason d.retryAfter
        ticket }

/- The files of a round, repaired, reclaimed and pruned. -/
def prepare (host : Host) (max_ : ℕ) (files : Files) : Files :=
  let state :=
    if files.state.limit = 0 then
      { files.state with limit := max_ }
    else files.state
  let files := reclaim host
    { files with state := repair state files.queue max_ }
  { files with
    state :=
      { files.state with
        admissions :=
          pruneWindow files.state.admissions host.now } }

/- The start's slot, by the tree id or by the marker. -/
def parentOf (host : Host) (ctx : AdmitContext)
    (slots : List Slot) : Option ℕ :=
  (nestedParent host ctx.sessionDepth ctx.treeId slots).or
    (markedParent host ctx.parent slots)

/- What the policy reads in a round. -/
def inputsOf
    (host : Host) (ctx : AdmitContext) (deadline : ℤ)
    (parent : Option ℕ) (files : Files) (ticket : Option ℕ) :
    Inputs :=
  let budgets := budgets host.snapshots host.now
    ctx.settings.maxReadingAgeSecs
  { budgets := budgets
    signal := rateSignal budgets files.history host.now
      ctx.settings.bandPct
    limit := files.state.limit
    lastEvaluatedAt := files.state.lastEvaluatedAt
    slots := files.state.slots
    queue := files.queue.entries
    admissions := files.state.admissions
    settings := ctx.settings
    request :=
      { class_ := ctx.class_
        workstream := ctx.workstream
        start := ctx.start
        parent := (parent.bind fun i => files.state.slots[i]?).map
          fun s => parentStart host s ctx.recipe
        seq := ticket
        deadline := deadline } }

/- The limit of an evaluation is stored with its time. -/
def storeLimit (now : ℤ) (d : Decision) (state : State) : State :=
  if d.evaluated then
    { state with
      limit := d.limitAfter
      lastEvaluatedAt := some now }
  else
    state

def queueFull (files : Files) : FailOpen :=
  .new .queueFull
    (toString files.queue.entries.length ++ " requests are already waiting")

/- One round on the files as they were loaded. -/
def roundLoaded
    (render : Render) (host : Host) (ctx : AdmitContext)
    (treeId : String) (deadline : ℤ)
    (loaded : Files × Option FailOpen) (ticket : Option ℕ) :
    Round :=
  let max_ := max ctx.settings.maxConcurrency 1
  let files := prepare host max_ loaded.1
  let ticket := checkTicket host files.queue ticket
  match loaded.2 with
  | some fault =>
    failOpenRound host.now fault
      { files with queue := takeTicket files.queue ticket }
      none
  | none =>
    let parent := parentOf host ctx files.state.slots
    let files :=
      { files with
        history := recordSamples files.history host.snapshots }
    if parent.isNone && ticket.isNone &&
        governorQueueCap ≤ files.queue.entries.length then
      failOpenRound host.now (queueFull files) files ticket
    else
      let d := Governor.decide render
        (inputsOf host ctx deadline parent files ticket)
        host.now
      settleRound host ctx treeId deadline parent d
        { files with
          state := storeLimit host.now d files.state }
        ticket

def round
    (render : Render) (sizes : Sizes) (host : Host)
    (ctx : AdmitContext) (treeId : String) (deadline : ℤ)
    (disk : Disk) (ticket : Option ℕ) :
    Round :=
  roundLoaded render host ctx treeId deadline
    (loadAll sizes host.now disk) ticket

end Governor
