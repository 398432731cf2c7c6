import Amplihack.AutoSwitch.Candidate
import Amplihack.Base.Moves
import Amplihack.Base.Program

/-
  Moving logins between profile directories: the swap in a
  session, the return when a session ends, and recovery.

  A login is named by the account it belongs to. Each run
  holds the global lock, and every file operation is one
  step, which may fail before or after it took effect.
-/

-- Ledger and journal

namespace AutoSwitch

open Base Profile

/- The account that a directory hosts. -/
structure HostEntry where
  live : ProfileName
  swappedAt : ℤ
  preSwapFingerprint : Option String

/- The names are parsed when the file is loaded. -/
structure Ledger where
  hosts : Dict ProfileName HostEntry

namespace Ledger

def default : Ledger where
  hosts := .empty

/- The directory `name` is live in, other than its own. -/
def leasedTo (ledger : Ledger) (name : ProfileName) :
    Option ProfileName :=
  (ledger.hosts.entries.find? fun e =>
    e.2.live = name && e.1 != name).map Prod.fst

def hosting (ledger : Ledger) (name : ProfileName) : Bool :=
  (ledger.hosts.get? name).isSome

end Ledger

inductive Op where
| swap
| return_
deriving DecidableEq

/- `from_` goes out of `dir`, and `to_` comes in. -/
structure Journal where
  op : Op
  dir : ProfileName
  from_ : ProfileName
  fromPresent : Bool
  to_ : ProfileName
  phase : String
  startedAt : ℤ
  pid : ℕ
  fingerprint : Option String
  refreshLockIno : Option ℕ

def phaseInconsistent : String := "inconsistent"

-- Places

/- The login file of a directory, and its parked slot. -/
inductive Place where
| live (dir : ProfileName)
| parked (name : ProfileName)
deriving DecidableEq

/- An account's own directory, unless that hosts another. -/
def Ledger.homeSlot (ledger : Ledger) (name : ProfileName) :
    Place :=
  if ledger.hosting name then .parked name else .live name

/- The home slot while the live login of `dir` changes. -/
def slot (ledger : Ledger) (dir account : ProfileName) : Place :=
  if account = dir then .parked dir
  else ledger.homeSlot account

-- Files

/- `refresh` has the inodes of Claude's refresh locks. -/
structure World where
  login : Place → Option ProfileName
  ledger : Option Ledger
  journal : Option Journal
  disabled : ProfileName → Bool
  refresh : ProfileName → Option ℕ
  nextIno : ℕ

inductive MoveError where
| exists_
| unsupported
| other
deriving DecidableEq

/- What stopped a run; each is one message of the source. -/
inductive SwapError where
| stoppedHalfWay (to_ dir : ProfileName)
| misplaced (dir : ProfileName)
| notReturned (dir : ProfileName)
| alreadyThere (to_ : ProfileName)
| notMovedBack
| renameUnsupported (dir : ProfileName)
| moveFailed
| fileFailed
deriving DecidableEq

inductive FileOp where
| loadLedger
| saveLedger (ledger : Ledger)
| loadJournal
| saveJournal (journal : Journal)
| deleteJournal
| ensureParked (dir : ProfileName)
| exists_ (p : Place)
| movableLogin (p : Place)
| moveLogin (src dst : Place)
| swapsDisabled (dir : ProfileName)
| markDisabled (dir : ProfileName)
| takeRefreshLock (dir : ProfileName)
| releaseRefreshLock (dir : ProfileName) (ino : ℕ)

def Reply : FileOp → Type
| .loadLedger => Except SwapError Ledger
| .loadJournal => Except SwapError (Option Journal)
| .saveLedger _ => Except SwapError Unit
| .saveJournal _ => Except SwapError Unit
| .deleteJournal => Except SwapError Unit
| .ensureParked _ => Except SwapError Unit
| .exists_ _ => Bool
| .movableLogin _ => Bool
| .moveLogin _ _ => Except MoveError Unit
| .swapsDisabled _ => Bool
| .markDisabled _ => Except SwapError Unit
| .takeRefreshLock _ => Option ℕ
| .releaseRefreshLock _ _ => Unit

/-
  An operation fails with no effect, or reports a failure
  (a failed sync) after it took effect.
-/
inductive Fault where
| none
| before
| unsupported
| after
deriving DecidableEq

/- A rename without replacement, as far as it is possible. -/
def World.renamed (w : World) (src dst : Place) : World :=
  if (w.login src).isSome && (w.login dst).isNone then
    { w with login := moved w.login src dst }
  else w

def moveReply (w : World) (fault : Fault) (src dst : Place) :
    Except MoveError Unit :=
  match fault with
  | .unsupported => .error .unsupported
  | .before => .error .other
  | .none =>
    if (w.login src).isNone then .error .other
    else if (w.login dst).isSome then .error .exists_
    else .ok ()
  | .after =>
    if (w.login src).isSome && (w.login dst).isSome then
      .error .exists_
    else .error .other

def writeReply : Fault → Except SwapError Unit
| .none => .ok ()
| _ => .error .fileFailed

def loadReply {α : Type} (fault : Fault) (a : α) :
    Except SwapError α :=
  match fault with
  | .none => .ok a
  | _ => .error .fileFailed

/- The world once the operation has taken effect. -/
def World.apply (w : World) : FileOp → World
| .saveLedger ledger => { w with ledger := some ledger }
| .saveJournal journal => { w with journal := some journal }
| .deleteJournal => { w with journal := none }
| .moveLogin src dst => w.renamed src dst
| .markDisabled dir =>
  { w with disabled := Function.update w.disabled dir true }
| .takeRefreshLock dir =>
  if (w.refresh dir).isNone then
    { w with
      refresh := Function.update w.refresh dir (some w.nextIno)
      nextIno := w.nextIno + 1 }
  else w
| .releaseRefreshLock dir ino =>
  if w.refresh dir = some ino then
    { w with refresh := Function.update w.refresh dir none }
  else w
| _ => w

def Fault.takesEffect : Fault → Bool
| .none => true
| .before => false
| .unsupported => false
| .after => true

/- The files under one operation at a time. -/
def files : Service World Fault Reply where
  after w fault op :=
    if fault.takesEffect then w.apply op else w
  reply w fault op :=
    match op with
    | .loadLedger => loadReply fault (w.ledger.getD .default)
    | .loadJournal => loadReply fault w.journal
    | .saveLedger _ => writeReply fault
    | .saveJournal _ => writeReply fault
    | .deleteJournal => writeReply fault
    | .ensureParked _ => writeReply fault
    | .exists_ p => (w.login p).isSome
    | .movableLogin p => (w.login p).isSome && fault = .none
    | .moveLogin src dst => moveReply w fault src dst
    | .swapsDisabled dir => w.disabled dir
    | .markDisabled _ => writeReply fault
    | .takeRefreshLock dir =>
      if (w.refresh dir).isNone && fault = .none then
        some w.nextIno
      else none
    | .releaseRefreshLock _ _ => ()

-- A transfer

abbrev Files (α : Type) : Type := Program Reply α

def perform (op : FileOp) : Files (Reply op) :=
  Program.perform op

def fileExists (p : Place) : Files Bool :=
  perform (.exists_ p)

def movableLogin (p : Place) : Files Bool :=
  perform (.movableLogin p)

def swapsDisabled (dir : ProfileName) : Files Bool :=
  perform (.swapsDisabled dir)

def takeRefreshLock (dir : ProfileName) : Files (Option ℕ) :=
  perform (.takeRefreshLock dir)

/- Everything is frozen until a person has looked at it. -/
def freeze (j : Journal) (why : SwapError) : Files SwapError := do
  let _ ← perform
    (.saveJournal { j with phase := phaseInconsistent })
  return why

/- The moves of `undo` in order; `false` when one fails. -/
def undoMoves : List (Place × Place) → Files Bool
| [] => return true
| (src, dst) :: rest => do
    match ← perform (.moveLogin src dst) with
    | .error _ => return false
    | .ok () => undoMoves rest

/- Why a move failed; a rename that cannot work disables. -/
def failure (j : Journal) : MoveError → Files SwapError
| .unsupported => do
    let _ ← perform (.markDisabled j.dir)
    return .renameUnsupported j.dir
| _ => return .moveFailed

/- Nothing is left of the transfer but the message. -/
def abandon (j : Journal) (e : MoveError) : Files SwapError := do
  let why ← failure j e
  let _ ← perform .deleteJournal
  return why

/- A failed move is undone, or freezes everything. -/
def fail
    (j : Journal) (e : MoveError) (undo : List (Place × Place)) :
    Files SwapError := do
  if e = .exists_ then freeze j (.alreadyThere j.to_)
  else
    match ← undoMoves undo with
    | false => freeze j .notMovedBack
    | true => abandon j e

/- The ledger with the move of `j` done. -/
def Ledger.finished (ledger : Ledger) (j : Journal) : Ledger where
  hosts :=
    if j.to_ = j.dir then ledger.hosts.remove j.dir
    else
      ledger.hosts.insert j.dir
        { live := j.to_
          swappedAt := j.startedAt
          preSwapFingerprint := j.fingerprint }

def finish (ledger : Ledger) (j : Journal) :
    Files (Except SwapError Ledger) := do
  let ledger := ledger.finished j
  match ← perform (.saveLedger ledger) with
  | .error e => return .error e
  | .ok () => return .ok ledger

def finishTransfer (ledger : Ledger) (j : Journal) :
    Files (Except SwapError Ledger) := do
  match ← finish ledger j with
  | .error e => return .error e
  | .ok ledger =>
    match ← perform .deleteJournal with
    | .error e => return .error e
    | .ok () => return .ok ledger

/- The incoming login, once the outgoing one has gone. -/
def moveIn (ledger : Ledger) (j : Journal) :
    Files (Except SwapError Ledger) := do
  let live := Place.live j.dir
  let fromSlot := slot ledger j.dir j.from_
  let toSlot := slot ledger j.dir j.to_
  match ← perform (.moveLogin toSlot live) with
  | .error e =>
    let undo :=
      if j.fromPresent then [(fromSlot, live)] else []
    return .error (← fail j e undo)
  | .ok () => finishTransfer ledger j

/- The outgoing login goes to its slot, if there is one. -/
def moveOut (ledger : Ledger) (j : Journal) :
    Files (Except SwapError Ledger) := do
  if j.fromPresent then
    match ← perform (.moveLogin (.live j.dir)
        (slot ledger j.dir j.from_)) with
    | .error e => return .error (← fail j e [])
    | .ok () => moveIn ledger j
  else
    moveIn ledger j

def transfer (ledger : Ledger) (j : Journal) :
    Files (Except SwapError Ledger) := do
  match ← perform (.ensureParked j.dir) with
  | .error e => return .error e
  | .ok () =>
    let j := { j with phase := "J0" }
    match ← perform (.saveJournal j) with
    | .error e => return .error e
    | .ok () => moveOut ledger j

-- Recovery and return

/- Claude's refresh lock, if it is still the one taken. -/
def releaseRefreshLock (dir : ProfileName) (ino : Option ℕ) :
    Files Unit :=
  match ino with
  | some ino => perform (.releaseRefreshLock dir ino)
  | none => return ()

def settleJournal (ledger : Ledger) (j : Journal) :
    Files (Except SwapError Ledger) := do
  releaseRefreshLock j.dir j.refreshLockIno
  match ← perform .deleteJournal with
  | .error e => return .error e
  | .ok () => return .ok ledger

/- The incoming login never arrived: the other goes back. -/
def rollBack
    (ledger : Ledger) (j : Journal) (liveThere fromThere : Bool) :
    Files (Except SwapError Ledger) := do
  match liveThere, j.fromPresent && fromThere with
  | true, true => return .error (.misplaced j.dir)
  | true, false => settleJournal ledger j
  | false, true =>
    match ← perform (.moveLogin (slot ledger j.dir j.from_)
        (.live j.dir)) with
    | .error _ => return .error (.misplaced j.dir)
    | .ok () => settleJournal ledger j
  | false, false =>
    if j.fromPresent then return .error (.misplaced j.dir)
    else settleJournal ledger j

/- By where the logins are, the move is finished or undone. -/
def resolveBy
    (ledger : Ledger) (j : Journal) (liveThere fromThere toThere : Bool) :
    Files (Except SwapError Ledger) := do
  if toThere then rollBack ledger j liveThere fromThere
  else if liveThere then
    match ← finish ledger j with
    | .error e => return .error e
    | .ok ledger => settleJournal ledger j
  else return .error (.misplaced j.dir)

/- An interrupted move is settled, unless it is frozen. -/
def resolveJournal (ledger : Ledger) (j : Journal) :
    Files (Except SwapError Ledger) := do
  if j.phase = phaseInconsistent then
    return .error (.stoppedHalfWay j.to_ j.dir)
  else
    let liveThere ← fileExists (.live j.dir)
    let fromThere ← fileExists (slot ledger j.dir j.from_)
    let toThere ← fileExists (slot ledger j.dir j.to_)
    resolveBy ledger j liveThere fromThere toThere

/- What a process knows when it recovers. -/
structure Scan where
  live : ProfileName → Bool
  now : ℤ
  pid : ℕ

def unhosted (ledger : Ledger) (dir : ProfileName) : Ledger where
  hosts := ledger.hosts.remove dir

/- The hosted login goes home; the owner's is elsewhere. -/
def returnHosted
    (ledger : Ledger) (dir : ProfileName) (host : HostEntry) :
    Files (Except SwapError Ledger) := do
  let finish : Files (Except SwapError Ledger) := do
    match ← perform (.saveLedger (unhosted ledger dir)) with
    | .error e => return .error e
    | .ok () => return .ok (unhosted ledger dir)
  if ← fileExists (.live dir) then
    match ← perform (.moveLogin (.live dir)
        (ledger.homeSlot host.live)) with
    | .error _ => return .error (.notReturned dir)
    | .ok () => finish
  else finish

def returnJournal
    (scan : Scan) (dir : ProfileName) (host : HostEntry)
    (fromPresent : Bool) :
    Journal where
  op := .return_
  dir := dir
  from_ := host.live
  fromPresent := fromPresent
  to_ := dir
  phase := ""
  startedAt := scan.now
  pid := scan.pid
  fingerprint := none
  refreshLockIno := none

/- Directory `dir`, hosting `host.live`, goes to its owner. -/
def returnDir
    (scan : Scan) (ledger : Ledger) (dir : ProfileName) (host : HostEntry) :
    Files (Except SwapError Ledger) := do
  if ← fileExists (.parked dir) then
    let fromPresent ← fileExists (.live dir)
    transfer ledger (returnJournal scan dir host fromPresent)
  else
    returnHosted ledger dir host

/- The hosted directories that are no longer live. -/
def returnAll (scan : Scan) :
    List (ProfileName × HostEntry) → Ledger → Files (Except SwapError Ledger)
| [], ledger => return .ok ledger
| (dir, host) :: rest, ledger => do
    if scan.live dir then returnAll scan rest ledger
    else
      match ← returnDir scan ledger dir host with
      | .error e => return .error e
      | .ok ledger => returnAll scan rest ledger

def recover (scan : Scan) : Files (Except SwapError Ledger) := do
  match ← perform .loadLedger with
  | .error e => return .error e
  | .ok ledger =>
    match ← perform .loadJournal with
    | .error e => return .error e
    | .ok none =>
      returnAll scan ledger.hosts.entries ledger
    | .ok (some j) =>
      match ← resolveJournal ledger j with
      | .error e => return .error e
      | .ok ledger =>
        returnAll scan ledger.hosts.entries ledger

-- The swap in a session

def cooldownSecs : ℤ := 300

/- The account that a session's reading belongs to. -/
def attribution
    (owner : ProfileName) (host : Option HostEntry)
    (fingerprint : String) (now : ℤ) :
    Option ProfileName :=
  match host with
  | none => some owner
  | some host =>
    if now - host.swappedAt < cooldownSecs then none
    else if host.preSwapFingerprint = some fingerprint then
      none
    else some host.live

/- What a swap check in `owner`'s directory reads. -/
structure SwapInputs where
  scan : Scan
  owner : ProfileName
  supported : Bool
  exhausted : Bool
  fingerprint : String
  pool : Pool
  overflow : OverflowPool

/- The profiles whose slot holds a login that may be moved. -/
def movables (ledger : Ledger) (owner : ProfileName) :
    List ProfileName → Files (List ProfileName)
| [] => return []
| p :: rest => do
    let there ← movableLogin (slot ledger owner p)
    let others ← movables ledger owner rest
    return if there then p :: others else others

/- A candidate's home slot holds its login, and it is free. -/
def eligible
    (inputs : SwapInputs) (ledger : Ledger)
    (movable : List ProfileName) (c : ProfileName) :
    Bool :=
  !inputs.overflow.notPlan.contains c &&
    (ledger.leasedTo c).isNone && movable.contains c &&
    (ledger.hosting c || c = inputs.owner || !inputs.scan.live c)

def swapJournal
    (inputs : SwapInputs) (current target : ProfileName) (ino : ℕ) :
    Journal where
  op := .swap
  dir := inputs.owner
  from_ := current
  fromPresent := true
  to_ := target
  phase := ""
  startedAt := inputs.scan.now
  pid := inputs.scan.pid
  fingerprint := some inputs.fingerprint
  refreshLockIno := some ino

/- The transfer that a check has selected. -/
def swapTo
    (inputs : SwapInputs) (ledger : Ledger) (current target : ProfileName) :
    Files (Except SwapError Unit) := do
  match ← takeRefreshLock inputs.owner with
  | none => return .ok ()
  | some ino =>
    let result ← transfer ledger
      (swapJournal inputs current target ino)
    releaseRefreshLock inputs.owner (some ino)
    match result with
    | .error e => return .error e
    | .ok _ => return .ok ()

/- The check of a session whose account is `current`. -/
def swapFrom
    (inputs : SwapInputs) (ledger : Ledger) (current : ProfileName) :
    Files (Except SwapError Unit) := do
  if ← movableLogin (.live inputs.owner) then
    if !inputs.exhausted &&
        !onOverflow inputs.overflow current.text then
      return .ok ()
    else
      let movable ← movables ledger inputs.owner
        inputs.pool.profiles
      match selectWithOverflow inputs.pool inputs.overflow
          current.text (eligible inputs ledger movable) with
      | none => return .ok ()
      | some target => swapTo inputs ledger current target
  else return .ok ()

/- Nothing moves for a reading that nobody may have. -/
def swapIn (inputs : SwapInputs) (ledger : Ledger) :
    Files (Except SwapError Unit) := do
  match attribution inputs.owner
      (ledger.hosts.get? inputs.owner)
      inputs.fingerprint inputs.scan.now with
  | none => return .ok ()
  | some current => swapFrom inputs ledger current

/- The check of a session in `owner`'s directory. -/
def swapCheck (inputs : SwapInputs) :
    Files (Except SwapError Unit) := do
  match ← recover inputs.scan with
  | .error e => return .error e
  | .ok _ =>
    let disabled ← swapsDisabled inputs.owner
    if !inputs.supported || disabled then return .ok ()
    else
      match ← perform .loadLedger with
      | .error e => return .error e
      | .ok ledger => swapIn inputs ledger

end AutoSwitch
