import Amplihack.Base.Dict
import Amplihack.Governor.Round

/-
  The JSON state file that the session manager and the VM pool
  share, with the reads and the locked merge of one key.

  VM provisioning and reuse through the `azlin` tool.

  The pool of VMs with their capacity and the sessions that
  run on them.
-/

-- Contents

namespace Remote

open Base

/-
  What a key of the object holds. A value that does not parse
  is kept apart by whether it is an object at all.
-/
inductive Slot (α : Type) where
| absent
| entries (map : Dict String α)
| malformed (isObject : Bool)

/-
  What the file holds, for session records `S` and pool
  entries `E`. `null` reads and merges as an object with no
  key; other keys of the object are carried along unread.
-/
inductive StateFile (S E : Type) where
| missing
| blank
| corrupt
| notObject
| object (sessions : Slot S) (vmPool : Slot E)

/- What is left of a file whose write stopped half way. -/
inductive Remains where
| blank
| corrupt

/- How the file system answers one locked merge. -/
inductive IoAnswer where
| fine
| lockFails
| dirFails
| readFails
| writeFails (left : Remains)

inductive StateReadError where
| io
| corrupt
deriving DecidableEq

inductive StateWriteError where
| read (e : StateReadError)
| lock
| io
| panicked
deriving DecidableEq

variable {S E : Type}

-- Reading

namespace Slot

variable {α : Type}

/- The entries a manager starts from, when the key parses. -/
def read : Slot α → Except StateReadError (Dict String α)
| .absent => .ok Dict.empty
| .entries map => .ok map
| .malformed _ => .error .corrupt

/- The entries stored under the key. -/
def stored : Slot α → Dict String α
| .entries map => map
| _ => Dict.empty

end Slot

namespace StateFile

def sessions : StateFile S E → Dict String S
| .object sessions _ => sessions.stored
| _ => Dict.empty

def vmPool : StateFile S E → Dict String E
| .object _ vmPool => vmPool.stored
| _ => Dict.empty

def ofRemains : Remains → StateFile S E
| .blank => .blank
| .corrupt => .corrupt

end StateFile

/-
  `readJsonState`: no value for a missing or blank file, the
  values of both keys, or the error of a file that does not
  parse. A value that is not an object has no key.
-/
def readJsonState :
    StateFile S E → Except StateReadError (Option (Slot S × Slot E))
| .missing | .blank => .ok none
| .corrupt => .error .corrupt
| .notObject => .ok (some (.absent, .absent))
| .object sessions vmPool => .ok (some (sessions, vmPool))

/- `read_keyed_state(path, "sessions")`, empty by default. -/
def readSessions (file : StateFile S E) :
    Except StateReadError (Dict String S) := do
  match ← readJsonState file with
  | none => pure Dict.empty
  | some (sessions, _) => sessions.read

/- `read_keyed_state(path, "vm_pool")`, empty by default. -/
def readVmPool (file : StateFile S E) :
    Except StateReadError (Dict String E) := do
  match ← readJsonState file with
  | none => pure Dict.empty
  | some (_, vmPool) => vmPool.read

-- The locked merge

inductive KeyValue (S E : Type) where
| sessions (map : Dict String S)
| vmPool (map : Dict String E)

/-
  `existing[key] = value`. The assignment panics on a value
  that is neither an object nor null.
-/
def setKey (file : StateFile S E) :
    KeyValue S E → Except StateWriteError (StateFile S E)
| .sessions map =>
  match file with
  | .missing | .blank => .ok (.object (.entries map) .absent)
  | .corrupt => .error (.read .corrupt)
  | .notObject => .error .panicked
  | .object _ vmPool => .ok (.object (.entries map) vmPool)
| .vmPool map =>
  match file with
  | .missing | .blank => .ok (.object .absent (.entries map))
  | .corrupt => .error (.read .corrupt)
  | .notObject => .error .panicked
  | .object sessions _ => .ok (.object sessions (.entries map))

/- The write: a failed one leaves part of the text. -/
def write (io : IoAnswer) (file next : StateFile S E) :
    Except StateWriteError Unit × StateFile S E :=
  match io with
  | .writeFails left => (.error .io, .ofRemains left)
  | .fine => (.ok (), next)
  | _ => (.error .io, file)

def mergeKeyIntoState
    (io : IoAnswer) (kv : KeyValue S E) (file : StateFile S E) :
    Except StateWriteError Unit × StateFile S E :=
  match io with
  | .lockFails => (.error .lock, file)
  | .dirFails => (.error .io, file)
  | .readFails => (.error (.read .io), file)
  | io =>
    match setKey file kv with
    | .error e => (.error e, file)
    | .ok next => write io file next

/- Whether the key can be set in the file. -/
def StateFile.Mergeable : StateFile S E → Bool
| .corrupt | .notObject => false
| _ => true

theorem setKey_ok_iff
    (file : StateFile S E) (kv : KeyValue S E) :
    (∃ next, setKey file kv = .ok next) ↔ file.Mergeable = true := by
  cases kv <;> cases file <;>
    simp [setKey, StateFile.Mergeable]

/- The merge reports success exactly when it was written. -/
theorem mergeKeyIntoState_ok_iff
    (io : IoAnswer) (kv : KeyValue S E) (file : StateFile S E) :
    (mergeKeyIntoState io kv file).1 = .ok () ↔
      io = .fine ∧ file.Mergeable = true := by
  rw [← setKey_ok_iff file kv]
  cases hSet : setKey file kv <;> cases io <;>
    simp [mergeKeyIntoState, hSet, write]

/- What becomes of the file in one merge. -/
inductive Outcome where
| unchanged
| cut
| written
deriving DecidableEq

def mergeOutcome (io : IoAnswer) (file : StateFile S E) :
    Outcome :=
  match io with
  | .fine => if file.Mergeable then .written else .unchanged
  | .writeFails _ => if file.Mergeable then .cut else .unchanged
  | _ => .unchanged

variable {io : IoAnswer} {kv : KeyValue S E}
variable {file : StateFile S E}

theorem mergeKeyIntoState_of_unchanged
    (hOutcome : mergeOutcome io file = .unchanged) :
    (mergeKeyIntoState io kv file).2 = file := by
  cases io <;> cases file <;> cases kv <;>
    simp_all [mergeOutcome, mergeKeyIntoState, setKey, StateFile.Mergeable]

theorem mergeKeyIntoState_of_cut
    (hOutcome : mergeOutcome io file = .cut) :
    ∃ left, (mergeKeyIntoState io kv file).2 = .ofRemains left := by
  cases io <;> cases file <;> cases kv <;>
    simp_all [mergeOutcome, mergeKeyIntoState, setKey, write,
      StateFile.Mergeable]

theorem mergeSessions_of_written
    {map : Dict String S} (hOutcome : mergeOutcome io file = .written) :
    (mergeKeyIntoState io (.sessions map) file).2.sessions = map ∧
      (mergeKeyIntoState io (.sessions map) file).2.vmPool =
        file.vmPool := by
  cases io <;> cases file <;>
    simp_all [mergeOutcome, mergeKeyIntoState, setKey, write,
      StateFile.Mergeable, StateFile.sessions, StateFile.vmPool, Slot.stored]

theorem mergeVmPool_of_written
    {map : Dict String E} (hOutcome : mergeOutcome io file = .written) :
    (mergeKeyIntoState io (.vmPool map) file).2.sessions = file.sessions ∧
      (mergeKeyIntoState io (.vmPool map) file).2.vmPool =
        map := by
  cases io <;> cases file <;>
    simp_all [mergeOutcome, mergeKeyIntoState, setKey, write,
      StateFile.Mergeable, StateFile.sessions, StateFile.vmPool, Slot.stored]

@[simp] theorem sessions_ofRemains (left : Remains) :
    (StateFile.ofRemains left : StateFile S E).sessions =
      Dict.empty := by
  cases left <;> rfl

@[simp] theorem vmPool_ofRemains (left : Remains) :
    (StateFile.ofRemains left : StateFile S E).vmPool =
      Dict.empty := by
  cases left <;> rfl

end Remote

-- Machines and options

namespace Remote

/- A VM; the instants are nanoseconds since the epoch. -/
structure VM where
  name : String
  size : String
  region : String
  createdAt : Option ℤ
  tags : Option (List (String × String))

structure VMOptions where
  size : String := "Standard_D2s_v3"
  region : Option String := none
  vmName : Option String := none
  noReuse : Bool := false
  azlinExtraArgs : Option (List String) := none

/-
  The kinds of `RemoteError` that the pool returns. A
  packaging error shows the text of the error it carries.
-/
inductive RemoteError where
| provisioning (message : String)
| packaging (cause : StateWriteError)
deriving DecidableEq

/-
  What one call sees of `azlin`: the clock, the parsed
  listing when one of the two listings could be run, the
  machine of a given name, and how the last attempt of the
  retry loop to make a machine ends.
-/
structure AzlinAnswers where
  now : ℤ
  listed : Option (List VM)
  byName : String → Except RemoteError VM
  timestamp : String
  created : Except RemoteError ℤ

-- Reuse or provision

/- Whole seconds since the machine was made, rounded to 0. -/
def VM.ageSeconds (vm : VM) (now : ℤ) : ℤ :=
  match vm.createdAt with
  | some ts => (now - ts).tdiv 1000000000
  | none => 0

/-
  The first listed machine that may be reused. Its age in
  hours is over 24.0 exactly when it is over 86400 seconds.
-/
def findReusableVm
    (az : AzlinAnswers) (options : VMOptions) :
    Option VM :=
  match az.listed with
  | none => none
  | some vms =>
    vms.find? fun vm =>
      "amplihack-".toList.isPrefixOf vm.name.toList &&
        vm.size == options.size &&
        !(86400 < vm.ageSeconds az.now)

def provisionNewVm
    (username : String) (az : AzlinAnswers) (options : VMOptions) :
    Except RemoteError VM := do
  let createdAt ← az.created
  pure
    { name := "amplihack-" ++ username ++ "-" ++ az.timestamp
      size := options.size
      region := options.region.getD "default"
      createdAt := some createdAt
      tags := some [("amplihack_workflow", "true")] }

def provisionOrReuse
    (username : String) (az : AzlinAnswers) (options : VMOptions) :
    Except RemoteError VM :=
  match options.vmName with
  | some name => az.byName name
  | none =>
    match options.noReuse, findReusableVm az options with
    | false, some vm => .ok vm
    | _, _ => provisionNewVm username az options

end Remote

-- Entries

namespace Remote

open Base

inductive VMSize where
| s
| m
| l
| xl
deriving DecidableEq

namespace VMSize

def capacity : VMSize → ℕ
| s => 1
| m => 2
| l => 4
| xl => 8

def azureSize : VMSize → String
| s => "Standard_D8s_v3"
| m => "Standard_E8s_v5"
| l => "Standard_E16s_v5"
| xl => "Standard_E32s_v5"

theorem capacity_pos (size : VMSize) : 1 ≤ size.capacity := by
  cases size <;> decide

end VMSize

structure VMPoolEntry where
  vm : VM
  capacity : ℕ
  activeSessions : List String
  region : String

def VMPoolEntry.availableCapacity (e : VMPoolEntry) : ℕ :=
  e.capacity - e.activeSessions.length

abbrev VMPool := Dict String VMPoolEntry

/- The order in which `values_mut` visits the entries. -/
structure IterationOrder where
  visit : VMPool → List (String × VMPoolEntry)
  perm : ∀ pool, (visit pool).Perm pool.entries

def IterationOrder.stored : IterationOrder where
  visit := Dict.entries
  perm _ := List.Perm.refl _

/- What one call sees of the world. -/
structure PoolAnswers where
  order : IterationOrder
  azlin : AzlinAnswers
  io : IoAnswer

/- The first visited entry that satisfies `p`. -/
def firstEntry
    (order : IterationOrder) (p : VMPoolEntry → Bool) (pool : VMPool) :
    Option (String × VMPoolEntry) :=
  (order.visit pool).find? fun visited => p visited.2

variable {order : IterationOrder} {p : VMPoolEntry → Bool}
variable {pool : VMPool} {k : String} {e : VMPoolEntry}

theorem get?_of_firstEntry
    (hFirst : firstEntry order p pool = some (k, e)) :
    pool.get? k = some e ∧ p e = true := by
  have hMem : (k, e) ∈ order.visit pool := List.mem_of_find?_eq_some hFirst
  refine ⟨?_, by simpa using List.find?_some hFirst⟩
  rw [Dict.get?_eq_some_iff]
  exact (order.perm pool).mem_iff.mp hMem

theorem firstEntry_eq_none
    (hFirst : firstEntry order p pool = none) (hGet : pool.get? k = some e) :
    p e = false := by
  rw [Dict.get?_eq_some_iff] at hGet
  have hMem := (order.perm pool).mem_iff.mpr hGet
  simpa using List.find?_eq_none.mp hFirst _ hMem

-- Allocation

/- `session_id.trim().is_empty()` -/
def isBlank (text : String) : Bool :=
  (Governor.trim text.toList).isEmpty

def VMPoolEntry.isReusable
    (region : String) (e : VMPoolEntry) :
    Bool :=
  e.region == region && e.availableCapacity != 0

def VMPoolEntry.push
    (sessionId : String) (e : VMPoolEntry) :
    VMPoolEntry :=
  { e with activeSessions := e.activeSessions ++ [sessionId] }

def reusableEntry
    (ans : PoolAnswers) (region : String) (pool : VMPool) :
    Option (String × VMPoolEntry) :=
  firstEntry ans.order (VMPoolEntry.isReusable region) pool

/- The options under which the pool asks for a machine. -/
def poolOptions (size : VMSize) (region : String) : VMOptions :=
  { size := size.azureSize
    region := some region
    noReuse := false }

def freshEntry
    (vm : VM) (sessionId : String) (size : VMSize) (region : String) :
    VMPoolEntry where
  vm := vm
  capacity := size.capacity
  activeSessions := [sessionId]
  region := region

/- What `allocate_vm` does to the map before it saves it. -/
def allocateInMemory
    (username : String) (ans : PoolAnswers) (sessionId : String)
    (size : VMSize) (region : String) (pool : VMPool) :
    Except RemoteError (VM × VMPool) :=
  if isBlank sessionId then
    .error (.provisioning "session_id cannot be empty")
  else
    match reusableEntry ans region pool with
    | some (name, e) =>
      .ok (e.vm, pool.modify name (VMPoolEntry.push sessionId))
    | none => do
        let vm ← provisionOrReuse username ans.azlin
          (poolOptions size region)
        -- An entry of that name is replaced, sessions and all.
        pure (vm, pool.insert vm.name (freshEntry vm sessionId size region))

variable {S : Type}

def savePool
    (io : IoAnswer) (pool : VMPool) (file : StateFile S VMPoolEntry) :
    Except StateWriteError Unit × StateFile S VMPoolEntry :=
  mergeKeyIntoState io (.vmPool pool) file

/- A manager's map and the file it saves to. -/
structure PoolState (S : Type) where
  pool : VMPool
  file : StateFile S VMPoolEntry

/- The memory keeps the change when the save fails. -/
def allocateVm
    (username : String) (ans : PoolAnswers) (sessionId : String)
    (size : VMSize) (region : String) (state : PoolState S) :
    Except RemoteError VM × PoolState S :=
  match allocateInMemory username ans sessionId size region
      state.pool with
  | .error e => (.error e, state)
  | .ok (vm, pool) =>
    let saved := savePool ans.io pool state.file
    match saved.1 with
    | .error e => (.error (.packaging e), ⟨pool, saved.2⟩)
    | .ok () => (.ok vm, ⟨pool, saved.2⟩)

-- Release

def VMPoolEntry.erase
    (sessionId : String) (e : VMPoolEntry) :
    VMPoolEntry :=
  { e with activeSessions := e.activeSessions.erase sessionId }

/- The map without the session, when some entry has it. -/
def releaseInMemory
    (order : IterationOrder) (sessionId : String) (pool : VMPool) :
    Option VMPool :=
  match firstEntry order
      (fun e => e.activeSessions.contains sessionId) pool with
  | none => none
  | some (name, _) =>
    some (pool.modify name (VMPoolEntry.erase sessionId))

/- A save that fails is only logged. -/
def releaseSession
    (ans : PoolAnswers) (sessionId : String) (state : PoolState S) :
    PoolState S :=
  match releaseInMemory ans.order sessionId state.pool with
  | none => state
  | some pool => ⟨pool, (savePool ans.io pool state.file).2⟩

def VMPoolEntry.without
    (sessionId : String) (e : VMPoolEntry) :
    VMPoolEntry :=
  { e with
    activeSessions :=
      e.activeSessions.filter (fun s => s ≠ sessionId) }

variable {sessionId : String}

theorem VMPoolEntry.without_of_not_mem
    (hAbsent : sessionId ∉ e.activeSessions) :
    e.without sessionId = e := by
  have hKeep :
      e.activeSessions.filter (fun s => s ≠ sessionId) =
        e.activeSessions := by
    rw [List.filter_eq_self]
    intro s hMem
    simp only [decide_eq_true_eq]
    rintro rfl
    exact hAbsent hMem
  rw [VMPoolEntry.without, hKeep]

theorem VMPoolEntry.erase_eq_without
    (hNodup : e.activeSessions.Nodup) :
    e.erase sessionId = e.without sessionId := by
  have hErase :
      e.activeSessions.erase sessionId =
        e.activeSessions.filter (fun s => s ≠ sessionId) := by
    rw [hNodup.erase_eq_filter]
    apply List.filter_congr
    intro s _
    rw [Bool.eq_iff_iff]
    simp
  rw [VMPoolEntry.erase, VMPoolEntry.without, hErase]

/- The release removes the named session and nothing else. -/
theorem get?_releaseInMemory
    (hOnce : PlacedOnce VMPoolEntry.activeSessions pool)
    (order : IterationOrder) (sessionId : String) (k : String) :
    ((releaseInMemory order sessionId pool).getD pool).get? k =
      (pool.get? k).map (VMPoolEntry.without sessionId) := by
  cases hFirst : firstEntry order
      (fun e => e.activeSessions.contains sessionId) pool with
  | none =>
    simp only [releaseInMemory, hFirst, Option.getD_none]
    cases hGet : pool.get? k with
    | none => rfl
    | some e =>
      have hAbsent := firstEntry_eq_none hFirst hGet
      rw [Option.map_some, VMPoolEntry.without_of_not_mem]
      simpa using hAbsent
  | some found =>
    rcases found with ⟨name, e⟩
    rcases get?_of_firstEntry hFirst with ⟨hNamed, hHas⟩
    have hMem : sessionId ∈ e.activeSessions := by simpa using hHas
    simp only [releaseInMemory, hFirst, Option.getD_some, Dict.get?_modify]
    by_cases hKey : k = name
    · subst hKey
      rw [if_pos rfl, hNamed, Option.map_some, Option.map_some,
        VMPoolEntry.erase_eq_without (hOnce.nodup k e hNamed)]
    · rw [if_neg hKey]
      cases hGet : pool.get? k with
      | none => rfl
      | some e' =>
        rw [Option.map_some, VMPoolEntry.without_of_not_mem]
        intro hMem'
        exact hKey (hOnce.holder k name e' e sessionId hGet hNamed hMem' hMem)

end Remote
