import Amplihack.Base.Runs
import Amplihack.Governor.Round

/-
  The governor's files under any processes' rounds, releases
  and removals of waiting entries.

  Each event holds the store's lock from its load to its last
  write. A save writes history, queue and state in turn, and
  may stop before any of the three.
-/

-- Tree ids

namespace Governor

open Base

def hexDigit (n : ℕ) : Char :=
  ("0123456789abcdef".toList[n % 16]?).getD '0'

/- `width` hexadecimal digits, padded with zeros. -/
def hex (width n : ℕ) : List Char :=
  match width with
  | 0 => []
  | width + 1 => hex width (n / 16) ++ [hexDigit n]

/- A tree id of 64 bits of time and 32 bits of PID. -/
def newTreeId (nanos pid : ℕ) : String :=
  String.ofList (hex 16 nanos ++ hex 8 pid)

/- The tree id given, if it is valid, or a new one. -/
def treeIdFor (ctx : AdmitContext) (nanos pid : ℕ) : String :=
  (ctx.treeId.filter treeIdOk).getD (newTreeId nanos pid)

theorem hexDigit_mem (n : ℕ) :
    hexDigit n ∈ "0123456789abcdef".toList := by
  have hIndex : n % 16 < "0123456789abcdef".toList.length :=
    Nat.mod_lt n (by decide)
  unfold hexDigit
  rw [List.getElem?_eq_getElem hIndex]
  exact List.getElem_mem hIndex

@[simp]
theorem length_hex (width n : ℕ) :
    (hex width n).length = width := by
  induction width generalizing n with
  | zero => rfl
  | succ width ih => simp [hex, ih]

theorem mem_hex
    {width n : ℕ} {c : Char} (hMem : c ∈ hex width n) :
    c ∈ "0123456789abcdef".toList := by
  induction width generalizing n with
  | zero => simp [hex] at hMem
  | succ width ih =>
    rcases List.mem_append.1 hMem with hInit | hLast
    · exact ih hInit
    · rw [List.mem_singleton.1 hLast]
      exact hexDigit_mem n

/- A hexadecimal digit is one byte that a tree id may have. -/
theorem hexDigit_ok
    {c : Char} (hMem : c ∈ "0123456789abcdef".toList) :
    c.utf8Size = 1 ∧
      (isAsciiAlphanumeric c || c == '_' || c == '-') = true := by
  have hAll :
      ("0123456789abcdef".toList.all fun c =>
        c.utf8Size == 1 && (isAsciiAlphanumeric c || c == '_' || c == '-')) =
        true := by decide
  have hOk := List.all_eq_true.1 hAll c hMem
  rw [Bool.and_eq_true] at hOk
  exact ⟨eq_of_beq hOk.1, hOk.2⟩

theorem utf8ByteSize_ofList
    {cs : List Char} (hOne : ∀ c ∈ cs, c.utf8Size = 1) :
    (String.ofList cs).utf8ByteSize = cs.length := by
  induction cs with
  | nil => rfl
  | cons c cs ih =>
    rw [String.ofList_cons, String.utf8ByteSize_append,
      String.utf8ByteSize_singleton, hOne c List.mem_cons_self,
      ih fun d hMem => hOne d (List.mem_cons_of_mem c hMem)]
    simp [Nat.add_comm]

theorem treeIdOk_newTreeId (nanos pid : ℕ) :
    treeIdOk (newTreeId nanos pid) = true := by
  have hDigits :
      ∀ c ∈ hex 16 nanos ++ hex 8 pid, c ∈ "0123456789abcdef".toList := by
    intro c hMem
    rcases List.mem_append.1 hMem with hMem | hMem
    · exact mem_hex hMem
    · exact mem_hex hMem
  have hSize : (newTreeId nanos pid).utf8ByteSize = 24 := by
    unfold newTreeId
    rw [utf8ByteSize_ofList fun c hMem =>
      (hexDigit_ok (hDigits c hMem)).1]
    simp
  have hFull : newTreeId nanos pid ≠ "" := by
    intro hEmpty
    rw [hEmpty] at hSize
    simp at hSize
  have hChars :
      (newTreeId nanos pid).toList.all (fun c =>
        isAsciiAlphanumeric c || c == '_' || c == '-') =
          true := by
    rw [newTreeId, String.toList_ofList, List.all_eq_true]
    exact fun c hMem => (hexDigit_ok (hDigits c hMem)).2
  simp [treeIdOk, hSize, hFull, hChars, maxTreeId]

theorem treeIdOk_treeIdFor
    (ctx : AdmitContext) (nanos pid : ℕ) :
    treeIdOk (treeIdFor ctx nanos pid) = true := by
  unfold treeIdFor
  cases hGiven : ctx.treeId.filter treeIdOk with
  | none => exact treeIdOk_newTreeId nanos pid
  | some id => exact (Option.filter_eq_some_iff.1 hGiven).2

-- Saves, releases and waiting entries

namespace Disk

/- History, queue and state, as far as the save came. -/
def save (files : Files) (written : ℕ) (disk : Disk) : Disk where
  history :=
    if 1 ≤ written then some files.history else disk.history
  queue := if 2 ≤ written then some files.queue else disk.queue
  state := if 3 ≤ written then some files.state else disk.state

/- A file that does not load is renamed away. -/
def keptFile {α : Type}
    (size : α → ℕ) (validate : α → Except String Unit) (file : Option α) :
    Option α :=
  file.filter fun v => size v ≤ maxFile && (validate v).isOk

def kept (sizes : Sizes) (now : ℤ) (disk : Disk) : Disk where
  history := keptFile sizes.history (·.validate now) disk.history
  queue := keptFile sizes.queue (·.validate now) disk.queue
  state := keptFile sizes.state (·.validate now) disk.state

end Disk

def dropNested (slot : Slot) : Slot :=
  { slot with nestedChildren := slot.nestedChildren - 1 }

/- What the guard held goes out of the state. -/
def releaseHeld (guard : Guard) (state : State) : State :=
  match guard with
  | .inert _ => state
  | .slot pid treeId _ =>
    { state with
      slots := state.slots.filter fun s =>
        !(s.pid == pid && s.treeId == treeId) }
  | .nested parentPid treeId =>
    { state with
      slots := state.slots.modify
        (state.slots.findIdx fun s =>
          s.pid == parentPid && s.treeId == treeId)
        dropNested }

/- A guard that holds nothing touches no file. -/
def release
    (sizes : Sizes) (now : ℤ) (guard : Guard) (saved : Bool) (disk : Disk) :
    Disk :=
  match guard with
  | .inert _ => disk
  | held =>
    match load .default sizes.state (·.validate now)
        disk.state with
    | .error _ =>
      { disk with
        state := Disk.keptFile sizes.state (·.validate now)
          disk.state }
    | .ok state =>
      if saved then
        { disk with state := some (releaseHeld held state) }
      else disk

/- The waiting entry that a round left behind. -/
def dropTicket
    (sizes : Sizes) (now : ℤ) (ticket : Option ℕ) (saved : Bool)
    (disk : Disk) :
    Disk :=
  if ticket.isNone then disk
  else
    match load .default sizes.queue (·.validate now)
        disk.queue with
    | .error _ =>
      { disk with
        queue := Disk.keptFile sizes.queue (·.validate now)
          disk.queue }
    | .ok queue =>
      if saved then
        { disk with queue := some (takeTicket queue ticket) }
      else disk

-- Loads

section Loads

variable {α : Type}
variable {default_ : α}
variable {size : α → ℕ}
variable {validate : α → Except String Unit}
variable {file : Option α}

/- A load without a fault finds what is written. -/
theorem load_ok
    {v : α} (hLoad : load default_ size validate file = .ok v) :
    file.getD default_ = v := by
  cases file with
  | none =>
    injection hLoad
  | some w =>
    unfold load at hLoad
    by_cases hLarge : maxFile < size w
    · simp [hLarge] at hLoad
    · cases hValid : validate w with
      | error why => simp [hLarge, hValid] at hLoad
      | ok u =>
        simp only [hLarge, hValid, if_false] at hLoad
        injection hLoad

/- A file that loads is not renamed away. -/
theorem keptFile_of_load
    {v : α} (hLoad : load default_ size validate file = .ok v) :
    Disk.keptFile size validate file = file := by
  cases file with
  | none => rfl
  | some w =>
    unfold load at hLoad
    unfold Disk.keptFile
    by_cases hLarge : maxFile < size w
    · simp [hLarge] at hLoad
    · have hSize : size w ≤ maxFile := by omega
      cases hValid : validate w with
      | error why => simp [hLarge, hValid] at hLoad
      | ok u =>
        simp [Option.filter, hSize, hValid, Except.isOk, Except.toBool]

end Loads

variable {render : Render}
variable {sizes : Sizes}

theorem load_of_no_fault
    {now : ℤ} {disk : Disk} (hFault : (loadAll sizes now disk).2 = none) :
    (∃ h, load .default sizes.history (·.validate now)
        disk.history = .ok h) ∧
      (∃ q, load .default sizes.queue (·.validate now) disk.queue = .ok q) ∧
      ∃ s, load .default sizes.state (·.validate now) disk.state = .ok s := by
  unfold loadAll at hFault
  dsimp only at hFault
  split at hFault
  next => cases hFault
  next => cases hFault
  next => cases hFault
  next hHistory hQueue hState =>
    refine ⟨?_, ?_, ?_⟩
    · cases hLoad : load .default sizes.history
          (·.validate now) disk.history with
      | error why => exact absurd hLoad (hHistory why)
      | ok h => exact ⟨h, rfl⟩
    · cases hLoad : load .default sizes.queue
          (·.validate now) disk.queue with
      | error why => exact absurd hLoad (hQueue why)
      | ok q => exact ⟨q, rfl⟩
    · cases hLoad : load .default sizes.state
          (·.validate now) disk.state with
      | error why => exact absurd hLoad (hState why)
      | ok s => exact ⟨s, rfl⟩

/- Without a fault a round starts from the files as written. -/
theorem loadAll_of_no_fault
    {now : ℤ} {disk : Disk} (hFault : (loadAll sizes now disk).2 = none) :
    (loadAll sizes now disk).1 =
        { history := disk.history.getD .default
          queue := disk.queue.getD .default
          state := disk.state.getD .default } ∧
      disk.kept sizes now = disk := by
  rcases load_of_no_fault hFault with
    ⟨⟨h, hHistory⟩, ⟨q, hQueue⟩, ⟨s, hState⟩⟩
  constructor
  · unfold loadAll
    rw [hHistory, hQueue, hState, load_ok hHistory,
      load_ok hQueue, load_ok hState]
    rfl
  · unfold Disk.kept
    rw [keptFile_of_load hHistory, keptFile_of_load hQueue,
      keptFile_of_load hState]

-- The system

/-
  One process's round; `written` files are saved before the
  process stops or the save fails.
-/
structure Attempt where
  host : Host
  ctx : AdmitContext
  nanos : ℕ
  deadline : ℤ
  ticket : Option ℕ
  written : ℕ

inductive Event where
| round (attempt : Attempt)
| release (now : ℤ) (guard : Guard) (saved : Bool)
| dropTicket (now : ℤ) (ticket : Option ℕ) (saved : Bool)

namespace Event

def now : Event → ℤ
| .round attempt => attempt.host.now
| .release now _ _ => now
| .dropTicket now _ _ => now

end Event

/- The files, the guards not yet dropped, and the last time. -/
structure System where
  disk : Disk
  guards : List Guard
  clock : ℤ

def System.empty : System where
  disk := { history := none, queue := none, state := none }
  guards := []
  clock := 0

def Outcome.guard : Outcome → Option Guard
| .admitted guard => some guard
| .denied _ => none
| .waiting _ _ => none

/- The round an attempt makes on the files. -/
def Attempt.run
    (render : Render) (sizes : Sizes) (disk : Disk) (attempt : Attempt) :
    Round :=
  round render sizes attempt.host attempt.ctx
    (treeIdFor attempt.ctx attempt.nanos attempt.host.pid)
    attempt.deadline disk attempt.ticket

/- An admission that was not saved leaves no guard to drop. -/
def step (render : Render) (sizes : Sizes) (sys : System)
    (event : Event) : System :=
  match event with
  | .round attempt =>
    let made := attempt.run render sizes sys.disk
    { disk := (sys.disk.kept sizes attempt.host.now).save
        made.files attempt.written
      guards :=
        if 3 ≤ attempt.written then
          made.outcome.guard.toList ++ sys.guards
        else sys.guards
      clock := attempt.host.now }
  | .release now guard saved =>
    { disk := release sizes now guard saved sys.disk
      guards := sys.guards.erase guard
      clock := now }
  | .dropTicket now ticket saved =>
    { sys with
      disk := dropTicket sizes now ticket saved sys.disk
      clock := now }

end Governor
