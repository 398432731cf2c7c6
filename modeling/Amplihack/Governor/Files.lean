import Amplihack.Base.Dict
import Amplihack.Base.Numbers
import Amplihack.Governor.Model
import Amplihack.Rotate.UpdatesSound

/-
  The governor's three state files and the checks made when
  one is loaded.

  The checks of a load, as properties of what is loaded.
-/

-- Identities

namespace Governor

open Base

def defaultWorkstream : String := "default"

def maxWorkstream : ℕ := 64

def isAsciiAlphanumeric (c : Char) : Bool :=
  ('A' ≤ c && c ≤ 'Z') || ('a' ≤ c && c ≤ 'z') || ('0' ≤ c && c ≤ '9')

def allowed (c : Char) : Bool :=
  isAsciiAlphanumeric c || c == '.' || c == '_' || c == '-'

def parseWorkstream (raw : String) : Except String String :=
  if raw != "" && raw.utf8ByteSize ≤ maxWorkstream &&
      raw.toList.all allowed && raw != "." && raw != ".." then
    .ok raw
  else
    .error <|
      "a workstream is 1 to 64 of A-Z, a-z, 0-9, '.', '_' and '-', " ++
      "and not '.' or '..'"

def workstreamOk (workstream : String) : Bool :=
  (parseWorkstream workstream).isOk

def maxTreeId : ℕ := 128

def treeIdOk (id : String) : Bool :=
  id != "" && id.utf8ByteSize ≤ maxTreeId &&
    id.toList.all fun c =>
      isAsciiAlphanumeric c || c == '_' || c == '-'

-- Fail-open admissions

inductive FailOpenCode where
| noRoot
| stateDir
| lockTimeout
| corruptState
| stateVersion
| noReadings
| queueFull
deriving DecidableEq

/- Why the governor admitted without deciding. -/
structure FailOpen where
  code : FailOpenCode
  message : String

/- The last fail-open admission, kept for the status. -/
structure FailOpenRecord where
  code : FailOpenCode
  message : String
  at_ : ℤ

def maxFailOpenMessage : ℕ := 512

def maxDisplayChars : ℕ := 200

def isBidiControl (c : Char) : Bool :=
  c.val == 0x61c || c.val == 0x200e || c.val == 0x200f ||
    (0x202a ≤ c.val && c.val ≤ 0x202e) ||
    (0x2066 ≤ c.val && c.val ≤ 0x2069)

def displayChar (c : Char) : List Char :=
  if Rotate.isControl c || isBidiControl c then
    "\\u\x7b".toList ++ Nat.toDigits 16 c.toNat ++ "\x7d".toList
  else
    [c]

/- Escaped for a terminal and cut to 200 characters. -/
def displaySafe (s : String) : List Char :=
  (s.toList.take maxDisplayChars).flatMap displayChar ++
    if maxDisplayChars < s.toList.length then ['…'] else []

/- The message is cut to 512 bytes between characters. -/
def FailOpen.new (code : FailOpenCode) (message : String) :
    FailOpen where
  code := code
  message := String.ofList
    (Rotate.takeBytes maxFailOpenMessage (displaySafe message))

def record (fault : FailOpen) (at_ : ℤ) : FailOpenRecord where
  code := fault.code
  message := fault.message
  at_ := at_

theorem FailOpen.message_new_le
    (code : FailOpenCode) (message : String) :
    (FailOpen.new code message).message.utf8ByteSize ≤ 512 :=
  Rotate.utf8ByteSize_takeBytes_le _ _

-- The files

def governorLimitCap : ℕ := 64

def governorHistoryRing : ℕ := 64

def governorQueueCap : ℕ := 4096

/- A limit of 0 means that none is set yet. -/
structure State where
  limit : ℕ
  lastEvaluatedAt : Option ℤ
  nextSeq : ℕ
  slots : List Slot
  admissions : List Admission
  failOpen : Option FailOpenRecord

def State.default : State where
  limit := 0
  lastEvaluatedAt := none
  nextSeq := 1
  slots := []
  admissions := []
  failOpen := none

structure Queue where
  entries : List QueueEntry

def Queue.default : Queue where
  entries := []

/- The governor's own record of readings, per profile. -/
structure History where
  weekly : Dict String (List Sample)
  session : Dict String (List Sample)

def History.default : History where
  weekly := .empty
  session := .empty

-- The checks of a load

/- Times may be at most this far in the future. -/
def futureSlackSecs : ℤ := 400 * 86400

def timeOk (t now : ℤ) : Bool :=
  0 ≤ t && t ≤ saturatingAdd now futureSlackSecs

def check (ok : Bool) (what : String) : Except String Unit :=
  if ok then .ok () else .error ("invalid " ++ what)

/- The checks of the items in order; the first to fail. -/
def checkAll {α : Type} (items : List α)
    (one : α → Except String Unit) : Except String Unit :=
  match items with
  | [] => .ok ()
  | item :: rest => do
      one item
      checkAll rest one

/- The items in order, each against the keys before it. -/
def checkKeys {α κ : Type} [DecidableEq κ]
    (key : α → κ) (one : α → Except String Unit) (what : String) :
    List κ → List α → Except String Unit
| _, [] => .ok ()
| seen, item :: rest => do
    one item
    check (!seen.contains (key item)) what
    checkKeys key one what (key item :: seen) rest

namespace State

def checkSlot (now : ℤ) (s : Slot) : Except String Unit := do
  check (workstreamOk s.workstream && treeIdOk s.treeId) "slot"
  check (timeOk s.admittedAt now) "slot time"

def slotKey (s : Slot) : ℕ × String :=
  (s.pid, s.treeId)

def validate (state : State) (now : ℤ) : Except String Unit := do
  check (state.limit ≤ governorLimitCap) "limit"
  check (state.lastEvaluatedAt.all fun t => timeOk t now) "last_evaluated_at"
  checkKeys slotKey (checkSlot now) "duplicate slot" [] state.slots
  checkAll state.admissions fun a =>
    check (workstreamOk a.workstream && timeOk a.at_ now) "admission"
  match state.failOpen with
  | some f =>
    check (timeOk f.at_ now && f.message.utf8ByteSize ≤ 512) "fail_open"
  | none => .ok ()

end State

def Queue.validate (queue : Queue) (now : ℤ) :
    Except String Unit :=
  checkKeys QueueEntry.seq
    (fun e => check
      (workstreamOk e.workstream && timeOk e.enqueuedAt now)
      "queue entry")
    "duplicate seq" [] queue.entries

namespace History

def checkSample (now : ℤ) (s : Sample) : Except String Unit :=
  check
    (s.usedPct.isFinite && decide (0.0 ≤ s.usedPct) &&
      decide (s.usedPct ≤ 100.0) && timeOk s.observedAt now)
    "sample"

def checkRings (now : ℤ) (rings : Dict String (List Sample)) :
    Except String Unit :=
  checkAll rings.entries fun (name, ring) => do
    check
      (name.utf8ByteSize ≤ 64 &&
        ring.length ≤ governorHistoryRing) "history ring"
    checkAll ring (checkSample now)

def validate (history : History) (now : ℤ) :
    Except String Unit := do
  checkRings now history.weekly
  checkRings now history.session

end History

-- Repairs and samples

/- `x` between the bounds. -/
def clampLimit (limit max_ : ℕ) : ℕ :=
  min (max limit 1) (min (max max_ 1) governorLimitCap)

/- `nextSeq` past every queued seq, and `limit` in range. -/
def repair (state : State) (queue : Queue) (max_ : ℕ) : State :=
  { state with
    nextSeq := repairedSeq state.nextSeq queue.entries
    limit := clampLimit state.limit max_ }

/- The ring with one more sample, the newest 64 kept. -/
def pushSample (ring : List Sample) (sample : Sample) :
    List Sample :=
  if ring.any fun s => s.observedAt == sample.observedAt then
    ring
  else
    let sorted := (ring ++ [sample]).mergeSort fun s t =>
      s.observedAt ≤ t.observedAt
    sorted.drop (sorted.length - governorHistoryRing)

end Governor

-- Times

namespace Governor

open Base

variable {now later t : ℤ}

theorem timeOk_iff :
    timeOk t now = true ↔ 0 ≤ t ∧ t ≤ saturatingAdd now futureSlackSecs := by
  simp [timeOk]

/- A time that was in range stays in range. -/
theorem timeOk_mono
    (hLater : now ≤ later) (hOk : timeOk t now = true) :
    timeOk t later = true := by
  rw [timeOk_iff] at hOk ⊢
  have hBound : saturatingAdd now futureSlackSecs ≤
      saturatingAdd later futureSlackSecs :=
    saturate_mono (by omega)
  exact ⟨hOk.1, hOk.2.trans hBound⟩

/- The time of the check itself is in range. -/
theorem timeOk_self
    (hRange : 0 ≤ now ∧ now ≤ i64Max) :
    timeOk now now = true := by
  rw [timeOk_iff]
  refine ⟨hRange.1, le_saturate ?_ hRange.2⟩
  unfold futureSlackSecs
  omega

-- Sequences of checks

section Checks

variable {α κ : Type}

theorem check_ok_iff {ok : Bool} {what : String} :
    check ok what = .ok () ↔ ok = true := by
  cases ok <;> simp [check]

theorem bind_ok_iff
    {first : Except String Unit} {rest : Except String Unit} :
    (do first; rest) = .ok () ↔
      first = .ok () ∧ rest = .ok () := by
  cases first with
  | error _ | ok _ => simp [bind, Except.bind]

theorem checkAll_ok_iff
    {one : α → Except String Unit} {items : List α} :
    checkAll items one = .ok () ↔ ∀ item ∈ items, one item = .ok () := by
  induction items with
  | nil => simp [checkAll]
  | cons item rest ih => rw [checkAll, bind_ok_iff, ih, List.forall_mem_cons]

theorem checkKeys_ok_iff [DecidableEq κ]
    {key : α → κ} {one : α → Except String Unit} {what : String}
    {seen : List κ} {items : List α} :
    checkKeys key one what seen items = .ok () ↔
      (∀ item ∈ items, one item = .ok ()) ∧
        (items.map key).Nodup ∧
        ∀ item ∈ items, key item ∉ seen := by
  induction items generalizing seen with
  | nil => simp [checkKeys]
  | cons item rest ih =>
    rw [checkKeys, bind_ok_iff, bind_ok_iff, check_ok_iff, ih,
      List.forall_mem_cons, List.forall_mem_cons,
      List.map_cons, List.nodup_cons, List.mem_map]
    simp only [List.mem_cons, not_or, Bool.not_eq_true',
      List.contains_eq_mem, decide_eq_false_iff_not]
    constructor
    · rintro ⟨hOne, hNew, hRest, hNodup, hOld⟩
      refine ⟨⟨hOne, hRest⟩, ⟨?_, hNodup⟩, hNew, fun x hx => (hOld x hx).2⟩
      rintro ⟨x, hx, hKey⟩
      exact (hOld x hx).1 hKey
    · rintro ⟨⟨hOne, hRest⟩, ⟨hFresh, hNodup⟩, hNew, hOld⟩
      refine ⟨hOne, hNew, hRest, hNodup, ?_⟩
      intro x hx
      exact ⟨fun hKey => hFresh ⟨x, hx, hKey⟩, hOld x hx⟩

end Checks

-- The state

namespace State

/- A slot that a load accepts. -/
def SlotOk (now : ℤ) (s : Slot) : Prop :=
  workstreamOk s.workstream = true ∧
    treeIdOk s.treeId = true ∧ timeOk s.admittedAt now = true

def AdmissionOk (now : ℤ) (a : Admission) : Prop :=
  workstreamOk a.workstream = true ∧ timeOk a.at_ now = true

def RecordOk (now : ℤ) (f : FailOpenRecord) : Prop :=
  timeOk f.at_ now = true ∧ f.message.utf8ByteSize ≤ 512

/- A state that a load accepts. -/
structure Valid (now : ℤ) (s : State) : Prop where
  limit : s.limit ≤ governorLimitCap
  evaluated : ∀ t ∈ s.lastEvaluatedAt, timeOk t now = true
  slots : ∀ slot ∈ s.slots, SlotOk now slot
  slotKeys : (s.slots.map slotKey).Nodup
  admissions : ∀ a ∈ s.admissions, AdmissionOk now a
  failOpen : ∀ f ∈ s.failOpen, RecordOk now f

theorem checkSlot_ok_iff {s : Slot} :
    checkSlot now s = .ok () ↔ SlotOk now s := by
  rw [checkSlot, bind_ok_iff, check_ok_iff, check_ok_iff,
    Bool.and_eq_true, and_assoc]
  rfl

theorem validate_ok_iff {s : State} :
    s.validate now = .ok () ↔ s.Valid now := by
  unfold validate
  simp only [bind_ok_iff, check_ok_iff, checkKeys_ok_iff, checkAll_ok_iff,
    checkSlot_ok_iff, decide_eq_true_eq, Bool.and_eq_true, Option.all_eq_true]
  constructor
  · rintro ⟨hLimit, hTime, ⟨hSlots, hKeys, -⟩, hAdmissions, hFail⟩
    refine ⟨hLimit, ?_, hSlots, hKeys, hAdmissions, ?_⟩
    · intro t hMem
      simpa [Option.mem_def.1 hMem] using hTime
    · intro f hMem
      rw [Option.mem_def.1 hMem] at hFail
      simpa [check_ok_iff, RecordOk] using hFail
  · intro hValid
    refine ⟨hValid.limit, ?_, ⟨hValid.slots, hValid.slotKeys, by simp⟩,
      hValid.admissions, ?_⟩
    · intro t hMem
      exact hValid.evaluated t hMem
    · cases hFail : s.failOpen with
      | none => rfl
      | some f =>
        have hOk := hValid.failOpen f hFail
        simpa [check_ok_iff, RecordOk] using hOk

theorem Valid.mono
    {s : State} (hLater : now ≤ later) (hValid : s.Valid now) :
    s.Valid later where
  limit := hValid.limit
  evaluated := fun t hMem =>
    timeOk_mono hLater (hValid.evaluated t hMem)
  slots := fun slot hMem =>
    have hOk := hValid.slots slot hMem
    ⟨hOk.1, hOk.2.1, timeOk_mono hLater hOk.2.2⟩
  slotKeys := hValid.slotKeys
  admissions := fun a hMem =>
    have hOk := hValid.admissions a hMem
    ⟨hOk.1, timeOk_mono hLater hOk.2⟩
  failOpen := fun f hMem =>
    have hOk := hValid.failOpen f hMem
    ⟨timeOk_mono hLater hOk.1, hOk.2⟩

theorem valid_default (now : ℤ) : State.default.Valid now where
  limit := Nat.zero_le _
  evaluated := fun t hMem => by cases hMem
  slots := fun slot hMem => by cases hMem
  slotKeys := List.nodup_nil
  admissions := fun a hMem => by cases hMem
  failOpen := fun f hMem => by cases hMem

end State

-- The queue

namespace Queue

def EntryOk (now : ℤ) (e : QueueEntry) : Prop :=
  workstreamOk e.workstream = true ∧ timeOk e.enqueuedAt now = true

/- A queue that a load accepts. -/
structure Valid (now : ℤ) (q : Queue) : Prop where
  entries : ∀ e ∈ q.entries, EntryOk now e
  seqs : (q.entries.map QueueEntry.seq).Nodup

theorem validate_ok_iff {q : Queue} :
    q.validate now = .ok () ↔ q.Valid now := by
  unfold validate
  simp only [checkKeys_ok_iff, check_ok_iff, Bool.and_eq_true]
  constructor
  · rintro ⟨hEntries, hSeqs, -⟩
    exact ⟨hEntries, hSeqs⟩
  · intro hValid
    exact ⟨hValid.entries, hValid.seqs, by simp⟩

theorem Valid.mono
    {q : Queue} (hLater : now ≤ later) (hValid : q.Valid now) :
    q.Valid later where
  entries := fun e hMem =>
    have hOk := hValid.entries e hMem
    ⟨hOk.1, timeOk_mono hLater hOk.2⟩
  seqs := hValid.seqs

theorem valid_default (now : ℤ) : Queue.default.Valid now where
  entries := fun e hMem => by cases hMem
  seqs := List.nodup_nil

/- Leaving entries out keeps a queue valid. -/
theorem Valid.filter
    {q : Queue} (hValid : q.Valid now) (keep : QueueEntry → Bool) :
    (Queue.mk (q.entries.filter keep)).Valid now where
  entries := fun e hMem =>
    hValid.entries e (List.mem_of_mem_filter hMem)
  seqs := hValid.seqs.sublist
    (List.filter_sublist.map QueueEntry.seq)

end Queue

-- The history

namespace History

def SampleOk (now : ℤ) (s : Sample) : Prop :=
  (s.usedPct.isFinite = true ∧ 0.0 ≤ s.usedPct ∧
    s.usedPct ≤ 100.0) ∧ timeOk s.observedAt now = true

structure RingOk (now : ℤ) (e : String × List Sample) :
    Prop where
  name : e.1.utf8ByteSize ≤ 64
  length : e.2.length ≤ governorHistoryRing
  samples : ∀ s ∈ e.2, SampleOk now s

/- A history that a load accepts. -/
structure Valid (now : ℤ) (h : History) : Prop where
  weekly : ∀ e ∈ h.weekly.entries, RingOk now e
  session : ∀ e ∈ h.session.entries, RingOk now e

theorem checkSample_ok_iff {s : Sample} :
    checkSample now s = .ok () ↔ SampleOk now s := by
  rw [checkSample, check_ok_iff]
  simp only [Bool.and_eq_true, decide_eq_true_eq, and_assoc, SampleOk]

theorem checkRings_ok_iff {rings : Dict String (List Sample)} :
    checkRings now rings = .ok () ↔ ∀ e ∈ rings.entries, RingOk now e := by
  rw [checkRings, checkAll_ok_iff]
  refine forall₂_congr fun e _ => ?_
  rw [bind_ok_iff, check_ok_iff, checkAll_ok_iff]
  simp only [checkSample_ok_iff, Bool.and_eq_true, decide_eq_true_eq]
  constructor
  · rintro ⟨⟨hName, hLength⟩, hSamples⟩
    exact ⟨hName, hLength, hSamples⟩
  · intro hOk
    exact ⟨⟨hOk.name, hOk.length⟩, hOk.samples⟩

theorem validate_ok_iff {h : History} :
    h.validate now = .ok () ↔ h.Valid now := by
  rw [validate, bind_ok_iff, checkRings_ok_iff, checkRings_ok_iff]
  exact ⟨fun hBoth => ⟨hBoth.1, hBoth.2⟩,
    fun hValid => ⟨hValid.weekly, hValid.session⟩⟩

theorem RingOk.mono
    {e : String × List Sample} (hLater : now ≤ later) (hOk : RingOk now e) :
    RingOk later e where
  name := hOk.name
  length := hOk.length
  samples := fun s hMem =>
    have hSample := hOk.samples s hMem
    ⟨hSample.1, timeOk_mono hLater hSample.2⟩

theorem Valid.mono
    {h : History} (hLater : now ≤ later) (hValid : h.Valid now) :
    h.Valid later where
  weekly := fun e hMem => (hValid.weekly e hMem).mono hLater
  session := fun e hMem => (hValid.session e hMem).mono hLater

theorem valid_default (now : ℤ) :
    History.default.Valid now where
  weekly := fun e hMem => by cases hMem
  session := fun e hMem => by cases hMem

end History

end Governor
