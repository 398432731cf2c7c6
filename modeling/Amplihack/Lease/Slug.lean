import Mathlib.Data.List.Basic
import Amplihack.Lease.Handle

/-
  The directory of a file store: one lease file for each
  file name, which a key's characters decide.
-/

-- File Names

namespace Lease

open Base (Program)

namespace LeaseKey

/- Letters, digits, `-` and `_`; `_` for any other character. -/
def sanitize (repo : String) : String :=
  String.ofList <| repo.toList.map fun c =>
    if c.isAlphanum || c == '-' || c == '_' then c else '_'

def fileSlug (key : LeaseKey) : String :=
  sanitize key.repo ++ "__pr-" ++ toString key.prNumber ++ ".json"

/- The last `x` splits a list in one way. -/
theorem append_cons_inj_of_last
    {α : Type} {x : α} {l l' m m' : List α} (hM : x ∉ m)
    (hM' : x ∉ m') (hSame : l ++ x :: m = l' ++ x :: m') :
    l = l' ∧ m = m' := by
  rw [List.append_eq_append_iff] at hSame
  rcases hSame with ⟨c, hLeft, hRight⟩ | ⟨c, hLeft, hRight⟩
  · cases c with
    | nil =>
      rw [List.append_nil] at hLeft
      exact ⟨hLeft.symm, (List.cons.inj hRight).2⟩
    | cons y c =>
      have hTail := (List.cons.inj hRight).2
      refine absurd ?_ hM
      rw [hTail]
      exact List.mem_append_right c List.mem_cons_self
  · cases c with
    | nil =>
      rw [List.append_nil] at hLeft
      exact ⟨hLeft, (List.cons.inj hRight).2.symm⟩
    | cons y c =>
      have hTail := (List.cons.inj hRight).2
      refine absurd ?_ hM'
      rw [hTail]
      exact List.mem_append_right c List.mem_cons_self

theorem dash_not_mem_toString (n : ℕ) :
    '-' ∉ (toString n).toList := by
  intro hIn
  have hDigits : (toString n).toList = Nat.toDigits 10 n := by
    simp [toString, Nat.repr]
  rw [hDigits] at hIn
  have hDigit : '-'.isDigit = true :=
    Nat.isDigit_of_mem_toDigits (by decide) (by decide) hIn
  exact absurd hDigit (by decide)

theorem toString_nat_inj
    {m n : ℕ} (hSame : toString m = toString n) :
    m = n := by
  have hDigits : ∀ k : ℕ, (toString k).toList = Nat.toDigits 10 k := by
    intro k
    simp [toString, Nat.repr]
  have hLists := congrArg String.toList hSame
  rw [hDigits, hDigits] at hLists
  have hM := Nat.ofDigitChars_ten_toDigits (n := m)
  rw [hLists, Nat.ofDigitChars_ten_toDigits] at hM
  exact hM.symm

/- The number and the sanitized name, and nothing else. -/
theorem fileSlug_eq_iff (k l : LeaseKey) :
    k.fileSlug = l.fileSlug ↔
      k.prNumber = l.prNumber ∧ sanitize k.repo = sanitize l.repo := by
  constructor
  · intro hSame
    unfold fileSlug at hSame
    rw [String.append_left_inj] at hSame
    have hLists := congrArg String.toList hSame
    have hMark : "__pr-".toList = ['_', '_', 'p', 'r', '-'] := rfl
    simp only [String.toList_append, hMark] at hLists
    have hSplit : ∀ a b : List Char,
        a ++ ['_', '_', 'p', 'r', '-'] ++ b =
          (a ++ ['_', '_', 'p', 'r']) ++ '-' :: b := by
      intro a b
      simp
    rw [hSplit, hSplit] at hLists
    obtain ⟨hNames, hNumbers⟩ := append_cons_inj_of_last
      (dash_not_mem_toString _) (dash_not_mem_toString _) hLists
    exact ⟨toString_nat_inj (String.toList_inj.mp hNumbers),
      String.toList_inj.mp (List.append_cancel_right hNames)⟩
  · rintro ⟨hNumber, hName⟩
    unfold fileSlug
    rw [hNumber, hName]

end LeaseKey

-- The Directory

/- What each lease file holds. -/
abbrev Directory : Type := String → Stored

/- What the clock shows, and where an operation fails. -/
structure Moment where
  clock : ℤ
  fault : Fault

namespace Directory

def load (d : Directory) (key : LeaseKey) :
    Except LeaseError (Option LeaseRecord) :=
  FileLeaseStore.load (d key.fileSlug)

/- A record goes where its own key says. -/
def store (d : Directory) (fault : Fault) (record : LeaseRecord) :
    Directory :=
  Function.update d record.key.fileSlug
    (FileLeaseStore.store record fault (d record.key.fileSlug)).1

def compareAndSet
    (d : Directory) (fault : Fault) (key : LeaseKey)
    (expected new : Option LeaseRecord) :
    Directory :=
  Function.update d key.fileSlug
    (FileLeaseStore.compareAndSet expected new fault (d key.fileSlug)).1

/- The file stays, without a record. -/
def remove (d : Directory) (fault : Fault) (key : LeaseKey) :
    Directory :=
  if fault = .before then d
  else Function.update d key.fileSlug (.record none)

def after (key : LeaseKey) (d : Directory) (moment : Moment) :
    LeaseOp → Directory
| .now => d
| .load => d
| .store record => d.store moment.fault record
| .compareAndSet expected new =>
  d.compareAndSet moment.fault key expected new

def reply (key : LeaseKey) (d : Directory) (moment : Moment) :
    (op : LeaseOp) → Reply op
| .now => moment.clock
| .load =>
  if moment.fault = .none then d.load key else .error .io
| .store record =>
  (FileLeaseStore.store record moment.fault (d record.key.fileSlug)).2
| .compareAndSet expected new =>
  (FileLeaseStore.compareAndSet expected new moment.fault (d key.fileSlug)).2

end Directory

/- The store and the clock, as a handle on `key` calls them. -/
def directoryService (key : LeaseKey) :
    Base.Service Directory Moment Reply where
  after := Directory.after key
  reply := Directory.reply key

-- Calls On One Key

/- A call on a key, with what it is made with. -/
inductive KeyCall where
| acquire (owner : String) (ttl : ℕ)
| renew (owner : String) (ttlSecs : ℕ) (released : Bool)
| release (owner : String) (ttlSecs : ℕ) (released : Bool)
| remove
| compareAndSet (expected new : Option LeaseRecord)

namespace KeyCall

def lease
    (key : LeaseKey) (owner : String) (ttlSecs : ℕ) (released : Bool) :
    PrLease where
  key := key
  ownerSessionId := owner
  ttlSecs := ttlSecs
  released := released

/- The directory after the call. -/
def run
    (key : LeaseKey) (moments : ℕ → Moment) (d : Directory) :
    KeyCall → Directory
| .acquire owner ttl =>
  ((Lease.acquire key owner ttl).exec (directoryService key) moments d).2
| .renew owner ttlSecs released =>
  ((lease key owner ttlSecs released).renew.exec
    (directoryService key) moments d).2
| .release owner ttlSecs released =>
  ((lease key owner ttlSecs released).release.exec
    (directoryService key) moments d).2
| .remove => d.remove (moments 0).fault key
| .compareAndSet expected new =>
  d.compareAndSet (moments 0).fault key expected new

end KeyCall

/-
  No call on `k` changes what is loaded for `l`, or what an
  `acquire` on `l` comes to.
-/
def Independent (k l : LeaseKey) : Prop :=
  ∀ (d : Directory) (call : KeyCall) (moments : ℕ → Moment),
    (call.run k moments d).load l = d.load l ∧
      ∀ (owner : String) (ttl : ℕ) (later : ℕ → Moment),
        ((acquire l owner ttl).exec (directoryService l) later
            (call.run k moments d)).1 =
          ((acquire l owner ttl).exec (directoryService l) later d).1

-- Calls Stay In Their File

/- A record that is stored belongs to the key. -/
def OnKey (key : LeaseKey) : LeaseOp → Prop
| .store record => record.key = key
| _ => True

section Frame

variable {key k l : LeaseKey}
variable {owner : String}
variable {ttlSecs : ℕ}

theorem contended_onKey : contended.Only (OnKey key) := by
  refine ⟨trivial, fun reply => ?_⟩
  rcases reply with e | (_ | existing)
  · exact trivial
  · exact trivial
  · refine ⟨trivial, fun now => ?_⟩
    cases hExpired : existing.isExpired now with
    | true =>
      simp only [Program.ret_bind, hExpired, if_true]
      exact trivial
    | false =>
      simp only [Program.ret_bind, hExpired]
      exact trivial

theorem reclaim_onKey (now : ℤ) :
    (reclaim key owner now ttlSecs).Only (OnKey key) := by
  refine ⟨rfl, fun reply => ?_⟩
  cases reply with
  | error _ | ok _ => exact trivial

theorem acquireLoop_onKey (attempts : ℕ) :
    (acquireLoop key owner ttlSecs attempts).Only (OnKey key) := by
  induction attempts with
  | zero => exact contended_onKey
  | succ attempts ih =>
    refine ⟨trivial, fun now => ⟨trivial, fun reply => ?_⟩⟩
    rcases reply with e | current
    · cases e with
      | corrupt => exact reclaim_onKey now
      | unsupportedVersion => exact reclaim_onKey now
      | _ => exact trivial
    · dsimp only [Program.ret_bind]
      cases blockedBy current now owner with
      | some other => exact trivial
      | none =>
        refine ⟨trivial, fun reply => ?_⟩
        rcases reply with e | (_ | _)
        · exact trivial
        · exact ih
        · exact trivial

theorem acquire_onKey (key : LeaseKey) (owner : String) (ttl : ℕ) :
    (acquire key owner ttl).Only (OnKey key) :=
  acquireLoop_onKey acquireAttempts

theorem renew_onKey (lease : PrLease) :
    lease.renew.Only (OnKey key) := by
  refine ⟨trivial, fun now => ⟨trivial, fun reply => ?_⟩⟩
  rcases reply with e | (_ | record)
  · exact trivial
  · exact trivial
  · dsimp only [Program.ret_bind]
    split
    · split
      · exact trivial
      · refine ⟨trivial, fun reply => ?_⟩
        rcases reply with e | (_ | _)
        · exact trivial
        · exact trivial
        · exact trivial
    · exact trivial

theorem release_onKey (lease : PrLease) :
    lease.release.Only (OnKey key) := by
  unfold PrLease.release
  split
  · exact trivial
  · refine ⟨trivial, fun reply => ?_⟩
    rcases reply with e | (_ | record)
    · exact trivial
    · exact trivial
    · dsimp only [Program.ret_bind]
      split
      · refine ⟨trivial, fun reply => ?_⟩
        cases reply with
        | error _ | ok _ => exact trivial
      · exact trivial

/- An operation on a key leaves every other file alone. -/
theorem after_other
    {file : String} (hFile : file ≠ key.fileSlug)
    (d : Directory) (moment : Moment) (op : LeaseOp) (hOnKey : OnKey key op) :
    d.after key moment op file = d file := by
  cases op with
  | now | load => rfl
  | store record =>
    have hKey : record.key = key := hOnKey
    rw [← hKey] at hFile
    exact Function.update_of_ne hFile _ _
  | compareAndSet expected new => exact Function.update_of_ne hFile _ _

theorem run_other
    {file : String} (hFile : file ≠ key.fileSlug)
    (moments : ℕ → Moment) (d : Directory) (call : KeyCall) :
    call.run key moments d file = d file := by
  have hProgram {α : Type} {p : Program Reply α}
      (hOnly : p.Only (OnKey key)) :
      (p.exec (directoryService key) moments d).2 file = d file :=
    Program.exec_keeps (S := directoryService key)
      (fun d => d file) hOnly (after_other hFile) moments d
  cases call with
  | acquire owner ttl => exact hProgram (acquire_onKey key owner ttl)
  | renew owner ttlSecs released => exact hProgram (renew_onKey _)
  | release owner ttlSecs released => exact hProgram (release_onKey _)
  | remove =>
    unfold KeyCall.run Directory.remove
    split
    · rfl
    · exact Function.update_of_ne hFile _ _
  | compareAndSet expected new => exact Function.update_of_ne hFile _ _

/- What an operation does depends on the key's own file. -/
theorem reply_congr
    {d e : Directory} (moment : Moment) (op : LeaseOp)
    (hOnKey : OnKey key op) (hSame : d key.fileSlug = e key.fileSlug) :
    d.reply key moment op = e.reply key moment op := by
  cases op with
  | now => rfl
  | load =>
    unfold Directory.reply Directory.load
    rw [hSame]
  | store record =>
    have hKey : record.key = key := hOnKey
    subst hKey
    dsimp only [Directory.reply]
    rw [hSame]
  | compareAndSet expected new =>
    dsimp only [Directory.reply]
    rw [hSame]

theorem after_congr
    {d e : Directory} (moment : Moment) (op : LeaseOp)
    (hOnKey : OnKey key op) (hSame : d key.fileSlug = e key.fileSlug) :
    d.after key moment op key.fileSlug =
      e.after key moment op key.fileSlug := by
  cases op with
  | now | load => exact hSame
  | store record =>
    have hKey : record.key = key := hOnKey
    subst hKey
    dsimp only [Directory.after, Directory.store]
    rw [Function.update_self, Function.update_self, hSame]
  | compareAndSet expected new =>
    dsimp only [Directory.after, Directory.compareAndSet]
    rw [Function.update_self, Function.update_self, hSame]

theorem acquire_congr
    {d e : Directory} (hSame : d key.fileSlug = e key.fileSlug)
    (owner : String) (ttl : ℕ) (moments : ℕ → Moment) :
    ((acquire key owner ttl).exec (directoryService key) moments d).1 =
      ((acquire key owner ttl).exec (directoryService key) moments e).1 :=
  Program.exec_congr (S := directoryService key)
    (fun d => d key.fileSlug) (acquire_onKey key owner ttl)
    (fun _ _ moment op hOnKey hSame =>
      reply_congr moment op hOnKey hSame)
    (fun _ _ moment op hOnKey hSame =>
      after_congr moment op hOnKey hSame) moments hSame

theorem independent_of_fileSlug_ne
    (hFiles : k.fileSlug ≠ l.fileSlug) :
    Independent k l := by
  intro d call moments
  have hSame := run_other hFiles.symm moments d call
  constructor
  · unfold Directory.load
    rw [hSame]
  · intro owner ttl later
    exact acquire_congr hSame owner ttl later

end Frame

-- Keys With One File

def empty : Directory := fun _ => .record none

def noFault : ℕ → Moment := fun _ => ⟨0, .none⟩

/- The first lease in an empty directory is granted. -/
theorem load_after_acquire (key : LeaseKey) (owner : String) :
    (((acquire key owner 1).exec (directoryService key) noFault
      empty).2).load key = .ok (some (buildRecord key owner 0 1)) := by
  have hRun : ((acquire key owner 1).exec (directoryService key)
      noFault empty).2 =
        Function.update empty key.fileSlug
          (.record (some (buildRecord key owner 0 1))) := rfl
  unfold Directory.load
  rw [hRun, Function.update_self]
  rfl

theorem not_independent_of_fileSlug_eq
    {k l : LeaseKey} (hFiles : k.fileSlug = l.fileSlug) :
    ¬ Independent k l := by
  intro hIndependent
  have hLoad := (hIndependent empty (.acquire "one" 1) noFault).1
  have hGranted := load_after_acquire k "one"
  unfold Directory.load at hLoad hGranted
  rw [← hFiles] at hLoad
  have hNone : FileLeaseStore.load (empty k.fileSlug) = .ok none := rfl
  have hBoth := hGranted.symm.trans (hLoad.trans hNone)
  cases hBoth

/-
  Keys are independent exactly when their numbers or their
  sanitized names differ.
-/
theorem independent_iff (k l : LeaseKey) :
    Independent k l ↔
      ¬ (k.prNumber = l.prNumber ∧
        LeaseKey.sanitize k.repo = LeaseKey.sanitize l.repo) := by
  rw [← LeaseKey.fileSlug_eq_iff]
  constructor
  · exact fun hIndependent hFiles =>
      not_independent_of_fileSlug_eq hFiles hIndependent
  · exact independent_of_fileSlug_ne

/- The lease on `a/b` is taken for one on `a_b`. -/
theorem not_independent_of_slash :
    (⟨"a/b", 1⟩ : LeaseKey) ≠ ⟨"a_b", 1⟩ ∧
      ¬ Independent ⟨"a/b", 1⟩ ⟨"a_b", 1⟩ := by
  refine ⟨by decide, not_independent_of_fileSlug_eq ?_⟩
  decide +kernel

end Lease
