import Amplihack.Base.Json.Record
import Amplihack.Base.Json.RoundTrip
import Amplihack.Base.Runs

/-
  A counter file that processes share. An update reads and
  writes under the file's lock and ends in a rename; the lock
  is one process's, and a crash frees it.
-/

namespace Counter

open Base

/- A number, or the last `value` of an object, or zero. -/
def ofJson : Json → Option UInt64
| .obj members =>
  (members.filter (·.1 = "value")).foldlM
    (fun _ member => Json.readUInt64 member.2) 0
| j => Json.readUInt64 j

/- The value a file's text gives; no file counts zero. -/
def get : Option (List Char) → Option UInt64
| none => some 0
| some text => (Json.parse text).bind ofJson

/- The text the writer renames into place. -/
def written (value : UInt64) : Option (List Char) :=
  some (Json.pretty 0 (.obj [("value", Json.ofNat value.toNat)]))

@[simp] theorem get_written (value : UInt64) :
    get (written value) = some value := by
  simp [get, written, Json.parse_pretty, ofJson]

/- How far a process is in its update. -/
inductive Phase where
| idle
| locked
| read (value : UInt64)
| saved

/-
  `counted` lists what the increments saved since the counter
  was at `base`; it says what happened and decides nothing.
-/
structure Shared (ι : Type) where
  file : Option (List Char)
  holder : Option ι
  phase : ι → Phase
  base : UInt64
  counted : List UInt64

/- `leave` ends an update: after it, on an error, by a crash. -/
inductive Action (ι : Type) where
| lock (p : ι)
| read (p : ι)
| increment (p : ι)
| reset (p : ι)
| leave (p : ι)

variable {ι : Type} [DecidableEq ι]

namespace Shared

def start (file : Option (List Char)) (base : UInt64) :
    Shared ι :=
  ⟨file, none, fun _ => .idle, base, []⟩

def step (s : Shared ι) : Action ι → Shared ι
| .lock p =>
  if s.holder = none then
    { s with
      holder := some p
      phase := Function.update s.phase p .locked }
  else s
| .read p =>
  match s.phase p, get s.file with
  | .locked, some value =>
    { s with phase := Function.update s.phase p (.read value) }
  | _, _ => s
| .increment p =>
  match s.phase p with
  | .read value =>
    { s with
      file := written (value + 1)
      phase := Function.update s.phase p .saved
      counted := s.counted ++ [value + 1] }
  | _ => s
| .reset p =>
  match s.phase p with
  | .locked =>
    { s with
      file := written 0
      phase := Function.update s.phase p .saved
      base := 0
      counted := [] }
  | _ => s
| .leave p =>
  if s.holder = some p then
    { s with
      holder := none
      phase := Function.update s.phase p .idle }
  else s

/- The increments saved the values after `base`, one by one. -/
def Counted (s : Shared ι) : Prop :=
  get s.file = some (s.base + UInt64.ofNat s.counted.length) ∧
    s.counted = (List.range s.counted.length).map
      fun k => s.base + UInt64.ofNat (k + 1)

/- Who is in an update holds the lock; what it read holds. -/
structure Sound (s : Shared ι) : Prop where
  holder : ∀ p, s.phase p ≠ .idle → s.holder = some p
  fresh : ∀ p value, s.phase p = .read value → get s.file = some value
  counted : s.Counted

variable {s t : Shared ι} {p : ι} {phase : Phase}

/- A step of `p` while no other process holds the lock. -/
theorem Sound.of_step
    (hSound : s.Sound) (hHolder : ∀ q ∈ s.holder, q = p)
    (hPhase : t.phase = Function.update s.phase p phase)
    (hHeld : phase ≠ .idle → t.holder = some p)
    (hFresh : ∀ value, phase = .read value → get t.file = some value)
    (hCounted : t.Counted) :
    t.Sound := by
  have hOthers : ∀ q, q ≠ p → t.phase q = .idle := by
    intro q hNe
    rw [hPhase, Function.update_of_ne hNe]
    by_contra hBusy
    exact hNe (hHolder q (hSound.holder q hBusy))
  have hOwn : t.phase p = phase := by rw [hPhase, Function.update_self]
  refine ⟨fun q hBusy => ?_, fun q value hRead => ?_, hCounted⟩
  · by_cases hSame : q = p
    · subst hSame
      exact hHeld (hOwn ▸ hBusy)
    · exact absurd (hOthers q hSame) hBusy
  · by_cases hSame : q = p
    · subst hSame
      exact hFresh value (hOwn.symm.trans hRead)
    · rw [hOthers q hSame] at hRead
      cases hRead

theorem Sound.step (hSound : s.Sound) (action : Action ι) :
    (s.step action).Sound := by
  have hHeld := hSound.holder
  fun_cases Shared.step s action with
  | case1 p hNone =>
    exact hSound.of_step (p := p) (by simp [hNone]) rfl (by simp)
      (by simp) hSound.counted
  | case3 p value hGet hPhase =>
    have hHolder := hHeld p (by simp [hPhase])
    exact hSound.of_step (p := p) (by simp [hHolder]) rfl
      (fun _ => hHolder) (by simp [hGet]) hSound.counted
  | case5 p value hPhase =>
    have hHolder := hHeld p (by simp [hPhase])
    have hNext : value + 1 =
        s.base + UInt64.ofNat (s.counted.length + 1) := by
      have hSame := (hSound.fresh p value hPhase).symm.trans hSound.counted.1
      rw [Option.some.inj hSame, UInt64.ofNat_add]
      exact UInt64.add_assoc _ _ _
    refine hSound.of_step (p := p) (by simp [hHolder]) rfl
      (fun _ => hHolder) (by simp) ⟨by simp [hNext], ?_⟩
    simp only [List.length_append, List.length_singleton,
      List.range_succ, List.map_append, ← hSound.counted.2, hNext]
    rfl
  | case7 p hPhase =>
    have hHolder := hHeld p (by simp [hPhase])
    exact hSound.of_step (p := p) (by simp [hHolder]) rfl
      (fun _ => hHolder) (by simp) (by simp [Counted])
  | case9 p hHolder =>
    exact hSound.of_step (p := p) (by simp [hHolder]) rfl (by simp)
      (by simp) hSound.counted
  | _ => exact hSound

end Shared

/-
  Over every interleaving of updates, errors and crashes: the
  file reads as one value, the increments since the last reset
  saved the values after `base` one by one, and no two
  processes are in an update at once.
-/
theorem increments_counted
    {file : Option (List Char)} {value : UInt64} {s : Shared ι}
    (hFile : get file = some value)
    (hRun : Reaches Shared.step (fun _ _ => True) (.start file value) s) :
    s.Counted ∧ ∀ p q, s.phase p ≠ .idle → s.phase q ≠ .idle → p = q := by
  have hStart : (Shared.start (ι := ι) file value).Sound :=
    ⟨by simp [Shared.start], by simp [Shared.start],
      by simp [Shared.Counted, Shared.start, hFile]⟩
  have hSound := hRun.invariant Shared.Sound
    (fun s action hSound _ => hSound.step action) hStart
  refine ⟨hSound.counted, fun p q hP hQ => ?_⟩
  exact Option.some.inj ((hSound.holder p hP).symm.trans (hSound.holder q hQ))

/- An increment of a plain number, then one that crashes. -/
theorem increments_counted_of_crash :
    get (([.lock 1, .read 1, .increment 1, .leave 1, .lock 2, .read 2,
      .leave 2].foldl Shared.step
        (Shared.start (some ['7']) 7)).file) = some 8 :=
  (increments_counted (by decide)
    (Reaches.foldl _ (fun _ _ _ => trivial) _)).1.1

end Counter
