import Mathlib.Data.String.Basic
import Amplihack.Base.Numbers

/-
  Profile names: one directory component each.

  Overflow entries, and the gate that decides when work may
  move onto one.
-/

-- The Rule For Names

namespace Profile

/- The longest name, in bytes. -/
def maxName : ℕ := 64

/- Device names no file may have. -/
def reserved : List String :=
  ["CON", "PRN", "AUX", "NUL", "CONIN$", "CONOUT$"]

/- The name before its first dot is a device's. -/
def isWindowsReserved (name : List Char) : Bool :=
  let stem := (name.takeWhile (· ≠ '.')).map Char.toUpper
  reserved.any (fun word => word.toList = stem) ||
    (match stem with
    | ['C', 'O', 'M', d] => '1' ≤ d && d ≤ '9'
    | ['L', 'P', 'T', d] => '1' ≤ d && d ≤ '9'
    | _ => false)

/- Two dots in a row somewhere. -/
def hasDotDot : List Char → Bool
| '.' :: '.' :: _ => true
| _ :: cs => hasDotDot cs
| [] => false

theorem hasDotDot_of_not_mem
    {cs : List Char} (hDot : '.' ∉ cs) :
    hasDotDot cs = false := by
  fun_induction hasDotDot cs with
  | case1 => simp at hDot
  | case2 c cs hOther ih =>
    exact ih fun hMem => hDot (List.mem_cons_of_mem _ hMem)
  | case3 => rfl

/- The names read from disk that may be used as a profile. -/
def validLiveName (raw : String) : Bool :=
  match raw.toList with
  | [] => false
  | first :: rest =>
    raw.utf8ByteSize ≤ maxName &&
    first.isAlphanum &&
    rest.all (fun c =>
      c.isAlphanum || c = '.' || c = '_' || c = '-') &&
    !hasDotDot (first :: rest) &&
    (first :: rest).getLast? ≠ some '.' &&
    !isWindowsReserved (first :: rest)

/- Names of letters and digits that start with an x. -/
theorem validLiveName_of_alphanum
    {cs : List Char} (hAll : ∀ c ∈ cs, c.isAlphanum = true)
    (hBytes : (String.ofList ('x' :: cs)).utf8ByteSize ≤ maxName) :
    validLiveName (String.ofList ('x' :: cs)) = true := by
  have hDot : '.' ∉ 'x' :: cs := by
    intro hMem
    rcases List.mem_cons.mp hMem with hHead | hTail
    · exact absurd hHead (by decide)
    · exact absurd (hAll '.' hTail) (by decide)
  have hRest : cs.all (fun c =>
      c.isAlphanum || c = '.' || c = '_' || c = '-') =
        true := by
    rw [List.all_eq_true]
    intro c hMem
    rw [hAll c hMem, Bool.true_or, Bool.true_or, Bool.true_or]
  have hLast : ('x' :: cs).getLast? ≠ some '.' := by
    intro hEnd
    exact hDot (List.mem_of_getLast? hEnd)
  have hDevice : isWindowsReserved ('x' :: cs) = false := by
    simp [isWindowsReserved, reserved]
  rw [validLiveName, String.toList_ofList]
  simp only [decide_eq_true hBytes, hRest,
    hasDotDot_of_not_mem hDot, decide_eq_true hLast, hDevice,
    Bool.not_false, Bool.and_true, Bool.true_and]
  decide

/- A name that follows the rule. -/
structure ProfileName where
  text : String
  valid : validLiveName text = true
deriving DecidableEq

namespace ProfileName

def parse (raw : String) : Option ProfileName :=
  if hValid : validLiveName raw = true then some ⟨raw, hValid⟩
  else none

theorem parse_text (p : ProfileName) : parse p.text = some p := by
  simp [parse, p.valid]

theorem text_injective {m n : ProfileName}
    (hText : m.text = n.text) :
    m = n := by
  cases m
  cases n
  simp_all

end ProfileName

end Profile

-- Entries

namespace Profile

open Base

/- A profile billed per use; lower tiers are tried first. -/
structure OverflowEntry where
  name : ProfileName
  tier : UInt8

/- The API-key tier, after every written tier. -/
def platformTier : UInt8 := 10

-- The Gate

/- When work may move onto overflow; what counts as capacity. -/
structure Gate where
  wait : ℕ
  unknownReset : Bool
  sessionAt : ℕ
  weekAt : ℕ

namespace Gate

/- Both windows are below their thresholds. -/
def planCapacity (gate : Gate) (session week : Float) : Bool :=
  session < Float.ofNat gate.sessionAt && week < Float.ofNat gate.weekAt

/- Which windows are at their thresholds. -/
def atThreshold (gate : Gate) (session week : Float) :
    Bool × Bool :=
  (Float.ofNat gate.sessionAt ≤ session, Float.ofNat gate.weekAt ≤ week)

/- The earliest plan reset is more than the wait away. -/
def far (gate : Gate) (earliestPlanReset : Option ℤ) (now : ℤ) :
    Bool :=
  match earliestPlanReset with
  | none => gate.unknownReset
  | some t => orMax gate.wait < saturatingSub t now

end Gate

end Profile
