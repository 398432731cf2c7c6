import Mathlib.Data.List.Basic
import Mathlib.Data.List.TakeWhile

/-
  JSON values and the text of numbers.

  A number keeps its text, so no reading of it is fixed
  here: `NumText.toNat?` and `NumText.toInt?` read whole
  numbers, and another reader may read the same text as a
  floating-point value.

  The text of JSON values: an indenting printer and a reader.

  The printer puts every item and member on its own line,
  two blanks a level, and writes an empty array or object as
  its two brackets. The reader takes any JSON text.
-/

-- Number Grammar

namespace Base

/- The characters a number may hold. -/
def isNumChar (c : Char) : Bool :=
  c.isDigit || c = '-' || c = '+' || c = '.' || c = 'e' || c = 'E'

/- An optional sign and at least one digit, to the end. -/
def isExponent : List Char → Bool
| '+' :: cs => !cs.isEmpty && cs.all Char.isDigit
| '-' :: cs => !cs.isEmpty && cs.all Char.isDigit
| cs => !cs.isEmpty && cs.all Char.isDigit

/- What may follow the digits of a number: nothing, or an exponent. -/
def isExponentPart : List Char → Bool
| [] => true
| 'e' :: cs => isExponent cs
| 'E' :: cs => isExponent cs
| _ => false

/- What may follow the whole part of a number. -/
def isFraction : List Char → Bool
| '.' :: c :: cs =>
  c.isDigit && isExponentPart (cs.dropWhile Char.isDigit)
| cs => isExponentPart cs

/- A number without its sign; no leading zero. -/
def isUnsigned : List Char → Bool
| [] => false
| c :: cs =>
  if c = '0' then isFraction cs
  else c.isDigit && isFraction (cs.dropWhile Char.isDigit)

/- The JSON number grammar. -/
def isNumber : List Char → Bool
| '-' :: cs => cs.all isNumChar && isUnsigned cs
| cs => cs.all isNumChar && isUnsigned cs

structure NumText where
  chars : List Char
  valid : isNumber chars = true

namespace NumText

theorem ne_nil (t : NumText) : t.chars ≠ [] := by
  intro hNil
  have hValid := t.valid
  rw [hNil] at hValid
  simp [isNumber, isUnsigned] at hValid

theorem isNumChar_of_mem
    (t : NumText) {c : Char} (hMem : c ∈ t.chars) :
    isNumChar c = true := by
  have hValid := t.valid
  unfold isNumber at hValid
  split at hValid
  · next cs hEq =>
      rw [hEq] at hMem
      rcases List.mem_cons.mp hMem with rfl | hTail
      · decide
      · exact List.all_eq_true.mp (Bool.and_eq_true_iff.mp hValid).1 c hTail
  · exact List.all_eq_true.mp (Bool.and_eq_true_iff.mp hValid).1 c hMem

end NumText

-- Whole Numbers

theorem isNumChar_of_isDigit
    {c : Char} (hDigit : c.isDigit = true) :
    isNumChar c = true := by
  simp [isNumChar, hDigit]

theorem isDigit_of_mem_decimal
    {n : Nat} {c : Char} (hMem : c ∈ Nat.toDigits 10 n) :
    c.isDigit = true :=
  Nat.isDigit_of_mem_toDigits (by decide) (by decide) hMem

/- A positive number does not start with a zero. -/
theorem decimal_head_ne_zero
    {n : Nat} (hPos : 0 < n) :
    ∃ c cs, Nat.toDigits 10 n = c :: cs ∧ c ≠ '0' := by
  induction n using Nat.strongRecOn with
  | ind n ih =>
    by_cases hSmall : n < 10
    · refine ⟨n.digitChar, [], Nat.toDigits_of_lt_base hSmall, ?_⟩
      have hDigits : ∀ d < 10, 0 < d → d.digitChar ≠ '0' := by decide
      exact hDigits n hSmall hPos
    · have hBase : 10 ≤ n := by omega
      rcases ih (n / 10) (by omega) (by omega) with ⟨c, cs, hDigits, hNe⟩
      refine ⟨c, cs ++ [(n % 10).digitChar], ?_, hNe⟩
      rw [Nat.toDigits_of_base_le (by decide) hBase,
        hDigits, List.cons_append]

theorem isUnsigned_decimal (n : Nat) :
    isUnsigned (Nat.toDigits 10 n) = true := by
  rcases Nat.eq_zero_or_pos n with rfl | hPos
  · decide
  · rcases decimal_head_ne_zero hPos with
      ⟨c, cs, hDigits, hNe⟩
    have hAll : ∀ x ∈ c :: cs, x.isDigit = true := by
      intro x hx
      exact isDigit_of_mem_decimal (hDigits ▸ hx)
    have hRest : cs.dropWhile Char.isDigit = [] := by
      rw [List.dropWhile_eq_nil_iff]
      intro x hx
      exact hAll x (List.mem_cons_of_mem _ hx)
    rw [hDigits]
    simp [isUnsigned, hNe, hAll c (by simp), hRest,
      isFraction, isExponentPart]

theorem all_isNumChar_decimal (n : Nat) :
    (Nat.toDigits 10 n).all isNumChar = true := by
  rw [List.all_eq_true]
  intro c hMem
  exact isNumChar_of_isDigit (isDigit_of_mem_decimal hMem)

theorem isNumber_of_isUnsigned
    {cs : List Char} (hAll : cs.all isNumChar = true)
    (hUnsigned : isUnsigned cs = true) :
    isNumber cs = true := by
  unfold isNumber
  split
  · simp [isUnsigned] at hUnsigned
  · simp [hAll, hUnsigned]

namespace NumText

/- The decimal text of a natural number. -/
def ofNat (n : Nat) : NumText where
  chars := Nat.toDigits 10 n
  valid := isNumber_of_isUnsigned
    (all_isNumChar_decimal n) (isUnsigned_decimal n)

/- The decimal text of an integer. -/
def ofInt : Int → NumText
| .ofNat n => ofNat n
| .negSucc n =>
  { chars := '-' :: Nat.toDigits 10 (n + 1)
    valid := by
      simp [isNumber, all_isNumChar_decimal, isUnsigned_decimal] }

/- The natural number a text of digits alone denotes. -/
def toNat? (t : NumText) : Option Nat :=
  if t.chars.all Char.isDigit then
    some (Nat.ofDigitChars 10 t.chars 0)
  else none

/- The integer a text of an optional sign and digits denotes. -/
def toInt? (t : NumText) : Option Int :=
  match t.chars with
  | '-' :: cs =>
    if cs.all Char.isDigit && !cs.isEmpty then
      match Nat.ofDigitChars 10 cs 0 with
      -- "-0" is a floating-point number to the reader.
      | 0 => none
      | n + 1 => some (.negSucc n)
    else none
  | _ => t.toNat?.map Int.ofNat

theorem toNat?_ofNat (n : Nat) :
    (ofNat n).toNat? = some n := by
  have hAll : (Nat.toDigits 10 n).all Char.isDigit = true :=
    List.all_eq_true.mpr fun _ => isDigit_of_mem_decimal
  simp only [toNat?, ofNat, hAll, if_true]
  rw [Nat.ofDigitChars_ten_toDigits]

theorem toInt?_ofInt (i : Int) :
    (ofInt i).toInt? = some i := by
  cases i with
  | ofNat n =>
    have hSign : ∀ cs, (ofNat n).chars ≠ '-' :: cs := by
      intro cs hEq
      have hDigit : ('-' : Char).isDigit = true :=
        isDigit_of_mem_decimal (n := n) (by
          change '-' ∈ (ofNat n).chars
          simp [hEq])
      exact absurd hDigit (by decide)
    simp only [ofInt, toInt?, toNat?_ofNat]
    rfl
  | negSucc n =>
    have hAll :
        (Nat.toDigits 10 (n + 1)).all Char.isDigit =
          true :=
      List.all_eq_true.mpr fun _ => isDigit_of_mem_decimal
    have hNe : (Nat.toDigits 10 (n + 1)).isEmpty = false := by
      simp [List.isEmpty_eq_false_iff, Nat.toDigits_ne_nil]
    simp only [ofInt, toInt?, hAll, hNe]
    rw [Nat.ofDigitChars_ten_toDigits]
    rfl

end NumText

-- Values

/- A JSON value; object members in the order written. -/
inductive Json where
| null
| bool (b : Bool)
| num (text : NumText)
| str (s : String)
| arr (items : List Json)
| obj (members : List (String × Json))

namespace Json

/- The value of the first member called `key`. -/
def member? (members : List (String × Json)) (key : String) :
    Option Json :=
  (members.find? (fun m => m.1 = key)).map Prod.snd

/- Some member is called `key` twice. -/
def isRepeated
    (members : List (String × Json)) (key : String) : Bool :=
  1 < members.countP (fun m => m.1 = key)

/- A natural number as a JSON number. -/
def ofNat (n : Nat) : Json := .num (.ofNat n)

/- An integer as a JSON number. -/
def ofInt (i : Int) : Json := .num (.ofInt i)

def isNull : Json → Bool
| .null => true
| _ => false

def toNat? : Json → Option Nat
| .num text => text.toNat?
| _ => none

def toInt? : Json → Option Int
| .num text => text.toInt?
| _ => none

def toStr? : Json → Option String
| .str s => some s
| _ => none

def toArr? : Json → Option (List Json)
| .arr items => some items
| _ => none

def toObj? : Json → Option (List (String × Json))
| .obj members => some members
| _ => none

@[simp] theorem toNat?_ofNat (n : Nat) :
    (ofNat n).toNat? = some n :=
  NumText.toNat?_ofNat n

@[simp] theorem toInt?_ofInt (i : Int) :
    (ofInt i).toInt? = some i :=
  NumText.toInt?_ofInt i

end Json

end Base

-- Strings

namespace Base

/- A lower-case hexadecimal digit. -/
def hexDigit (n : Nat) : Char :=
  if n < 10 then Char.ofNat (48 + n) else Char.ofNat (87 + n)

/- The value of a hexadecimal digit. -/
def hexValue? (c : Char) : Option Nat :=
  if '0' ≤ c ∧ c ≤ '9' then some (c.toNat - 48)
  else if 'a' ≤ c ∧ c ≤ 'f' then some (c.toNat - 87)
  else if 'A' ≤ c ∧ c ≤ 'F' then some (c.toNat - 55)
  else none

/- One character inside a JSON string. -/
def escapeChar (c : Char) : List Char :=
  if c = '"' then ['\\', '"']
  else if c = '\\' then ['\\', '\\']
  else if c.toNat < 32 then
    match c.toNat with
    | 8 => ['\\', 'b']
    | 9 => ['\\', 't']
    | 10 => ['\\', 'n']
    | 12 => ['\\', 'f']
    | 13 => ['\\', 'r']
    | n => ['\\', 'u', '0', '0',
        hexDigit (n / 16), hexDigit (n % 16)]
  else [c]

/- A string between its quotes. -/
def quote (s : String) : List Char :=
  '"' :: (s.toList.flatMap escapeChar ++ ['"'])

/- Four hexadecimal digits. -/
def parseHex4 : List Char → Option (Nat × List Char)
| a :: b :: c :: d :: rest => do
    let a ← hexValue? a
    let b ← hexValue? b
    let c ← hexValue? c
    let d ← hexValue? d
    some (((a * 16 + b) * 16 + c) * 16 + d, rest)
| _ => none

/- The scalar value of `n`, when it is one. -/
def scalar? (n : Nat) : Option Char :=
  if n.isValidChar then some (Char.ofNat n) else none

/- What follows `\u`: one unit, or a surrogate pair. -/
def parseUnicode (cs : List Char) :
    Option (Char × List Char) := do
  let (high, rest) ← parseHex4 cs
  if 0xD800 ≤ high ∧ high < 0xDC00 then
    match rest with
    | '\\' :: 'u' :: rest => do
        let (low, rest) ← parseHex4 rest
        if 0xDC00 ≤ low ∧ low < 0xE000 then
          let c ← scalar?
            (0x10000 + (high - 0xD800) * 0x400 + (low - 0xDC00))
          some (c, rest)
        else none
    | _ => none
  else
    let c ← scalar? high
    some (c, rest)

/- What follows a backslash. -/
def parseEscape : List Char → Option (Char × List Char)
| '"' :: rest => some ('"', rest)
| '\\' :: rest => some ('\\', rest)
| '/' :: rest => some ('/', rest)
| 'b' :: rest => some (Char.ofNat 8, rest)
| 't' :: rest => some (Char.ofNat 9, rest)
| 'n' :: rest => some (Char.ofNat 10, rest)
| 'f' :: rest => some (Char.ofNat 12, rest)
| 'r' :: rest => some (Char.ofNat 13, rest)
| 'u' :: rest => parseUnicode rest
| _ => none

/- The characters of a string, up to its closing quote. -/
def parseChars :
    Nat → List Char → Option (List Char × List Char)
| 0, _ => none
| _ + 1, [] => none
| fuel + 1, c :: rest =>
  if c = '"' then some ([], rest)
  else if c = '\\' then do
    let (c, rest) ← parseEscape rest
    let (cs, rest) ← parseChars fuel rest
    some (c :: cs, rest)
  else if c.toNat < 32 then none
  else do
    let (cs, rest) ← parseChars fuel rest
    some (c :: cs, rest)

/- A string, after its opening quote. -/
def parseString (cs : List Char) :
    Option (String × List Char) := do
  let (text, rest) ← parseChars (cs.length + 1) cs
  some (String.ofList text, rest)

-- Printer

/- The number of bytes of a text. -/
def textBytes : List Char → Nat
| [] => 0
| c :: cs => c.utf8Size + textBytes cs

@[simp] theorem textBytes_nil : textBytes [] = 0 := rfl

@[simp] theorem textBytes_cons (c : Char) (cs : List Char) :
    textBytes (c :: cs) = c.utf8Size + textBytes cs := rfl

@[simp] theorem textBytes_append (cs ds : List Char) :
    textBytes (cs ++ ds) = textBytes cs + textBytes ds := by
  induction cs with
  | nil => simp
  | cons c cs ih =>
    rw [List.cons_append, textBytes_cons, textBytes_cons, ih, Nat.add_assoc]

namespace Json

/- A new line at depth `d`. -/
def newLine (d : Nat) : List Char :=
  '\n' :: List.replicate (2 * d) ' '

mutual

/- The text of a value whose first line is at depth `d`. -/
def pretty (d : Nat) : Json → List Char
| .null => "null".toList
| .bool true => "true".toList
| .bool false => "false".toList
| .num text => text.chars
| .str s => quote s
| .arr items => '[' :: (prettyItems (d + 1) items ++
    (if items.isEmpty then [] else newLine d) ++ [']'])
| .obj members => '{' :: (prettyMembers (d + 1) members ++
    (if members.isEmpty then [] else newLine d) ++ ['}'])
termination_by structural j => j

/- The items of an array, each on its own line. -/
def prettyItems (d : Nat) : List Json → List Char
| [] => []
| item :: items => newLine d ++ pretty d item ++
    (if items.isEmpty then [] else [',']) ++
    prettyItems d items
termination_by structural items => items

/- The members of an object, each on its own line. -/
def prettyMembers (d : Nat) :
    List (String × Json) → List Char
| [] => []
| member :: members => newLine d ++ prettyMember d member ++
    (if members.isEmpty then [] else [',']) ++
    prettyMembers d members
termination_by structural members => members

def prettyMember (d : Nat) : String × Json → List Char
| (key, value) => quote key ++ (':' :: ' ' :: pretty d value)
termination_by structural member => member

end

/- An object's text holds each of its values' texts. -/
theorem textBytes_prettyMembers_cons
    (d : Nat) (m : String × Json) (members : List (String × Json)) :
    textBytes (pretty d m.2) + textBytes (prettyMembers d members) ≤
      textBytes (prettyMembers d (m :: members)) := by
  rcases m with ⟨key, value⟩
  rw [prettyMembers]
  simp only [prettyMember, textBytes_append, textBytes_cons]
  omega

theorem mul_length_le_prettyMembers
    {d n : Nat} {members : List (String × Json)}
    (hShare : ∀ m ∈ members, n ≤ textBytes (pretty d m.2)) :
    n * members.length ≤ textBytes (prettyMembers d members) := by
  induction members with
  | nil => simp
  | cons m members ih =>
    have hHead := hShare m (by simp)
    have hTail := ih fun m' hMem =>
      hShare m' (List.mem_cons_of_mem _ hMem)
    have hCons := textBytes_prettyMembers_cons d m members
    rw [List.length_cons, Nat.mul_succ]
    omega

theorem textBytes_prettyMembers_le
    (d : Nat) (members : List (String × Json)) :
    textBytes (prettyMembers (d + 1) members) ≤
      textBytes (pretty d (.obj members)) := by
  rw [pretty]
  simp only [textBytes_append, textBytes_cons]
  omega

-- Reader

/- The blanks JSON allows between tokens. -/
def isBlank (c : Char) : Bool :=
  c = ' ' || c = '\n' || c = '\t' || c = '\r'

/- The text after its leading blanks. -/
def skipBlanks (cs : List Char) : List Char :=
  cs.dropWhile isBlank

/- The text after `word`, when it starts with it. -/
def dropWord : List Char → List Char → Option (List Char)
| [], cs => some cs
| _ :: _, [] => none
| w :: word, c :: cs =>
  if w = c then dropWord word cs else none

/- A number: the longest run of its characters. -/
def parseNumber (cs : List Char) :
    Option (Json × List Char) :=
  let text := cs.takeWhile isNumChar
  if hValid : isNumber text = true then
    some (.num ⟨text, hValid⟩, cs.dropWhile isNumChar)
  else none

mutual

/- A value, after any blanks. -/
def parseValue : Nat → List Char → Option (Json × List Char)
| 0, _ => none
| fuel + 1, cs =>
  match skipBlanks cs with
  | [] => none
  | c :: rest =>
    if c = 'n' then do
      let rest ← dropWord "ull".toList rest
      some (.null, rest)
    else if c = 't' then do
      let rest ← dropWord "rue".toList rest
      some (.bool true, rest)
    else if c = 'f' then do
      let rest ← dropWord "alse".toList rest
      some (.bool false, rest)
    else if c = '"' then do
      let (s, rest) ← parseString rest
      some (.str s, rest)
    else if c = '[' then
      match skipBlanks rest with
      | ']' :: rest => some (.arr [], rest)
      | rest => do
          let (items, rest) ← parseItems fuel rest
          some (.arr items, rest)
    else if c = '{' then
      match skipBlanks rest with
      | '}' :: rest => some (.obj [], rest)
      | rest => do
          let (members, rest) ← parseMembers fuel rest
          some (.obj members, rest)
    else parseNumber (c :: rest)

/- The items of an array, up to its closing bracket. -/
def parseItems :
    Nat → List Char → Option (List Json × List Char)
| 0, _ => none
| fuel + 1, cs => do
    let (item, rest) ← parseValue fuel cs
    match skipBlanks rest with
    | ',' :: rest => do
        let (items, rest) ← parseItems fuel rest
        some (item :: items, rest)
    | ']' :: rest => some ([item], rest)
    | _ => none

/- The members of an object, up to its closing brace. -/
def parseMembers : Nat → List Char →
    Option (List (String × Json) × List Char)
| 0, _ => none
| fuel + 1, cs =>
  match skipBlanks cs with
  | '"' :: rest => do
      let (key, rest) ← parseString rest
      match skipBlanks rest with
      | ':' :: rest => do
          let (value, rest) ← parseValue fuel rest
          match skipBlanks rest with
          | ',' :: rest => do
              let (members, rest) ← parseMembers fuel rest
              some ((key, value) :: members, rest)
          | '}' :: rest => some ([(key, value)], rest)
          | _ => none
      | _ => none
  | _ => none

end

/- The one value a whole text denotes. -/
def parse (cs : List Char) : Option Json := do
  let (j, rest) ← parseValue (cs.length + 1) cs
  if skipBlanks rest = [] then some j else none

end Json

end Base
