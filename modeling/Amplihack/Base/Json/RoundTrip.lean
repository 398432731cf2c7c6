import Amplihack.Base.Json.Text
import Mathlib.Data.List.DropRight
import Mathlib.Tactic.IntervalCases

/-
  Reading back what a printer wrote, whatever blanks it puts
  between the tokens.

  The reader's fuel bounds the text it may still take, so
  the induction is on the value and carries `length < fuel`.
  A number is the longest run of its characters: the text
  after a value must not go on with one.
-/

-- Strings

namespace Base

theorem parseEscape_control
    (rest : List Char) :
    ∀ n < 32, ∃ tail,
      escapeChar (Char.ofNat n) = '\\' :: tail ∧
        parseEscape (tail ++ rest) = some (Char.ofNat n, rest) := by
  intro n hSmall
  interval_cases n <;> exact ⟨_, rfl, rfl⟩

/- One escaped character is read as that character. -/
theorem parseChars_escapeChar
    (fuel : Nat) (c : Char) (rest : List Char) :
    parseChars (fuel + 1) (escapeChar c ++ rest) =
      (do
        let (cs, rest) ← parseChars fuel rest
        some (c :: cs, rest)) := by
  by_cases hQuote : c = '"'
  · subst hQuote
    rfl
  by_cases hSlash : c = '\\'
  · subst hSlash
    rfl
  by_cases hControl : c.toNat < 32
  · rcases parseEscape_control rest c.toNat hControl with
      ⟨tail, hText, hParse⟩
    rw [Char.ofNat_toNat] at hText hParse
    simp [hText, parseChars, hParse]
  · simp [escapeChar, parseChars, hQuote, hSlash, hControl]

theorem escapeChar_ne_nil (c : Char) : escapeChar c ≠ [] := by
  unfold escapeChar
  repeat' split
  all_goals simp

/- Reading a quoted text stops at its closing quote. -/
theorem parseChars_quoted
    (cs : List Char) :
    ∀ (fuel : Nat) (rest : List Char),
      cs.length < fuel →
        parseChars fuel
            (cs.flatMap escapeChar ++ '"' :: rest) =
          some (cs, rest) := by
  induction cs with
  | nil =>
    intro fuel rest hFuel
    cases fuel with
    | zero => simp at hFuel
    | succ fuel => simp [parseChars]
  | cons c cs ih =>
    intro fuel rest hFuel
    cases fuel with
    | zero => simp at hFuel
    | succ fuel =>
      rw [List.flatMap_cons, List.append_assoc,
        parseChars_escapeChar, ih fuel rest (by simpa using hFuel)]
      rfl

theorem length_le_flatMap_escapeChar (cs : List Char) :
    cs.length ≤ (cs.flatMap escapeChar).length := by
  induction cs with
  | nil => simp
  | cons c cs ih =>
    have hPos := List.length_pos_iff.mpr (escapeChar_ne_nil c)
    rw [List.flatMap_cons, List.length_append, List.length_cons]
    omega

theorem parseString_quote (s : String) (rest : List Char) :
    parseString
        (s.toList.flatMap escapeChar ++ '"' :: rest) =
      some (s, rest) := by
  have hLength := length_le_flatMap_escapeChar s.toList
  have hFuel :
      s.toList.length <
        (s.toList.flatMap escapeChar ++ '"' :: rest).length +
          1 := by
    rw [List.length_append]
    omega
  unfold parseString
  rw [parseChars_quoted s.toList _ rest hFuel]
  simp

-- Blanks And Numbers

namespace Json

theorem skipBlanks_of_not_isBlank
    {c : Char} (cs : List Char) (hBlank : isBlank c = false) :
    skipBlanks (c :: cs) = c :: cs := by
  simp [skipBlanks, hBlank]

/- Blanks before a token are left out. -/
def Blanks (cs : List Char) : Prop :=
  ∀ c ∈ cs, isBlank c = true

theorem skipBlanks_append
    {bs : List Char} (cs : List Char) (hBlanks : Blanks bs) :
    skipBlanks (bs ++ cs) = skipBlanks cs :=
  List.dropWhile_append_of_pos hBlanks

theorem blanks_newLine (d : Nat) : Blanks (newLine d) := by
  intro c hMem
  rcases List.mem_cons.mp hMem with rfl | hSpace
  · decide
  · rw [List.eq_of_mem_replicate hSpace]
    decide

@[simp] theorem skipBlanks_skipBlanks (cs : List Char) :
    skipBlanks (skipBlanks cs) = skipBlanks cs :=
  List.dropWhile_idempotent _ cs

/- The text does not go on with a number's characters. -/
def EndsNumber (rest : List Char) : Prop :=
  ∀ c ∈ rest.head?, isNumChar c = false

theorem takeWhile_dropWhile_append
    {p : Char → Bool} {cs rest : List Char} (hAll : ∀ c ∈ cs, p c = true)
    (hRest : ∀ c ∈ rest.head?, p c = false) :
    (cs ++ rest).takeWhile p = cs ∧ (cs ++ rest).dropWhile p = rest := by
  induction cs with
  | nil =>
    cases rest with
    | nil => simp
    | cons c rest => simp [hRest c (by simp)]
  | cons c cs ih =>
    have hTail := ih fun c hMem =>
      hAll c (List.mem_cons_of_mem _ hMem)
    simp [hAll c (by simp), hTail]

theorem parseNumber_append
    (text : NumText) {rest : List Char} (hRest : EndsNumber rest) :
    parseNumber (text.chars ++ rest) = some (.num text, rest) := by
  rcases takeWhile_dropWhile_append
    (fun c hMem => text.isNumChar_of_mem hMem) hRest with
    ⟨hTake, hDrop⟩
  simp [parseNumber, hTake, hDrop, text.valid]

/- A number's text starts with one of its characters. -/
theorem number_head (text : NumText) :
    ∃ c cs, text.chars = c :: cs ∧ isNumChar c = true ∧
      isBlank c = false := by
  cases hChars : text.chars with
  | nil => exact absurd hChars text.ne_nil
  | cons c cs =>
    have hNum : isNumChar c = true :=
      text.isNumChar_of_mem (by simp [hChars])
    refine ⟨c, cs, rfl, hNum, ?_⟩
    rw [Bool.eq_false_iff]
    intro hBlank
    simp only [isBlank, Bool.or_eq_true, decide_eq_true_eq] at hBlank
    rcases hBlank with ((rfl | rfl) | rfl) | rfl <;>
      revert hNum <;> decide

/- A number starts with none of the other opening characters. -/
theorem parseValue_number
    (fuel : Nat) (text : NumText) {rest : List Char}
    (hRest : EndsNumber rest) :
    parseValue (fuel + 1) (text.chars ++ rest) = some (.num text, rest) := by
  have hParse := parseNumber_append text hRest
  rcases number_head text with ⟨c, cs, hChars, hNum, hBlank⟩
  have hNe : ∀ x, isNumChar x = false → c ≠ x := by
    rintro x hx rfl
    simp [hNum] at hx
  rw [hChars] at hParse ⊢
  rw [parseValue, List.cons_append, skipBlanks_of_not_isBlank _ hBlank]
  simp only [hNe 'n' (by decide), hNe 't' (by decide),
    hNe 'f' (by decide), hNe '"' (by decide),
    hNe '[' (by decide), hNe '{' (by decide), if_false]
  exact hParse

-- Round Trip

@[simp] theorem parseValue_skipBlanks
    (fuel : Nat) (cs : List Char) :
    parseValue fuel (skipBlanks cs) = parseValue fuel cs := by
  cases fuel with
  | zero => rfl
  | succ fuel => rw [parseValue, parseValue, skipBlanks_skipBlanks]

@[simp] theorem parseItems_skipBlanks
    (fuel : Nat) (cs : List Char) :
    parseItems fuel (skipBlanks cs) = parseItems fuel cs := by
  cases fuel with
  | zero => rfl
  | succ fuel => rw [parseItems, parseItems, parseValue_skipBlanks]

@[simp] theorem parseMembers_skipBlanks
    (fuel : Nat) (cs : List Char) :
    parseMembers fuel (skipBlanks cs) = parseMembers fuel cs := by
  cases fuel with
  | zero => rfl
  | succ fuel => rw [parseMembers, parseMembers, skipBlanks_skipBlanks]

theorem parseValue_append
    (fuel : Nat) {bs : List Char} (cs : List Char) (hBlanks : Blanks bs) :
    parseValue fuel (bs ++ cs) = parseValue fuel cs := by
  rw [← parseValue_skipBlanks, skipBlanks_append _ hBlanks,
    parseValue_skipBlanks]

theorem endsNumber_cons
    {c : Char} (cs : List Char) (hOther : isNumChar c = false) :
    EndsNumber (c :: cs) := by
  intro x hMem
  cases hMem
  exact hOther

theorem endsNumber_append
    {bs cs : List Char} (hBlanks : Blanks bs) (hEnds : EndsNumber cs) :
    EndsNumber (bs ++ cs) := by
  cases bs with
  | nil => exact hEnds
  | cons b bs =>
    apply endsNumber_cons
    have hBlank := hBlanks b List.mem_cons_self
    simp only [isBlank, Bool.or_eq_true, decide_eq_true_eq] at hBlank
    rcases hBlank with ((rfl | rfl) | rfl) | rfl <;> decide

/- An array whose first item starts with `c`. -/
theorem parseValue_items
    (fuel : Nat) {text : List Char} {c : Char} {cs : List Char}
    (hText : skipBlanks text = c :: cs)
    (hClose : c ≠ ']') :
    parseValue (fuel + 1) ('[' :: text) =
      (parseItems fuel (c :: cs)).map (fun r => (.arr r.1, r.2)) := by
  rw [parseValue, skipBlanks_of_not_isBlank _ (by decide)]
  simp only [hText]
  rw [if_neg (by decide), if_neg (by decide),
    if_neg (by decide), if_neg (by decide), if_pos trivial]
  split
  · next hEq => exact absurd (List.cons.inj hEq).1 hClose
  · cases parseItems fuel (c :: cs) <;> rfl

/- An object with a member. -/
theorem parseValue_members
    (fuel : Nat) {text : List Char} {cs : List Char}
    (hText : skipBlanks text = '"' :: cs) :
    parseValue (fuel + 1) ('{' :: text) =
      (parseMembers fuel ('"' :: cs)).map (fun r => (.obj r.1, r.2)) := by
  rw [parseValue, skipBlanks_of_not_isBlank _ (by decide)]
  simp only [hText]
  rw [if_neg (by decide), if_neg (by decide), if_neg (by decide),
    if_neg (by decide), if_neg (by decide), if_pos trivial]
  split
  · next hEq =>
      exact absurd (List.cons.inj hEq).1 (by decide)
  · cases parseMembers fuel ('"' :: cs) <;> rfl

-- Layouts

/- Blanks at the start of each line and behind a colon. -/
structure Layout where
  line : Nat → List Char
  gap : List Char
  blanks_line : ∀ d, Blanks (line d)
  blanks_gap : Blanks gap

namespace Layout

variable (layout : Layout)

mutual

def text (d : Nat) : Json → List Char
| .null => "null".toList
| .bool true => "true".toList
| .bool false => "false".toList
| .num text => text.chars
| .str s => quote s
| .arr js => '[' :: (items (d + 1) js ++
    (if js.isEmpty then [] else layout.line d) ++ [']'])
| .obj ms => '{' :: (members (d + 1) ms ++
    (if ms.isEmpty then [] else layout.line d) ++ ['}'])
termination_by structural j => j

def items (d : Nat) : List Json → List Char
| [] => []
| j :: js => layout.line d ++ text d j ++
    (if js.isEmpty then [] else [',']) ++ items d js
termination_by structural js => js

def members (d : Nat) : List (String × Json) → List Char
| [] => []
| m :: ms => layout.line d ++ member d m ++
    (if ms.isEmpty then [] else [',']) ++ members d ms
termination_by structural ms => ms

def member (d : Nat) : String × Json → List Char
| (key, value) => quote key ++ (':' :: (layout.gap ++ text d value))
termination_by structural m => m

end

/- The first character of a printed value opens it. -/
theorem text_head
    (d : Nat) (j : Json) :
    ∃ c cs, layout.text d j = c :: cs ∧ isBlank c = false ∧ c ≠ ']' := by
  cases j with
  | null => exact ⟨'n', _, rfl, by decide, by decide⟩
  | bool b =>
    cases b with
    | false => exact ⟨'f', _, rfl, by decide, by decide⟩
    | true => exact ⟨'t', _, rfl, by decide, by decide⟩
  | num text =>
    rcases number_head text with ⟨c, cs, hChars, hNum, hBlank⟩
    refine ⟨c, cs, hChars, hBlank, ?_⟩
    rintro rfl
    revert hNum
    decide
  | str s => exact ⟨'"', _, rfl, by decide, by decide⟩
  | arr items => exact ⟨'[', _, rfl, by decide, by decide⟩
  | obj members => exact ⟨'{', _, rfl, by decide, by decide⟩

/- A printed list of items does not start with its bracket. -/
theorem skipBlanks_items
    (d : Nat) (item : Json) (items : List Json) (rest : List Char) :
    ∃ c cs,
      skipBlanks (layout.items d (item :: items) ++ rest) =
        c :: cs ∧ c ≠ ']' := by
  rcases layout.text_head d item with ⟨c, cs, hHead, hBlank, hClose⟩
  refine ⟨c, cs ++ ((if items.isEmpty then [] else [',']) ++
    (layout.items d items ++ rest)), ?_, hClose⟩
  rw [Layout.items, List.append_assoc, List.append_assoc,
    List.append_assoc, skipBlanks_append _ (layout.blanks_line d),
    hHead, List.cons_append, skipBlanks_of_not_isBlank _ hBlank]

theorem skipBlanks_members
    (d : Nat) (member : String × Json)
    (members : List (String × Json)) (rest : List Char) :
    ∃ cs,
      skipBlanks (layout.members d (member :: members) ++ rest) =
        '"' :: cs := by
  rcases member with ⟨key, value⟩
  refine ⟨?_, ?_⟩
  · exact (key.toList.flatMap escapeChar ++ ['"'] ++
      (':' :: (layout.gap ++ layout.text d value))) ++
        ((if members.isEmpty then [] else [',']) ++
          (layout.members d members ++ rest))
  rw [Layout.members, List.append_assoc, List.append_assoc,
    List.append_assoc, skipBlanks_append _ (layout.blanks_line d),
    Layout.member, quote, List.cons_append, List.cons_append,
    skipBlanks_of_not_isBlank _ (by decide)]

/- A key, its colon and its value, before what follows. -/
theorem parseMembers_member
    (d fuel : Nat) (member : String × Json) {rest : List Char}
    (hValue :
      parseValue fuel (layout.text d member.2 ++ rest) =
        some (member.2, rest)) :
    (∀ more, skipBlanks rest = ',' :: more →
      parseMembers (fuel + 1)
          (layout.line d ++ (layout.member d member ++ rest)) =
        (parseMembers fuel more).map fun r => (member :: r.1, r.2)) ∧
      ∀ more, skipBlanks rest = '}' :: more →
        parseMembers (fuel + 1)
            (layout.line d ++ (layout.member d member ++ rest)) =
          some ([member], more) := by
  rcases member with ⟨key, value⟩
  have hColon : isBlank ':' = false := by decide
  have hQuote : isBlank '"' = false := by decide
  rw [parseMembers, skipBlanks_append _ (layout.blanks_line d),
    Layout.member, quote]
  simp only [List.cons_append, List.append_assoc, List.nil_append,
    skipBlanks_of_not_isBlank _ hQuote, parseString_quote,
    Option.bind_eq_bind, Option.bind_some, skipBlanks_of_not_isBlank _ hColon,
    parseValue_append _ _ layout.blanks_gap, hValue]
  constructor
  · intro more hRest
    simp only [hRest]
    cases parseMembers fuel more <;> rfl
  · intro more hRest
    simp only [hRest]

mutual

theorem parseValue_text
    (d fuel : Nat) (rest : List Char) (hRest : EndsNumber rest) :
    (j : Json) → (layout.text d j).length < fuel →
      parseValue fuel (layout.text d j ++ rest) = some (j, rest)
| .null, hFuel => by
    cases fuel with
    | zero => simp at hFuel
    | succ fuel => rfl
| .bool b, hFuel => by
    cases fuel with
    | zero => simp at hFuel
    | succ fuel => cases b <;> rfl
| .num text, hFuel => by
    cases fuel with
    | zero => simp at hFuel
    | succ fuel => exact parseValue_number fuel text hRest
| .str s, hFuel => by
    cases fuel with
    | zero => simp at hFuel
    | succ fuel =>
      rw [Layout.text, quote, List.cons_append, parseValue,
        skipBlanks_of_not_isBlank _ (by decide)]
      simp [parseString_quote]
| .arr [], hFuel => by
    cases fuel with
    | zero => simp at hFuel
    | succ fuel => rfl
| .arr (item :: items), hFuel => by
    cases fuel with
    | zero => simp at hFuel
    | succ fuel =>
      have hItems := parseItems_items (d + 1) fuel rest
        (layout.blanks_line d) (item :: items) (by simp) (by
          simp only [Layout.text, List.length_cons,
            List.length_append] at hFuel
          omega)
      rcases layout.skipBlanks_items (d + 1) item items
        (layout.line d ++ ']' :: rest) with
        ⟨c, cs, hText, hClose⟩
      rw [← parseItems_skipBlanks, hText] at hItems
      have hPrint :
          layout.text d (.arr (item :: items)) ++ rest =
            '[' :: (layout.items (d + 1) (item :: items) ++
              (layout.line d ++ ']' :: rest)) := by simp [Layout.text]
      rw [hPrint, parseValue_items fuel hText hClose, hItems]
      rfl
| .obj [], hFuel => by
    cases fuel with
    | zero => simp at hFuel
    | succ fuel => rfl
| .obj (member :: members), hFuel => by
    cases fuel with
    | zero => simp at hFuel
    | succ fuel =>
      have hMembers := parseMembers_members (d + 1) fuel rest
        (layout.blanks_line d) (member :: members) (by simp) (by
          simp only [Layout.text, List.length_cons,
            List.length_append] at hFuel
          omega)
      rcases layout.skipBlanks_members (d + 1) member members
        (layout.line d ++ '}' :: rest) with ⟨cs, hText⟩
      rw [← parseMembers_skipBlanks, hText] at hMembers
      have hPrint :
          layout.text d (.obj (member :: members)) ++ rest =
            '{' :: (layout.members (d + 1) (member :: members) ++
              (layout.line d ++ '}' :: rest)) := by simp [Layout.text]
      rw [hPrint, parseValue_members fuel hText, hMembers]
      rfl

/- The fuel bounds the items and the closing bracket. -/
theorem parseItems_items
    (d fuel : Nat) (rest : List Char) {close : List Char}
    (hClose : Blanks close) :
    (items : List Json) → items ≠ [] →
      (layout.items d items).length + 1 < fuel →
        parseItems fuel
            (layout.items d items ++ (close ++ ']' :: rest)) =
          some (items, rest)
| [], hNe, _ => absurd rfl hNe
| [item], _, hFuel => by
    cases fuel with
    | zero => simp at hFuel
    | succ fuel =>
      have hItem := parseValue_text d fuel
        (close ++ ']' :: rest) (endsNumber_append hClose
          (endsNumber_cons _ (by decide))) item (by
          simp only [Layout.items, List.length_append] at hFuel
          omega)
      have hEnd : isBlank ']' = false := by decide
      simp [Layout.items, parseItems, hItem,
        parseValue_append _ _ (layout.blanks_line d),
        skipBlanks_append _ hClose, skipBlanks_of_not_isBlank _ hEnd]
| item :: next :: items, _, hFuel => by
    cases fuel with
    | zero => simp at hFuel
    | succ fuel =>
      rw [Layout.items] at hFuel
      simp only [List.isEmpty_cons, Bool.false_eq_true, if_false,
        List.length_append, List.length_cons, List.length_nil] at hFuel
      have hItems := parseItems_items d fuel rest hClose
        (next :: items) (by simp) (by omega)
      have hItem := parseValue_text d fuel
        (',' :: (layout.items d (next :: items) ++ (close ++ ']' :: rest)))
        (endsNumber_cons _ (by decide)) item (by omega)
      have hComma : isBlank ',' = false := by decide
      rw [Layout.items]
      simp [parseItems, hItem, hItems,
        parseValue_append _ _ (layout.blanks_line d),
        skipBlanks_of_not_isBlank _ hComma]
termination_by structural items => items

theorem parseMembers_members
    (d fuel : Nat) (rest : List Char) {close : List Char}
    (hClose : Blanks close) :
    (members : List (String × Json)) → members ≠ [] →
      (layout.members d members).length + 1 < fuel →
        parseMembers fuel
            (layout.members d members ++ (close ++ '}' :: rest)) =
          some (members, rest)
| [], hNe, _ => absurd rfl hNe
| [member], _, hFuel => by
    cases fuel with
    | zero => simp at hFuel
    | succ fuel =>
      have hMember := parseValue_member d fuel
        (close ++ '}' :: rest) (endsNumber_append hClose
          (endsNumber_cons _ (by decide))) member (by
          simp only [Layout.members, List.length_append] at hFuel
          omega)
      have hEnd : skipBlanks (close ++ '}' :: rest) = '}' :: rest := by
        rw [skipBlanks_append _ hClose,
          skipBlanks_of_not_isBlank _ (by decide)]
      simp [Layout.members,
        (layout.parseMembers_member _ _ _ hMember).2 _ hEnd]
| member :: next :: members, _, hFuel => by
    cases fuel with
    | zero => simp at hFuel
    | succ fuel =>
      rw [Layout.members] at hFuel
      simp only [List.isEmpty_cons, Bool.false_eq_true, if_false,
        List.length_append, List.length_cons, List.length_nil] at hFuel
      have hMembers := parseMembers_members d fuel rest hClose
        (next :: members) (by simp) (by omega)
      have hMember := parseValue_member d fuel
        (',' :: (layout.members d (next :: members) ++
          (close ++ '}' :: rest)))
        (endsNumber_cons _ (by decide)) member (by omega)
      have hComma := skipBlanks_of_not_isBlank
        (layout.members d (next :: members) ++
          (close ++ '}' :: rest)) (by decide : isBlank ',' = false)
      rw [Layout.members]
      simp [(layout.parseMembers_member _ _ _ hMember).1 _ hComma, hMembers]
termination_by structural members => members

theorem parseValue_member
    (d fuel : Nat) (rest : List Char) (hRest : EndsNumber rest) :
    (member : String × Json) →
      (layout.member d member).length ≤ fuel →
        parseValue fuel (layout.text d member.2 ++ rest) =
          some (member.2, rest)
| (key, value), hFuel =>
  parseValue_text d fuel rest hRest value (by
    simp only [Layout.member, quote, List.length_append,
      List.length_cons] at hFuel
    omega)
termination_by structural member => member

end

/- A printed value is read back. -/
theorem parse_text (d : Nat) (j : Json) :
    parse (layout.text d j) = some j := by
  have hValue := layout.parseValue_text d
    ((layout.text d j).length + 1) [] (by simp [EndsNumber]) j
    (Nat.lt_succ_self _)
  rw [List.append_nil] at hValue
  unfold parse
  rw [hValue]
  rfl

end Layout

-- The Printer

/- Each item and member on a line of its own. -/
def prettyLayout : Layout where
  line := newLine
  gap := [' ']
  blanks_line := blanks_newLine
  blanks_gap := by
    intro c hMem
    rw [List.mem_singleton.mp hMem]
    decide

mutual

theorem pretty_eq (d : Nat) :
    (j : Json) → pretty d j = prettyLayout.text d j
| .null => rfl
| .bool true => rfl
| .bool false => rfl
| .num _ => rfl
| .str _ => rfl
| .arr items => by
    rw [pretty, Layout.text, prettyItems_eq (d + 1) items]
    rfl
| .obj members => by
    rw [pretty, Layout.text, prettyMembers_eq (d + 1) members]
    rfl
termination_by structural j => j

theorem prettyItems_eq (d : Nat) :
    (items : List Json) → prettyItems d items = prettyLayout.items d items
| [] => rfl
| item :: items => by
    rw [prettyItems, Layout.items, pretty_eq d item, prettyItems_eq d items]
    rfl
termination_by structural items => items

theorem prettyMembers_eq (d : Nat) :
    (members : List (String × Json)) →
      prettyMembers d members = prettyLayout.members d members
| [] => rfl
| member :: members => by
    rw [prettyMembers, Layout.members, prettyMember_eq d member,
      prettyMembers_eq d members]
    rfl
termination_by structural members => members

theorem prettyMember_eq (d : Nat) :
    (member : String × Json) →
      prettyMember d member = prettyLayout.member d member
| (key, value) => by
    rw [prettyMember, Layout.member, pretty_eq d value]
    rfl
termination_by structural member => member

end

/- A printed value is read back. -/
theorem parse_pretty (j : Json) :
    parse (pretty 0 j) = some j := by
  rw [pretty_eq]
  exact prettyLayout.parse_text 0 j

end Json

end Base
