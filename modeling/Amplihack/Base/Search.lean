import Mathlib.Data.List.Infix
import Mathlib.Data.List.Basic
import Mathlib.Data.Nat.Find

/-
  Where a pattern occurs in a text, and the operations on the
  text that keep its occurrences.

  Cutting lists at the first place where something stands.

  Paths below one another: a list below a prefix of it that
  ends before a separator.
-/

-- The First Occurrence

namespace Base

variable {α : Type}

/- Where the pattern first occurs in the text. -/
def find [DecidableEq α] (pattern : List α) : List α → Option ℕ
| [] => if pattern = [] then some 0 else none
| c :: cs =>
  if pattern.isPrefixOf (c :: cs) then some 0
  else (find pattern cs).map (· + 1)

theorem find_isSome_iff [DecidableEq α]
    (pattern text : List α) :
    (find pattern text).isSome ↔ pattern <:+: text := by
  induction text with
  | nil =>
    rw [find, List.infix_nil]
    split
    · next hNil => simp [hNil]
    · next hNil => simp [hNil]
  | cons c cs ih =>
    rw [find, List.infix_cons_iff, ← ih]
    split
    · next hPrefix =>
        simp [List.isPrefixOf_iff_prefix.mp hPrefix]
    · next hPrefix =>
        rw [List.isPrefixOf_iff_prefix] at hPrefix
        simp [hPrefix]

-- Texts Put Together

variable {pattern : List α} {c : α}

/- A pattern without the separator lies on one side of it. -/
theorem infix_append_cons_iff
    (hFree : c ∉ pattern) (hNil : pattern ≠ []) (a b : List α) :
    pattern <:+: a ++ c :: b ↔ pattern <:+: a ∨ pattern <:+: b := by
  rw [List.infix_append_iff_ne_nil, List.infix_cons_iff]
  constructor
  · rintro (hLeft | (hPrefix | hRight) |
      ⟨front, back, _, hBack, rfl, _, hPrefix⟩)
    · exact Or.inl hLeft
    · rw [List.prefix_cons_iff] at hPrefix
      rcases hPrefix with hEmpty | ⟨rest, rfl, _⟩
      · exact absurd hEmpty hNil
      · simp at hFree
    · exact Or.inr hRight
    · rw [List.prefix_cons_iff] at hPrefix
      rcases hPrefix with hEmpty | ⟨rest, rfl, _⟩
      · exact absurd hEmpty hBack
      · simp at hFree
  · rintro (hLeft | hRight)
    · exact Or.inl hLeft
    · exact Or.inr (Or.inl (Or.inr hRight))

/- A pattern without the separator lies in one part. -/
theorem infix_intercalate_iff
    (hFree : c ∉ pattern) (hNil : pattern ≠ []) :
    ∀ parts : List (List α),
      pattern <:+: [c].intercalate parts ↔
        ∃ part ∈ parts, pattern <:+: part := by
  intro parts
  induction parts with
  | nil => simp [hNil]
  | cons part parts ih =>
    cases parts with
    | nil => simp
    | cons next parts =>
      rw [List.intercalate_cons_cons, List.append_assoc,
        List.singleton_append, infix_append_cons_iff hFree hNil, ih]
      simp

theorem mem_or_mem_of_intercalate
    {c : α} {sep : List α} {parts : List (List α)}
    (hMem : c ∈ sep.intercalate parts) :
    c ∈ sep ∨ ∃ part ∈ parts, c ∈ part := by
  induction parts with
  | nil => cases hMem
  | cons part parts ih =>
    cases parts with
    | nil =>
      rw [List.intercalate_singleton] at hMem
      exact .inr ⟨part, List.mem_cons_self, hMem⟩
    | cons next parts =>
      rw [List.intercalate_cons_cons, List.mem_append,
        List.mem_append] at hMem
      rcases hMem with (hPart | hSep) | hRest
      · exact .inr ⟨part, List.mem_cons_self, hPart⟩
      · exact .inl hSep
      · rcases ih hRest with hSep | ⟨other, hIn, hMem⟩
        · exact .inl hSep
        · exact .inr ⟨other, List.mem_cons_of_mem _ hIn, hMem⟩

theorem map_intercalate {β : Type}
    (f : α → β) (c : α) (parts : List (List α)) :
    ([c].intercalate parts).map f =
      [f c].intercalate (parts.map (List.map f)) := by
  induction parts with
  | nil => rfl
  | cons part parts ih =>
    cases parts with
    | nil => simp
    | cons next parts =>
      rw [List.map_cons, List.map_cons, List.intercalate_cons_cons,
        List.intercalate_cons_cons, ← List.map_cons, ← ih]
      simp

/- A pattern that starts elsewhere is not at a first letter. -/
theorem infix_cons_iff_of_head
    (hHead : pattern.head? ≠ some c) (hNil : pattern ≠ []) (text : List α) :
    pattern <:+: c :: text ↔ pattern <:+: text := by
  rw [List.infix_cons_iff]
  refine or_iff_right ?_
  intro hPrefix
  rcases List.prefix_cons_iff.mp hPrefix with
    hEmpty | ⟨rest, rfl, _⟩
  · exact hNil hEmpty
  · simp at hHead

/- Nor in a part that its first letter is not in. -/
theorem infix_append_iff_of_head
    {pattern front : List α} (hHead : ∀ c ∈ front, pattern.head? ≠ some c)
    (hNil : pattern ≠ []) (text : List α) :
    pattern <:+: front ++ text ↔ pattern <:+: text := by
  induction front with
  | nil => rfl
  | cons c front ih =>
    rw [List.cons_append, infix_cons_iff_of_head
      (hHead c List.mem_cons_self) hNil]
    exact ih fun d hMem =>
      hHead d (List.mem_cons_of_mem c hMem)

-- Texts Cut At Their Ends

/- The text without the letters of a kind at its ends. -/
def strip (p : α → Bool) (text : List α) : List α :=
  ((text.dropWhile p).reverse.dropWhile p).reverse

theorem infix_dropWhile
    {p : α → Bool} {pattern text : List α}
    (hHead : ∀ c ∈ pattern.head?, p c = false) (hInfix : pattern <:+: text) :
    pattern <:+: text.dropWhile p := by
  induction text with
  | nil => simpa using hInfix
  | cons c cs ih =>
    cases hc : p c with
    | false => simpa [hc] using hInfix
    | true =>
      rw [List.dropWhile_cons_of_pos hc]
      rcases List.infix_cons_iff.mp hInfix with
        hPrefix | hRest
      · rcases List.prefix_cons_iff.mp hPrefix with
          rfl | ⟨rest, rfl, _⟩
        · exact List.nil_infix
        · simp [hc] at hHead
      · exact ih hRest

/- Stripping keeps a pattern with other letters at its ends. -/
theorem infix_strip
    {p : α → Bool} {pattern text : List α}
    (hHead : ∀ c ∈ pattern.head?, p c = false)
    (hLast : ∀ c ∈ pattern.getLast?, p c = false)
    (hInfix : pattern <:+: text) :
    pattern <:+: strip p text := by
  rw [strip, ← List.reverse_infix, List.reverse_reverse]
  refine infix_dropWhile ?_
    (List.reverse_infix.mpr (infix_dropWhile hHead hInfix))
  simpa using hLast

/- A text is its stripped text with such letters around it. -/
theorem exists_strip (p : α → Bool) (text : List α) :
    ∃ before after, before.all p = true ∧ after.all p = true ∧
      text = before ++ strip p text ++ after := by
  refine ⟨text.takeWhile p,
    ((text.dropWhile p).reverse.takeWhile p).reverse, ?_⟩
  refine ⟨List.all_takeWhile, ?_, ?_⟩
  · rw [List.all_reverse]
    exact List.all_takeWhile
  · rw [strip, List.append_assoc, ← List.reverse_append,
      List.takeWhile_append_dropWhile, List.reverse_reverse,
      List.takeWhile_append_dropWhile]

/- Such letters in front or behind do not matter. -/
theorem strip_around
    {p : α → Bool} {before after : List α} (hBefore : before.all p = true)
    (hAfter : after.all p = true) (text : List α) :
    strip p (before ++ text ++ after) = strip p text := by
  rw [List.all_eq_true] at hBefore
  have hNil : (after ++ []).dropWhile p = [] :=
    List.dropWhile_append_of_pos (List.all_eq_true.mp hAfter)
  rw [List.append_nil] at hNil
  rw [strip, List.append_assoc, List.dropWhile_append_of_pos hBefore,
    List.dropWhile_append]
  split
  next hEmpty =>
    rw [List.isEmpty_iff] at hEmpty
    rw [strip, hEmpty, hNil]
  next =>
    have hBack : ∀ c ∈ after.reverse, p c = true := by
      intro c hMem
      exact List.all_eq_true.mp hAfter c (List.mem_reverse.mp hMem)
    rw [strip, List.reverse_append, List.dropWhile_append_of_pos hBack]

theorem strip_map {β : Type}
    {p : α → Bool} {q : β → Bool} {f : α → β}
    (hSame : ∀ c, q (f c) = p c) (text : List α) :
    strip q (text.map f) = (strip p text).map f := by
  have hComp : q ∘ f = p := funext hSame
  rw [strip, List.dropWhile_map, hComp, ← List.map_reverse,
    List.dropWhile_map, hComp, ← List.map_reverse, strip]

/- The last letters of a text. -/
def lastOf (n : ℕ) (text : List α) : List α :=
  text.drop (text.length - n)

theorem lastOf_suffix (n : ℕ) (text : List α) :
    lastOf n text <:+ text :=
  List.drop_suffix _ _

theorem lastOf_of_le
    {n : ℕ} {text : List α} (hShort : text.length ≤ n) :
    lastOf n text = text := by
  rw [lastOf, Nat.sub_eq_zero_of_le hShort, List.drop_zero]

theorem lastOf_append
    {n : ℕ} {back : List α} (hLength : back.length = n) (front : List α) :
    lastOf n (front ++ back) = back := by
  rw [lastOf, List.length_append, hLength, Nat.add_sub_cancel, List.drop_left]

end Base

-- Cutting Once

namespace Base

variable {α : Type}
variable [BEq α] [LawfulBEq α]
variable {l p s i : List α}
variable {c : α}

theorem dropPrefix?_iff :
    l.dropPrefix? p = some s ↔ l = p ++ s := by
  rw [List.dropPrefix?_eq_some_iff]
  constructor
  · rintro ⟨p', rfl, hSame⟩
    rw [eq_of_beq hSame]
  · rintro rfl
    exact ⟨p, rfl, BEq.rfl⟩

theorem dropSuffix?_iff :
    l.dropSuffix? s = some p ↔ l = p ++ s := by
  rw [List.dropSuffix?_eq_some_iff]
  constructor
  · rintro ⟨s', rfl, hSame⟩
    rw [eq_of_beq hSame]
  · rintro rfl
    exact ⟨s, rfl, BEq.rfl⟩

theorem dropInfix?_iff :
    l.dropInfix? i = some (p, s) ↔
      l = p ++ i ++ s ∧
        ∀ p' s', l = p' ++ i ++ s' → p.length ≤ p'.length := by
  rw [List.dropInfix?_eq_some_iff]
  constructor
  · rintro ⟨⟨i', hSplit, hSame⟩, hFirst⟩
    rw [eq_of_beq hSame] at hSplit
    exact ⟨hSplit, fun p' s' hOther =>
      hFirst p' i s' hOther BEq.rfl⟩
  · rintro ⟨hSplit, hFirst⟩
    refine ⟨⟨i, hSplit, BEq.rfl⟩, ?_⟩
    intro p' i' s' hOther hSame
    rw [eq_of_beq hSame] at hOther
    exact hFirst p' s' hOther

/- Where it stands at all, it stands at a first place. -/
theorem dropInfix?_eq_none_iff :
    l.dropInfix? i = none ↔ ∀ p s, l ≠ p ++ i ++ s := by
  constructor
  · intro hNone p s hSplit
    have hSome : ∃ n p s, p.length = n ∧ l = p ++ i ++ s :=
      ⟨p.length, p, s, rfl, hSplit⟩
    classical
    obtain ⟨p', s', hLength, hFirst⟩ := Nat.find_spec hSome
    have hCut : l.dropInfix? i = some (p', s') := by
      rw [dropInfix?_iff]
      refine ⟨hFirst, ?_⟩
      intro q t hOther
      rw [hLength]
      exact Nat.find_min' hSome ⟨q, t, rfl, hOther⟩
    rw [hNone] at hCut
    cases hCut
  · intro hAll
    cases hCut : l.dropInfix? i with
    | none => rfl
    | some pair => exact absurd (dropInfix?_iff.mp hCut).1 (hAll _ _)

/- The first element tells where the text can stand. -/
theorem dropInfix?_append
    (hNot : c ∉ p) (i s : List α) :
    (p ++ (c :: i) ++ s).dropInfix? (c :: i) = some (p, s) := by
  rw [dropInfix?_iff]
  refine ⟨rfl, ?_⟩
  intro p' s' hOther
  by_contra hShort
  rw [Nat.not_le] at hShort
  have hHead : (p ++ (c :: i) ++ s)[p'.length]? = some c := by
    rw [hOther]
    simp
  rw [List.append_assoc, List.getElem?_append_left hShort]
    at hHead
  exact hNot (List.mem_of_getElem? hHead)

-- Single Elements

theorem dropInfix?_singleton_iff :
    l.dropInfix? [c] = some (p, s) ↔ l = p ++ c :: s ∧ c ∉ p := by
  constructor
  · intro hCut
    obtain ⟨hSplit, hFirst⟩ := dropInfix?_iff.mp hCut
    refine ⟨by simpa using hSplit, ?_⟩
    intro hMem
    obtain ⟨q, t, hP⟩ := List.append_of_mem hMem
    have hShort := hFirst q (t ++ c :: s) (by
      rw [hSplit, hP]
      simp)
    rw [hP, List.length_append, List.length_cons] at hShort
    omega
  · rintro ⟨rfl, hNot⟩
    have hCut := dropInfix?_append hNot [] s
    simpa using hCut

theorem dropInfix?_singleton_eq_none_iff :
    l.dropInfix? [c] = none ↔ c ∉ l := by
  rw [dropInfix?_eq_none_iff]
  constructor
  · intro hAll hMem
    obtain ⟨p, s, hSplit⟩ := List.append_of_mem hMem
    refine hAll p s ?_
    rw [hSplit]
    simp
  · rintro hNot p s rfl
    exact hNot (by simp)

/- All parts: up to the first place, and those after it. -/
theorem splitOn_of_dropInfix?
    (hCut : l.dropInfix? [c] = some (p, s)) :
    l.splitOn c = p :: s.splitOn c := by
  obtain ⟨rfl, hNot⟩ := dropInfix?_singleton_iff.mp hCut
  exact List.splitOn_append_cons_self_of_not_mem hNot s

theorem splitOn_of_dropInfix?_none
    (hCut : l.dropInfix? [c] = none) :
    l.splitOn c = [l] :=
  List.splitOn_eq_singleton (dropInfix?_singleton_eq_none_iff.mp hCut)

theorem splitOn_eq_singleton_iff :
    l.splitOn c = [p] ↔ l = p ∧ c ∉ p := by
  constructor
  · intro hSplit
    cases hCut : l.dropInfix? [c] with
    | none =>
      rw [splitOn_of_dropInfix?_none hCut] at hSplit
      obtain rfl := List.singleton_inj.mp hSplit
      exact ⟨rfl, dropInfix?_singleton_eq_none_iff.mp hCut⟩
    | some pair =>
      rw [splitOn_of_dropInfix? hCut] at hSplit
      exact absurd (List.cons.inj hSplit).2 (List.splitOn_ne_nil c pair.2)
  · rintro ⟨rfl, hNot⟩
    exact List.splitOn_eq_singleton hNot

theorem splitOn_eq_pair_iff :
    l.splitOn c = [p, s] ↔ l = p ++ c :: s ∧ c ∉ p ∧ c ∉ s := by
  constructor
  · intro hSplit
    cases hCut : l.dropInfix? [c] with
    | none =>
      rw [splitOn_of_dropInfix?_none hCut] at hSplit
      cases (List.cons.inj hSplit).2
    | some pair =>
      rw [splitOn_of_dropInfix? hCut] at hSplit
      obtain ⟨rfl, hRest⟩ := List.cons.inj hSplit
      obtain ⟨rfl, hNot⟩ := splitOn_eq_singleton_iff.mp hRest
      have hFirst := dropInfix?_singleton_iff.mp hCut
      exact ⟨hFirst.1, hFirst.2, hNot⟩
  · rintro ⟨rfl, hLeft, hRight⟩
    rw [List.splitOn_append_cons_self_of_not_mem hLeft,
      List.splitOn_eq_singleton hRight]

/- The parts hold no cut, and only what the list holds. -/
theorem mem_splitOn
    {part : List α} {d : α} (hPart : part ∈ l.splitOn c) :
    c ∉ part ∧ (d ∈ part → d ∈ l) := by
  induction hLength : l.length using Nat.strong_induction_on
    generalizing l with
  | h n ih =>
    cases hCut : l.dropInfix? [c] with
    | none =>
      rw [splitOn_of_dropInfix?_none hCut, List.mem_singleton] at hPart
      rw [hPart]
      exact ⟨dropInfix?_singleton_eq_none_iff.mp hCut, id⟩
    | some pair =>
      rw [splitOn_of_dropInfix? hCut] at hPart
      rcases dropInfix?_singleton_iff.mp hCut with ⟨hSplit, hNot⟩
      rcases List.mem_cons.mp hPart with rfl | hRest
      · refine ⟨hNot, fun hIn => ?_⟩
        rw [hSplit]
        exact List.mem_append_left _ hIn
      · have hShort : pair.2.length < n := by
          rw [← hLength, hSplit, List.length_append, List.length_cons]
          omega
        rcases ih _ hShort hRest rfl with ⟨hFree, hIn⟩
        refine ⟨hFree, fun hd => ?_⟩
        rw [hSplit]
        exact List.mem_append_right _ (List.mem_cons_of_mem _ (hIn hd))

/- Lines that each end in a break are read back. -/
theorem splitOn_lines
    {lines : List (List α)} (hFree : ∀ line ∈ lines, c ∉ line) :
    (lines.flatMap (· ++ [c])).splitOn c = lines ++ [[]] := by
  induction lines with
  | nil => exact List.splitOn_nil c
  | cons line lines ih =>
    rw [List.flatMap_cons, List.append_assoc, List.singleton_append,
      List.splitOn_append_cons_self_of_not_mem
        (hFree line List.mem_cons_self), ih]
    · rfl
    · exact fun other hOther =>
        hFree other (List.mem_cons_of_mem line hOther)

end Base

-- Paths Below A Root

namespace Base

variable {α : Type}
variable {sep : α}
variable {path root other : List α}

/- The path goes on after the root and a separator. -/
def Below (sep : α) (path root : List α) : Prop :=
  root ++ [sep] <+: path

/- The path is the root or below it. -/
def Within (sep : α) (path root : List α) : Prop :=
  path = root ∨ Below sep path root

theorem Within.refl (path : List α) : Within sep path path :=
  Or.inl rfl

theorem Below.isPrefix
    (hBelow : Below sep path root) :
    root <+: path :=
  (List.prefix_append root [sep]).trans hBelow

theorem Within.isPrefix
    (hWithin : Within sep path root) :
    root <+: path := by
  rcases hWithin with rfl | hBelow
  · exact List.prefix_refl _
  · exact hBelow.isPrefix

/- Stripping the root leaves nothing, or a separator first. -/
theorem within_iff_stripPrefix
    [DecidableEq α] :
    Within sep path root ↔
      ∃ rest, path = root ++ rest ∧ (rest = [] ∨ rest.head? = some sep) := by
  constructor
  · rintro (rfl | ⟨rest, rfl⟩)
    · exact ⟨[], by simp, Or.inl rfl⟩
    · exact ⟨sep :: rest, by simp, Or.inr rfl⟩
  · rintro ⟨rest, rfl, hRest⟩
    rcases hRest with rfl | hHead
    · exact Or.inl (by simp)
    · cases rest with
      | nil => cases hHead
      | cons c rest =>
        have hSep : c = sep := by simpa using hHead
        rw [hSep]
        exact Or.inr ⟨rest, by simp⟩

end Base
