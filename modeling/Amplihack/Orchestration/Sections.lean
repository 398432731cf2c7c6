import Amplihack.Recipe.FailureClass

/-
  Sections of a review, found by the line of their header.
-/

-- Reading a section

namespace Orchestration

open Governor Recipe

/- What opens a header. -/
def mark : Text := "## ".toList

/-
  Letter case, and numbers of type `F`; a mark before a text
  does not change how it is put in lower case.
-/
structure Reader (F : Type) where
  toLowercase : Text → Text
  toUppercase : Text → Text
  toLowercase_mark : ∀ cs, toLowercase (mark ++ cs) = mark ++ toLowercase cs
  parseFloat : Text → Option F
  clamp : F → F
  half : F

inductive Vote where
| approve
| reject
| abstain
deriving DecidableEq

def trimStart (cs : Text) : Text :=
  cs.dropWhile isWhiteSpace

/- `trimmed.starts_with("## ")` -/
def isHeader (line : Text) : Bool :=
  mark.isPrefixOf (trimStart line)

/- Each line with its end. -/
def unlines (lines : List Text) : Text :=
  lines.flatMap (· ++ ['\n'])

namespace Reader

variable {F : Type}
variable (reader : Reader F)

/- The line is taken for the header of the section. -/
def opens (name line : Text) : Bool :=
  let header := mark ++ reader.toLowercase name
  let lc := reader.toLowercase (trimStart line)
  header.isPrefixOf lc && (lc.drop header.length).head?.all isWhiteSpace

/- Whether the header was found, and the lines since. -/
def sectionLoop (name : Text) : Bool → Text → List Text → Text
| _, buf, [] => buf
| false, buf, line :: rest =>
  sectionLoop name (reader.opens name line) buf rest
| true, buf, line :: rest =>
  if isHeader line then buf
  else sectionLoop name true (buf ++ line ++ ['\n']) rest

def extractSection (text name : Text) : Text :=
  trim (reader.sectionLoop name false [] (lines text))

def voteOf (body : Text) : Vote :=
  let upper := reader.toUppercase (trim body)
  if upper = "APPROVE".toList then .approve
  else if upper = "REJECT".toList then .reject
  else .abstain

def parseVote (text : Text) : Vote :=
  reader.voteOf (reader.extractSection text "Vote".toList)

def confidenceOf (body : Text) : F :=
  ((reader.parseFloat (trim body)).map reader.clamp).getD reader.half

def parseConfidence (text : Text) : F :=
  reader.confidenceOf (reader.extractSection text "Confidence".toList)

end Reader

-- Documents

structure Section where
  title : Text
  body : List Text

def Section.lines (s : Section) : List Text :=
  (mark ++ s.title) :: s.body

/- A text as a preamble and sections; the titles have no outer
   blanks, and no other line starts with the mark. -/
structure Document where
  text : Text
  preamble : List Text
  sections : List Section
  lines_eq : lines text = preamble ++ sections.flatMap Section.lines
  titles : ∀ s ∈ sections, trim s.title = s.title
  preamble_plain : ∀ line ∈ preamble, ¬ mark <+: line
  body_plain : ∀ s ∈ sections, ∀ line ∈ s.body, ¬ mark <+: line

namespace Reader

variable {F : Type}
variable (reader : Reader F)

/- The title is the name, ignoring case. -/
def isTitled (name : Text) (s : Section) : Bool :=
  reader.toLowercase s.title = reader.toLowercase name

def sectionOf (doc : Document) (name : Text) : Option Section :=
  doc.sections.find? (reader.isTitled name)

/- The trimmed body of the section, empty without one. -/
def bodyOf (doc : Document) (name : Text) : Text :=
  ((reader.sectionOf doc name).map fun s =>
    trim (unlines s.body)).getD []

/- The lines before the header of the section, or all. -/
def before (doc : Document) (name : Text) : List Text :=
  doc.preamble ++
    (doc.sections.takeWhile (!reader.isTitled name ·)).flatMap Section.lines

/-
  No line before the section is taken for its header, and no
  line of its body starts with the mark after blanks.
-/
structure Apart (doc : Document) (name : Text) : Prop where
  before : ∀ line ∈ reader.before doc name, reader.opens name line = false
  body : ∀ s, reader.sectionOf doc name = some s →
    ∀ line ∈ s.body, isHeader line = false

/- An earlier line is taken for the header, and under it
   stands the same text. -/
def SameText (doc : Document) (name : Text) : Prop :=
  ∃ skipped line rest,
    lines doc.text = skipped ++ line :: rest ∧
      line ∈ reader.before doc name ∧
      (∀ l ∈ skipped, reader.opens name l = false) ∧
      reader.opens name line = true ∧
      trim (unlines (rest.takeWhile (!isHeader ·))) = reader.bodyOf doc name

end Reader

-- The loop

theorem sharp_not_blank : isWhiteSpace '#' = false := by
  decide

theorem count_dropWhile_sharp (cs : Text) :
    (cs.dropWhile isWhiteSpace).count '#' = cs.count '#' := by
  induction cs with
  | nil => rfl
  | cons c cs ih =>
    rw [List.dropWhile_cons]
    split
    · next hBlank =>
        have hNe : c ≠ '#' := by
          rintro rfl
          rw [sharp_not_blank] at hBlank
          cases hBlank
        rw [ih, List.count_cons_of_ne hNe]
    · rfl

/- Trimming takes blanks only. -/
theorem count_trim_sharp (cs : Text) :
    (trim cs).count '#' = cs.count '#' := by
  rw [trim, List.count_reverse, count_dropWhile_sharp,
    List.count_reverse, count_dropWhile_sharp]

theorem count_pos_of_isHeader
    {line : Text} (hHeader : isHeader line = true) :
    0 < line.count '#' := by
  rw [isHeader, List.isPrefixOf_iff_prefix] at hHeader
  rcases hHeader with ⟨rest, hLine⟩
  rw [← count_dropWhile_sharp, ← trimStart, ← hLine, List.count_append]
  have hMark : mark.count '#' = 2 := by decide
  omega

theorem trimStart_mark (cs : Text) :
    trimStart (mark ++ cs) = mark ++ cs := by
  rw [trimStart, mark]
  rfl

theorem isHeader_mark (cs : Text) :
    isHeader (mark ++ cs) = true := by
  rw [isHeader, trimStart_mark, List.isPrefixOf_iff_prefix]
  exact List.prefix_append _ _

namespace Reader

variable {F : Type}
variable {reader : Reader F} {name : Text}

theorem sectionLoop_true
    (buf : Text) (ls : List Text) :
    reader.sectionLoop name true buf ls =
      buf ++ unlines (ls.takeWhile (!isHeader ·)) := by
  induction ls generalizing buf with
  | nil => simp [sectionLoop, unlines]
  | cons line ls ih =>
    rw [sectionLoop]
    split
    · next hHeader =>
        simp [hHeader, unlines]
    · next hPlain =>
        rw [ih, List.takeWhile_cons_of_pos (by simpa using hPlain)]
        simp [unlines]

/- The lines after the first one that is taken for the header,
   up to the next header. -/
theorem sectionLoop_false
    {skipped : List Text}
    (hSkipped : ∀ l ∈ skipped, reader.opens name l = false)
    (rest : List Text) :
    reader.sectionLoop name false [] (skipped ++ rest) =
      reader.sectionLoop name false [] rest := by
  induction skipped with
  | nil => rfl
  | cons line skipped ih =>
    rw [List.cons_append, sectionLoop, hSkipped line List.mem_cons_self]
    exact ih fun l hMem =>
      hSkipped l (List.mem_cons_of_mem _ hMem)

theorem sectionLoop_found
    {skipped : List Text}
    (hSkipped : ∀ l ∈ skipped, reader.opens name l = false)
    {line : Text} (hOpens : reader.opens name line = true)
    (rest : List Text) :
    reader.sectionLoop name false []
        (skipped ++ line :: rest) =
      unlines (rest.takeWhile (!isHeader ·)) := by
  rw [sectionLoop_false hSkipped, sectionLoop, hOpens,
    sectionLoop_true, List.nil_append]

theorem sectionLoop_none
    {ls : List Text} (hNone : ∀ l ∈ ls, reader.opens name l = false) :
    reader.sectionLoop name false [] ls = [] := by
  have hAll := sectionLoop_false hNone []
  rw [List.append_nil] at hAll
  rw [hAll]
  rfl

-- The header that is meant

/- A header with the title of the section is taken for it. -/
theorem opens_of_isTitled
    {s : Section} (hTitled : reader.isTitled name s = true) :
    reader.opens name (mark ++ s.title) = true := by
  rw [isTitled, decide_eq_true_eq] at hTitled
  unfold opens
  rw [trimStart_mark, reader.toLowercase_mark, hTitled]
  dsimp only
  rw [Bool.and_eq_true, List.isPrefixOf_iff_prefix, List.drop_length]
  exact ⟨List.prefix_refl _, rfl⟩

theorem takeWhile_sections
    (sections : List Section) (body : List Text) :
    (body ++ sections.flatMap Section.lines).takeWhile
        (!isHeader ·) =
      body.takeWhile (!isHeader ·) := by
  induction body with
  | nil =>
    cases sections with
    | nil => rfl
    | cons s sections =>
      rw [List.nil_append, List.flatMap_cons, Section.lines,
        List.cons_append, List.takeWhile_cons_of_neg]
      · rfl
      · simp [isHeader_mark]
  | cons line body ih =>
    rw [List.cons_append, List.takeWhile_cons, List.takeWhile_cons, ih]

/- A body that is cut off is another text. -/
theorem trim_unlines_takeWhile_iff
    (body : List Text) :
    trim (unlines (body.takeWhile (!isHeader ·))) =
        trim (unlines body) ↔
      ∀ line ∈ body, isHeader line = false := by
  constructor
  · intro hSame line hMem
    by_contra hHeader
    have hSplit := List.takeWhile_append_dropWhile
      (p := (!isHeader ·)) (l := body)
    have hCount := congrArg (List.count '#') hSame
    rw [count_trim_sharp, count_trim_sharp] at hCount
    have hWhole : (unlines body).count '#' =
        (unlines (body.takeWhile (!isHeader ·))).count '#' +
          (unlines (body.dropWhile (!isHeader ·))).count '#' := by
      rw [← List.count_append, unlines, unlines, unlines,
        ← List.flatMap_append, hSplit]
    cases hRest : body.dropWhile (!isHeader ·) with
    | nil =>
      rw [hRest, List.append_nil] at hSplit
      rw [← hSplit] at hMem
      have hPlain := List.all_eq_true.mp
        (List.all_takeWhile (p := (!isHeader ·)) (l := body))
        line hMem
      simp only [Bool.not_eq_true'] at hPlain
      exact hHeader hPlain
    | cons cut rest =>
      have hCut : isHeader cut = true := by
        have hHead := List.head?_dropWhile_not (!isHeader ·) body
        rw [hRest] at hHead
        simpa using hHead
      have hPos := count_pos_of_isHeader hCut
      rw [hRest, unlines.eq_def (cut :: rest), List.flatMap_cons,
        List.count_append, List.count_append] at hWhole
      omega
  · intro hPlain
    rw [List.takeWhile_eq_self_iff.mpr fun line hMem => by
      simp [hPlain line hMem]]

/- The lines from the header of the section on. -/
theorem lines_split
    (reader : Reader F) (doc : Document) (name : Text) :
    (reader.sectionOf doc name = none ∧
        lines doc.text = reader.before doc name) ∨
      ∃ (s : Section) (later : List Section),
        reader.sectionOf doc name = some s ∧
        reader.isTitled name s = true ∧
        lines doc.text = reader.before doc name ++
          (mark ++ s.title) :: (s.body ++ later.flatMap Section.lines) := by
  have hSplit := List.takeWhile_append_dropWhile
    (p := (!reader.isTitled name ·)) (l := doc.sections)
  have hFind : reader.sectionOf doc name =
      (doc.sections.dropWhile (!reader.isTitled name ·)).head? := by
    rw [sectionOf, List.find?_eq_head?_dropWhile_not]
  cases hRest : doc.sections.dropWhile
      (!reader.isTitled name ·) with
  | nil =>
    left
    rw [hRest] at hFind
    rw [hRest, List.append_nil] at hSplit
    refine ⟨hFind, ?_⟩
    rw [doc.lines_eq, before, hSplit]
  | cons s later =>
    right
    rw [hRest] at hFind
    refine ⟨s, later, hFind, ?_, ?_⟩
    · rw [sectionOf] at hFind
      exact List.find?_some hFind
    · rw [doc.lines_eq, before]
      conv_lhs => rw [← hSplit, hRest]
      rw [List.flatMap_append, List.flatMap_cons, Section.lines]
      simp [List.append_assoc]

theorem extract_of_apart_before
    (doc : Document) (name : Text)
    (hBefore : ∀ line ∈ reader.before doc name,
      reader.opens name line = false) :
    reader.extractSection doc.text name =
        reader.bodyOf doc name ↔
      ∀ s, reader.sectionOf doc name = some s →
        ∀ line ∈ s.body, isHeader line = false := by
  have hSplit := reader.lines_split doc name
  rw [extractSection, bodyOf]
  rcases hSplit with ⟨hNone, hLines⟩ | ⟨s, later, hSome, hTitled, hLines⟩
  · rw [hNone, hLines, sectionLoop_none hBefore]
    simp [trim]
  · rw [hSome, hLines, sectionLoop_found hBefore (opens_of_isTitled hTitled),
      takeWhile_sections, Option.map_some, Option.getD_some,
      trim_unlines_takeWhile_iff]
    simp only [Option.some.injEq, forall_eq']

/- A section is read by its own header, or the same text is. -/
theorem extractSection_iff
    (doc : Document) (name : Text) :
    reader.extractSection doc.text name =
        reader.bodyOf doc name ↔
      reader.Apart doc name ∨ reader.SameText doc name := by
  by_cases hBefore : ∀ line ∈ reader.before doc name,
      reader.opens name line = false
  · rw [extract_of_apart_before doc name hBefore]
    constructor
    · exact fun hBody => .inl ⟨hBefore, hBody⟩
    · rintro (hApart | ⟨_, line, _, -, hMem, -, hOpens, -⟩)
      · exact hApart.body
      · rw [hBefore line hMem] at hOpens
        cases hOpens
  · constructor
    · intro hRead
      right
      have hMember : ∃ line ∈ reader.before doc name,
          reader.opens name line = true := by
        by_contra hNone
        apply hBefore
        intro line hMem
        rw [Bool.eq_false_iff]
        exact fun hOpens => hNone ⟨line, hMem, hOpens⟩
      rcases Option.isSome_iff_exists.mp
        (List.find?_isSome.mpr hMember) with ⟨line, hFind⟩
      rcases List.find?_eq_some_iff_append.mp hFind with
        ⟨hOpens, skipped, rest, hSplit, hSkipped⟩
      simp only [Bool.not_eq_true'] at hSkipped
      have hMem : line ∈ reader.before doc name := by
        rw [hSplit]
        exact List.mem_append_right _ List.mem_cons_self
      have hPrefix : ∃ after, lines doc.text =
          reader.before doc name ++ after := by
        rcases reader.lines_split doc name with
          ⟨-, hLines⟩ | ⟨s, later, -, -, hLines⟩
        · exact ⟨[], by rw [List.append_nil, hLines]⟩
        · exact ⟨_, hLines⟩
      rcases hPrefix with ⟨after, hLines⟩
      rw [hSplit, List.append_assoc, List.cons_append] at hLines
      refine ⟨skipped, line, rest ++ after, hLines, hMem,
        hSkipped, hOpens, ?_⟩
      rw [← hRead, extractSection, hLines, sectionLoop_found hSkipped hOpens]
    · rintro (hApart | hSame)
      · exact absurd hApart.before hBefore
      · rcases hSame with ⟨skipped, line, rest, hLines, -,
          hSkipped, hOpens, hText⟩
        rw [extractSection, hLines, sectionLoop_found hSkipped hOpens, hText]

/- Letters of the alphabet only, and no numbers. -/
def asciiReader : Reader ℕ where
  toLowercase := List.map Char.toLower
  toUppercase := List.map Char.toUpper
  toLowercase_mark := fun cs => by
    have hMark : mark.map Char.toLower = mark := by decide
    rw [List.map_append, hMark]
  parseFloat := fun _ => none
  clamp := id
  half := 0

/- The rationale stands before the vote. -/
def rationaleFirst : Document where
  text := ("## Vote Rationale\nSolid work.\n" ++
    "## Vote\nAPPROVE\n").toList
  preamble := []
  sections :=
    [⟨"Vote Rationale".toList, ["Solid work.".toList]⟩,
      ⟨"Vote".toList, ["APPROVE".toList]⟩]
  lines_eq := by decide
  titles := by decide
  preamble_plain := by simp
  body_plain := by
    intro s hSection line hLine
    rcases List.mem_pair.mp hSection with rfl | rfl <;>
      rw [List.mem_singleton.mp hLine] <;> decide

end Reader

end Orchestration
