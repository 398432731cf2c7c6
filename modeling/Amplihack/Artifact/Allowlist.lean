import Amplihack.Artifact.Scan
import Amplihack.Base.Glob

/-
  The check of an allowlist entry against the paths that the
  entry matches.
-/

-- The check

namespace Artifact

open Base

/- The file and the line stand before the reason. -/
def unsafeReason
    (entry : Path) (file : String) (line : ℕ) (reason : String) :
    String :=
  "artifact guard allowlist error: " ++ file ++ ":" ++
    toString line ++ " unsafe allowlist entry `" ++
    String.ofList entry ++ "`: " ++ reason

def containsGlobWildcard (value : Path) : Bool :=
  value.contains '*' || value.contains '?'

def rootArtifacts : List String :=
  ["node_modules", "recipe-runner.log", "plan.md",
    ".copilot/session-state", ".amplihack/session-state",
    "dist", "build", "coverage", ".claude/runtime",
    "worktrees", ".cache", ".next", "out", "logs", "outputs"]

/- What follows the root and a slash; nothing for the root. -/
def rootArtifactSuffix (pattern root : Path) : Option Path :=
  if pattern = root then some []
  else
    match root.isPrefixOf? pattern with
    | some (c :: rest) => if c = '/' then some rest else none
    | _ => none

def isRootProhibitedExemption (pattern : Path) : Bool :=
  rootArtifacts.any fun root =>
    match rootArtifactSuffix pattern root.toList with
    | none => false
    | some suffix =>
      suffix.isEmpty || suffix == "**".toList || containsGlobWildcard suffix

def isRepositoryWide (pattern : Path) : Bool :=
  ["*", "**", "**/*", "*/**"].any (pattern == ·.toList) ||
    (!pattern.contains '/' && containsGlobWildcard pattern)

def validateAllowlistEntry
    (entry : Path) (file : String) (line : ℕ) :
    Except String Unit :=
  let refuse := fun reason =>
    Except.error (unsafeReason entry file line reason)
  let normalized := cleanPath entry
  if startsWith entry "/" then
    refuse "absolute paths are not allowed"
  else if entry.contains '\\' then
    refuse "use / separators, not backslashes"
  else if normalized.isEmpty then
    refuse "empty entries are not allowed"
  else if hasComponent normalized ".." then
    refuse "parent traversal is not allowed"
  else if isRepositoryWide normalized then
    refuse "repository-wide patterns are not allowed"
  else if isRootProhibitedExemption normalized then
    refuse "root artifact directories cannot be allowlisted broadly"
  else if startsWith normalized "**/node_modules" ||
      contains normalized "/node_modules/**" then
    refuse "node_modules directory exemptions are too broad"
  else
    .ok ()

/- `AllowlistEntry::new`; the slashes at the end stay. -/
def entryPattern (entry : Path) : List Path :=
  components (normalizeSlashes entry)

def entryMatches (entry path : Path) : Bool :=
  globMatches (normalizeSlashes entry) path

-- The matcher reads patterns

/- Bytes: `*` spans any bytes, `?` fits every byte. -/
def byteParts : Glob.Parts UInt8 UInt8 where
  spans b := b == 42
  fits b c := b == 63 || b == c

/- Components: `**` spans any components. -/
def globParts : Glob.Parts Path Path where
  spans part := part == ['*', '*']
  fits := segmentMatches

theorem segmentMatchBytes_iff
    (pattern text : List UInt8) :
    segmentMatchBytes pattern text = true ↔
      Glob.Reads byteParts pattern text := by
  induction pattern generalizing text with
  | nil =>
    rw [segmentMatchBytes, List.isEmpty_iff]
    exact Glob.reads_nil_iff.symm
  | cons b pattern ih =>
    unfold segmentMatchBytes
    by_cases hStar : (b == 42) = true
    · rw [if_pos hStar, Glob.reads_spans_iff hStar, List.any_eq_true]
      simp only [List.mem_tails, ih]
    · have hPlain : byteParts.spans b = false := by
        simpa [byteParts] using hStar
      rw [if_neg hStar]
      cases text with
      | nil => simp [Glob.not_reads_nil hPlain]
      | cons c text =>
        rw [Glob.reads_fit_iff hPlain, ← ih text, Bool.and_eq_true]
        rfl

theorem globPartsMatch_iff
    (pattern path : List Path) :
    globPartsMatch pattern path = true ↔
      Glob.Reads globParts pattern path := by
  induction pattern generalizing path with
  | nil =>
    rw [globPartsMatch, List.isEmpty_iff]
    exact Glob.reads_nil_iff.symm
  | cons part pattern ih =>
    unfold globPartsMatch
    by_cases hStars : (part == ['*', '*']) = true
    · rw [if_pos hStars, Glob.reads_spans_iff hStars, List.any_eq_true]
      simp only [List.mem_tails, ih]
    · have hPlain : globParts.spans part = false := by
        simpa [globParts] using hStars
      rw [if_neg hStars]
      cases path with
      | nil => simp [Glob.not_reads_nil hPlain]
      | cons text path =>
        rw [Glob.reads_fit_iff hPlain, ← ih path, Bool.and_eq_true]
        rfl

-- Components of repository paths

/- A component as Git lists it, with slashes normalised. -/
def isName (part : Path) : Bool :=
  !part.isEmpty && !part.contains '/' &&
    !part.contains '\\' && !part.contains '\x00' &&
    part != ".".toList && part != "..".toList &&
    part != ".git".toList

theorem ne_nil_of_isName
    {part : Path} (hName : isName part = true) :
    part ≠ [] := by
  rintro rfl
  cases hName

theorem noSlash_of_isName
    {part : Path} (hName : isName part = true) :
    '/' ∉ part := by
  simp only [isName, Bool.and_eq_true] at hName
  simpa using hName.1.1.1.1.1.2

/-
  Only of `*` and `?`, with a `*` and at most one `?`: such a
  part fits every name.
-/
def isWild (part : Path) : Bool :=
  (utf8 part).all (fun b => b == 42 || b == 63) &&
    (utf8 part).contains 42 && (utf8 part).count 63 ≤ 1

theorem least_byteParts
    {bytes : List UInt8} (hWild : ∀ b ∈ bytes, b = 42 ∨ b = 63) :
    Glob.least byteParts bytes = bytes.count 63 := by
  rw [Glob.least, List.count]
  apply List.countP_congr
  intro b hMem
  rcases hWild b hMem with rfl | rfl <;> decide

theorem segmentMatches_of_isWild
    {part name : Path} (hWild : isWild part = true)
    (hName : isName name = true) :
    segmentMatches part name = true := by
  rw [isWild, Bool.and_eq_true, Bool.and_eq_true] at hWild
  rcases hWild with ⟨⟨hAll, hStar⟩, hCount⟩
  have hBytes : ∀ b ∈ utf8 part, b = 42 ∨ b = 63 := by
    intro b hMem
    simpa using List.all_eq_true.mp hAll b hMem
  have hPos : 1 ≤ (utf8 name).length := by
    refine List.length_pos_iff.mpr ?_
    intro hEmpty
    exact ne_nil_of_isName hName (utf8_eq_nil.mp hEmpty)
  rw [segmentMatches, segmentMatchBytes_iff]
  have hLoose : Glob.Loose byteParts (fun b => b == 63)
      (utf8 name).length (utf8 part) := by
    refine ⟨?_, ⟨42, by simpa using hStar, rfl⟩, ?_⟩
    · intro b hMem
      rcases hBytes b hMem with rfl | rfl
      · exact .inl rfl
      · exact .inr rfl
    · rw [least_byteParts hBytes]
      exact (of_decide_eq_true hCount).trans hPos
  have hNames : ∀ c ∈ utf8 name, c = c := fun _ _ => rfl
  refine hLoose.reads ?_ hNames
  intro b c _ hEvery _
  simp only [byteParts, hEvery, Bool.true_or]

theorem isName_a : isName ['a'] = true := rfl
theorem isName_b : isName ['b'] = true := rfl
theorem isName_aa : isName ['a', 'a'] = true := rfl

theorem utf8_a : utf8 ['a'] = [97] := rfl
theorem utf8_b : utf8 ['b'] = [98] := rfl
theorem utf8_aa : utf8 ['a', 'a'] = [97, 97] := rfl

/- A byte that stands for itself must be in the name. -/
theorem misses_of_literal
    {bytes text : List UInt8} {b : UInt8} (hMem : b ∈ bytes)
    (hStar : b ≠ 42) (hMark : b ≠ 63) (hAbsent : b ∉ text) :
    segmentMatchBytes bytes text = false := by
  by_contra hMatches
  rw [Bool.not_eq_false, segmentMatchBytes_iff] at hMatches
  rcases List.append_of_mem hMem with ⟨before, after, rfl⟩
  have hPlain : byteParts.spans b = false := by simpa [byteParts] using hStar
  rcases hMatches.cases_middle hPlain with ⟨left, c, right, rfl, -, hFits, -⟩
  have hSame : b = c := by simpa [byteParts, hMark] using hFits
  exact hAbsent (by simp [hSame])

/- A part that is not wild misses one of three names. -/
theorem misses_of_not_isWild
    {part : Path} (hWild : isWild part = false) :
    ∃ name, isName name = true ∧ segmentMatches part name = false := by
  by_cases hBytes : ∀ b ∈ utf8 part, b = 42 ∨ b = 63
  · by_cases hStar : 42 ∈ utf8 part
    · have hCount : 1 < (utf8 part).count 63 := by
        by_contra hFew
        have hIs : isWild part = true := by
          rw [isWild, Bool.and_eq_true, Bool.and_eq_true]
          refine ⟨⟨?_, by simpa using hStar⟩, decide_eq_true (not_lt.mp hFew)⟩
          rw [List.all_eq_true]
          intro b hMem
          simpa using hBytes b hMem
        rw [hWild] at hIs
        cases hIs
      refine ⟨['a'], isName_a, ?_⟩
      by_contra hMatches
      rw [Bool.not_eq_false, segmentMatches,
        segmentMatchBytes_iff] at hMatches
      have hLeast := hMatches.least_le
      rw [least_byteParts hBytes, utf8_a, List.length_singleton] at hLeast
      omega
    · have hNone : ∀ b ∈ utf8 part, byteParts.spans b = false := by
        intro b hMem
        have hNe : b ≠ 42 := by
          rintro rfl
          exact hStar hMem
        simpa [byteParts] using hNe
      have hLength : ∀ name, segmentMatches part name = true →
          (utf8 name).length = (utf8 part).length := by
        intro name hMatches
        rw [segmentMatches, segmentMatchBytes_iff] at hMatches
        exact hMatches.length_eq hNone
      by_cases hOne : (utf8 part).length = 1
      · refine ⟨['a', 'a'], isName_aa, ?_⟩
        by_contra hMatches
        have hSame := hLength _ (by simpa using hMatches)
        rw [hOne, utf8_aa] at hSame
        cases hSame
      · refine ⟨['a'], isName_a, ?_⟩
        by_contra hMatches
        have hSame := hLength _ (by simpa using hMatches)
        rw [utf8_a] at hSame
        exact hOne hSame.symm
  · push Not at hBytes
    rcases hBytes with ⟨b, hMem, hStar, hMark⟩
    by_cases hLetter : b = 97
    · refine ⟨['b'], isName_b, ?_⟩
      refine misses_of_literal hMem hStar hMark ?_
      rw [utf8_b, hLetter]
      decide
    · refine ⟨['a'], isName_a, ?_⟩
      refine misses_of_literal hMem hStar hMark ?_
      rw [utf8_a]
      simpa using hLetter

-- What an entry leaves out

/- A repository path strictly under the directory. -/
def IsUnder (dir : List Path) (path : Path) : Prop :=
  ∃ rest, rest ≠ [] ∧ (∀ part ∈ rest, isName part = true) ∧
    path = joinParts (dir ++ rest)

/- Some path under the directory does not match the entry. -/
def LeavesOut (entry : Path) (dir : List Path) : Prop :=
  ∃ path, IsUnder dir path ∧ entryMatches entry path = false

/-
  Parts that match every path of enough components: wild, one
  of them `**`, and the others no more than the room.
-/
def isLoose (room : ℕ) (tail : List Path) : Bool :=
  tail.all isWild && tail.contains ['*', '*'] &&
    tail.countP (fun part => !(part == ['*', '*'])) ≤ room

/-
  The pattern splits into a front that matches a leading part
  of the directory and a loose tail for what is left.
-/
def exempts (pattern dir : List Path) : Bool :=
  (List.range (pattern.length + 1)).any fun i =>
    (List.range (dir.length + 1)).any fun j =>
      globPartsMatch (pattern.take i) (dir.take j) &&
        isLoose (dir.length - j + 1) (pattern.drop i)

theorem isLoose_iff
    (room : ℕ) (tail : List Path) :
    isLoose room tail = true ↔ Glob.Loose globParts isWild room tail := by
  rw [isLoose, Bool.and_eq_true, Bool.and_eq_true]
  constructor
  · rintro ⟨⟨hAll, hStars⟩, hCount⟩
    refine ⟨?_, ⟨['*', '*'], by simpa using hStars, rfl⟩,
      of_decide_eq_true hCount⟩
    exact fun part hMem =>
      .inr (List.all_eq_true.mp hAll part hMem)
  · rintro ⟨hAll, ⟨part, hMem, hSpans⟩, hLeast⟩
    have hStars : part = ['*', '*'] := by simpa [globParts] using hSpans
    rw [hStars] at hMem
    refine ⟨⟨?_, by simpa using hMem⟩, decide_eq_true hLeast⟩
    rw [List.all_eq_true]
    intro other hOther
    rcases hAll other hOther with hIs | hIs
    · have hSame : other = ['*', '*'] := by
        simpa [globParts] using hIs
      rw [hSame]
      rfl
    · exact hIs

theorem exempts_iff
    (pattern dir : List Path) :
    exempts pattern dir = true ↔
      ∃ front tail near far,
        Glob.ReadsBelow globParts isWild pattern dir front tail near far := by
  simp only [exempts, List.any_eq_true, Bool.and_eq_true,
    globPartsMatch_iff, isLoose_iff]
  constructor
  · rintro ⟨i, -, j, -, hReads, hLoose⟩
    rw [← List.length_drop] at hLoose
    exact ⟨_, _, _, _, (List.take_append_drop i pattern).symm,
      (List.take_append_drop j dir).symm, hReads, hLoose⟩
  · rintro ⟨front, tail, near, far, rfl, rfl, hReads, hLoose⟩
    refine ⟨front.length, ?_, near.length, ?_, ?_, ?_⟩
    · rw [List.mem_range, List.length_append]
      omega
    · rw [List.mem_range, List.length_append]
      omega
    · simpa using hReads
    · simpa using hLoose

/- What an entry leaves out can be read off its pattern. -/
theorem leavesOut_iff
    {entry : Path} {dir : List Path}
    (hDir : ∀ part ∈ dir, isName part = true) :
    LeavesOut entry dir ↔ exempts (entryPattern entry) dir = false := by
  have hComponents : ∀ rest, rest ≠ [] →
      (∀ part ∈ rest, isName part = true) →
      components (joinParts (dir ++ rest)) = dir ++ rest := by
    intro rest hSome hRest
    refine List.splitOn_intercalate '/' ?_ (by simp [hSome])
    intro part hMem
    rcases List.mem_append.mp hMem with hIn | hIn
    · exact noSlash_of_isName (hDir part hIn)
    · exact noSlash_of_isName (hRest part hIn)
  have hReads : ∀ rest, rest ≠ [] →
      (∀ part ∈ rest, isName part = true) →
      (entryMatches entry (joinParts (dir ++ rest)) = true ↔
        Glob.Reads globParts (entryPattern entry) (dir ++ rest)) := by
    intro rest hSome hRest
    rw [entryMatches, globMatches, hComponents rest hSome hRest,
      globPartsMatch_iff]
    rfl
  have hEvery : ∀ part name, globParts.spans part = false →
      isWild part = true → isName name = true →
      globParts.fits part name = true :=
    fun _ _ _ hWild hName =>
      segmentMatches_of_isWild hWild hName
  have hMiss : ∀ part, globParts.spans part = false →
      isWild part = false →
      ∃ name, isName name = true ∧ globParts.fits part name = false :=
    fun _ _ hWild => misses_of_not_isWild hWild
  have hBelow := Glob.reads_below_iff hEvery hMiss
    ⟨['a'], isName_a⟩ hDir (entryPattern entry)
  rw [← Bool.not_eq_true, exempts_iff]
  refine Iff.trans ?_ (not_congr hBelow)
  constructor
  · rintro ⟨path, ⟨rest, hSome, hRest, rfl⟩, hNot⟩ hAll
    have hMatches := (hReads rest hSome hRest).mpr (hAll rest hSome hRest)
    rw [hNot] at hMatches
    cases hMatches
  · intro hNot
    push Not at hNot
    rcases hNot with ⟨rest, hSome, hRest, hMisses⟩
    refine ⟨_, ⟨rest, hSome, hRest, rfl⟩, ?_⟩
    rw [← Bool.not_eq_true, hReads rest hSome hRest]
    exact hMisses

-- Artifact trees

/- The root artifacts that are directories. -/
def artifactDirectories : List (List Path) :=
  ["node_modules", ".copilot/session-state",
    ".amplihack/session-state", "dist", "build", "coverage",
    ".claude/runtime", "worktrees", ".cache", ".next", "out",
    "logs", "outputs"].map fun root => components root.toList

def nodeModules : Path := "node_modules".toList

theorem names_of_artifactDirectories
    {dir : List Path} (hMem : dir ∈ artifactDirectories) :
    ∀ part ∈ dir, isName part = true := by
  have hAll : artifactDirectories.all (·.all isName) = true := rfl
  exact List.all_eq_true.mp (List.all_eq_true.mp hAll dir hMem)

/-
  The entry leaves out a path of every artifact directory, of
  `node_modules` at any depth and of the repository.
-/
structure KeepsTrees (entry : Path) : Prop where
  directories : ∀ dir ∈ artifactDirectories, LeavesOut entry dir
  anyDepth : ∀ dir, (∀ part ∈ dir, isName part = true) →
    LeavesOut entry (dir ++ [nodeModules])
  repository : LeavesOut entry []

/- The entry's pattern splits for none of these trees. -/
structure SplitsNowhere (entry : Path) : Prop where
  directories : ∀ dir ∈ artifactDirectories,
    exempts (entryPattern entry) dir = false
  anyDepth : ∀ dir, (∀ part ∈ dir, isName part = true) →
    exempts (entryPattern entry) (dir ++ [nodeModules]) = false
  repository : exempts (entryPattern entry) [] = false

theorem keepsTrees_iff_splitsNowhere (entry : Path) :
    KeepsTrees entry ↔ SplitsNowhere entry := by
  have hModules : ∀ dir : List Path,
      (∀ part ∈ dir, isName part = true) →
      ∀ part ∈ dir ++ [nodeModules], isName part = true := by
    intro dir hDir part hMem
    rcases List.mem_append.mp hMem with hIn | hIn
    · exact hDir part hIn
    · rw [List.mem_singleton.mp hIn]
      rfl
  have hRoot : ∀ part ∈ ([] : List Path), isName part = true := by simp
  constructor
  · rintro ⟨hDirectories, hNode, hRepository⟩
    refine ⟨?_, ?_, (leavesOut_iff hRoot).mp hRepository⟩
    · intro dir hMem
      exact (leavesOut_iff
        (names_of_artifactDirectories hMem)).mp (hDirectories dir hMem)
    · intro dir hDir
      exact (leavesOut_iff (hModules dir hDir)).mp (hNode dir hDir)
  · rintro ⟨hDirectories, hNode, hRepository⟩
    refine ⟨?_, ?_, (leavesOut_iff hRoot).mpr hRepository⟩
    · intro dir hMem
      exact (leavesOut_iff
        (names_of_artifactDirectories hMem)).mpr (hDirectories dir hMem)
    · intro dir hDir
      exact (leavesOut_iff (hModules dir hDir)).mpr (hNode dir hDir)

/-
  An entry that the check lets through keeps every artifact
  tree exactly when its pattern splits for none of them.
-/
theorem keeps_trees_iff
    (entry : Path) (file : String) (line : ℕ) :
    (validateAllowlistEntry entry file line = .ok () →
      KeepsTrees entry) ↔
      (validateAllowlistEntry entry file line = .ok () →
        SplitsNowhere entry) := by
  rw [keepsTrees_iff_splitsNowhere]

def wildDist : Path := "dist*/**".toList

def wildAll : Path := "**/**".toList

/- Two entries that pass; one exempts `dist`, one all paths. -/
theorem accepted_entry_exempts_trees :
    validateAllowlistEntry wildDist "f" 1 = .ok () ∧
      (∀ path, IsUnder ["dist".toList] path →
        entryMatches wildDist path = true) ∧
      validateAllowlistEntry wildAll "f" 1 = .ok () ∧
      ∀ path, IsUnder [] path → entryMatches wildAll path = true := by
  have hAll : ∀ entry dir,
      (∀ part ∈ dir, isName part = true) →
      exempts (entryPattern entry) dir = true →
      ∀ path, IsUnder dir path → entryMatches entry path = true := by
    intro entry dir hDir hExempts path hUnder
    by_contra hNot
    have hLeaves : LeavesOut entry dir :=
      ⟨path, hUnder, by simpa using hNot⟩
    rw [leavesOut_iff hDir, hExempts] at hLeaves
    cases hLeaves
  refine ⟨rfl, hAll _ _ ?_ rfl, rfl, hAll _ _ (by simp) rfl⟩
  intro part hMem
  rw [List.mem_singleton.mp hMem]
  rfl

end Artifact
