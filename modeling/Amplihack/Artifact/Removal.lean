import Mathlib.Data.List.Dedup
import Amplihack.Artifact.Scan

/-
  The commands that the violation report prints.

  Which paths and roots of an input get a removal command.
-/

-- Commands

namespace Artifact

open Base

inductive Command where
| gitRmCachedGitlink (path : Path)
| gitRmCached (path : Path)
| rm (path : Path)
| gitRmRecursiveCached (root : Path)
| rmRecursive (root : Path)
deriving DecidableEq

/- Control, bidirectional and invisible characters. -/
def isUnsafeChar (c : Char) : Bool :=
  let n := c.toNat
  n < 0x20 || (0x7f ≤ n && n ≤ 0x9f) || n == 0x061c ||
    (0x200b ≤ n && n ≤ 0x200f) ||
    (0x2028 ≤ n && n ≤ 0x202e) ||
    (0x2060 ≤ n && n ≤ 0x2069) || n == 0xfeff || n == 0xfffd

def hasUnsafeChar (path : Path) : Bool :=
  path.any isUnsafeChar

/- No quote either. -/
def isCommandSafe (path : Path) : Bool :=
  !(path.any fun c => c.toNat == 0x27 || isUnsafeChar c)

/- `never_delete_reason` gives a reason. -/
def neverDelete (registered : List Path) (root : Path) : Bool :=
  (registered.any fun worktree =>
    isAtOrUnder worktree root || isAtOrUnder root worktree) ||
    isInReservedWorktreesDir root

-- Removable And Reviewed Violations

/- The root of a violation that a command may name. -/
def removableRoot (v : Violation) : Option Path :=
  v.removalRoot.filter isCommandSafe

def isIndexed (v : Violation) : Bool :=
  !v.source.isOutsideIndex

namespace Report

def gitlinks (report : Report) : List Violation :=
  report.blockingViolations.filter (·.ruleId == .runWorktreeGitlink)

def pathViolations (report : Report) : List Violation :=
  report.blockingViolations.filter (·.ruleId != .runWorktreeGitlink)

/- The roots of the groups, in the order they are met. -/
def removableRoots (report : Report) : List Path :=
  (report.pathViolations.filterMap removableRoot).dedup

def group (report : Report) (root : Path) : List Violation :=
  report.pathViolations.filter (removableRoot · == some root)

def review (report : Report) : List Violation :=
  report.pathViolations.filter (removableRoot · == none)

def untouchable (report : Report) : List Path :=
  (report.advisoryViolations ++ report.review).map Violation.path

end Report

-- Printing

def commandOfPath (v : Violation) : Option Command :=
  if !(isCommandSafe v.path) then none
  else if isIndexed v then some (.gitRmCached v.path)
  else some (.rm v.path)

/- Per path where the root holds paths to leave alone. -/
def commandsOfRoot
    (report : Report) (root : Path) :
    List Command :=
  if report.untouchable.any (isWithin · root) then
    (report.group root).filterMap commandOfPath
  else
    (if (report.group root).any isIndexed then
      [.gitRmRecursiveCached root] else []) ++
    (if neverDelete report.registeredWorktrees root then []
      else [.rmRecursive root])

def commandOfGitlink (v : Violation) : Option Command :=
  if hasUnsafeChar v.path then none
  else some (.gitRmCachedGitlink v.path)

/- Nothing is printed when no violation blocks. -/
def printViolationReport (report : Report) : List Command :=
  report.gitlinks.filterMap commandOfGitlink ++
    report.removableRoots.flatMap (commandsOfRoot report)

-- What Is Printed

variable {v : Violation}

theorem removableRoot_eq_some
    {root : Path} :
    removableRoot v = some root ↔
      v.removalRoot = some root ∧ isCommandSafe root = true := by
  unfold removableRoot
  rw [Option.filter_eq_some_iff]

variable {report : Report}

theorem mem_removableRoots
    {root : Path} :
    root ∈ report.removableRoots ↔
      ∃ v ∈ report.pathViolations, removableRoot v = some root := by
  simp [Report.removableRoots]

theorem mem_group
    {root : Path} {v : Violation} :
    v ∈ report.group root ↔
      v ∈ report.pathViolations ∧ removableRoot v = some root := by
  simp [Report.group]

theorem mem_printViolationReport
    {command : Command} :
    command ∈ printViolationReport report ↔
      (∃ v ∈ report.gitlinks, commandOfGitlink v = some command) ∨
      ∃ root ∈ report.removableRoots,
        command ∈ commandsOfRoot report root := by
  simp [printViolationReport]

variable {command : Command}

theorem commandOfGitlink_ne
    (hCommand : commandOfGitlink v = some command) :
    ∃ path, command = .gitRmCachedGitlink path := by
  unfold commandOfGitlink at hCommand
  split at hCommand
  · cases hCommand
  · cases hCommand
    exact ⟨v.path, rfl⟩

theorem any_untouchable
    {root : Path} :
    report.untouchable.any (isWithin · root) = true ↔
      ∃ path ∈ report.untouchable, Within '/' path root := by
  simp only [List.any_eq_true, isWithin_iff]

/- Under a shared root each command names one path. -/
theorem eq_of_commandOfPath
    (hCommand : commandOfPath v = some command) :
    command = .gitRmCached v.path ∨ command = .rm v.path := by
  unfold commandOfPath at hCommand
  split at hCommand
  · cases hCommand
  · split at hCommand
    · cases hCommand
      exact Or.inl rfl
    · cases hCommand
      exact Or.inr rfl

theorem eq_of_shared
    {root kept : Path} (hKept : kept ∈ report.untouchable)
    (hWithin : Within '/' kept root)
    (hMem : command ∈ commandsOfRoot report root) :
    ∃ path, command = .gitRmCached path ∨ command = .rm path := by
  unfold commandsOfRoot at hMem
  rw [if_pos (any_untouchable.mpr ⟨kept, hKept, hWithin⟩)]
    at hMem
  obtain ⟨v, -, hCommand⟩ := List.mem_filterMap.mp hMem
  exact ⟨v.path, eq_of_commandOfPath hCommand⟩

/- A single file is removed where the root is shared. -/
theorem rm_mem_commandsOfRoot
    {root path : Path} :
    .rm path ∈ commandsOfRoot report root ↔
      (∃ kept ∈ report.untouchable, Within '/' kept root) ∧
        ∃ v ∈ report.group root,
          v.path = path ∧ isCommandSafe path = true ∧
            isIndexed v = false := by
  unfold commandsOfRoot
  by_cases hShared : report.untouchable.any (isWithin · root) = true
  · rw [if_pos hShared]
    simp only [any_untouchable.mp hShared, true_and,
      List.mem_filterMap, commandOfPath]
    constructor
    · rintro ⟨v, hV, hCommand⟩
      split at hCommand
      · cases hCommand
      next hSafe =>
        split at hCommand
        · cases hCommand
        next hIndexed =>
          cases hCommand
          exact ⟨v, hV, rfl, by simpa using hSafe,
            by simpa using hIndexed⟩
    · rintro ⟨v, hV, rfl, hSafe, hIndexed⟩
      exact ⟨v, hV, by simp [hSafe, hIndexed]⟩
  · rw [if_neg hShared]
    rw [any_untouchable] at hShared
    simp only [hShared, false_and, iff_false, List.mem_append, not_or]
    constructor <;> split <;> simp

/- A whole root is removed where nothing in it is kept. -/
theorem gitRm_mem_commandsOfRoot
    {root other : Path} :
    .gitRmRecursiveCached other ∈ commandsOfRoot report root ↔
      other = root ∧
        (∀ kept ∈ report.untouchable, ¬Within '/' kept root) ∧
        ∃ v ∈ report.group root, isIndexed v = true := by
  by_cases hShared : report.untouchable.any (isWithin · root) = true
  · obtain ⟨kept, hKept, hWithin⟩ := any_untouchable.mp hShared
    constructor
    · intro hMem
      obtain ⟨path, hCommand | hCommand⟩ :=
        eq_of_shared hKept hWithin hMem
      · cases hCommand
      · cases hCommand
    · rintro ⟨-, hFree, -⟩
      exact absurd hWithin (hFree kept hKept)
  · unfold commandsOfRoot
    rw [if_neg hShared]
    have hFree : ∀ kept ∈ report.untouchable, ¬Within '/' kept root :=
      fun kept hKept hWithin =>
        hShared (any_untouchable.mpr ⟨kept, hKept, hWithin⟩)
    rw [List.mem_append, ← List.any_eq_true]
    by_cases hIndexed : (report.group root).any isIndexed = true
    · by_cases hNever : neverDelete report.registeredWorktrees root = true
      · simpa [hIndexed, hNever] using fun _ => hFree
      · simpa [hIndexed, hNever] using fun _ => hFree
    · by_cases hNever : neverDelete report.registeredWorktrees root = true
      · simp [hIndexed, hNever]
      · simp [hIndexed, hNever]

theorem rmRecursive_mem_commandsOfRoot
    {root other : Path} :
    .rmRecursive other ∈ commandsOfRoot report root ↔
      other = root ∧
        (∀ kept ∈ report.untouchable, ¬Within '/' kept root) ∧
        neverDelete report.registeredWorktrees root =
          false := by
  by_cases hShared : report.untouchable.any (isWithin · root) = true
  · obtain ⟨kept, hKept, hWithin⟩ := any_untouchable.mp hShared
    constructor
    · intro hMem
      obtain ⟨path, hCommand | hCommand⟩ :=
        eq_of_shared hKept hWithin hMem
      · cases hCommand
      · cases hCommand
    · rintro ⟨-, hFree, -⟩
      exact absurd hWithin (hFree kept hKept)
  · unfold commandsOfRoot
    rw [if_neg hShared]
    have hFree : ∀ kept ∈ report.untouchable, ¬Within '/' kept root :=
      fun kept hKept hWithin =>
        hShared (any_untouchable.mpr ⟨kept, hKept, hWithin⟩)
    rw [List.mem_append]
    by_cases hIndexed : (report.group root).any isIndexed = true
    · by_cases hNever : neverDelete report.registeredWorktrees root = true
      · simp [hIndexed, hNever]
      · simpa [hIndexed, hNever] using fun _ => hFree
    · by_cases hNever : neverDelete report.registeredWorktrees root = true
      · simp [hIndexed, hNever]
      · simpa [hIndexed, hNever] using fun _ => hFree

end Artifact

-- Flagged Paths

namespace Artifact

open Base

variable {i : ScanInput}

/- The mode lists the path, some rule flags it, and it lies
   under no gitlink of a run. -/
structure Flagged (i : ScanInput) (v : Violation) : Prop where
  listed : Listed i v.source v.path
  broken : violationAt i v.source v.path = some v
  free : ∀ g ∈ runGitlinks i, ¬Within '/' v.path g

/- The path was there before, and this is only reported. -/
def Advisory (i : ScanInput) (v : Violation) : Prop :=
  i.mode.isGate = true ∧ i.preExistingPolicy = .report ∧
    v.provenance = .preExisting

/- The root of the violation after narrowing. -/
def rootOf (i : ScanInput) (v : Violation) : Option Path :=
  (narrowRoot (protectedPaths i) v).removalRoot

/- A blocking path that a command removes with this root. -/
structure Blocked
    (i : ScanInput) (v : Violation) (root : Path) :
    Prop where
  flagged : Flagged i v
  blocking : ¬Advisory i v
  root_eq : rootOf i v = some root
  safe : isCommandSafe root = true

/- The path is only reported, or no command may remove it. -/
def Untouchable (i : ScanInput) (path : Path) : Prop :=
  ∃ v, Flagged i v ∧ v.path = path ∧
    (Advisory i v ∨
      ∀ root, rootOf i v = some root → isCommandSafe root = false)

/- A command removes whatever lies at or under the root. -/
structure RemovedWhole
    (i : ScanInput) (root : Path) :
    Prop where
  blocked : ∃ v, Blocked i v root
  apart : ∀ path, Untouchable i path → ¬Within '/' path root
  printed : (∃ v, Blocked i v root ∧ isIndexed v = true) ∨
    neverDelete i.registeredWorktrees root = false

theorem Flagged.mem_scanned
    {v : Violation} (hFlagged : Flagged i v) :
    v ∈ scanned i :=
  Artifact.mem_scanned.mpr ⟨hFlagged.listed, hFlagged.broken⟩

theorem ruleId_ne_of_mem_scanned
    {v : Violation} (hMem : v ∈ scanned i) :
    v.ruleId ≠ .runWorktreeGitlink := by
  have hAt := (mem_scanned.mp hMem).2
  unfold violationAt at hAt
  split at hAt
  · cases hAt
  · obtain ⟨⟨ruleId, root⟩, hRule, hV⟩ :=
      Option.map_eq_some_iff.mp hAt
    rw [← hV]
    exact ruleForPath_ne_gitlink hRule

-- The Report's Lists

theorem preExistingIsAdvisory_iff :
    (scanArtifacts i).preExistingIsAdvisory = true ↔
      i.mode.isGate = true ∧ i.preExistingPolicy = .report := by
  simp [Report.preExistingIsAdvisory, scanArtifacts]

/- The violations of paths, with the gitlinks apart. -/
theorem mem_of_ruleId_ne
    {v : Violation} :
    v ∈ (scanArtifacts i).violations ∧
        v.ruleId ≠ .runWorktreeGitlink ↔
      ∃ w, Flagged i w ∧ narrowRoot (protectedPaths i) w = v := by
  rw [mem_scanArtifacts]
  constructor
  · rintro ⟨⟨g, -, rfl⟩ | ⟨w, hW, hNarrow, hFree⟩, hRule⟩
    · exact absurd rfl hRule
    · obtain ⟨hListed, hAt⟩ := mem_scanned.mp hW
      exact ⟨w, ⟨hListed, hAt, hFree⟩, hNarrow⟩
  · rintro ⟨w, hFlagged, rfl⟩
    refine ⟨Or.inr ⟨w, hFlagged.mem_scanned, rfl, hFlagged.free⟩, ?_⟩
    rw [narrowRoot_ruleId]
    exact ruleId_ne_of_mem_scanned hFlagged.mem_scanned

theorem mem_pathViolations
    {v : Violation} :
    v ∈ (scanArtifacts i).pathViolations ↔
      ∃ w, Flagged i w ∧ ¬Advisory i w ∧
        narrowRoot (protectedPaths i) w = v := by
  have hSplit : v ∈ (scanArtifacts i).pathViolations ↔
      (v ∈ (scanArtifacts i).violations ∧ v.ruleId ≠ .runWorktreeGitlink) ∧
      ¬Advisory i v := by
    simp only [Report.pathViolations, Report.blockingViolations,
      List.mem_filter, Bool.or_eq_true, Bool.not_eq_true', bne_iff_ne,
      ne_eq, Bool.and_eq_false_iff, beq_iff_eq, Advisory]
    by_cases hRule : v.ruleId = .runWorktreeGitlink
    · simp [hRule]
    · by_cases hOnly : (scanArtifacts i).preExistingIsAdvisory = true
      · have hMode := preExistingIsAdvisory_iff.mp hOnly
        simp [hRule, hOnly, hMode]
      · have hMode := mt preExistingIsAdvisory_iff.mpr hOnly
        simp only [Bool.not_eq_true] at hOnly
        rw [← and_assoc (a := i.mode.isGate = true)]
        simp [hRule, hOnly, hMode]
  rw [hSplit, mem_of_ruleId_ne]
  constructor
  · rintro ⟨⟨w, hFlagged, rfl⟩, hBlocking⟩
    refine ⟨w, hFlagged, ?_, rfl⟩
    simpa [Advisory] using hBlocking
  · rintro ⟨w, hFlagged, hBlocking, rfl⟩
    refine ⟨⟨w, hFlagged, rfl⟩, ?_⟩
    simpa [Advisory] using hBlocking

theorem mem_advisoryViolations
    {v : Violation} :
    v ∈ (scanArtifacts i).advisoryViolations ↔
      ∃ w, Flagged i w ∧ Advisory i w ∧
        narrowRoot (protectedPaths i) w = v := by
  have hSplit : v ∈ (scanArtifacts i).advisoryViolations ↔
      (v ∈ (scanArtifacts i).violations ∧ v.ruleId ≠ .runWorktreeGitlink) ∧
      Advisory i v := by
    unfold Report.advisoryViolations Advisory
    split
    next hOnly =>
      have hMode := preExistingIsAdvisory_iff.mp hOnly
      simp [hMode, and_assoc]
    next hOnly =>
      have hMode := mt preExistingIsAdvisory_iff.mpr hOnly
      rw [← and_assoc (a := i.mode.isGate = true)]
      simp [hMode]
  rw [hSplit, mem_of_ruleId_ne]
  constructor
  · rintro ⟨⟨w, hFlagged, rfl⟩, hOnly⟩
    refine ⟨w, hFlagged, ?_, rfl⟩
    simpa [Advisory] using hOnly
  · rintro ⟨w, hFlagged, hOnly, rfl⟩
    refine ⟨⟨w, hFlagged, rfl⟩, ?_⟩
    simpa [Advisory] using hOnly

theorem mem_untouchable
    {path : Path} :
    path ∈ (scanArtifacts i).untouchable ↔ Untouchable i path := by
  simp only [Report.untouchable, List.mem_map, List.mem_append, Report.review,
    List.mem_filter, beq_iff_eq, mem_advisoryViolations, mem_pathViolations]
  have hNone : ∀ w : Violation,
      removableRoot (narrowRoot (protectedPaths i) w) = none ↔
        ∀ root, rootOf i w = some root → isCommandSafe root = false := by
    intro w
    unfold removableRoot rootOf
    rw [Option.filter_eq_none_iff]
    simp only [Bool.not_eq_true]
  constructor
  · rintro ⟨v, ⟨w, hFlagged, hOnly, rfl⟩ |
      ⟨⟨w, hFlagged, hBlocking, rfl⟩, hRoot⟩, rfl⟩
    · exact ⟨w, hFlagged, by simp, Or.inl hOnly⟩
    · exact ⟨w, hFlagged, by simp, Or.inr ((hNone w).mp hRoot)⟩
  · rintro ⟨w, hFlagged, rfl, hKept⟩
    by_cases hOnly : Advisory i w
    · exact ⟨_, Or.inl ⟨w, hFlagged, hOnly, rfl⟩, by simp⟩
    · have hRoot := hKept.resolve_left hOnly
      exact ⟨_, Or.inr ⟨⟨w, hFlagged, hOnly, rfl⟩,
        (hNone w).mpr hRoot⟩, by simp⟩

theorem mem_group_iff
    {v : Violation} {root : Path} :
    v ∈ (scanArtifacts i).group root ↔
      ∃ w, Blocked i w root ∧ narrowRoot (protectedPaths i) w = v := by
  rw [mem_group, mem_pathViolations]
  constructor
  · rintro ⟨⟨w, hFlagged, hBlocking, rfl⟩, hRoot⟩
    obtain ⟨hEq, hSafe⟩ := removableRoot_eq_some.mp hRoot
    exact ⟨w, ⟨hFlagged, hBlocking, hEq, hSafe⟩, rfl⟩
  · rintro ⟨w, hBlocked, rfl⟩
    exact ⟨⟨w, hBlocked.flagged, hBlocked.blocking, rfl⟩,
      removableRoot_eq_some.mpr ⟨hBlocked.root_eq, hBlocked.safe⟩⟩

theorem mem_removableRoots_iff
    {root : Path} :
    root ∈ (scanArtifacts i).removableRoots ↔ ∃ w, Blocked i w root := by
  rw [mem_removableRoots]
  constructor
  · rintro ⟨v, hV, hRoot⟩
    obtain ⟨w, hBlocked, -⟩ :=
      mem_group_iff.mp (mem_group.mpr ⟨hV, hRoot⟩)
    exact ⟨w, hBlocked⟩
  · rintro ⟨w, hBlocked⟩
    have hMem := mem_group_iff.mpr ⟨w, hBlocked, rfl⟩
    exact ⟨_, mem_group.mp hMem⟩

-- The Commands Of An Input

def printed (i : ScanInput) : List Command :=
  printViolationReport (scanArtifacts i)

theorem isIndexed_narrowRoot
    (paths : List Path) (v : Violation) :
    isIndexed (narrowRoot paths v) = isIndexed v := by
  simp [isIndexed]

theorem rm_iff
    {path : Path} :
    .rm path ∈ printed i ↔
      ∃ v root, Blocked i v root ∧
        (∃ kept, Untouchable i kept ∧ Within '/' kept root) ∧
        v.path = path ∧ isCommandSafe path = true ∧
        isIndexed v = false := by
  unfold printed
  rw [mem_printViolationReport]
  constructor
  · rintro (⟨v, -, hLink⟩ | ⟨root, -, hMem⟩)
    · obtain ⟨p, hLink⟩ := commandOfGitlink_ne hLink
      cases hLink
    · obtain ⟨⟨kept, hKept, hWithin⟩, v, hV, hPath, hSafe,
        hOut⟩ := rm_mem_commandsOfRoot.mp hMem
      obtain ⟨w, hBlocked, rfl⟩ := mem_group_iff.mp hV
      rw [narrowRoot_path] at hPath
      rw [isIndexed_narrowRoot] at hOut
      exact ⟨w, root, hBlocked,
        ⟨kept, mem_untouchable.mp hKept, hWithin⟩, hPath,
        hSafe, hOut⟩
  · rintro ⟨w, root, hBlocked, ⟨kept, hKept, hWithin⟩, hPath, hSafe, hOut⟩
    refine Or.inr ⟨root, mem_removableRoots_iff.mpr ⟨w, hBlocked⟩, ?_⟩
    refine rm_mem_commandsOfRoot.mpr
      ⟨⟨kept, mem_untouchable.mpr hKept, hWithin⟩,
        _, mem_group_iff.mpr ⟨w, hBlocked, rfl⟩, ?_⟩
    rw [narrowRoot_path, isIndexed_narrowRoot]
    exact ⟨hPath, hSafe, hOut⟩

theorem neverDelete_of_rmRecursive
    {root : Path} (hMem : .rmRecursive root ∈ printed i) :
    neverDelete i.registeredWorktrees root = false := by
  unfold printed at hMem
  rcases mem_printViolationReport.mp hMem with
    ⟨v, -, hLink⟩ | ⟨other, -, hOther⟩
  · obtain ⟨p, hLink⟩ := commandOfGitlink_ne hLink
    cases hLink
  · obtain ⟨rfl, -, hNever⟩ :=
      rmRecursive_mem_commandsOfRoot.mp hOther
    exact hNever

theorem removedWhole_iff
    {root : Path} :
    .gitRmRecursiveCached root ∈ printed i ∨
        .rmRecursive root ∈ printed i ↔
      RemovedWhole i root := by
  unfold printed
  simp only [mem_printViolationReport]
  constructor
  · rintro ((⟨v, -, hLink⟩ | ⟨other, hOther, hMem⟩) |
      (⟨v, -, hLink⟩ | ⟨other, hOther, hMem⟩))
    · obtain ⟨p, hLink⟩ := commandOfGitlink_ne hLink
      cases hLink
    · obtain ⟨rfl, hFree, v, hV, hIndexed⟩ :=
        gitRm_mem_commandsOfRoot.mp hMem
      obtain ⟨w, hBlocked, rfl⟩ := mem_group_iff.mp hV
      rw [isIndexed_narrowRoot] at hIndexed
      exact ⟨⟨w, hBlocked⟩,
        fun path hPath =>
          hFree path (mem_untouchable.mpr hPath),
        Or.inl ⟨w, hBlocked, hIndexed⟩⟩
    · obtain ⟨p, hLink⟩ := commandOfGitlink_ne hLink
      cases hLink
    · obtain ⟨rfl, hFree, hNever⟩ :=
        rmRecursive_mem_commandsOfRoot.mp hMem
      exact ⟨mem_removableRoots_iff.mp hOther,
        fun path hPath =>
          hFree path (mem_untouchable.mpr hPath),
        Or.inr hNever⟩
  · rintro ⟨⟨v, hBlocked⟩, hApart, hPrinted⟩
    have hRoot := mem_removableRoots_iff.mpr ⟨v, hBlocked⟩
    have hFree : ∀ kept ∈ (scanArtifacts i).untouchable,
        ¬Within '/' kept root :=
      fun kept hKept => hApart kept (mem_untouchable.mp hKept)
    rcases hPrinted with ⟨w, hW, hIndexed⟩ | hNever
    · refine Or.inl (Or.inr ⟨root, hRoot, ?_⟩)
      refine gitRm_mem_commandsOfRoot.mpr
        ⟨rfl, hFree, _, mem_group_iff.mpr ⟨w, hW, rfl⟩, ?_⟩
      rw [isIndexed_narrowRoot]
      exact hIndexed
    · refine Or.inr (Or.inr ⟨root, hRoot, ?_⟩)
      exact rmRecursive_mem_commandsOfRoot.mpr ⟨rfl, hFree, hNever⟩

end Artifact
