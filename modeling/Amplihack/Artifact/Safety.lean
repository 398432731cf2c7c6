import Amplihack.Artifact.Removal

/-
  When the printed removal commands are safe.
-/

-- Safe Commands

namespace Artifact

open Base

variable {i : ScanInput}

/- At, over or under a worktree, or in a reserved place. -/
def NeverDeleted (i : ScanInput) (path : Path) : Prop :=
  (∃ worktree ∈ i.registeredWorktrees,
    Within '/' worktree path ∨ Within '/' path worktree) ∨
    isInReservedWorktreesDir path = true

def Existing (i : ScanInput) (path : Path) : Prop :=
  path ∈ i.index ∨ path ∈ i.others

/- The rules flag the indexed path without a root. -/
def PossibleSource (i : ScanInput) (path : Path) : Prop :=
  path ∈ i.index ∧
    ∃ ruleId, ruleForPath path .tracked (manifests i) = some (ruleId, none)

def NamesWhole (commands : List Command) (root : Path) : Prop :=
  .gitRmRecursiveCached root ∈ commands ∨ .rmRecursive root ∈ commands

structure SafeCommands
    (i : ScanInput) (report : Report) (commands : List Command) :
    Prop where
  roots : ∀ v ∈ report.violations, ∀ root,
    v.removalRoot = some root → Within '/' v.path root
  deleted : ∀ path,
    .rm path ∈ commands ∨ .rmRecursive path ∈ commands → ¬NeverDeleted i path
  allowed : ∀ root, NamesWhole commands root → ∀ path,
    Within '/' path root → Existing i path →
      isAllowed i.allowlist path = false
  indexed : ∀ root, NamesWhole commands root →
    ∀ path ∈ i.index, Within '/' path root →
      ∃ v ∈ report.blockingViolations, v.path = path
  source : ∀ root, NamesWhole commands root → ∀ path,
    Within '/' path root →
      ¬PossibleSource i path ∧
      ∀ v ∈ report.violations,
        v.ruleId ≠ .runWorktreeGitlink → v.removalRoot = none → v.path ≠ path
  advisory : ∀ root, NamesWhole commands root →
    ∀ v ∈ report.advisoryViolations, ¬Within '/' v.path root

-- Guarded Inputs

/- The mode lists the path from a source whose rules flag it,
   and no gitlink of a run claims it. -/
def ReadByScan (i : ScanInput) (path : Path) : Prop :=
  (∃ source, Listed i source path ∧
    (ruleForPath path source (manifests i)).isSome = true) ∧
    ∀ g ∈ runGitlinks i, ¬Within '/' path g

/- Allowlisted, or flagged in the index without a root. -/
def Spared (i : ScanInput) (path : Path) : Prop :=
  Existing i path ∧ isAllowed i.allowlist path = true ∨ PossibleSource i path

/- The input stays clear of the three gaps of the guard: the
   single files under a shared root, the indexed paths that
   the mode does not read, and the spared paths that are the
   root or lie under a root that is its own path. -/
structure Guarded (i : ScanInput) : Prop where
  alone : ∀ v root, Blocked i v root →
    isIndexed v = false → isCommandSafe v.path = true →
      NeverDeleted i v.path →
        ∀ path, Untouchable i path → ¬Within '/' path root
  read : ∀ root, RemovedWhole i root → ∀ path ∈ i.index,
    Within '/' path root → path ∈ runGitlinks i ∨ ReadByScan i path
  spared : ∀ root, RemovedWhole i root → ∀ path,
    Spared i path →
      path ≠ root ∧
        ∀ v, Blocked i v root → v.path = root → ¬Below '/' path root

-- Roots

variable {v : Violation} {root : Path}

theorem within_of_mem_scanned
    (hMem : v ∈ scanned i) (hRoot : v.removalRoot = some root) :
    isRemovalRootOf root v.path = true := by
  obtain ⟨-, hAt⟩ := mem_scanned.mp hMem
  unfold violationAt at hAt
  split at hAt
  · cases hAt
  · obtain ⟨⟨ruleId, own⟩, -, hV⟩ :=
      Option.map_eq_some_iff.mp hAt
    rw [← hV] at hRoot
    exact (Option.filter_eq_some_iff.mp hRoot).2

theorem path_ne_nil
    (hMem : v ∈ scanned i) :
    v.path ≠ [] := by
  obtain ⟨-, hAt⟩ := mem_scanned.mp hMem
  intro hNil
  rw [hNil] at hAt
  cases hAt

/- A root is the path or a prefix of it that ends at `/`. -/
theorem within_rootOf
    (hMem : v ∈ scanned i) (hRoot : rootOf i v = some root) :
    Within '/' v.path root ∧ root ≠ [] := by
  obtain ⟨-, rfl | ⟨hOwn, -, -⟩⟩ :=
    narrowRoot_removalRoot hRoot
  · exact ⟨Within.refl _, path_ne_nil hMem⟩
  · have hPrefix := within_of_mem_scanned hMem hOwn
    refine ⟨within_of_isRemovalRootOf hPrefix, ?_⟩
    rintro rfl
    cases hPrefix

-- Protected Paths

theorem neverDelete_iff
    {path : Path} :
    neverDelete i.registeredWorktrees path = true ↔ NeverDeleted i path := by
  simp only [neverDelete, NeverDeleted, Bool.or_eq_true,
    List.any_eq_true, isAtOrUnder_iff]

variable {path : Path}

/- What is spared under a directory root is protected. -/
theorem mem_protectedPaths
    (hSpared : Spared i path) (hRoot : root ∈ dirRoots i)
    (hWithin : Within '/' path root) :
    path ∈ protectedPaths i := by
  unfold protectedPaths
  simp only [List.mem_append]
  rcases hSpared with ⟨hIndex | hOther, hAllowed⟩ | ⟨hIndex, ruleId, hRule⟩
  · refine Or.inl (Or.inl (Or.inl ?_))
    refine List.mem_filter.mpr ⟨hIndex, ?_⟩
    simp [isProtectedIndexPath, hAllowed]
  · refine Or.inr (List.mem_filter.mpr ⟨?_, ?_⟩)
    · refine List.mem_filter.mpr ⟨hOther, ?_⟩
      rw [List.any_eq_true]
      exact ⟨root, hRoot, isWithin_iff.mpr hWithin⟩
    · simp [hAllowed]
  · refine Or.inl (Or.inl (Or.inl ?_))
    refine List.mem_filter.mpr ⟨hIndex, ?_⟩
    simp [isProtectedIndexPath, hRule]

/- Nothing spared lies in a root that is removed whole. -/
theorem Guarded.not_spared
    (hGuarded : Guarded i) (hWhole : RemovedWhole i root)
    (hWithin : Within '/' path root) :
    ¬Spared i path := by
  intro hSpared
  obtain ⟨hNe, hOwn⟩ :=
    hGuarded.spared root hWhole path hSpared
  have hBelow := hWithin.resolve_left hNe
  obtain ⟨v, hBlocked⟩ := hWhole.blocked
  obtain ⟨-, hPath | ⟨hRoot, hOther, hFree⟩⟩ :=
    narrowRoot_removalRoot hBlocked.root_eq
  · exact hOwn v hBlocked hPath.symm hBelow
  · have hDir := mem_dirRoots hBlocked.flagged.mem_scanned hRoot hOther
    exact hFree path (mem_protectedPaths hSpared hDir hWithin) hBelow

-- Blocking Paths

theorem mem_blockingViolations_of_gitlink
    {g : Path} (hLink : g ∈ runGitlinks i) :
    gitlinkViolation i g ∈ (scanArtifacts i).blockingViolations := by
  refine List.mem_filter.mpr
    ⟨mem_scanArtifacts.mpr (Or.inl ⟨g, hLink, rfl⟩), ?_⟩
  simp [gitlinkViolation]

theorem flagged_of_read
    {source : Source} (hListed : Listed i source path)
    (hRule : (ruleForPath path source (manifests i)).isSome = true)
    (hFree : ∀ g ∈ runGitlinks i, ¬Within '/' path g) (hNe : path ≠ [])
    (hAllowed : isAllowed i.allowlist path = false) :
    ∃ v, Flagged i v ∧ v.path = path := by
  obtain ⟨⟨ruleId, root⟩, hSome⟩ :=
    Option.isSome_iff_exists.mp hRule
  have hAt : ∃ v, violationAt i source path = some v := by
    unfold violationAt
    rw [if_neg (by simp [hNe, hAllowed]), hSome]
    exact ⟨_, rfl⟩
  obtain ⟨v, hAt⟩ := hAt
  obtain ⟨rfl, rfl⟩ := eq_of_violationAt hAt
  exact ⟨v, ⟨hListed, hAt, hFree⟩, rfl⟩

/- In a guarded input, indexed paths under a root block. -/
theorem Guarded.blocks
    (hGuarded : Guarded i) (hWhole : RemovedWhole i root)
    (hIndex : path ∈ i.index) (hWithin : Within '/' path root) :
    ∃ v ∈ (scanArtifacts i).blockingViolations, v.path = path := by
  rcases hGuarded.read root hWhole path hIndex hWithin with
    hLink | ⟨⟨source, hListed, hRule⟩, hFree⟩
  · exact ⟨_, mem_blockingViolations_of_gitlink hLink, rfl⟩
  · have hAllowed : isAllowed i.allowlist path = false := by
      have hNot := hGuarded.not_spared hWhole hWithin
      by_contra hSome
      rw [Bool.not_eq_false] at hSome
      exact hNot (Or.inl ⟨Or.inl hIndex, hSome⟩)
    have hNe : path ≠ [] := by
      obtain ⟨w, hBlocked⟩ := hWhole.blocked
      have hRoot := (within_rootOf
        hBlocked.flagged.mem_scanned hBlocked.root_eq).2
      rintro rfl
      exact hRoot (List.prefix_nil.mp hWithin.isPrefix)
    obtain ⟨v, hFlagged, rfl⟩ :=
      flagged_of_read hListed hRule hFree hNe hAllowed
    have hBlocking : ¬Advisory i v := by
      intro hOnly
      exact hWhole.apart v.path ⟨v, hFlagged, rfl, Or.inl hOnly⟩ hWithin
    have hMem := mem_pathViolations.mpr ⟨v, hFlagged, hBlocking, rfl⟩
    exact ⟨_, (List.mem_filter.mp hMem).1, by simp⟩

theorem read_of_blocks
    (hMem : v ∈ (scanArtifacts i).blockingViolations) :
    v.path ∈ runGitlinks i ∨ ReadByScan i v.path := by
  have hAll := (List.mem_filter.mp hMem).1
  rcases mem_scanArtifacts.mp hAll with ⟨g, hLink, rfl⟩ | ⟨w, hW, rfl, hFree⟩
  · exact Or.inl hLink
  · obtain ⟨hListed, hAt⟩ := mem_scanned.mp hW
    rw [narrowRoot_path]
    refine Or.inr ⟨⟨w.source, hListed, ?_⟩, hFree⟩
    unfold violationAt at hAt
    split at hAt
    · cases hAt
    · obtain ⟨rule, hRule, -⟩ := Option.map_eq_some_iff.mp hAt
      rw [hRule]
      rfl

-- The Exact Condition

theorem Guarded.safe
    (hGuarded : Guarded i) :
    SafeCommands i (scanArtifacts i) (printed i) where
  roots := by
    intro v hMem root hRoot
    rcases mem_scanArtifacts.mp hMem with ⟨g, -, rfl⟩ | ⟨w, hW, rfl, -⟩
    · cases hRoot
    · rw [narrowRoot_path]
      exact (within_rootOf hW hRoot).1
  deleted := by
    rintro path (hRm | hRm) hNever
    · obtain ⟨v, root, hBlocked, ⟨kept, hKept, hWithin⟩, rfl,
        hSafe, hOut⟩ := rm_iff.mp hRm
      exact hGuarded.alone v root hBlocked hOut hSafe hNever
        kept hKept hWithin
    · have hFalse := neverDelete_of_rmRecursive hRm
      rw [neverDelete_iff.mpr hNever] at hFalse
      cases hFalse
  allowed := by
    intro root hNames path hWithin hExisting
    by_contra hSome
    rw [Bool.not_eq_false] at hSome
    exact hGuarded.not_spared (removedWhole_iff.mp hNames)
      hWithin (Or.inl ⟨hExisting, hSome⟩)
  indexed := by
    intro root hNames path hIndex hWithin
    exact hGuarded.blocks (removedWhole_iff.mp hNames) hIndex hWithin
  source := by
    intro root hNames path hWithin
    have hWhole := removedWhole_iff.mp hNames
    refine ⟨fun hSource =>
      hGuarded.not_spared hWhole hWithin (Or.inr hSource), ?_⟩
    rintro v hMem hRule hNone rfl
    obtain ⟨w, hFlagged, rfl⟩ :=
      mem_of_ruleId_ne.mp ⟨hMem, hRule⟩
    refine hWhole.apart _ ⟨w, hFlagged, ?_, Or.inr ?_⟩ hWithin
    · simp
    · intro own hOwn
      unfold rootOf at hOwn
      rw [hNone] at hOwn
      cases hOwn
  advisory := by
    intro root hNames v hMem hWithin
    have hWhole := removedWhole_iff.mp hNames
    obtain ⟨w, hFlagged, hOnly, rfl⟩ :=
      mem_advisoryViolations.mp hMem
    exact hWhole.apart _ ⟨w, hFlagged, by simp, Or.inl hOnly⟩ hWithin

/- The printed commands are safe on the guarded inputs only. -/
theorem safeCommands_iff_guarded
    (i : ScanInput) :
    SafeCommands i (scanArtifacts i)
        (printViolationReport (scanArtifacts i)) ↔
      Guarded i := by
  refine ⟨fun hSafe => ⟨?_, ?_, ?_⟩, Guarded.safe⟩
  · intro v root hBlocked hOut hSafePath hNever kept hKept hWithin
    have hRm : .rm v.path ∈ printed i :=
      rm_iff.mpr ⟨v, root, hBlocked, ⟨kept, hKept, hWithin⟩,
        rfl, hSafePath, hOut⟩
    exact hSafe.deleted v.path (Or.inl hRm) hNever
  · intro root hWhole path hIndex hWithin
    obtain ⟨v, hMem, rfl⟩ := hSafe.indexed root
      (removedWhole_iff.mpr hWhole) path hIndex hWithin
    exact read_of_blocks hMem
  · intro root hWhole path hSpared
    have hNames := removedWhole_iff.mpr hWhole
    have hNot : ¬Within '/' path root := by
      intro hWithin
      rcases hSpared with ⟨hExisting, hAllowed⟩ | hSource
      · have hFalse := hSafe.allowed root hNames path hWithin hExisting
        rw [hAllowed] at hFalse
        cases hFalse
      · exact (hSafe.source root hNames path hWithin).1 hSource
    exact ⟨fun hSame => hNot (Or.inl hSame),
      fun _ _ _ hBelow => hNot (Or.inr hBelow)⟩

-- A Shared Root

/- A committed worktree file and a new one beside it. -/
def staleWorktree : ScanInput :=
  { mode := .preCommit
    preExistingPolicy := .report
    allowlist := []
    registeredWorktrees := []
    index := ["worktrees/old/b.txt".toList]
    indexGitlinks := []
    staged := []
    stagedChanges := []
    untracked := ["worktrees/stale/a.txt".toList]
    ignored := []
    others := ["worktrees/stale/a.txt".toList]
    isDir := fun _ => false
    introduced := [] }

/- `rm` is printed for a file in the reserved directory. -/
theorem shared_root_is_not_safe :
    ¬SafeCommands staleWorktree (scanArtifacts staleWorktree)
      (printViolationReport (scanArtifacts staleWorktree)) := by
  intro hSafe
  refine hSafe.deleted "worktrees/stale/a.txt".toList (Or.inl ?_) (Or.inr ?_)
  · decide +kernel
  · decide +kernel

/- One new file is staged, an older one is only tracked. -/
def stagedModule : ScanInput :=
  { staleWorktree with
    mode := .staged
    index := ["node_modules/new.js".toList,
      "node_modules/old.js".toList]
    staged := ["node_modules/new.js".toList]
    untracked := []
    others := [] }

/- The staged mode removes the older file as well. -/
example :
    printed stagedModule =
      [.gitRmRecursiveCached "node_modules".toList,
        .rmRecursive "node_modules".toList] := by
  decide +kernel

end Artifact
