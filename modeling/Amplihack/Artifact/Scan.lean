import Amplihack.Base.Utf8
import Amplihack.Base.Search

/-
  Repository paths of the artifact guard, its allowlist and
  the directories reserved for run worktrees.

  The rules of the artifact guard: what each path violates
  and the root that may be removed for it.

  The scan of the artifact guard: the lists it reads, the
  violations it finds, their roots and the gitlinks.
-/

-- Paths

namespace Artifact

open Base

/- A path with `/` between its components. -/
abbrev Path := List Char

def components (path : Path) : List Path :=
  path.splitOn '/'

def joinParts (parts : List Path) : Path :=
  ['/'].intercalate parts

def hasComponent (path : Path) (name : String) : Bool :=
  (components path).any (· == name.toList)

/- `path.starts_with` and `path.ends_with` -/
def startsWith (path : Path) (s : String) : Bool :=
  s.toList.isPrefixOf path

def endsWith (path : Path) (s : String) : Bool :=
  s.toList.isSuffixOf path

def contains (path : Path) (s : String) : Bool :=
  path.tails.any fun tail => s.toList.isPrefixOf tail

def isWithin (path root : Path) : Bool :=
  path == root ||
    match root.isPrefixOf? path with
    | some (c :: _) => c == '/'
    | some [] => false
    | none => false

def isAtOrUnder (path root : Path) : Bool :=
  match root.isPrefixOf? path with
  | some (c :: _) => c == '/'
  | some [] => true
  | none => false

theorem isAtOrUnder_iff
    {path root : Path} :
    isAtOrUnder path root = true ↔ Within '/' path root := by
  rw [within_iff_stripPrefix, isAtOrUnder]
  cases hStrip : root.isPrefixOf? path with
  | none =>
    simp only [Bool.false_eq_true, false_iff]
    rintro ⟨rest, rfl, -⟩
    have hSome : root.isPrefixOf? (root ++ rest) = some rest :=
      List.isPrefixOf?_eq_some_iff_append_eq.mpr rfl
    rw [hStrip] at hSome
    cases hSome
  | some rest =>
    have hPath : root ++ rest = path :=
      List.isPrefixOf?_eq_some_iff_append_eq.mp hStrip
    constructor
    · intro hSep
      refine ⟨rest, hPath.symm, ?_⟩
      cases rest with
      | nil => exact Or.inl rfl
      | cons c rest => exact Or.inr (by simpa using hSep)
    · rintro ⟨rest', hRest, hSep⟩
      have hSame : rest = rest' := List.append_cancel_left (hPath.trans hRest)
      subst hSame
      cases rest with
      | nil => rfl
      | cons c rest => simpa using hSep

/- Both spellings of the test are the same. -/
theorem isWithin_eq_isAtOrUnder
    (path root : Path) :
    isWithin path root = isAtOrUnder path root := by
  rw [isWithin, isAtOrUnder]
  cases hStrip : root.isPrefixOf? path with
  | none =>
    simp only [Bool.or_false, beq_eq_false_iff_ne]
    rintro rfl
    have hSome : path.isPrefixOf? path = some [] :=
      List.isPrefixOf?_eq_some_iff_append_eq.mpr (by simp)
    rw [hStrip] at hSome
    cases hSome
  | some rest =>
    have hPath : root ++ rest = path :=
      List.isPrefixOf?_eq_some_iff_append_eq.mp hStrip
    cases rest with
    | nil => simp [← hPath]
    | cons c rest => simp [← hPath]

theorem isWithin_iff
    {path root : Path} :
    isWithin path root = true ↔ Within '/' path root := by
  rw [isWithin_eq_isAtOrUnder, isAtOrUnder_iff]

-- The Allowlist

/- `*` takes any bytes of the segment, `?` one byte. -/
def segmentMatchBytes : List UInt8 → List UInt8 → Bool
| [], text => text.isEmpty
| b :: pattern, text =>
  if b == 42 then
    text.tails.any (segmentMatchBytes pattern)
  else
    match text with
    | [] => false
    | c :: rest =>
      (b == 63 || b == c) && segmentMatchBytes pattern rest

def segmentMatches (pattern text : Path) : Bool :=
  segmentMatchBytes (utf8 pattern) (utf8 text)

/- `**` takes any number of components. -/
def globPartsMatch : List Path → List Path → Bool
| [], path => path.isEmpty
| part :: pattern, path =>
  if part == ['*', '*'] then
    path.tails.any (globPartsMatch pattern)
  else
    match path with
    | [] => false
    | text :: rest =>
      segmentMatches part text && globPartsMatch pattern rest

def globMatches (pattern path : Path) : Bool :=
  globPartsMatch (components pattern) (components path)

def isAllowed (allowlist : List Path) (path : Path) : Bool :=
  allowlist.any (globMatches · path)

-- Reserved Directories And Roots

/- The first component is `worktrees`, in any ASCII case. -/
def isInReservedWorktreesDir (path : Path) : Bool :=
  (path.takeWhile (· ≠ '/')).map Char.toLower == "worktrees".toList

def isRemovalRootOf (root path : Path) : Bool :=
  !root.isEmpty && root.head? != some '/' &&
    !((components root).any fun part =>
      part == ['.', '.'] || part.isEmpty) &&
    (root == path || (root ++ ['/']).isPrefixOf path)

theorem within_of_isRemovalRootOf
    {root path : Path} (hRoot : isRemovalRootOf root path = true) :
    Within '/' path root := by
  simp only [isRemovalRootOf, Bool.and_eq_true, Bool.or_eq_true, beq_iff_eq,
    List.isPrefixOf_iff_prefix] at hRoot
  exact hRoot.2.imp Eq.symm id

end Artifact

-- Sources And Rules

namespace Artifact

inductive Source where
| staged
| tracked
| untracked
| ignoredPresent
deriving DecidableEq

def Source.isOutsideIndex : Source → Bool
| .staged => false
| .tracked => false
| .untracked => true
| .ignoredPresent => true

inductive RuleId where
| runWorktreeGitlink
| nodeModules
| pluginBundle
| claudeRuntime
| nestedWorktree
| cacheArtifact
| buildArtifact
| workflowSessionArtifact
deriving DecidableEq

-- Roots

/- The path through the first part that is accepted. -/
def prefixThrough
    (path : Path) (accepts : Path → Path → Bool) :
    Option Path :=
  let parts := components path
  let prefixes := (List.range parts.length).map fun k =>
    (parts.getD k [], joinParts (parts.take (k + 1)))
  (prefixes.find? fun (part, through) =>
    accepts part through).map Prod.snd

def cacheComponents : List String :=
  [".cache", ".npm", ".pnpm-store", ".turbo",
    ".parcel-cache", ".pytest_cache"]

def isCachePath (path : Path) : Bool :=
  cacheComponents.any (hasComponent path) ||
    path == ".yarn/cache".toList ||
    startsWith path ".yarn/cache/" ||
    contains path "/.yarn/cache/" ||
    path == ".next/cache".toList ||
    startsWith path ".next/cache/" ||
    contains path "/.next/cache/"

/- Each part with the next one and the path through both. -/
def cacheRootAt
    (path : Path) (parts : List Path) (k : ℕ) :
    Option Path :=
  let part := parts.getD k []
  let next := parts[k + 1]?
  if cacheComponents.any (·.toList == part) then
    some (joinParts (parts.take (k + 1)))
  else if next = some "cache".toList ∧
      part = ".next".toList then
    some (joinParts (parts.take (k + 2)))
  else if next = some "cache".toList ∧
      part = ".yarn".toList then
    some path
  else none

def cacheRoot (path : Path) : Option Path :=
  let parts := components path
  (List.range parts.length).findSome? (cacheRootAt path parts)

-- Build Output

def sourceManifests : List String :=
  ["package.json", "Cargo.toml", "tsconfig.json", "pyproject.toml", "go.mod"]

def genericOutputSegments : List String :=
  ["dist", "build", "coverage", "out", "logs", "outputs"]

def coverageReportFiles : List String :=
  ["lcov.info", "coverage-final.json", "coverage-summary.json", "clover.xml"]

/- The directory and the file name, split at the last `/`. -/
def splitLast (path : Path) : Option (Path × Path) :=
  match (components path).reverse with
  | [] => none
  | [_] => none
  | name :: rest => some (joinParts rest.reverse, name)

/- The directories that directly hold an indexed manifest. -/
def manifestDirs (index : List Path) : List Path :=
  index.filterMap fun path =>
    match splitLast path with
    | some (dir, name) =>
      if dir ≠ [] ∧ sourceManifests.any (·.toList == name)
      then some dir else none
    | none => none

def isProjectCoverageReport
    (path : Path) (manifests : List Path) :
    Bool :=
  match splitLast path with
  | none => false
  | some (dir, _) =>
    match splitLast dir with
    | some (project, name) =>
      name == "coverage".toList &&
        (project.isEmpty || manifests.contains project)
    | none => dir == "coverage".toList

def isGenericSegment (part : Path) : Bool :=
  genericOutputSegments.any (·.toList == part)

/- The root of build output, when the path is some. -/
def buildArtifactMatch
    (path : Path) (source : Source) (manifests : List Path) :
    Option (Option Path) :=
  if hasComponent path "target" then
    if source = .ignoredPresent then none
    else some (prefixThrough path fun part _ => part == "target".toList)
  else if path == "index.scip".toList ||
      endsWith path "/index.scip" then
    some (some path)
  else if path == ".next".toList || startsWith path ".next/" ||
      contains path "/.next/" then
    some (prefixThrough path fun part _ => part == ".next".toList)
  else
    match prefixThrough path fun part through =>
        isGenericSegment part && !manifests.contains through
    with
    | none => none
    | some segmentRoot =>
      let fileName := ((components path).getLast?).getD path
      if coverageReportFiles.any (·.toList == fileName) &&
          (source.isOutsideIndex ||
            isProjectCoverageReport path manifests) then
        some (some path)
      else if source.isOutsideIndex then
        some (some segmentRoot)
      else some none

-- Rules

def launcherOwnedRuntimeFiles : List String :=
  [".claude/runtime/launcher_context.json", ".claude/runtime/sessions.jsonl"]

def isClaudeRuntimePath (path : Path) : Bool :=
  path == ".claude/runtime".toList || startsWith path ".claude/runtime/"

def isWorkflowSessionArtifactPath (path : Path) : Bool :=
  path == "recipe-runner.log".toList ||
    path == "plan.md".toList ||
    path == ".copilot/session-state".toList ||
    startsWith path ".copilot/session-state/" ||
    path == ".amplihack/session-state".toList ||
    startsWith path ".amplihack/session-state/"

def sessionRoot (path : Path) : Path :=
  let dirs :=
    [".copilot/session-state", ".amplihack/session-state"]
  ((dirs.find? (startsWith path)).map String.toList).getD path

/- The bundle's parent directory, or the file itself. -/
def pluginRoot (path : Path) : Path :=
  if endsWith path "/plugin.js" then
    path.take (path.length - "/plugin.js".length)
  else path

/- The rule a path violates, with its removal root. -/
def ruleForPath
    (path : Path) (source : Source) (manifests : List Path) :
    Option (RuleId × Option Path) :=
  if launcherOwnedRuntimeFiles.any (·.toList == path) then none
  else if isClaudeRuntimePath path && source.isOutsideIndex
  then none
  else if hasComponent path "node_modules" then
    some (.nodeModules,
      prefixThrough path fun part _ =>
        part == "node_modules".toList)
  else if path == "dist/plugin.js".toList ||
      endsWith path "/dist/plugin.js" then
    some (.pluginBundle, some (pluginRoot path))
  else if isClaudeRuntimePath path then
    some (.claudeRuntime, some ".claude/runtime".toList)
  else if path == "worktrees".toList ||
      startsWith path "worktrees/" then
    some (.nestedWorktree, some "worktrees".toList)
  else if isWorkflowSessionArtifactPath path then
    some (.workflowSessionArtifact, some (sessionRoot path))
  else if isCachePath path then
    some (.cacheArtifact, cacheRoot path)
  else
    (buildArtifactMatch path source manifests).map fun root =>
      (.buildArtifact, root)

/- The rules of paths know nothing of gitlinks. -/
theorem ruleForPath_ne_gitlink
    {path : Path} {source : Source} {manifests : List Path}
    {ruleId : RuleId} {root : Option Path}
    (hRule : ruleForPath path source manifests = some (ruleId, root)) :
    ruleId ≠ .runWorktreeGitlink := by
  rintro rfl
  unfold ruleForPath at hRule
  repeat' split at hRule
  all_goals simp at hRule

end Artifact

-- Modes And Violations

namespace Artifact

open Base

inductive Mode where
| all
| staged
| worktree
| preCommit
| prePublish
deriving DecidableEq

def Mode.scansStaged : Mode → Bool
| .worktree => false
| _ => true

def Mode.scansWorktree : Mode → Bool
| .staged => false
| _ => true

def Mode.scansIgnoredPresent : Mode → Bool
| .all => true
| .worktree => true
| _ => false

def Mode.isGate : Mode → Bool
| .preCommit => true
| .prePublish => true
| _ => false

inductive PreExistingPolicy where
| report
| block
deriving DecidableEq

inductive Provenance where
| introduced
| preExisting
deriving DecidableEq

structure Violation where
  path : Path
  source : Source
  ruleId : RuleId
  provenance : Provenance
  removalRoot : Option Path

-- The Lists

/- What the scan reads from git and from the disk. -/
structure ScanInput where
  mode : Mode
  preExistingPolicy : PreExistingPolicy
  allowlist : List Path
  /- worktrees registered inside the repository -/
  registeredWorktrees : List Path
  index : List Path
  /- index entries that are gitlinks -/
  indexGitlinks : List Path
  /- added or changed in the index -/
  staged : List Path
  /- changed in the index in any way -/
  stagedChanges : List Path
  untracked : List Path
  ignored : List Path
  /- every file outside the index, ignored ones too -/
  others : List Path
  isDir : Path → Bool
  /- changed since the baseline -/
  introduced : List Path

def trimSlashes (path : Path) : Path :=
  (path.reverse.dropWhile (· == '/')).reverse

def normalizeSlashes (path : Path) : Path :=
  path.map fun c => if c = '\\' then '/' else c

def cleanPath (rawPath : Path) : Path :=
  normalizeSlashes (trimSlashes rawPath)

def manifests (i : ScanInput) : List Path :=
  manifestDirs i.index

def registeredNestedWorktreePrefixes
    (registered : List Path) :
    List Path :=
  (registered.filter (startsWith · "worktrees/")).map (· ++ ['/'])

def isInsideRegisteredNestedWorktree
    (rawPath : Path) (registered : List Path) :
    Bool :=
  registered.any fun dir =>
    cleanPath rawPath == trimSlashes dir || dir.isPrefixOf (cleanPath rawPath)

def listedPaths (i : ScanInput) : Source → List Path
| .staged => if i.mode.scansStaged then i.staged else []
| .tracked => if i.mode.scansWorktree then i.index else []
| .untracked =>
  if i.mode.scansWorktree then i.untracked else []
| .ignoredPresent =>
  if i.mode.scansWorktree && i.mode.scansIgnoredPresent then
    i.ignored.filter fun path =>
      !(isInsideRegisteredNestedWorktree path
        (registeredNestedWorktreePrefixes i.registeredWorktrees))
  else []

def listings (i : ScanInput) : List (Source × Path) :=
  [.staged, .tracked, .untracked, .ignoredPresent].flatMap
    fun source => (listedPaths i source).map (source, ·)

-- Violations

/- Only the tracked scan knows what the change introduced. -/
def provenanceFor
    (i : ScanInput) (path : Path) :
    Source → Provenance
| .tracked =>
  if i.introduced.contains path then .introduced
  else .preExisting
| _ => .introduced

def violationAt
    (i : ScanInput) (source : Source) (path : Path) :
    Option Violation :=
  if path.isEmpty || isAllowed i.allowlist path then none
  else
    (ruleForPath path source (manifests i)).map
      fun (ruleId, root) =>
        { path
          source
          ruleId
          provenance := provenanceFor i path source
          removalRoot := root.filter (isRemovalRootOf · path) }

def addViolationIfProhibited
    (i : ScanInput) (violations : List Violation) (listing : Source × Path) :
    List Violation :=
  match violationAt i listing.1 (cleanPath listing.2) with
  | none => violations
  | some v =>
    if violations.any fun w =>
        w.source == v.source && w.path == v.path then
      violations
    else violations ++ [v]

def scanned (i : ScanInput) : List Violation :=
  (listings i).foldl (addViolationIfProhibited i) []

def Listed
    (i : ScanInput) (source : Source) (path : Path) :
    Prop :=
  ∃ rawPath ∈ listedPaths i source, cleanPath rawPath = path

variable {i : ScanInput} {source : Source}

theorem mem_listings
    {rawPath : Path} :
    (source, rawPath) ∈ listings i ↔ rawPath ∈ listedPaths i source := by
  cases source <;> simp [listings]

variable {v : Violation}

theorem eq_of_violationAt
    {path : Path} (hAt : violationAt i source path = some v) :
    v.source = source ∧ v.path = path := by
  unfold violationAt at hAt
  split at hAt
  · cases hAt
  · simp only [Option.map_eq_some_iff] at hAt
    obtain ⟨-, -, rfl⟩ := hAt
    exact ⟨rfl, rfl⟩

/- The list holds exactly the violations of its listings. -/
theorem mem_foldl_addViolation
    (listed : List (Source × Path)) (violations : List Violation)
    (hOwn : ∀ w ∈ violations, violationAt i w.source w.path = some w) :
    v ∈ listed.foldl (addViolationIfProhibited i) violations ↔
      v ∈ violations ∨
        ∃ listing ∈ listed,
          violationAt i listing.1 (cleanPath listing.2) = some v := by
  induction listed generalizing violations with
  | nil => simp
  | cons listing rest hRest =>
    rw [List.foldl_cons, addViolationIfProhibited]
    cases hAt : violationAt i listing.1
        (cleanPath listing.2) with
    | none =>
      simp only
      rw [hRest _ hOwn]
      simp [hAt]
    | some w =>
      obtain ⟨hSource, hPath⟩ := eq_of_violationAt hAt
      have hSelf : violationAt i w.source w.path = some w := by
        rw [hSource, hPath, hAt]
      simp only
      split
      next hSeen =>
        rw [hRest _ hOwn]
        -- the violation already there is the same one
        have hMem : w ∈ violations := by
          simp only [List.any_eq_true, Bool.and_eq_true, beq_iff_eq] at hSeen
          obtain ⟨u, hU, hUSource, hUPath⟩ := hSeen
          have hSame := hOwn u hU
          rw [hUSource, hUPath, hSelf] at hSame
          cases hSame
          exact hU
        simp only [List.mem_cons, exists_eq_or_imp, hAt, Option.some.injEq]
        constructor
        · rintro (hIn | hIn)
          · exact Or.inl hIn
          · exact Or.inr (Or.inr hIn)
        · rintro (hIn | rfl | hIn)
          · exact Or.inl hIn
          · exact Or.inl hMem
          · exact Or.inr hIn
      next =>
        rw [hRest]
        · simp only [List.mem_append, List.not_mem_nil, or_false,
            List.mem_cons, exists_eq_or_imp, hAt, Option.some.injEq, or_assoc]
          rw [eq_comm (a := v) (b := w)]
        · intro u hU
          rcases List.mem_append.mp hU with hU | hU
          · exact hOwn u hU
          · rw [List.mem_singleton.mp hU]
            exact hSelf

theorem mem_scanned
    {v : Violation} :
    v ∈ scanned i ↔
      Listed i v.source v.path ∧ violationAt i v.source v.path = some v := by
  unfold scanned
  rw [mem_foldl_addViolation _ _ (by simp)]
  simp only [List.not_mem_nil, false_or, Prod.exists, mem_listings]
  constructor
  · rintro ⟨source, rawPath, hRaw, hAt⟩
    obtain ⟨rfl, hPath⟩ := eq_of_violationAt hAt
    rw [hPath]
    exact ⟨⟨rawPath, hRaw, rfl⟩, hAt⟩
  · rintro ⟨⟨rawPath, hRaw, hClean⟩, hAt⟩
    refine ⟨v.source, rawPath, hRaw, ?_⟩
    rw [hClean]
    exact hAt

-- Protected Paths

def allowedOutsideIndex (i : ScanInput) : List Path :=
  ((listings i).filter fun listing =>
    listing.1 != .tracked && isAllowed i.allowlist listing.2).map Prod.snd

/- Allowlisted, matched by no rule, or with no root. -/
def isProtectedIndexPath (i : ScanInput) (path : Path) : Bool :=
  isAllowed i.allowlist path ||
    match ruleForPath path .tracked (manifests i) with
    | none => true
    | some (_, root) => root.isNone

def protectedIndexPaths (i : ScanInput) : List Path :=
  i.index.filter (isProtectedIndexPath i)

def dirRoots (i : ScanInput) : List Path :=
  (scanned i).filterMap fun v =>
    v.removalRoot.filter (· != v.path)

/- The files outside the index that lie under some root. -/
def othersUnderRoots (i : ScanInput) : List Path :=
  i.others.filter fun path =>
    (dirRoots i).any (isWithin path)

def protectedPaths (i : ScanInput) : List Path :=
  protectedIndexPaths i ++ allowedOutsideIndex i ++
    i.registeredWorktrees ++
    (othersUnderRoots i).filter fun path =>
      isAllowed i.allowlist path || i.isDir path

/- A directory root over a protected path is the path. -/
def narrowRoot
    (paths : List Path) (v : Violation) :
    Violation :=
  match v.removalRoot with
  | none => v
  | some root =>
    if root = v.path then v
    else if paths.any ((root ++ ['/']).isPrefixOf ·) then
      { v with removalRoot := some v.path }
    else v

def narrowRootsHoldingProtectedPaths
    (violations : List Violation) (paths : List Path) :
    List Violation :=
  violations.map (narrowRoot paths)

/- Narrowing changes the root only. -/
theorem narrowRoot_cases
    (paths : List Path) (v : Violation) :
    narrowRoot paths v = v ∨
      narrowRoot paths v = { v with removalRoot := some v.path } := by
  unfold narrowRoot
  split
  · exact Or.inl rfl
  · split
    · exact Or.inl rfl
    · split
      · exact Or.inr rfl
      · exact Or.inl rfl

@[simp] theorem narrowRoot_path
    (paths : List Path) (v : Violation) :
    (narrowRoot paths v).path = v.path := by
  rcases narrowRoot_cases paths v with hSame | hPath
  · rw [hSame]
  · rw [hPath]

@[simp] theorem narrowRoot_source
    (paths : List Path) (v : Violation) :
    (narrowRoot paths v).source = v.source := by
  rcases narrowRoot_cases paths v with hSame | hPath
  · rw [hSame]
  · rw [hPath]

@[simp] theorem narrowRoot_ruleId
    (paths : List Path) (v : Violation) :
    (narrowRoot paths v).ruleId = v.ruleId := by
  rcases narrowRoot_cases paths v with hSame | hPath
  · rw [hSame]
  · rw [hPath]

@[simp] theorem narrowRoot_provenance
    (paths : List Path) (v : Violation) :
    (narrowRoot paths v).provenance = v.provenance := by
  rcases narrowRoot_cases paths v with hSame | hPath
  · rw [hSame]
  · rw [hPath]

variable {paths : List Path} {root : Path}

/- A narrowed root is the path, or holds nothing protected. -/
theorem narrowRoot_removalRoot
    (hRoot : (narrowRoot paths v).removalRoot = some root) :
    (∃ own, v.removalRoot = some own) ∧
      (root = v.path ∨
        v.removalRoot = some root ∧ root ≠ v.path ∧
          ∀ path ∈ paths, ¬Below '/' path root) := by
  unfold narrowRoot at hRoot
  split at hRoot
  next hNone =>
    rw [hNone] at hRoot
    cases hRoot
  next own hOwn =>
    refine ⟨⟨own, hOwn⟩, ?_⟩
    split at hRoot
    next hSame =>
      rw [hOwn] at hRoot
      cases hRoot
      exact Or.inl hSame
    next hOther =>
      split at hRoot
      · cases hRoot
        exact Or.inl rfl
      next hFree =>
        rw [hOwn] at hRoot
        cases hRoot
        refine Or.inr ⟨hOwn, hOther, ?_⟩
        intro path hPath hBelow
        apply hFree
        rw [List.any_eq_true]
        exact ⟨path, hPath, List.isPrefixOf_iff_prefix.mpr hBelow⟩

theorem mem_dirRoots
    (hMem : v ∈ scanned i) (hRoot : v.removalRoot = some root)
    (hOther : root ≠ v.path) :
    root ∈ dirRoots i := by
  refine List.mem_filterMap.mpr ⟨v, hMem, ?_⟩
  simp [hRoot, hOther]

/- Without directory roots there is nothing to narrow. -/
theorem narrowRoot_eq_self
    (hNone : dirRoots i = []) (hMem : v ∈ scanned i) :
    narrowRoot paths v = v := by
  unfold narrowRoot
  split
  · rfl
  next root hRoot =>
    split
    · rfl
    next hOther =>
      have hIn := mem_dirRoots hMem hRoot hOther
      rw [hNone] at hIn
      cases hIn

-- Gitlinks

def isRunWorktreeGitlink
    (path : Path) (registered : List Path) :
    Bool :=
  isInReservedWorktreesDir path || registered.any (isAtOrUnder path)

def runGitlinks (i : ScanInput) : List Path :=
  i.indexGitlinks.filter (isRunWorktreeGitlink · i.registeredWorktrees)

def gitlinkViolation (i : ScanInput) (path : Path) : Violation :=
  { path
    source :=
      if i.stagedChanges.contains path then .staged
      else .tracked
    ruleId := .runWorktreeGitlink
    provenance := .introduced
    removalRoot := none }

/- A gitlink claims its path and everything under it. -/
def addRunWorktreeGitlinks
    (i : ScanInput) (violations : List Violation) :
    List Violation :=
  (runGitlinks i).map (gitlinkViolation i) ++
    violations.filter fun v =>
      !((runGitlinks i).any (isAtOrUnder v.path))

-- The Report

structure Report where
  mode : Mode
  violations : List Violation
  preExistingPolicy : PreExistingPolicy
  registeredWorktrees : List Path

def scanArtifacts (i : ScanInput) : Report :=
  { mode := i.mode
    violations :=
      addRunWorktreeGitlinks i
        (if (dirRoots i).isEmpty then scanned i
        else
          narrowRootsHoldingProtectedPaths (scanned i) (protectedPaths i))
    preExistingPolicy := i.preExistingPolicy
    registeredWorktrees := i.registeredWorktrees }

/- The violations of the report, gitlinks apart. -/
theorem mem_scanArtifacts
    {v : Violation} :
    v ∈ (scanArtifacts i).violations ↔
      (∃ g ∈ runGitlinks i, gitlinkViolation i g = v) ∨
        ∃ w ∈ scanned i,
          narrowRoot (protectedPaths i) w = v ∧
            ∀ g ∈ runGitlinks i, ¬Within '/' w.path g := by
  have hNarrowed : (if (dirRoots i).isEmpty then scanned i
      else narrowRootsHoldingProtectedPaths (scanned i) (protectedPaths i)) =
      (scanned i).map (narrowRoot (protectedPaths i)) := by
    split
    next hEmpty =>
      have hNone := List.isEmpty_iff.mp hEmpty
      refine (List.map_id _).symm.trans ?_
      apply List.map_congr_left
      intro w hW
      exact (narrowRoot_eq_self hNone hW).symm
    · rfl
  unfold scanArtifacts addRunWorktreeGitlinks
  simp only [hNarrowed, List.mem_append, List.mem_map, List.mem_filter,
    Bool.not_eq_true', List.any_eq_false, isAtOrUnder_iff]
  apply or_congr_right
  constructor
  · rintro ⟨⟨w, hW, rfl⟩, hFree⟩
    exact ⟨w, hW, rfl, by simpa using hFree⟩
  · rintro ⟨w, hW, rfl, hFree⟩
    exact ⟨⟨w, hW, rfl⟩, by simpa using hFree⟩

def Report.preExistingIsAdvisory (report : Report) : Bool :=
  report.mode.isGate && report.preExistingPolicy == .report

def Report.blockingViolations (report : Report) : List Violation :=
  report.violations.filter fun v =>
    v.ruleId == .runWorktreeGitlink ||
      !(report.preExistingIsAdvisory && v.provenance == .preExisting)

def Report.advisoryViolations (report : Report) : List Violation :=
  if report.preExistingIsAdvisory then
    report.violations.filter fun v =>
      v.ruleId != .runWorktreeGitlink && v.provenance == .preExisting
  else []

end Artifact
