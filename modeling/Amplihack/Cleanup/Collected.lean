import Amplihack.Cleanup.Eligibility

/-
  Collection: the items of the runs, with the operation that
  apply may perform on each.

  Apply: the checks are made again, and the folder seen at
  collection is removed.

  Where the items that may be removed come from.
-/

-- Items

namespace Cleanup

inductive Op where
| skip
| removeRunTmp (runDir : Path)
| removeWorktree (main : Path) (runDir : Path)
| removeDir (runDir : Option Path) (cargoLock : Bool)
deriving DecidableEq

structure Item where
  category : Category
  path : Path
  canonical : Path
  runId : Option String
  op : Op
deriving DecidableEq

def Item.skip
    (category : Category) (path : Path) (id : String) :
    Item :=
  ⟨category, path, path, some id, .skip⟩

-- Managed Folders

structure ManagedRoots where
  worktrees : Path
  targets : Path
  runs : Path
  shortRuntime : Path
  hookBase : Option Path
  tmp : Path

def managedRoots (w : World) (s : Settings) : ManagedRoots :=
  { worktrees := w.canonicalOrSelf s.worktreesDir
    targets := w.canonicalOrSelf s.targetsDir
    runs := w.canonicalOrSelf s.runsDir
    shortRuntime := w.canonicalOrSelf s.shortRuntimeDir
    hookBase := s.hookCacheBase.map w.canonicalOrSelf
    tmp := w.canonicalOrSelf w.tempDir }

def hookTargetPrefix : String := "amplihack-precommit-target-"

def tmpPrefixes : List String :=
  ["replay-", "release-", "amplihack-workflow-"]

def hasPrefix (path : Path) (prefixes : List String) : Bool :=
  match path.fileName with
  | none => false
  | some name =>
    prefixes.any fun p => p.toList.isPrefixOf name.toList

/- The path lies at least `depth` folders below the root. -/
def isBelow (path root : Path) (depth : ℕ) : Bool :=
  match root.isPrefixOf? path with
  | none => false
  | some rest => depth ≤ rest.length

def isContained
    (kind : OwnedKind) (path : Path) (roots : ManagedRoots)
    (main : Option Path) :
    Bool :=
  match kind with
  | .target =>
    path.parent == some roots.targets ||
      (path.parent.isSome && path.parent == roots.hookBase &&
        hasPrefix path [hookTargetPrefix])
  | .worktree =>
    isBelow path roots.worktrees 2 ||
      match main with
      | none => false
      | some main => isBelow path (main.join "worktrees") 1

-- Owned Paths That May Go

/- The main checkout of a repository that is not bare. -/
def mainCheckout (commonDir : Path) : Option Path :=
  if commonDir.fileName = some ".git" then commonDir.parent
  else none

/- An owned path that passed the checks. -/
structure Candidate where
  owned : OwnedPath
  canonical : Path
  main : Option Path

/- No link, a folder, contained, and a linked worktree. -/
def checkOwned
    (w : World) (s : Settings) (o : OwnedPath) :
    Option Candidate :=
  if w.kind o.path = some .dir then do
    let canonical ← w.canonicalize o.path
    match o.kind with
    | .target =>
      if isContained o.kind canonical (managedRoots w s) none
      then some ⟨o, canonical, none⟩
      else none
    | .worktree =>
      let common ← w.gitCommonDir canonical
      let main ← mainCheckout common
      if isContained o.kind canonical (managedRoots w s)
          (some main) then
        let list ← w.worktreeList main
        if list.head? = some canonical then none
        else if canonical ∈ list.tail then
          some ⟨o, canonical, some main⟩
        else none
      else none
  else none

/- The entry's path is the folder, or resolves to it. -/
def names (w : World) (o : OwnedPath) (folder : Path) : Bool :=
  o.path == folder || w.canonicalOrSelf o.path == folder

/- A run that is known to have let its paths go. -/
def hasLetGo (w : World) (run : RunInfo) : Bool :=
  match run.report with
  | none => false
  | some report => !(runIsActive w report)

/- Some other run records the folder and may still use it. -/
def otherLiveOwner
    (w : World) (runs : List RunInfo) (folder : Path) (except_ : String) :
    Bool :=
  ((runs.filter fun run => run.id != except_).filter fun run =>
    run.owned.any (names w · folder)).any fun run =>
      !(hasLetGo w run)

/- None when the candidate is kept. -/
def checkCandidate
    (w : World) (s : Settings) (runs : List RunInfo)
    (id : String) (o : OwnedPath) :
    Option Candidate :=
  (checkOwned w s o).filter fun c =>
    !(otherLiveOwner w runs c.canonical id)

-- The Verdict For A Worktree

def noPr
    (w : World) (s : Settings) (report : RunReport) (run : RunInfo) :
    Verdict :=
  noPrVerdict (report.endedAt.bind w.parseRfc3339)
    run.runJsonMtime w.now s.keep

def branchVerdict
    (w : World) (s : Settings) (report : RunReport)
    (run : RunInfo) (folder : Path) (branch : String) :
    Verdict :=
  match lookupPr w branch folder with
  | none => .skip
  | some none => noPr w s report run
  | some (some pr) => prVerdict pr w.utcNow s.keep

/- By the recorded branch, else by the one checked out. -/
def worktreeVerdict
    (w : World) (s : Settings) (report : RunReport)
    (run : RunInfo) (c : Candidate) :
    Verdict :=
  match c.owned.branch with
  | some branch =>
    branchVerdict w s report run c.canonical branch
  | none =>
    match checkedOutBranch w c.canonical with
    | none => .skip
    | some none => noPr w s report run
    | some (some branch) =>
      branchVerdict w s report run c.canonical branch

-- The Items Of A Run

def shortId (id : String) : String :=
  let hex := id.toList.filter fun c =>
    c.isDigit || ('a' ≤ c && c ≤ 'f') || ('A' ≤ c && c ≤ 'F')
  String.ofList (hex.take 12)

def runSchemaVersion : ℕ := 1

/- The report, when this release understands it. -/
def knownReport (run : RunInfo) : Option RunReport :=
  run.report.filter fun report =>
    report.schemaVersion ≤ runSchemaVersion

/- The first entry of each path. -/
def distinctPaths : List OwnedPath → List OwnedPath
| [] => []
| o :: rest =>
  o :: (distinctPaths rest).filter fun p => p.path != o.path

/- The entries whose path is there, one of each path. -/
def existing (w : World) (run : RunInfo) : List OwnedPath :=
  distinctPaths (run.owned.filter fun o =>
    (w.kind o.path).isSome)

def runtimeDirs (s : Settings) (run : RunInfo) : List Path :=
  [run.dir.join "runtime", s.shortRuntimeDir.join (shortId run.id)]

def categoryOf (o : OwnedPath) : Category :=
  match o.kind with
  | .worktree => .runWorktree
  | .target => .runTarget

def runTmpItem
    (w : World) (run : RunInfo) (active : Bool) (dir : Path) :
    Item :=
  if active || w.inUse dir then .skip .runTmp dir run.id
  else
    ⟨.runTmp, dir, w.canonicalOrSelf dir, some run.id, .removeRunTmp run.dir⟩

def runTmpItems
    (w : World) (s : Settings) (run : RunInfo) (active : Bool) :
    List Item :=
  if s.wants .runTmp then
    ((runtimeDirs s run).filter w.isRealDir).map (runTmpItem w run active)
  else []

def worktreeItem
    (w : World) (run : RunInfo) (c : Candidate) :
    Item :=
  match c.main with
  | none => .skip .runWorktree c.owned.path run.id
  | some main =>
    if w.gitHasDirtyState c.canonical ||
        w.hasUnpushed c.canonical || w.inUse c.canonical then
      .skip .runWorktree c.owned.path run.id
    else
      ⟨.runWorktree, c.owned.path, c.canonical, some run.id,
        .removeWorktree main run.dir⟩

/- Each worktree by its own verdict. -/
def worktreeItems
    (w : World) (s : Settings) (report : RunReport)
    (run : RunInfo) (worktrees : List Candidate) :
    List Item :=
  if s.wants .runWorktree then
    worktrees.map fun c =>
      match worktreeVerdict w s report run c with
      | .eligible => worktreeItem w run c
      | .skip => .skip .runWorktree c.owned.path run.id
  else []

/- The targets go when every worktree may go. -/
def targetVerdict
    (w : World) (s : Settings) (report : RunReport)
    (run : RunInfo) (unknownWorktree : Bool) (worktrees : List Candidate) :
    Verdict :=
  if unknownWorktree then .skip
  else
    match worktrees.map (worktreeVerdict w s report run) with
    | [] => noPr w s report run
    | verdicts =>
      if verdicts.any (· != .eligible) then .skip
      else .eligible

def targetItem
    (w : World) (run : RunInfo) (verdict : Verdict) (c : Candidate) :
    Item :=
  if verdict != .eligible || w.cargoLockHeld c.canonical then
    .skip .runTarget c.owned.path run.id
  else
    ⟨.runTarget, c.owned.path, c.canonical, some run.id,
      .removeDir (some run.dir) true⟩

def targetItems
    (w : World) (s : Settings) (run : RunInfo)
    (verdict : Verdict) (targets : List Candidate) :
    List Item :=
  if s.wants .runTarget then
    targets.map (targetItem w run verdict)
  else []

/- Wanted entries that are kept without a further check. -/
def keptItems
    (s : Settings) (run : RunInfo) (entries : List OwnedPath) :
    List Item :=
  (entries.filter fun o => s.wants (categoryOf o)).map fun o =>
    .skip (categoryOf o) o.path run.id

def checkedItems
    (w : World) (s : Settings) (runs : List RunInfo)
    (run : RunInfo) (report : RunReport) :
    List Item :=
  let entries := existing w run
  let check := checkCandidate w s runs run.id
  let candidates := entries.filterMap check
  let refused := entries.filter fun o => (check o).isNone
  let worktrees := candidates.filter fun c =>
    c.owned.kind = .worktree
  let targets := candidates.filter fun c =>
    c.owned.kind = .target
  let unknownWorktree := refused.any fun o =>
    o.kind = .worktree
  keptItems s run refused ++ worktreeItems w s report run worktrees ++
    targetItems w s run
      (targetVerdict w s report run unknownWorktree worktrees)
      targets

def unreadableItems (s : Settings) (run : RunInfo) : List Item :=
  if run.ownedPaths.isNone &&
      (s.wants .runWorktree || s.wants .runTarget) then
    let category :=
      if s.wants .runWorktree then .runWorktree else .runTarget
    [.skip category (run.dir.join "owned-paths") run.id]
  else []

def collectRun
    (w : World) (s : Settings) (runs : List RunInfo) (run : RunInfo) :
    List Item :=
  unreadableItems s run ++
    match knownReport run with
    | none => keptItems s run (existing w run)
    | some report =>
      let active := runIsActive w report
      runTmpItems w s run active ++
        if active then keptItems s run (existing w run)
        else checkedItems w s runs run report

/- Up to the run at which the deadline is past. -/
def collectRuns
    (w : World) (s : Settings) (runs : List RunInfo) :
    List Item :=
  (runs.takeWhile fun run => !(w.pastDeadline run.id)).flatMap
    (collectRun w s runs)

end Cleanup

-- The Checks

namespace Cleanup

def isManaged (item : Item) (roots : ManagedRoots) : Bool :=
  match item.op with
  | .skip => true
  | .removeRunTmp _ =>
    match item.runId with
    | none => false
    | some id =>
      item.canonical ==
          (roots.runs.join id).join "runtime" ||
        item.canonical == roots.shortRuntime.join (shortId id)
  | .removeWorktree main _ =>
    isContained .worktree item.canonical roots (some main)
  | .removeDir _ _ =>
    if item.category = .tmpLeftover then
      item.canonical.parent == some roots.tmp &&
        hasPrefix item.canonical tmpPrefixes
    else isContained .target item.canonical roots none

/- The run's report can be read and says it is not active. -/
def runStillInactive (w : World) (runDir : Path) : Bool :=
  match w.runReport runDir with
  | none => false
  | some report => !(runIsActive w report)

/- The runs cannot be listed, or another one may use it. -/
def refusesOtherOwner
    (w : World) (s : Settings) (item : Item) :
    Bool :=
  match scanRuns w s with
  | none => true
  | some runs =>
    otherLiveOwner w runs item.canonical (item.runId.getD "")

-- Removal

def mayRemoveRunTmp
    (w : World) (folder runDir : Path) :
    Bool :=
  runStillInactive w runDir && !(w.inUse folder) && w.isRealDir folder

def mayRemoveDir
    (w : World) (s : Settings) (item : Item)
    (runDir : Option Path) (cargoLock : Bool) :
    Bool :=
  (match runDir with
    | none => true
    | some dir =>
      runStillInactive w dir && !(refusesOtherOwner w s item))
    && !(cargoLock && w.cargoLockHeld item.canonical) &&
    !(item.category == .tmpLeftover && w.hasLivePidMarker item.canonical) &&
    !(w.inUse item.canonical) && w.isRealDir item.canonical

def mayRemoveWorktree
    (w : World) (s : Settings) (item : Item) (main runDir : Path) :
    Bool :=
  runStillInactive w runDir && !(refusesOtherOwner w s item) &&
    w.isRealDir item.canonical &&
    (w.gitCommonDir item.canonical).bind mainCheckout == some main &&
    !(w.gitHasDirtyState item.canonical) &&
    !(w.hasUnpushed item.canonical) &&
    !(w.inUse item.canonical)

/- The folder that is removed, if any. -/
def execute
    (w : World) (s : Settings) (roots : ManagedRoots) (item : Item) :
    Option Path :=
  if w.canonicalize item.path = some item.canonical ∧
      isManaged item roots then
    match item.op with
    | .skip => none
    | .removeRunTmp runDir =>
      if mayRemoveRunTmp w item.canonical runDir then
        some item.canonical
      else none
    | .removeDir runDir cargoLock =>
      if mayRemoveDir w s item runDir cargoLock then
        some item.canonical
      else none
    | .removeWorktree main runDir =>
      if mayRemoveWorktree w s item main runDir then
        some item.canonical
      else none
  else none

end Cleanup

-- Candidates

namespace Cleanup

variable {w : World}
variable {s : Settings}
variable {runs : List RunInfo}
variable {run : RunInfo}
variable {item : Item}

/- The candidate comes from an entry that passed its check. -/
structure CandidateOf
    (w : World) (s : Settings) (runs : List RunInfo)
    (run : RunInfo) (c : Candidate) :
    Prop where
  mem : c.owned ∈ existing w run
  checked : checkCandidate w s runs run.id c.owned = some c

variable {o : OwnedPath} {c : Candidate}

theorem owned_eq_of_checkOwned
    (hCheck : checkOwned w s o = some c) :
    c.owned = o := by
  unfold checkOwned at hCheck
  split at hCheck
  · obtain ⟨canonical, -, hKind⟩ :=
      Option.bind_eq_some_iff.mp hCheck
    cases hO : o.kind with
    | target =>
      simp only [hO] at hKind
      split at hKind
      · cases hKind
        rfl
      · cases hKind
    | worktree =>
      simp only [hO] at hKind
      obtain ⟨common, -, hMain⟩ :=
        Option.bind_eq_some_iff.mp hKind
      obtain ⟨main, -, hIn⟩ :=
        Option.bind_eq_some_iff.mp hMain
      split at hIn
      · obtain ⟨list, -, hList⟩ :=
          Option.bind_eq_some_iff.mp hIn
        split at hList
        · cases hList
        · split at hList
          · cases hList
            rfl
          · cases hList
      · cases hIn
  · cases hCheck

theorem owned_eq_of_checkCandidate
    {id : String} (hCheck : checkCandidate w s runs id o = some c) :
    c.owned = o := by
  obtain ⟨hOwned, -⟩ := Option.filter_eq_some_iff.mp hCheck
  exact owned_eq_of_checkOwned hOwned

theorem candidateOf_of_mem
    (hMem : c ∈ (existing w run).filterMap (checkCandidate w s runs run.id)) :
    CandidateOf w s runs run c := by
  obtain ⟨o, hO, hCheck⟩ := List.mem_filterMap.mp hMem
  have hSame := owned_eq_of_checkCandidate hCheck
  rw [← hSame] at hO hCheck
  exact ⟨hO, hCheck⟩

/- A worktree candidate is linked to its main checkout. -/
theorem linked_of_checkOwned
    (hCheck : checkOwned w s o = some c) (hKind : o.kind = .worktree) :
    ∃ main list,
      c.main = some main ∧
        (w.gitCommonDir c.canonical).bind mainCheckout = some main ∧
        w.worktreeList main = some list ∧
        list.head? ≠ some c.canonical ∧
        c.canonical ∈ list.tail := by
  unfold checkOwned at hCheck
  split at hCheck
  · obtain ⟨canonical, -, hWorktree⟩ :=
      Option.bind_eq_some_iff.mp hCheck
    simp only [hKind] at hWorktree
    obtain ⟨common, hCommon, hRest⟩ :=
      Option.bind_eq_some_iff.mp hWorktree
    obtain ⟨main, hMain, hIn⟩ :=
      Option.bind_eq_some_iff.mp hRest
    split at hIn
    · obtain ⟨list, hList, hLinked⟩ :=
        Option.bind_eq_some_iff.mp hIn
      split at hLinked
      · cases hLinked
      next hHead =>
        split at hLinked
        next hTail =>
          cases hLinked
          refine ⟨main, list, rfl, ?_, hList, hHead, hTail⟩
          rw [hCommon]
          exact hMain
        · cases hLinked
    · cases hIn
  · cases hCheck

-- Items

/- What collection knew of an item that may be removed. -/
inductive Collected
    (w : World) (s : Settings) (runs : List RunInfo) (run : RunInfo) :
    Item → Prop
| runTmp (dir : Path) :
    Collected w s runs run
      ⟨.runTmp, dir, w.canonicalOrSelf dir, some run.id,
        .removeRunTmp run.dir⟩
| worktree
    (report : RunReport)
    (c : Candidate)
    (main : Path)
    (hReport : knownReport run = some report)
    (hCandidate : CandidateOf w s runs run c)
    (hKind : c.owned.kind = .worktree)
    (hMain : c.main = some main)
    (hVerdict : worktreeVerdict w s report run c = .eligible) :
    Collected w s runs run
      ⟨.runWorktree, c.owned.path, c.canonical, some run.id,
        .removeWorktree main run.dir⟩
| target
    (report : RunReport)
    (c : Candidate)
    (hReport : knownReport run = some report)
    (hWorktrees : ∀ o ∈ existing w run, o.kind = .worktree →
      ∃ d, checkCandidate w s runs run.id o = some d ∧
        worktreeVerdict w s report run d = .eligible) :
    Collected w s runs run
      ⟨.runTarget, c.owned.path, c.canonical, some run.id,
        .removeDir (some run.dir) true⟩

theorem op_of_mem_keptItems
    {entries : List OwnedPath} (hMem : item ∈ keptItems s run entries) :
    item.op = .skip := by
  obtain ⟨o, -, rfl⟩ := List.mem_map.mp hMem
  rfl

theorem op_of_mem_unreadableItems
    (hMem : item ∈ unreadableItems s run) :
    item.op = .skip := by
  unfold unreadableItems at hMem
  split at hMem
  · rw [List.mem_singleton.mp hMem]
    rfl
  · cases hMem

theorem collected_of_mem_runTmpItems
    {active : Bool} (hMem : item ∈ runTmpItems w s run active)
    (hOp : item.op ≠ .skip) :
    Collected w s runs run item := by
  unfold runTmpItems at hMem
  split at hMem
  · obtain ⟨dir, -, rfl⟩ := List.mem_map.mp hMem
    unfold runTmpItem at hOp ⊢
    split at hOp
    · exact absurd rfl hOp
    next hFree =>
      rw [if_neg hFree]
      exact .runTmp dir
  · cases hMem

variable {report : RunReport} {worktrees : List Candidate}

theorem collected_of_mem_worktreeItems
    (hReport : knownReport run = some report)
    (hWorktrees : ∀ c ∈ worktrees,
      CandidateOf w s runs run c ∧ c.owned.kind = .worktree)
    (hMem : item ∈ worktreeItems w s report run worktrees)
    (hOp : item.op ≠ .skip) :
    Collected w s runs run item := by
  unfold worktreeItems at hMem
  split at hMem
  · obtain ⟨c, hC, rfl⟩ := List.mem_map.mp hMem
    obtain ⟨hCandidate, hKind⟩ := hWorktrees c hC
    cases hVerdict : worktreeVerdict w s report run c with
    | skip =>
      simp only [hVerdict] at hOp
      exact absurd rfl hOp
    | eligible =>
      simp only [hVerdict] at hOp ⊢
      unfold worktreeItem at hOp ⊢
      cases hMain : c.main with
      | none =>
        simp only [hMain] at hOp
        exact absurd rfl hOp
      | some main =>
        simp only [hMain] at hOp ⊢
        split at hOp
        · exact absurd rfl hOp
        next hClean =>
          rw [if_neg hClean]
          exact .worktree report c main hReport
            hCandidate hKind hMain hVerdict
  · cases hMem

/- The targets may go when every known worktree may. -/
theorem eligible_of_targetVerdict
    {unknownWorktree : Bool}
    (hVerdict : targetVerdict w s report run unknownWorktree
      worktrees = .eligible) :
    unknownWorktree = false ∧
      ∀ c ∈ worktrees, worktreeVerdict w s report run c = .eligible := by
  unfold targetVerdict at hVerdict
  split at hVerdict
  · cases hVerdict
  next hKnown =>
    refine ⟨by simpa using hKnown, ?_⟩
    intro c hC
    cases hMap : worktrees.map
        (worktreeVerdict w s report run) with
    | nil =>
      rw [List.map_eq_nil_iff.mp hMap] at hC
      cases hC
    | cons first rest =>
      simp only [hMap] at hVerdict
      split at hVerdict
      · cases hVerdict
      next hAll =>
        have hIn : worktreeVerdict w s report run c ∈
            first :: rest := by
          rw [← hMap]
          exact List.mem_map_of_mem hC
        by_contra hSkip
        apply hAll
        rw [List.any_eq_true]
        exact ⟨_, hIn, by simpa using hSkip⟩

theorem collected_of_mem_targetItems
    {verdict : Verdict} {targets : List Candidate}
    (hReport : knownReport run = some report)
    (hWorktrees : verdict = .eligible →
      ∀ o ∈ existing w run, o.kind = .worktree →
        ∃ d, checkCandidate w s runs run.id o = some d ∧
          worktreeVerdict w s report run d = .eligible)
    (hMem : item ∈ targetItems w s run verdict targets)
    (hOp : item.op ≠ .skip) :
    Collected w s runs run item := by
  unfold targetItems at hMem
  split at hMem
  · obtain ⟨c, -, rfl⟩ := List.mem_map.mp hMem
    unfold targetItem at hOp ⊢
    split at hOp
    · exact absurd rfl hOp
    next hFree =>
      rw [if_neg hFree]
      have hEligible : verdict = .eligible := by
        by_contra hSkip
        apply hFree
        simp [hSkip]
      exact .target report c hReport (hWorktrees hEligible)
  · cases hMem

theorem collected_of_mem_checkedItems
    (hReport : knownReport run = some report)
    (hMem : item ∈ checkedItems w s runs run report) (hOp : item.op ≠ .skip) :
    Collected w s runs run item := by
  unfold checkedItems at hMem
  simp only [List.mem_append] at hMem
  rcases hMem with (hKept | hWorktree) | hTarget
  · exact absurd (op_of_mem_keptItems hKept) hOp
  · refine collected_of_mem_worktreeItems hReport ?_ hWorktree hOp
    intro c hC
    obtain ⟨hIn, hKind⟩ := List.mem_filter.mp hC
    exact ⟨candidateOf_of_mem hIn, by simpa using hKind⟩
  · refine collected_of_mem_targetItems hReport ?_ hTarget hOp
    intro hVerdict o hO hKind
    obtain ⟨hKnown, hEligible⟩ :=
      eligible_of_targetVerdict hVerdict
    cases hCheck : checkCandidate w s runs run.id o with
    | none =>
      -- an entry that fails its check keeps the targets
      have hRefused : o ∈ (existing w run).filter fun p =>
          (checkCandidate w s runs run.id p).isNone :=
        List.mem_filter.mpr ⟨hO, by simp [hCheck]⟩
      have hNone := List.any_eq_false.mp hKnown o hRefused
      simp [hKind] at hNone
    | some d =>
      refine ⟨d, rfl, hEligible d ?_⟩
      refine List.mem_filter.mpr ⟨List.mem_filterMap.mpr ⟨o, hO, hCheck⟩, ?_⟩
      rw [owned_eq_of_checkCandidate hCheck]
      simpa using hKind

theorem collected_of_mem_collectRun
    (hMem : item ∈ collectRun w s runs run) (hOp : item.op ≠ .skip) :
    Collected w s runs run item := by
  unfold collectRun at hMem
  rcases List.mem_append.mp hMem with hUnread | hRest
  · exact absurd (op_of_mem_unreadableItems hUnread) hOp
  · cases hReport : knownReport run with
    | none =>
      simp only [hReport] at hRest
      exact absurd (op_of_mem_keptItems hRest) hOp
    | some report =>
      simp only [hReport] at hRest
      rcases List.mem_append.mp hRest with hTmp | hOwned
      · exact collected_of_mem_runTmpItems hTmp hOp
      · split at hOwned
        · exact absurd (op_of_mem_keptItems hOwned) hOp
        · exact collected_of_mem_checkedItems hReport hOwned hOp

/- Each item that may be removed comes from some run. -/
theorem collected_of_mem
    (hMem : item ∈ collectRuns w s runs) (hOp : item.op ≠ .skip) :
    ∃ run ∈ runs, Collected w s runs run item := by
  obtain ⟨run, hRun, hItem⟩ := List.mem_flatMap.mp hMem
  exact ⟨run, (List.takeWhile_prefix _).subset hRun,
    collected_of_mem_collectRun hItem hOp⟩

end Cleanup
