import Amplihack.Cleanup.Collected

/-
  A run's item is removed when every owner has let it go.
-/

-- Owners

namespace Cleanup

/- Every line of the file, whether or not it is read. -/
def allOwnedPaths : OwnedFile → List OwnedPath
| .missing => []
| .unreadable bytes =>
  (bytes.splitOn 10).filterMap parseOwnedLine
| .readable bytes =>
  (bytes.splitOn 10).filterMap parseOwnedLine

/- The run's file names the folder. -/
def Records
    (w : World) (s : Settings) (id : String) (folder : Path) :
    Prop :=
  ∃ o ∈ allOwnedPaths (w.ownedFile (s.runsDir.join id)),
    names w o folder = true

/- The run's report can be read, and it is not active. -/
def LetGo (w : World) (s : Settings) (id : String) : Prop :=
  ∃ report, w.runReport (s.runsDir.join id) = some report ∧
    runIsActive w report = false

/- Another run whose file names the item's folder. -/
structure OtherOwner
    (w : World) (s : Settings) (item : Item) (id : String) :
    Prop where
  run : isRun w s id = true
  other : item.runId ≠ some id
  records : Records w s id item.canonical

/- Apply reads, for this item, an entry of the run that names
   the folder. -/
def Heard
    (w : World) (s : Settings) (item : Item) (id : String) :
    Prop :=
  item.category ≠ .runTmp ∧
    ∃ runs, scanRuns w s = some runs ∧
      ∃ run ∈ runs, run.id = id ∧
        ∃ o ∈ run.owned, names w o item.canonical = true

-- Safe Removals

/- Where the folder of a run's item may lie. -/
def InManagedRoots
    (w : World) (roots : ManagedRoots) (item : Item) :
    Prop :=
  match item.category with
  | .runTmp =>
    ∃ id, item.runId = some id ∧
      (item.canonical = roots.runs ++ [id, "runtime"] ∨
        item.canonical = roots.shortRuntime ++ [shortId id])
  | .runWorktree =>
    (∃ repo name rest,
      item.canonical = roots.worktrees ++ repo :: name :: rest) ∨
      ∃ main name rest,
        (w.gitCommonDir item.canonical).bind mainCheckout = some main ∧
        item.canonical = main ++ "worktrees" :: name :: rest
  | _ =>
    item.canonical.parent = some roots.targets ∨
      ∃ base, roots.hookBase = some base ∧
        item.canonical.parent = some base ∧
        hasPrefix item.canonical [hookTargetPrefix] = true

/- The path was a worktree with an eligible verdict. -/
def EligibleWorktree
    (w : World) (s : Settings) (runs : List RunInfo)
    (run : RunInfo) (path : Path) :
    Prop :=
  ∃ o c report,
    o ∈ existing w run ∧ o.path = path ∧ o.kind = .worktree ∧
      checkCandidate w s runs run.id o = some c ∧
      knownReport run = some report ∧
      worktreeVerdict w s report run c = .eligible

/- A linked worktree of one main checkout, then and now. -/
structure WorktreeReady
    (w₀ w : World) (s : Settings) (runs : List RunInfo)
    (run : RunInfo) (item : Item) :
    Prop where
  linked : ∃ main list,
    (w₀.gitCommonDir item.canonical).bind mainCheckout = some main ∧
    w₀.worktreeList main = some list ∧
    list.head? ≠ some item.canonical ∧
    item.canonical ∈ list.tail ∧
    (w.gitCommonDir item.canonical).bind mainCheckout = some main
  clean : w.gitHasDirtyState item.canonical = false
  pushed : w.hasUnpushed item.canonical = false
  free : w.inUse item.canonical = false
  eligible : EligibleWorktree w₀ s runs run item.path

structure TargetReady
    (w₀ w : World) (s : Settings) (runs : List RunInfo)
    (run : RunInfo) (item : Item) :
    Prop where
  worktrees : ∀ o ∈ allOwnedPaths (w₀.ownedFile run.dir),
    o.kind = .worktree → (w₀.kind o.path).isSome = true →
      EligibleWorktree w₀ s runs run o.path
  unlocked : w.cargoLockHeld item.canonical = false
  free : w.inUse item.canonical = false

/- Collected from `w₀` under `run`, and removed in `w`. -/
structure RemovedSafely
    (w₀ w : World) (s : Settings) (roots : ManagedRoots)
    (runs : List RunInfo) (run : RunInfo) (item : Item) :
    Prop where
  resolves : w.canonicalize item.path = some item.canonical
  managed : InManagedRoots w roots item
  own : LetGo w s run.id
  others : ∀ id, OtherOwner w s item id → LetGo w s id
  worktree : item.category = .runWorktree → WorktreeReady w₀ w s runs run item
  target : item.category = .runTarget → TargetReady w₀ w s runs run item

/- Who names the folder unheard has let it go, and no worktree
   of the run is hidden by an earlier entry of its path or
   by the limits of what is read. -/
structure Clear
    (w₀ w : World) (s : Settings) (run : RunInfo) (item : Item) :
    Prop where
  unheard : ∀ id, OtherOwner w s item id → ¬Heard w s item id → LetGo w s id
  shown : item.category = .runTarget →
    ∀ o ∈ allOwnedPaths (w₀.ownedFile run.dir),
      o.kind = .worktree → (w₀.kind o.path).isSome = true →
        ∃ p ∈ existing w₀ run, p.path = o.path ∧ p.kind = .worktree

-- What Apply Checks

variable {w₀ w : World}
variable {s : Settings}
variable {roots : ManagedRoots}
variable {runs : List RunInfo}
variable {run : RunInfo}
variable {item : Item}

variable {id : String}

theorem letGo_of_runStillInactive
    (hInactive : runStillInactive w (s.runsDir.join id) = true) :
    LetGo w s id := by
  unfold runStillInactive at hInactive
  cases hReport : w.runReport (s.runsDir.join id) with
  | none =>
    rw [hReport] at hInactive
    cases hInactive
  | some report =>
    rw [hReport] at hInactive
    exact ⟨report, hReport, by simpa using hInactive⟩

/- Whoever is heard has let the folder go. -/
theorem letGo_of_heard
    (hRefuses : refusesOtherOwner w s item = false)
    (hOther : item.runId ≠ some id) (hOwn : ∃ own, item.runId = some own)
    (hHeard : Heard w s item id) :
    LetGo w s id := by
  obtain ⟨-, listed, hScan, run, hRun, rfl, o, hO, hNames⟩ :=
    hHeard
  obtain ⟨own, hOwn⟩ := hOwn
  unfold refusesOtherOwner at hRefuses
  rw [hScan] at hRefuses
  simp only [hOwn, Option.getD_some] at hRefuses
  unfold otherLiveOwner at hRefuses
  have hNe : run.id ≠ own := by
    rintro rfl
    exact hOther hOwn
  have hMem : run ∈ (listed.filter fun r =>
      r.id != own).filter fun r =>
        r.owned.any (names w · item.canonical) := by
    refine List.mem_filter.mpr
      ⟨List.mem_filter.mpr ⟨hRun, by simpa using hNe⟩, ?_⟩
    exact List.any_eq_true.mpr ⟨o, hO, hNames⟩
  have hLetGo := List.any_eq_false.mp hRefuses run hMem
  have hRunEq := eq_runInfo_of_mem_scanRuns hScan hRun
  have hReport : run.report = w.runReport (s.runsDir.join run.id) := by
    rw [hRunEq]
    rfl
  unfold hasLetGo at hLetGo
  rw [hReport] at hLetGo
  cases hRead : w.runReport (s.runsDir.join run.id) with
  | none =>
    rw [hRead] at hLetGo
    simp at hLetGo
  | some report =>
    rw [hRead] at hLetGo
    exact ⟨report, hRead, by simpa using hLetGo⟩

variable {path root : Path}

theorem isBelow_one
    (hBelow : isBelow path root 1 = true) :
    ∃ name rest, path = root ++ name :: rest := by
  unfold isBelow at hBelow
  cases hStrip : root.isPrefixOf? path with
  | none =>
    rw [hStrip] at hBelow
    cases hBelow
  | some rest =>
    have hPath := List.isPrefixOf?_eq_some_iff_append_eq.mp hStrip
    cases rest with
    | nil =>
      rw [hStrip] at hBelow
      simp at hBelow
    | cons name rest => exact ⟨name, rest, hPath.symm⟩

theorem isBelow_two
    (hBelow : isBelow path root 2 = true) :
    ∃ repo name rest, path = root ++ repo :: name :: rest := by
  unfold isBelow at hBelow
  cases hStrip : root.isPrefixOf? path with
  | none =>
    rw [hStrip] at hBelow
    cases hBelow
  | some rest =>
    have hPath := List.isPrefixOf?_eq_some_iff_append_eq.mp hStrip
    rw [hStrip] at hBelow
    cases rest with
    | nil => simp at hBelow
    | cons repo rest =>
      cases rest with
      | nil => simp at hBelow
      | cons name rest => exact ⟨repo, name, rest, hPath.symm⟩

theorem isContained_target
    (hIn : isContained .target path roots none = true) :
    path.parent = some roots.targets ∨
      ∃ base, roots.hookBase = some base ∧
        path.parent = some base ∧
        hasPrefix path [hookTargetPrefix] = true := by
  simp only [isContained, Bool.or_eq_true, Bool.and_eq_true,
    beq_iff_eq] at hIn
  rcases hIn with hTargets | ⟨⟨hSome, hBase⟩, hName⟩
  · exact Or.inl hTargets
  · obtain ⟨base, hParent⟩ := Option.isSome_iff_exists.mp hSome
    exact Or.inr ⟨base, by rw [← hBase, hParent], hParent, hName⟩

variable {main : Path}

theorem isContained_worktree
    (hIn : isContained .worktree path roots (some main) = true) :
    (∃ repo name rest, path = roots.worktrees ++ repo :: name :: rest) ∨
      ∃ name rest, path = main ++ "worktrees" :: name :: rest := by
  simp only [isContained, Bool.or_eq_true] at hIn
  rcases hIn with hWork | hMain
  · exact Or.inl (isBelow_two hWork)
  · obtain ⟨name, rest, hPath⟩ := isBelow_one hMain
    refine Or.inr ⟨name, rest, ?_⟩
    rw [hPath, Path.join, List.append_assoc]
    rfl

-- The Exact Condition

/- What is safe for any item that apply removes. -/
structure ApplyChecks
    (w : World) (s : Settings) (roots : ManagedRoots)
    (run : RunInfo) (item : Item) :
    Prop where
  resolves : w.canonicalize item.path = some item.canonical
  managed : InManagedRoots w roots item
  own : LetGo w s run.id
  heard : ∀ id, item.runId ≠ some id → Heard w s item id → LetGo w s id

theorem removedSafely_iff_of_checks
    (hChecks : ApplyChecks w s roots run item)
    (hWorktree : item.category = .runWorktree →
      WorktreeReady w₀ w s runs run item)
    (hTarget : item.category = .runTarget →
      (TargetReady w₀ w s runs run item ↔
        ∀ o ∈ allOwnedPaths (w₀.ownedFile run.dir),
          o.kind = .worktree →
            (w₀.kind o.path).isSome = true →
              ∃ p ∈ existing w₀ run, p.path = o.path ∧ p.kind = .worktree)) :
    RemovedSafely w₀ w s roots runs run item ↔ Clear w₀ w s run item := by
  constructor
  · intro hSafe
    refine ⟨fun id hOther _ => hSafe.others id hOther, ?_⟩
    intro hKind
    exact (hTarget hKind).mp (hSafe.target hKind)
  · intro hClear
    refine ⟨hChecks.resolves, hChecks.managed, hChecks.own, ?_, hWorktree, ?_⟩
    · intro id hOther
      by_cases hHeard : Heard w s item id
      · exact hChecks.heard id hOther.other hHeard
      · exact hClear.unheard id hOther hHeard
    · intro hKind
      exact (hTarget hKind).mpr (hClear.shown hKind)

theorem checks_of_runTmp
    {dir : Path} (hRun : run = runInfo w₀ s run.id)
    (hItem : item = ⟨.runTmp, dir, w₀.canonicalOrSelf dir,
      some run.id, .removeRunTmp run.dir⟩)
    (hResolves : w.canonicalize item.path = some item.canonical)
    (hManaged : isManaged item roots = true)
    (hMay : mayRemoveRunTmp w item.canonical run.dir = true) :
    ApplyChecks w s roots run item := by
  subst hItem
  have hDir : run.dir = s.runsDir.join run.id := by
    rw [hRun]
    rfl
  simp only [mayRemoveRunTmp, Bool.and_eq_true] at hMay
  refine ⟨hResolves, ⟨run.id, rfl, ?_⟩, ?_, ?_⟩
  · simp only [isManaged, Bool.or_eq_true, beq_iff_eq,
      Path.join, List.append_assoc] at hManaged
    exact hManaged
  · apply letGo_of_runStillInactive
    rw [← hDir]
    exact hMay.1.1
  · rintro id - ⟨hKind, -⟩
    exact absurd rfl hKind

variable {c : Candidate}

theorem checks_of_worktree
    (hRun : run = runInfo w₀ s run.id)
    (hItem : item = ⟨.runWorktree, c.owned.path, c.canonical,
      some run.id, .removeWorktree main run.dir⟩)
    (hResolves : w.canonicalize item.path = some item.canonical)
    (hManaged : isManaged item roots = true)
    (hMay : mayRemoveWorktree w s item main run.dir = true) :
    ApplyChecks w s roots run item := by
  subst hItem
  have hDir : run.dir = s.runsDir.join run.id := by
    rw [hRun]
    rfl
  simp only [mayRemoveWorktree, Bool.and_eq_true,
    Bool.not_eq_true', beq_iff_eq] at hMay
  refine ⟨hResolves, ?_, ?_, ?_⟩
  · rcases isContained_worktree hManaged with
      hWork | ⟨name, rest, hPath⟩
    · exact Or.inl hWork
    · exact Or.inr ⟨main, name, rest, hMay.1.1.1.2, hPath⟩
  · apply letGo_of_runStillInactive
    rw [← hDir]
    exact hMay.1.1.1.1.1.1
  · intro id hOther hHeard
    exact letGo_of_heard hMay.1.1.1.1.1.2 hOther ⟨run.id, rfl⟩ hHeard

theorem checks_of_target
    (hRun : run = runInfo w₀ s run.id)
    (hItem : item = ⟨.runTarget, c.owned.path, c.canonical,
      some run.id, .removeDir (some run.dir) true⟩)
    (hResolves : w.canonicalize item.path = some item.canonical)
    (hManaged : isManaged item roots = true)
    (hMay : mayRemoveDir w s item (some run.dir) true = true) :
    ApplyChecks w s roots run item := by
  subst hItem
  have hDir : run.dir = s.runsDir.join run.id := by
    rw [hRun]
    rfl
  simp only [mayRemoveDir, Bool.and_eq_true, Bool.not_eq_true'] at hMay
  refine ⟨hResolves, ?_, ?_, ?_⟩
  · simp only [isManaged, reduceCtorEq, if_false] at hManaged
    exact isContained_target hManaged
  · apply letGo_of_runStillInactive
    rw [← hDir]
    exact hMay.1.1.1.1.1
  · intro id hOther hHeard
    exact letGo_of_heard hMay.1.1.1.1.2 hOther ⟨run.id, rfl⟩ hHeard

/-
  A removed item was safe to remove if and only if no unheard
  owner still uses it and no worktree of its run was hidden.
-/
theorem removedSafely_iff_clear
    (s : Settings) (w₀ w₁ w : World) (runs : List RunInfo)
    (item : Item) (folder : Path) (hScan : scanRuns w₀ s = some runs)
    (hItem : item ∈ collectRuns w₀ s runs)
    (hRemoved : execute w s (managedRoots w₁ s) item = some folder) :
    folder = item.canonical ∧
      ∃ run ∈ runs, item.runId = some run.id ∧
        (RemovedSafely w₀ w s (managedRoots w₁ s) runs run item ↔
          Clear w₀ w s run item) := by
  unfold execute at hRemoved
  split at hRemoved
  next hChecked =>
    obtain ⟨hResolves, hManaged⟩ := hChecked
    have hOp : item.op ≠ .skip := by
      intro hSkip
      rw [hSkip] at hRemoved
      cases hRemoved
    obtain ⟨run, hRun, hCollected⟩ :=
      collected_of_mem hItem hOp
    have hInfo := eq_runInfo_of_mem_scanRuns hScan hRun
    cases hCollected with
    | runTmp dir =>
      simp only [Option.ite_none_right_eq_some, Option.some.injEq] at hRemoved
      obtain ⟨hMay, rfl⟩ := hRemoved
      refine ⟨rfl, run, hRun, rfl, ?_⟩
      exact removedSafely_iff_of_checks
        (checks_of_runTmp hInfo rfl hResolves hManaged hMay)
        (fun hKind => by cases hKind)
        (fun hKind => by cases hKind)
    | worktree report c main hReport hCandidate hKind hMain
        hVerdict =>
        simp only [Option.ite_none_right_eq_some,
          Option.some.injEq] at hRemoved
        obtain ⟨hMay, rfl⟩ := hRemoved
        refine ⟨rfl, run, hRun, rfl, ?_⟩
        refine removedSafely_iff_of_checks
          (checks_of_worktree hInfo rfl hResolves hManaged
            hMay) (fun _ => ?_) (fun hKind => by cases hKind)
        simp only [mayRemoveWorktree, Bool.and_eq_true,
          Bool.not_eq_true', beq_iff_eq] at hMay
        obtain ⟨hOwned, -⟩ :=
          Option.filter_eq_some_iff.mp hCandidate.checked
        obtain ⟨main', list, hMain', hCommon, hList, hHead,
          hTail⟩ := linked_of_checkOwned hOwned hKind
        have hSame : main' = main := by
          rw [hMain] at hMain'
          exact (Option.some.inj hMain').symm
        subst hSame
        exact ⟨⟨main', list, hCommon, hList, hHead, hTail,
            hMay.1.1.1.2⟩, hMay.1.1.2, hMay.1.2, hMay.2,
          ⟨c.owned, c, report, hCandidate.mem, rfl, hKind,
            hCandidate.checked, hReport, hVerdict⟩⟩
    | target report c hReport hWorktrees =>
      simp only [Option.ite_none_right_eq_some, Option.some.injEq] at hRemoved
      obtain ⟨hMay, rfl⟩ := hRemoved
      refine ⟨rfl, run, hRun, rfl, ?_⟩
      refine removedSafely_iff_of_checks
        (checks_of_target hInfo rfl hResolves hManaged hMay)
        (fun hKind => by cases hKind) (fun _ => ?_)
      simp only [mayRemoveDir, Bool.and_eq_true,
        Bool.not_eq_true', Bool.true_and] at hMay
      constructor
      · intro hReady o hO hKind hThere
        obtain ⟨p, -, -, hMem, hPath, hWorktree, -⟩ :=
          hReady.worktrees o hO hKind hThere
        exact ⟨p, hMem, hPath, hWorktree⟩
      · intro hShown
        refine ⟨?_, hMay.1.1.1.2, hMay.1.2⟩
        intro o hO hKind hThere
        obtain ⟨p, hMem, hPath, hWorktree⟩ :=
          hShown o hO hKind hThere
        obtain ⟨d, hCheck, hVerdict⟩ :=
          hWorktrees p hMem hWorktree
        exact ⟨p, d, report, hMem, hPath, hWorktree, hCheck,
          hReport, hVerdict⟩
  · cases hRemoved

-- An Owner That Cannot Be Read

def oneTarget : Settings :=
  { workRoot := ["w"]
    keep := 0
    categories := [.runTarget]
    hookCacheBase := none }

def targetLine : List UInt8 :=
  "target\t/w/targets/t\n".toList.flatMap String.utf8EncodeChar

/- The folders of the given runs and one target. -/
def targetWorld
    (ids : List String) (ownedFile : Path → OwnedFile) :
    World :=
  { kind := fun path =>
      if path == ["w", "runs"] ||
          path == ["w", "targets", "t"] ||
          ids.any fun id => path == ["w", "runs", id] then
        some .dir
      else none
    canonicalize := some
    readDir := fun path =>
      if path == ["w", "runs"] then some ids else some []
    runReport := fun path =>
      if path == ["w", "runs", "a"] then
        some ⟨1, 7, some 1, none⟩
      else some ⟨1, 8, some 1, some "2026-01-01T00:00:00Z"⟩
    ownedFile
    runJsonMtime := fun _ => 0
    hasProc := true
    procStat := fun _ => .running (some 1)
    gitCommonDir := fun _ => none
    worktreeList := fun _ => none
    symbolicRef := fun _ => none
    ghPrList := fun _ _ => none
    gitHasDirtyState := fun _ => true
    hasUnpushed := fun _ => true
    lockIsHeld := fun _ => false
    inUse := fun _ => false
    hasLivePidMarker := fun _ => false
    tempDir := ["tmp"]
    utcNow := 0
    now := 0
    pastDeadline := fun _ => false
    parseRfc3339 := fun _ => none }

/- The ended run `b` records the target. -/
def loneRun : World :=
  targetWorld ["b"] fun path =>
    if path == ["w", "runs", "b"] then .readable targetLine
    else .missing

/- The active run `a` records it too, in an unreadable file. -/
def twoRuns : World :=
  targetWorld ["a", "b"] fun path =>
    if path == ["w", "runs", "b"] then .readable targetLine
    else .unreadable targetLine

def targetOfB : Item :=
  ⟨.runTarget, ["w", "targets", "t"], ["w", "targets", "t"],
    some "b", .removeDir (some ["w", "runs", "b"]) true⟩

theorem removedSafely_of_lone_run :
    RemovedSafely loneRun loneRun oneTarget
      (managedRoots loneRun oneTarget)
      [runInfo loneRun oneTarget "b"]
      (runInfo loneRun oneTarget "b") targetOfB := by
  obtain ⟨-, run, hRun, -, hIff⟩ :=
    removedSafely_iff_clear oneTarget loneRun loneRun loneRun
      [runInfo loneRun oneTarget "b"] targetOfB
      ["w", "targets", "t"] rfl (by decide +kernel)
      (by decide +kernel)
  obtain rfl := List.mem_singleton.mp hRun
  refine hIff.mpr ⟨?_, ?_⟩
  · rintro id ⟨-, hOther, o, hO, -⟩ -
    by_cases hB : id = "b"
    · rw [hB] at hOther
      exact absurd rfl hOther
    · simp [loneRun, targetWorld, oneTarget, Settings.runsDir,
        Path.join, hB, allOwnedPaths] at hO
  · intro _ o hO hKind
    have hOnly : allOwnedPaths (loneRun.ownedFile
        (runInfo loneRun oneTarget "b").dir) =
        [⟨.target, ["w", "targets", "t"], none⟩] := by decide +kernel
    rw [hOnly] at hO
    rw [List.mem_singleton.mp hO] at hKind
    cases hKind

/- The folder of the active run `a` is removed. -/
theorem unread_owner_is_ignored :
    ¬∀ runs item folder, scanRuns twoRuns oneTarget = some runs →
      item ∈ collectRuns twoRuns oneTarget runs →
      execute twoRuns oneTarget
          (managedRoots twoRuns oneTarget) item =
        some folder →
      ∀ run ∈ runs, item.runId = some run.id →
        RemovedSafely twoRuns twoRuns oneTarget
          (managedRoots twoRuns oneTarget) runs run item := by
  intro hClaim
  have hSafe := hClaim
    [runInfo twoRuns oneTarget "a", runInfo twoRuns oneTarget "b"]
    targetOfB ["w", "targets", "t"] rfl (by decide +kernel)
    (by decide +kernel) (runInfo twoRuns oneTarget "b")
    (by simp) rfl
  obtain ⟨report, hReport, hInactive⟩ := hSafe.others "a"
    ⟨by decide +kernel, by decide, by
      refine ⟨⟨.target, ["w", "targets", "t"], none⟩, ?_, ?_⟩
      · decide +kernel
      · decide +kernel⟩
  cases hReport
  revert hInactive
  decide +kernel

end Cleanup
