import Amplihack.SessionTree.Budget

/-
  The sealed ceiling bounds every depth.

  Three operations consult the ceiling: registration seals
  it only when it is absent, admission and sealing may lower
  it. Over a run whose files stay readable it never rises,
  and every entry was let in under the ceiling of its time.

  The check and the registration it is asked about.

  `runCheck` compares the child's depth with the environment
  alone; `runRegister` clamps by the tree's sealed ceiling.
  They agree unless a lower ceiling is sealed.
-/

-- Depths Of One Change

namespace SessionTree

open Base

/- The entry comes from the state, with the same depth. -/
def Inherited
    (state : TreeState) (id : String) (entry : SessionEntry) :
    Prop :=
  ∃ old, state.sessions.get? id = some old ∧ entry.depth = old.depth

/- The operation let the entry in, under the ceiling in force. -/
def LetIn
    (state : TreeState) (operation : Operation)
    (id : String) (entry : SessionEntry) :
    Prop :=
  operation.sessionId? = some id ∧
    ∃ proposed ∈ operation.proposal?,
      entry.depth ≤ effectiveMaxDepth state.ceiling (some proposed)

/- Reading an inserted map whose other entries are inherited. -/
theorem inherited_or_new
    {state : TreeState} {sessions : Dict String SessionEntry}
    {id id' : String} {fresh entry : SessionEntry}
    (hGet : (sessions.insert id fresh).get? id' = some entry)
    (hOld : ∀ e, sessions.get? id' = some e → Inherited state id' e) :
    Inherited state id' entry ∨ id' = id ∧ entry = fresh := by
  rw [Dict.get?_insert] at hGet
  split at hGet
  · next hEq => exact Or.inr ⟨hEq, by simpa using hGet.symm⟩
  · exact Or.inl (hOld entry hGet)

theorem inherited_of_get?
    {state : TreeState} {id : String} {entry : SessionEntry}
    (hGet : state.sessions.get? id = some entry) :
    Inherited state id entry :=
  ⟨entry, hGet, rfl⟩

variable {entry : SessionEntry}

theorem inherited_markCompleted
    {caller : Caller} {state : TreeState} {id id' : String}
    (hGet : (markCompleted caller id state).sessions.get? id' = some entry) :
    Inherited state id' entry := by
  simp only [markCompleted, Dict.get?_modify] at hGet
  split at hGet
  · simp only [Option.map_eq_some_iff] at hGet
    rcases hGet with ⟨old, hOld, rfl⟩
    exact ⟨old, hOld, rfl⟩
  · exact inherited_of_get? hGet

theorem inherited_reapDead
    {caller : Caller} {state : TreeState} {id : String}
    (hGet : (reapDead caller state).sessions.get? id = some entry) :
    Inherited state id entry := by
  simp only [reapDead, Dict.get?_mapValues, Option.map_eq_some_iff] at hGet
  rcases hGet with ⟨old, hOld, rfl⟩
  refine ⟨old, hOld, ?_⟩
  split <;> rfl

variable {caller : Caller} {state next : TreeState}
variable {operation : Operation} {id : String}

/- Every saved entry is inherited or was let in just now. -/
theorem Change.depth_le
    (hChange : Change caller state operation next)
    (hGet : next.sessions.get? id = some entry) :
    Inherited state id entry ∨ LetIn state operation id entry := by
  cases hChange with
  | admitSession id' depth proposed maxSessions hDepth _ =>
    rcases inherited_or_new hGet
      (fun _ => inherited_reapDead) with
      hOld | ⟨rfl, rfl⟩
    · exact Or.inl hOld
    · exact Or.inr ⟨rfl, proposed, rfl, hDepth⟩
  | register id' parent depth maxDepth maxSessions sessions
      hDepth _ hSessions =>
      have hNew : ∀ e,
          (state.sessions.insert id'
            (newEntry caller depth parent)).get? id = some e →
            Inherited state id e ∨
              LetIn state (.register id' parent depth maxDepth
                maxSessions) id e := by
        intro e hInsert
        rcases inherited_or_new hInsert
          (fun _ => inherited_of_get?) with
          hOld | ⟨rfl, rfl⟩
        · exact Or.inl hOld
        · exact Or.inr ⟨rfl, maxDepth, rfl, hDepth⟩
      rcases hSessions with rfl | ⟨p, _, rfl⟩
      · exact hNew entry hGet
      · simp only [Dict.get?_modify] at hGet
        split at hGet
        · simp only [Option.map_eq_some_iff] at hGet
          rcases hGet with ⟨e, hInsert, rfl⟩
          simpa [Inherited, LetIn] using hNew e hInsert
        · exact hNew entry hGet
  | complete _ | release _ => exact Or.inl (inherited_markCompleted hGet)
  | ensureSealed proposed => exact Or.inl (inherited_of_get? hGet)

variable {treeId : String} {file : TreeFile} {call : Call}

/- The same of the file a call leaves. -/
theorem depth_le_of_nextFile
    {id : String} {entry : SessionEntry} (hReadable : Readable file)
    (hGet :
      (storedState (nextFile treeId file call)).sessions.get?
        id = some entry) :
    Inherited (storedState file) id entry ∨
      LetIn (storedState file) call.operation id entry := by
  rcases nextFile_eq treeId file call with
    hSame | ⟨next, hChange, hNext⟩
  · rw [hSame] at hGet
    exact Or.inl (inherited_of_get? hGet)
  · rw [loadState_of_readable hReadable] at hChange
    rw [hNext, storedState_saveState] at hGet
    exact hChange.depth_le (Dict.get?_retain_eq_some_iff.mp hGet).1

-- Ceilings Of One Change

/- A ceiling a change sets: kept, or the effective one. -/
theorem Change.ceiling_eq
    {operation : Operation} (hChange : Change caller state operation next) :
    next.ceiling = state.ceiling ∨
      ∃ proposed ∈ operation.proposal?,
        next.ceiling = some
          (effectiveMaxDepth state.ceiling (some proposed)) := by
  cases hChange with
  | admitSession id depth proposed maxSessions =>
    exact Or.inr ⟨proposed, rfl, rfl⟩
  | register id parent depth maxDepth maxSessions =>
    cases hCeiling : state.ceiling with
    | none => exact Or.inr ⟨maxDepth, rfl, by simp⟩
    | some c => exact Or.inl (by simp)
  | complete _ | release _ => exact Or.inl rfl
  | ensureSealed proposed => exact Or.inr ⟨proposed, rfl, rfl⟩

/- A tree that is not sealed has let nobody in. -/
theorem Change.ceiling_of_letIn
    (hChange : Change caller state operation next)
    (hNew : LetIn state operation id entry) :
    ∃ c ∈ next.ceiling, entry.depth ≤ c := by
  rcases hNew with ⟨hId, proposed, hProposal, hDepth⟩
  cases hChange with
  | admitSession id depth proposed' maxSessions =>
    cases hProposal
    exact ⟨_, rfl, hDepth⟩
  | register id parent depth maxDepth maxSessions =>
    cases hProposal
    refine ⟨_, rfl, ?_⟩
    cases hCeiling : state.ceiling with
    | none => simpa [hCeiling] using hDepth
    | some c =>
      rw [hCeiling] at hDepth
      exact UInt32.le_trans hDepth (effectiveMaxDepth_le_sealed c proposed)
  | complete _ | release _ => simp [Operation.proposal?] at hProposal
  | ensureSealed proposed' => simp [Operation.sessionId?] at hId

-- Ceilings Over Runs

/- The files of a run whose files all stay readable. -/
def Follows (treeId : String) : TreeFile → TreeFile → Prop :=
  Reaches (nextFile treeId) (StaysReadable treeId)

theorem Follows.tail
    {treeId : String} {file later : TreeFile}
    (hRun : Follows treeId file later) (call : Call)
    (hStays : StaysReadable treeId later call) :
    Follows treeId file (nextFile treeId later call) :=
  Reaches.tail hRun call hStays

/- A readable file bounded throughout by `c`. -/
structure Sealed (c : UInt32) (file : TreeFile) : Prop where
  readable : Readable file
  ceiling : ∃ c' ∈ (storedState file).ceiling, c' ≤ c
  depth : ∀ id entry,
    (storedState file).sessions.get? id = some entry → entry.depth ≤ c

/- A readable file that has no entry before it has a ceiling. -/
structure Founded (file : TreeFile) : Prop where
  readable : Readable file
  ceiling : ∀ c ∈ (storedState file).ceiling, c ≤ maxDepthCeiling
  sealed : ∀ id entry,
    (storedState file).sessions.get? id = some entry →
      (storedState file).ceiling.isSome

theorem effectiveMaxDepth_le_of_ceiling
    {sealed : Option UInt32} {c : UInt32}
    (hCeiling : ∃ c' ∈ sealed, c' ≤ c) (proposed : UInt32) :
    effectiveMaxDepth sealed (some proposed) ≤ c := by
  rcases hCeiling with ⟨c', rfl, hLe⟩
  exact UInt32.le_trans (effectiveMaxDepth_le_sealed c' proposed) hLe

/- One call lowers the abstract ceiling or leaves it. -/
theorem ceiling_falls_nextFile
    {file : TreeFile} (hReadable : Readable file)
    (treeId : String) (call : Call) :
    Budget.Falls (budgetOf (storedState file)).ceiling
      (budgetOf (storedState (nextFile treeId file call))).ceiling := by
  rcases nextFile_eq treeId file call with
    hSame | ⟨next, hChange, hNext⟩
  · rw [hSame]
    exact Budget.Falls.refl _
  · rw [loadState_of_readable hReadable] at hChange
    rw [hNext, storedState_saveState]
    exact hChange.falls

theorem ceiling_falls_of_follows
    {treeId : String} {file later : TreeFile} (hReadable : Readable file)
    (hRun : Follows treeId file later) :
    Budget.Falls (budgetOf (storedState file)).ceiling
      (budgetOf (storedState later)).ceiling := by
  have hBoth := hRun.invariant
    (fun later => Readable later ∧
      Budget.Falls (budgetOf (storedState file)).ceiling
        (budgetOf (storedState later)).ceiling)
    (fun later call hInv hStays => ⟨hStays, hInv.2.trans
      (ceiling_falls_nextFile hInv.1 treeId call)⟩)
    ⟨hReadable, Budget.Falls.refl _⟩
  exact hBoth.2

/- The same, of the ceilings as stored. -/
theorem exists_le_of_falls
    {state later : TreeState}
    (hFalls : Budget.Falls (budgetOf state).ceiling
      (budgetOf later).ceiling) :
    ∀ c ∈ state.ceiling, ∃ c' ∈ later.ceiling, c' ≤ c := by
  intro c hMem
  rcases hFalls c.toNat (Option.mem_map_of_mem _ hMem) with ⟨n, hLater, hLe⟩
  rcases Option.mem_map.mp hLater with ⟨c', hMem', rfl⟩
  exact ⟨c', hMem', UInt32.le_iff_toNat_le.mpr hLe⟩

/- A ceiling that bounds a tree goes on bounding it. -/
theorem sealed_nextFile
    {treeId : String} {c : UInt32}
    {file : TreeFile} {call : Call} (hSealed : Sealed c file)
    (hStays : StaysReadable treeId file call) :
    Sealed c (nextFile treeId file call) := by
  refine ⟨hStays, ?_, ?_⟩
  · rcases hSealed.ceiling with ⟨c', hMem, hLe⟩
    rcases exists_le_of_falls
      (ceiling_falls_nextFile hSealed.readable treeId call)
      c' hMem with ⟨c'', hMem', hLe'⟩
    exact ⟨c'', hMem', UInt32.le_trans hLe' hLe⟩
  · intro id entry hGet
    rcases depth_le_of_nextFile hSealed.readable hGet with
      ⟨old, hOld, hDepth⟩ | ⟨_, proposed, _, hDepth⟩
    · rw [hDepth]
      exact hSealed.depth id old hOld
    · exact UInt32.le_trans hDepth
        (effectiveMaxDepth_le_of_ceiling hSealed.ceiling proposed)

theorem sealed_of_follows
    {treeId : String} {c : UInt32} {file file' : TreeFile}
    (hRun : Follows treeId file file') (hSealed : Sealed c file) :
    Sealed c file' :=
  hRun.invariant (Sealed c) (fun _ _ => sealed_nextFile) hSealed

theorem founded_nextFile
    (hFounded : Founded file) (hStays : StaysReadable treeId file call) :
    Founded (nextFile treeId file call) := by
  refine ⟨hStays, ?_, ?_⟩
  · intro c hMem
    rcases nextFile_eq treeId file call with
      hSame | ⟨next, hChange, hNext⟩
    · rw [hSame] at hMem
      exact hFounded.ceiling c hMem
    · rw [loadState_of_readable hFounded.readable] at hChange
      rw [hNext, storedState_saveState] at hMem
      rcases hChange.ceiling_eq with
        hKept | ⟨proposed, _, hSet⟩
      · exact hFounded.ceiling c (hKept ▸ hMem)
      · rw [pruneStale, hSet] at hMem
        cases hMem
        exact effectiveMaxDepth_le_ceiling _ proposed
  · intro id entry hGet
    rcases nextFile_eq treeId file call with
      hSame | ⟨next, hChange, hNext⟩
    · rw [hSame] at hGet ⊢
      exact hFounded.sealed id entry hGet
    · rw [loadState_of_readable hFounded.readable] at hChange
      rw [hNext, storedState_saveState] at hGet ⊢
      have hNextGet := (Dict.get?_retain_eq_some_iff.mp hGet).1
      rcases hChange.depth_le hNextGet with ⟨old, hOld, _⟩ | hNew
      · have hSome := hFounded.sealed id old hOld
        rcases hChange.ceiling_eq with
          hKept | ⟨_, _, hSet⟩
        · simpa [pruneStale, hKept] using hSome
        · simp [pruneStale, hSet]
      · rcases hChange.ceiling_of_letIn hNew with ⟨c, hMem, _⟩
        rw [pruneStale, Option.mem_def.mp hMem]
        rfl

theorem founded_of_follows
    {treeId : String} {file : TreeFile} (hRun : Follows treeId none file) :
    Founded file :=
  hRun.invariant Founded (fun _ _ => founded_nextFile)
    ⟨trivial, by simp [TreeState.default],
      by simp [TreeState.default]⟩

/- The call that seals a tree bounds it by its clamped proposal. -/
theorem sealed_of_first
    {c : UInt32} (hFounded : Founded file)
    (hUnsealed : (storedState file).ceiling = none)
    (hStays : StaysReadable treeId file call)
    (hSeals : (storedState (nextFile treeId file call)).ceiling = some c) :
    (∃ proposed ∈ call.operation.proposal?,
      c = min proposed maxDepthCeiling) ∧
      Sealed c (nextFile treeId file call) := by
  have hProposal :
      ∃ proposed ∈ call.operation.proposal?,
        c = min proposed maxDepthCeiling := by
    rcases nextFile_eq treeId file call with
      hSame | ⟨next, hChange, hNext⟩
    · rw [hSame, hUnsealed] at hSeals
      simp at hSeals
    · rw [loadState_of_readable hFounded.readable] at hChange
      rw [hNext, storedState_saveState, pruneStale] at hSeals
      rcases hChange.ceiling_eq with
        hKept | ⟨proposed, hMem, hSet⟩
      · simp [hKept, hUnsealed] at hSeals
      · refine ⟨proposed, hMem, ?_⟩
        simp only [hSet, hUnsealed, Option.some.injEq] at hSeals
        rw [← hSeals]
        rfl
  refine ⟨hProposal, hStays, ⟨c, hSeals, UInt32.le_refl c⟩, ?_⟩
  intro id entry hGet
  rcases depth_le_of_nextFile hFounded.readable hGet with
    ⟨old, hOld, _⟩ | ⟨_, proposed, hMem, hDepth⟩
  · have hSome := hFounded.sealed id old hOld
    simp [hUnsealed] at hSome
  · rcases hProposal with ⟨proposed', hMem', rfl⟩
    cases Option.mem_unique hMem hMem'
    exact UInt32.le_trans hDepth (effectiveMaxDepth_le_env _ proposed)

/-
  The entry's admission in the run's past, at its depth and
  under the ceiling then in force.
-/
def AdmittedUnder
    (treeId : String) (file : TreeFile) (id : String) (entry : SessionEntry) :
    Prop :=
  ∃ before call admitted, Follows treeId none before ∧
    StaysReadable treeId before call ∧
    Follows treeId (nextFile treeId before call) file ∧
    (storedState (nextFile treeId before call)).sessions.get?
      id = some admitted ∧
    admitted.depth = entry.depth ∧
    LetIn (storedState before) call.operation id admitted

theorem admittedUnder_of_follows
    {treeId : String} {file : TreeFile} (hRun : Follows treeId none file) :
    ∀ id entry,
      (storedState file).sessions.get? id = some entry →
        AdmittedUnder treeId file id entry := by
  induction hRun with
  | refl => simp [TreeState.default]
  | @tail file _ hBefore hLast ih =>
    rcases hLast with ⟨call, hStays, rfl⟩
    intro id entry hGet
    have hReadable := (founded_of_follows hBefore).readable
    rcases depth_le_of_nextFile hReadable hGet with ⟨old, hOld, hDepth⟩ | hNew
    · rcases ih id old hOld with
        ⟨before, first, admitted, hStart, hFirst, hRest,
          hStored, hSame, hLetIn⟩
      exact ⟨before, first, admitted, hStart, hFirst,
        hRest.tail call hStays, hStored,
        hSame.trans hDepth.symm, hLetIn⟩
    · exact ⟨file, call, entry, hBefore, hStays,
        Reaches.refl _, hGet, rfl, hNew⟩

/-
  The sealed ceiling over every readable run: it stays set,
  never rises, is at most the clamped proposal of the call
  that sealed it, and bounds every entry ever admitted.
-/
theorem sealed_ceiling
    (treeId : String) (file : TreeFile) (hRun : Follows treeId none file) :
    (∀ c ∈ (storedState file).ceiling, c ≤ maxDepthCeiling ∧
      ∀ later, Follows treeId file later →
        ∃ c' ∈ (storedState later).ceiling, c' ≤ c) ∧
    (∀ id entry,
      (storedState file).sessions.get? id = some entry →
        AdmittedUnder treeId file id entry) ∧
    (∀ call c,
      (storedState file).ceiling = none →
      StaysReadable treeId file call →
      (storedState (nextFile treeId file call)).ceiling = some c →
        (∃ proposed ∈ call.operation.proposal?,
          c = min proposed maxDepthCeiling) ∧
        ∀ later,
          Follows treeId (nextFile treeId file call) later →
            (∃ c' ∈ (storedState later).ceiling, c' ≤ c) ∧
            ∀ id entry,
              (storedState later).sessions.get? id = some entry →
                entry.depth ≤ c) := by
  have hFounded := founded_of_follows hRun
  refine ⟨?_, admittedUnder_of_follows hRun, ?_⟩
  · intro c hMem
    refine ⟨hFounded.ceiling c hMem, ?_⟩
    intro later hLater
    exact exists_le_of_falls
      (ceiling_falls_of_follows hFounded.readable hLater)
      c hMem
  · intro call c hUnsealed hStays hSeals
    rcases sealed_of_first hFounded hUnsealed hStays hSeals
      with ⟨hProposal, hSealed⟩
    refine ⟨hProposal, ?_⟩
    intro later hLater
    have hLaterSealed := sealed_of_follows hLater hSealed
    exact ⟨hLaterSealed.ceiling, hLaterSealed.depth⟩

set_option maxRecDepth 20000 in
/- A root that proposes 99 seals the tree at the ceiling. -/
theorem sealed_ceiling_of_one_admission :
    ∃ c ∈ (storedState (nextFile "tree" none
      ⟨Caller.steady 100, .admitSession "root" 0 99 1⟩)).ceiling,
        c ≤ maxDepthCeiling := by
  have hStart : Follows "tree" none none := Reaches.refl none
  have hRun := hStart.tail ⟨Caller.steady 100, .admitSession "root" 0 99 1⟩
    (by unfold StaysReadable; decide)
  refine ⟨32, by decide, ?_⟩
  exact ((sealed_ceiling "tree" _ hRun).1 32 (by decide)).1

end SessionTree

-- Contexts

namespace SessionTree

open Base

/- The environment variables a command reads. -/
structure Environment where
  treeId : Option String
  sessionDepth : Option String
  maxDepth : Option String
  maxSessions : Option String

/- A 32-bit number: an optional plus sign, then digits. -/
def parseU32 (text : String) : Option UInt32 :=
  let digits :=
    match text.toList with
    | '+' :: cs => cs
    | cs => cs
  if digits.isEmpty || !digits.all Char.isDigit then none
  else
    let n := Nat.ofDigitChars 10 digits 0
    if n < UInt32.size then some (UInt32.ofNat n) else none

/- A context; its depth limit is within the ceiling. -/
structure TreeContext where
  treeId : Option String
  depth : UInt32
  maxDepth : UInt32
  maxSessions : UInt32
  maxDepth_le : maxDepth ≤ maxDepthCeiling

/- The context a command takes from its environment. -/
def treeContext (env : Environment) : TreeContext where
  treeId := env.treeId.filter (fun id => !id.isEmpty)
  depth := (env.sessionDepth.bind parseU32).getD 0
  maxDepth :=
    min ((env.maxDepth.bind parseU32).getD defaultMaxDepth) maxDepthCeiling
  maxSessions :=
    (env.maxSessions.bind parseU32).getD defaultMaxSessions
  maxDepth_le := Std.min_le_right

/- The depth of the child the context is about. -/
def TreeContext.childDepth (ctx : TreeContext) : UInt32 :=
  if ctx.depth = 4294967295 then ctx.depth else ctx.depth + 1

-- Check And Registration

/- What the check prints, and how it exits. -/
inductive CheckReport where
| allowed
| blockedDepth (maxDepth depth : UInt32)
| blockedSessions (maxSessions active : UInt32)
deriving DecidableEq

/- May a child be spawned? An unnamed tree is a new one. -/
def runCheck (ctx : TreeContext) (file : TreeFile) :
    Except Refusal CheckReport :=
  if ctx.maxDepth < ctx.childDepth then
    .ok (.blockedDepth ctx.maxDepth ctx.depth)
  else
    match ctx.treeId with
    | none => .ok .allowed
    | some id =>
      if validateTreeId id then
        let active := (loadState file).activeCount
        if ctx.maxSessions ≤ active then
          .ok (.blockedSessions ctx.maxSessions active)
        else .ok .allowed
      else .error (.invalidId "tree_id")

/- The registration of a context's session in a named tree. -/
def registerIn
    (ctx : TreeContext) (caller : Caller) (sessionId : String)
    (parentId : Option String) (treeId : String) (file : TreeFile) :
    Except Refusal Outcome × TreeFile :=
  if validateTreeId treeId then
    perform treeId
      ⟨caller, .register sessionId parentId ctx.depth
        ctx.maxDepth ctx.maxSessions⟩ file
  else (.error (.invalidId "AMPLIHACK_TREE_ID"), file)

/- The context of the child the check is about. -/
def TreeContext.child (ctx : TreeContext) : TreeContext :=
  { ctx with depth := ctx.childDepth }

-- Agreement

theorem runCheck_allowed_iff
    {ctx : TreeContext} {file : TreeFile} {treeId : String}
    (hTree : ctx.treeId = some treeId) :
    runCheck ctx file = .ok .allowed ↔
      validateTreeId treeId = true ∧
      ctx.childDepth ≤ ctx.maxDepth ∧
      (loadState file).activeCount < ctx.maxSessions := by
  unfold runCheck
  split
  · next hDeep => simp [UInt32.not_le.mpr hDeep]
  · next hDeep =>
      have hDepth := UInt32.not_lt.mp hDeep
      simp only [hTree]
      split
      · next hValid =>
          split
          · next hFull =>
              simp [UInt32.not_lt.mpr hFull]
          · next hFull =>
              simp [hValid, hDepth, UInt32.not_le.mp hFull]
      · next hValid => simp [hValid]

theorem registerIn_ok_iff
    {ctx : TreeContext} {caller : Caller}
    {sessionId treeId : String} {parentId : Option String} {file : TreeFile}
    (hSession : validateTreeId sessionId = true)
    (hParent : parentId.all validateTreeId = true) :
    (∃ outcome,
      (registerIn ctx caller sessionId parentId treeId
        file).1 = .ok outcome) ↔
      validateTreeId treeId = true ∧
      ctx.depth ≤ effectiveMaxDepth (loadState file).ceiling
        (some ctx.maxDepth) ∧
      (loadState file).activeCount < ctx.maxSessions := by
  unfold registerIn
  split
  · next hValid =>
      constructor
      · rintro ⟨outcome, hOk⟩
        rcases change_of_admitting rfl hOk with ⟨next, hChange⟩
        cases hChange with
        | register _ _ _ _ _ _ hDepth hRoom _ => exact ⟨hValid, hDepth, hRoom⟩
      · rintro ⟨_, hDepth, hRoom⟩
        simp [perform, Operation.validate, hSession, hParent,
          withLockedTree, Operation.apply, runRegister,
          UInt32.not_le.mpr hRoom, UInt32.not_lt.mpr hDepth, Except.map]
  · next hValid => simp [hValid]

/- A depth is within the effective ceiling. -/
theorem le_effectiveMaxDepth_iff
    {depth maxDepth : UInt32} {sealed : Option UInt32}
    (hMax : maxDepth ≤ maxDepthCeiling) :
    depth ≤ effectiveMaxDepth sealed (some maxDepth) ↔
      depth ≤ maxDepth ∧ ∀ c ∈ sealed, depth ≤ c := by
  have hClamped : min maxDepth maxDepthCeiling = maxDepth := if_pos hMax
  cases sealed with
  | none => simp [effectiveMaxDepth, hClamped]
  | some c =>
    simp only [effectiveMaxDepth, Option.getD_some, hClamped,
      Std.le_min_iff, Option.mem_def, Option.some.injEq, forall_eq']
    constructor
    · rintro ⟨⟨hLe, _⟩, hDepth⟩
      exact ⟨hDepth, hLe⟩
    · rintro ⟨hDepth, hLe⟩
      exact ⟨⟨hLe, UInt32.le_trans hDepth hMax⟩, hDepth⟩

/-
  The tree's sealed ceiling alone refuses the child: the
  environment and the session count would let it in.
-/
def HiddenCeiling
    (ctx : TreeContext) (treeId : String) (file : TreeFile) :
    Prop :=
  validateTreeId treeId = true ∧
  ctx.childDepth ≤ ctx.maxDepth ∧
  (loadState file).activeCount < ctx.maxSessions ∧
  ∃ c ∈ (loadState file).ceiling, c < ctx.childDepth

/-
  The check predicts the child's registration if and only if
  no sealed ceiling below the child's depth is hidden from it.
-/
theorem check_predicts_register_iff
    (ctx : TreeContext) (treeId : String) (file : TreeFile)
    (caller : Caller) (sessionId : String) (parentId : Option String)
    (hTree : ctx.treeId = some treeId)
    (hSession : validateTreeId sessionId = true)
    (hParent : parentId.all validateTreeId = true) :
    (runCheck ctx file = .ok .allowed ↔
      ∃ outcome,
        (registerIn ctx.child caller sessionId parentId
          treeId file).1 = .ok outcome) ↔
      ¬ HiddenCeiling ctx treeId file := by
  rw [runCheck_allowed_iff hTree, registerIn_ok_iff hSession hParent]
  simp only [TreeContext.child, le_effectiveMaxDepth_iff ctx.maxDepth_le]
  have hBelow :
      (∀ c ∈ (loadState file).ceiling, ctx.childDepth ≤ c) ↔
      ¬ ∃ c ∈ (loadState file).ceiling, c < ctx.childDepth := by
    simp [UInt32.not_lt]
  rw [hBelow, HiddenCeiling]
  by_cases hHidden : ∃ c ∈ (loadState file).ceiling, c < ctx.childDepth
  · simp only [hHidden, not_true_eq_false, and_false,
      false_and, iff_false, and_true]
  · simp only [hHidden, not_false_eq_true, and_true, and_false]

/- A node at depth two whose environment allows nine levels. -/
def deepContext : TreeContext where
  treeId := some "tree"
  depth := 2
  maxDepth := 9
  maxSessions := 10
  maxDepth_le := by decide

/- A tree its root sealed at two levels. -/
def shallowTree : TreeFile :=
  nextFile "tree" none ⟨Caller.steady 100, .ensureSealed 2⟩

/- A tree with no file yet hides no ceiling. -/
theorem check_predicts_register_of_new_tree :
    runCheck deepContext none = .ok .allowed ↔
      ∃ outcome,
        (registerIn deepContext.child (Caller.steady 100)
          "child" none "tree" none).1 = .ok outcome :=
  (check_predicts_register_iff deepContext "tree" none
    (Caller.steady 100) "child" none rfl (by decide)
    rfl).mpr (by
      rintro ⟨_, _, _, c, hMem, _⟩
      simp [loadState, Readable, TreeState.default] at hMem)

set_option maxRecDepth 20000 in
/- Under a sealed ceiling of two the check is wrong at three. -/
theorem check_allows_refused_child :
    ¬ ∀ ctx treeId file caller sessionId parentId,
        ctx.treeId = some treeId →
        validateTreeId sessionId = true →
        parentId.all validateTreeId = true →
          (runCheck ctx file = .ok .allowed ↔
            ∃ outcome,
              (registerIn ctx.child caller sessionId parentId
                treeId file).1 = .ok outcome) := by
  intro hClaim
  have hAllowed : runCheck deepContext shallowTree = .ok .allowed :=
    (runCheck_allowed_iff rfl).mpr ⟨by decide, by decide, by decide⟩
  have hRegister :=
    (hClaim deepContext "tree" shallowTree
      (Caller.steady 100) "child" none rfl (by decide)
      rfl).mp hAllowed
  rcases (registerIn_ok_iff (by decide) rfl).mp hRegister with ⟨_, hDepth, _⟩
  revert hDepth
  decide

end SessionTree
