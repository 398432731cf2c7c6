import Amplihack.Base.Caps
import Amplihack.SessionTree.Operations

/-
  The node budget and the sealed ceiling of a session tree.

  `Change` says what each operation may save. Every change
  is a step of the abstract budget whose holders are the
  active sessions, so the budget's invariants are the
  tree's.
-/

-- What An Operation May Save

namespace SessionTree

open Base

/- The state each operation saves, and when it does. -/
inductive Change (caller : Caller) (state : TreeState) :
    Operation → TreeState → Prop
| admitSession (id : String) (depth proposed maxSessions : UInt32) :
    depth ≤ effectiveMaxDepth state.ceiling (some proposed) →
    (reapDead caller state).activeCount < maxSessions →
    Change caller state
      (.admitSession id depth proposed maxSessions)
      { sessions := (reapDead caller state).sessions.insert id
          (newEntry caller depth none)
        ceiling :=
          some (effectiveMaxDepth state.ceiling (some proposed))
        writerVersion := some caller.version }
| register (id : String) (parent : Option String)
    (depth maxDepth maxSessions : UInt32)
    (sessions : Dict String SessionEntry) :
    depth ≤ effectiveMaxDepth state.ceiling (some maxDepth) →
    state.activeCount < maxSessions →
    (sessions = state.sessions.insert id
        (newEntry caller depth parent) ∨
      ∃ p ∈ parent, sessions =
        (state.sessions.insert id
          (newEntry caller depth parent)).modify p (addChild id)) →
    Change caller state
      (.register id parent depth maxDepth maxSessions)
      { state with
        sessions := sessions
        ceiling :=
          some (state.ceiling.getD
            (effectiveMaxDepth state.ceiling (some maxDepth))) }
| complete (id : String) :
    Change caller state (.complete id) (markCompleted caller id state)
| release (id : String) :
    Change caller state (.release id) (markCompleted caller id state)
| ensureSealed (proposed : UInt32) :
    Change caller state (.ensureSealed proposed)
      { state with
        ceiling :=
          some (effectiveMaxDepth state.ceiling (some proposed))
        writerVersion := some caller.version }

variable {outcome : Outcome}

/- An operation that saves, saves one of the changes. -/
theorem change_of_apply
    {treeId : String} {caller : Caller}
    {operation : Operation} {state next : TreeState}
    (hApply :
      operation.apply treeId caller state = .ok (outcome, some next)) :
    Change caller state operation next := by
  cases operation with
  | admitSession id depth proposed maxSessions =>
    simp only [Operation.apply, admitSession] at hApply
    split at hApply
    · simp [Except.map] at hApply
    · next hDepth =>
        split at hApply
        · simp [Except.map] at hApply
        · next hRoom =>
            simp only [Except.map, Except.ok.injEq,
              Prod.mk.injEq, Option.some.injEq] at hApply
            rw [← hApply.2]
            exact .admitSession id depth proposed maxSessions
              (UInt32.not_lt.mp hDepth)
              (UInt32.not_le.mp hRoom)
  | register id parent depth maxDepth maxSessions =>
    simp only [Operation.apply, runRegister] at hApply
    split at hApply
    · simp [Except.map] at hApply
    · next hRoom =>
        split at hApply
        · simp [Except.map] at hApply
        · next hDepth =>
            simp only [Except.map, Except.ok.injEq,
              Prod.mk.injEq, Option.some.injEq] at hApply
            rw [← hApply.2]
            refine .register id parent depth maxDepth
              maxSessions _ (UInt32.not_lt.mp hDepth)
              (UInt32.not_le.mp hRoom) ?_
            cases parent with
            | none => exact Or.inl rfl
            | some p => exact Or.inr ⟨p, rfl, rfl⟩
  | complete id =>
    simp only [Operation.apply, Except.ok.injEq,
      Prod.mk.injEq, Option.some.injEq] at hApply
    rw [← hApply.2]
    exact .complete id
  | release id =>
    simp only [Operation.apply, Except.ok.injEq,
      Prod.mk.injEq, Option.some.injEq] at hApply
    rw [← hApply.2]
    exact .release id
  | ensureSealed proposed =>
    simp only [Operation.apply, ensureSealed] at hApply
    split at hApply
    · simp [Except.map] at hApply
    · split at hApply
      · simp only [Except.map, Except.ok.injEq,
          Prod.mk.injEq, Option.some.injEq] at hApply
        rw [← hApply.2]
        exact .ensureSealed proposed
      · simp [Except.map] at hApply

/- A call leaves the file, or saves a change of what it loaded. -/
theorem nextFile_eq
    (treeId : String) (file : TreeFile) (call : Call) :
    nextFile treeId file call = file ∨
      ∃ next,
        Change call.caller (loadState file) call.operation
          next ∧
        nextFile treeId file call = saveState call.caller.prunedAt next := by
  unfold nextFile perform withLockedTree
  split
  · exact Or.inl rfl
  · split
    · exact Or.inl rfl
    · exact Or.inl rfl
    · next hApply =>
        exact Or.inr ⟨_, change_of_apply hApply, rfl⟩

variable {treeId : String} {file : TreeFile} {call : Call}

/- A call that succeeds decided on the state it loaded. -/
theorem apply_of_perform
    (hOk : (perform treeId call file).1 = .ok outcome) :
    ∃ saved,
      call.operation.apply treeId call.caller
        (loadState file) = .ok (outcome, saved) := by
  unfold perform withLockedTree at hOk
  split at hOk
  · simp at hOk
  · split at hOk
    · simp at hOk
    · next hApply =>
        simp only [Except.ok.injEq] at hOk
        rw [← hOk]
        exact ⟨_, hApply⟩
    · next hApply =>
        simp only [Except.ok.injEq] at hOk
        rw [← hOk]
        exact ⟨_, hApply⟩

/- An admission or registration that succeeds saves. -/
theorem change_of_admitting
    (hAdmits : call.operation.maxSessions?.isSome)
    (hOk : (perform treeId call file).1 = .ok outcome) :
    ∃ next,
      Change call.caller (loadState file) call.operation
        next := by
  rcases apply_of_perform hOk with ⟨saved, hApply⟩
  cases saved with
  | some next => exact ⟨next, change_of_apply hApply⟩
  | none =>
    rcases call with ⟨caller, operation⟩
    cases operation <;>
      simp [Operation.maxSessions?] at hAdmits
    · simp only [Operation.apply, admitSession] at hApply
      repeat' split at hApply
      all_goals simp [Except.map] at hApply
    · simp only [Operation.apply, runRegister] at hApply
      repeat' split at hApply
      all_goals simp [Except.map] at hApply

/- A refused call leaves the file as it was. -/
theorem nextFile_of_error
    {refusal : Refusal}
    (hError : (perform treeId call file).1 = .error refusal) :
    nextFile treeId file call = file := by
  unfold nextFile
  unfold perform withLockedTree at hError ⊢
  split
  · rfl
  · next hValid =>
      simp only [hValid] at hError
      split at hError <;> simp_all

-- Refinement Of The Abstract Budget

/- The sessions that hold a slot. -/
def activeSet (state : TreeState) : Finset String :=
  state.sessions.keysWhere SessionEntry.isActive

/- The budget a tree's state stands for. -/
def budgetOf (state : TreeState) : Budget String ℕ where
  holders := activeSet state
  ceiling := state.ceiling.map UInt32.toNat

theorem card_activeSet (state : TreeState) :
    (activeSet state).card = state.activeTotal :=
  Dict.card_keysWhere _ _

theorem activeSet_pruneStale_subset
    (now : UInt64) (state : TreeState) :
    activeSet (pruneStale now state) ⊆ activeSet state := by
  simp only [activeSet, pruneStale]
  exact Dict.keysWhere_retain_subset _ _ _

theorem activeSet_reapDead_subset
    (caller : Caller) (state : TreeState) :
    activeSet (reapDead caller state) ⊆ activeSet state := by
  simp only [activeSet, reapDead]
  apply Dict.keysWhere_mapValues_subset
  intro id entry hActive
  split at hActive
  · simp [SessionEntry.isActive] at hActive
  · exact hActive

theorem activeSet_markCompleted_subset
    (caller : Caller) (id : String) (state : TreeState) :
    activeSet (markCompleted caller id state) ⊆ activeSet state := by
  simp only [activeSet, markCompleted]
  apply Dict.keysWhere_modify_subset
  intro entry hActive
  simp [SessionEntry.isActive] at hActive

@[simp] theorem status_addChild
    (child : String) (entry : SessionEntry) :
    (addChild child entry).status = entry.status := by
  unfold addChild
  split <;> rfl

@[simp] theorem depth_addChild
    (child : String) (entry : SessionEntry) :
    (addChild child entry).depth = entry.depth := by
  unfold addChild
  split <;> rfl

/- A count below 2^32 is compared exactly. -/
theorem toNat_activeCount
    {state : TreeState} (hSmall : state.activeTotal < 2 ^ 32) :
    state.activeCount.toNat = state.activeTotal := by
  rw [TreeState.activeCount, UInt32.toNat_ofNat']
  exact Nat.mod_eq_of_lt hSmall

theorem effectiveMaxDepth_le_env
    (sealed : Option UInt32) (proposed : UInt32) :
    effectiveMaxDepth sealed (some proposed) ≤
      min proposed maxDepthCeiling := by
  unfold effectiveMaxDepth
  cases sealed with
  | none => exact UInt32.le_refl _
  | some c => exact Std.min_le_right

theorem effectiveMaxDepth_le_ceiling
    (sealed : Option UInt32) (proposed : UInt32) :
    effectiveMaxDepth sealed (some proposed) ≤
      maxDepthCeiling :=
  UInt32.le_trans (effectiveMaxDepth_le_env _ _) Std.min_le_right

theorem effectiveMaxDepth_le_sealed
    (c proposed : UInt32) :
    effectiveMaxDepth (some c) (some proposed) ≤ c :=
  UInt32.le_trans Std.min_le_left Std.min_le_left

variable {caller : Caller} {state next : TreeState}

/- Every change lowers a set ceiling or leaves it. -/
theorem Change.falls
    {operation : Operation} (hChange : Change caller state operation next) :
    Budget.Falls (budgetOf state).ceiling (budgetOf next).ceiling := by
  intro n hMem
  simp only [budgetOf, Option.mem_def, Option.map_eq_some_iff] at hMem
  rcases hMem with ⟨c, hCeiling, rfl⟩
  cases hChange with
  | admitSession id depth proposed maxSessions =>
    refine ⟨_, rfl, ?_⟩
    rw [hCeiling, ← UInt32.le_iff_toNat_le]
    exact effectiveMaxDepth_le_sealed c proposed
  | register id parent depth maxDepth maxSessions sessions =>
    refine ⟨_, rfl, ?_⟩
    simp [hCeiling]
  | complete id => exact ⟨_, by simp [budgetOf, markCompleted, hCeiling], le_refl _⟩
  | release id => exact ⟨_, by simp [budgetOf, markCompleted, hCeiling], le_refl _⟩
  | ensureSealed proposed =>
    refine ⟨_, rfl, ?_⟩
    rw [hCeiling, ← UInt32.le_iff_toNat_le]
    exact effectiveMaxDepth_le_sealed c proposed

/- Every change is a step of the abstract budget. -/
theorem Change.step
    {operation : Operation} {cap : UInt32}
    (hChange : Change caller state operation next)
    (hCap : ∀ m ∈ operation.maxSessions?, m = cap)
    (hSmall : state.activeTotal < 2 ^ 32) (now : UInt64) :
    Budget.Step cap.toNat (budgetOf state)
      (budgetOf (pruneStale now next)) := by
  have hFalls := hChange.falls
  have hPrune := activeSet_pruneStale_subset now next
  cases hChange with
  | admitSession id depth proposed maxSessions hDepth hRoom =>
    have hReap := activeSet_reapDead_subset caller state
    have hTotal : (reapDead caller state).activeTotal < 2 ^ 32 := by
      rw [← card_activeSet] at hSmall ⊢
      exact (Finset.card_le_card hReap).trans_lt hSmall
    refine .join id (activeSet (reapDead caller state)) hReap ?_ ?_ hFalls
    · rw [card_activeSet, ← toNat_activeCount hTotal, ← hCap maxSessions rfl]
      exact UInt32.lt_iff_toNat_lt.mp hRoom
    · exact hPrune.trans (Dict.keysWhere_insert_subset _ _ _ _)
  | register id parent depth maxDepth maxSessions sessions
      hDepth hRoom hSessions =>
      refine .join id (activeSet state) (Finset.Subset.refl _) ?_ ?_ hFalls
      · rw [card_activeSet, ← toNat_activeCount hSmall,
          ← hCap maxSessions rfl]
        exact UInt32.lt_iff_toNat_lt.mp hRoom
      · refine hPrune.trans ?_
        have hInsert := Dict.keysWhere_insert_subset SessionEntry.isActive
          id (newEntry caller depth parent) state.sessions
        rcases hSessions with rfl | ⟨p, _, rfl⟩
        · exact hInsert
        · refine (Dict.keysWhere_modify_subset p _ ?_).trans hInsert
          intro entry hActive
          simpa [SessionEntry.isActive] using hActive
  | complete id =>
    exact .leave (hPrune.trans
      (activeSet_markCompleted_subset caller id state)) hFalls
  | release id =>
    exact .leave (hPrune.trans
      (activeSet_markCompleted_subset caller id state)) hFalls
  | ensureSealed proposed => exact .leave hPrune hFalls

-- The Node Budget Over Runs

/- The call leaves a file its reader takes. -/
def StaysReadable
    (treeId : String) (file : TreeFile) (call : Call) :
    Prop :=
  Readable (nextFile treeId file call)

/- Readable, and any cap the call passes is `cap`. -/
def WithinCap
    (treeId : String) (cap : UInt32) (file : TreeFile) (call : Call) :
    Prop :=
  (∀ m ∈ call.operation.maxSessions?, m = cap) ∧
    StaysReadable treeId file call

/- A readable file within the cap stays so. -/
theorem activeTotal_nextFile_le
    {treeId : String} {cap : UInt32}
    {file : TreeFile} {call : Call} (hReadable : Readable file)
    (hTotal : (storedState file).activeTotal ≤ cap.toNat)
    (hCap : ∀ m ∈ call.operation.maxSessions?, m = cap) :
    (storedState (nextFile treeId file call)).activeTotal ≤
      cap.toNat := by
  rcases nextFile_eq treeId file call with
    hSame | ⟨next, hChange, hNext⟩
  · rw [hSame]
    exact hTotal
  · rw [loadState_of_readable hReadable] at hChange
    have hSmall : (storedState file).activeTotal < 2 ^ 32 :=
      hTotal.trans_lt cap.toNat_lt
    have hStep := hChange.step hCap hSmall call.caller.prunedAt
    rw [hNext, storedState_saveState, ← card_activeSet]
    exact hStep.card_le ((card_activeSet _).trans_le hTotal)

theorem activeTotal_le_of_reaches
    {treeId : String} {cap : UInt32} {file : TreeFile}
    (hRun : Reaches (nextFile treeId) (WithinCap treeId cap) none file) :
    Readable file ∧ (storedState file).activeTotal ≤ cap.toNat := by
  refine hRun.invariant
    (fun file => Readable file ∧
      (storedState file).activeTotal ≤ cap.toNat) ?_
    ⟨trivial, by simp [TreeState.default,
      TreeState.activeTotal, Dict.countValues, Dict.empty]⟩
  rintro file call ⟨hReadable, hTotal⟩ ⟨hCap, hStays⟩
  exact ⟨hStays, activeTotal_nextFile_le hReadable hTotal hCap⟩

/-
  The budget over every run under one cap: at most `cap`
  active sessions, room before every admission, and no
  trace of a refused call.
-/
theorem node_budget
    (treeId : String) (cap : UInt32) (file : TreeFile)
    (hRun : Reaches (nextFile treeId) (WithinCap treeId cap) none file) :
    (storedState file).activeTotal ≤ cap.toNat ∧
    (∀ caller id depth proposed outcome,
      (perform treeId
        ⟨caller, .admitSession id depth proposed cap⟩ file).1 = .ok outcome →
        (reapDead caller (storedState file)).activeTotal < cap.toNat) ∧
    (∀ caller id parent depth maxDepth outcome,
      (perform treeId
        ⟨caller, .register id parent depth maxDepth cap⟩
          file).1 = .ok outcome →
        (storedState file).activeTotal < cap.toNat) ∧
    (∀ call refusal,
      (perform treeId call file).1 = .error refusal →
        nextFile treeId file call = file) := by
  rcases activeTotal_le_of_reaches hRun with ⟨hReadable, hTotal⟩
  have hLoad := loadState_of_readable hReadable
  have hSmall : (storedState file).activeTotal < 2 ^ 32 :=
    hTotal.trans_lt cap.toNat_lt
  refine ⟨hTotal, ?_, ?_, fun _ _ => nextFile_of_error⟩
  · intro caller id depth proposed outcome hOk
    have hReap :
        (reapDead caller (storedState file)).activeTotal < 2 ^ 32 := by
      rw [← card_activeSet] at hSmall ⊢
      exact (Finset.card_le_card
        (activeSet_reapDead_subset _ _)).trans_lt hSmall
    rcases change_of_admitting rfl hOk with ⟨next, hChange⟩
    rw [hLoad] at hChange
    cases hChange with
    | admitSession _ _ _ _ _ hRoom =>
      rw [← toNat_activeCount hReap]
      exact UInt32.lt_iff_toNat_lt.mp hRoom
  · intro caller id parent depth maxDepth outcome hOk
    rcases change_of_admitting rfl hOk with ⟨next, hChange⟩
    rw [hLoad] at hChange
    cases hChange with
    | register _ _ _ _ _ _ _ hRoom _ =>
      rw [← toNat_activeCount hSmall]
      exact UInt32.lt_iff_toNat_lt.mp hRoom

set_option maxRecDepth 20000 in
/- One admission under a cap of one fills the tree. -/
theorem node_budget_of_one_admission :
    (storedState (nextFile "tree" none
      ⟨Caller.steady 100, .admitSession "root" 0 3 1⟩)).activeTotal ≤
        1 :=
  (node_budget "tree" 1 _
    ((Reaches.refl none).tail
      ⟨Caller.steady 100, .admitSession "root" 0 3 1⟩
      ⟨by simp [Operation.maxSessions?],
        by unfold StaysReadable; decide⟩)).1

end SessionTree
