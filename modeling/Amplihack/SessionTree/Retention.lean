import Amplihack.SessionTree.Ceiling

/-
  What a tree's file may lose.

  A live holder's entry survives the operations of others
  while it is younger than the age limit and the file stays
  within the reader's limit. A saved state is read back
  exactly when its text is within that limit, which the
  writer does not check.

  The writer has no size limit; the reader has one.

  Completed sessions stay in the file for a day. A saved
  state is read back exactly when its text is within the
  reader's limit, and a long day of short sessions is not.
-/

-- Holders Across One Change

namespace SessionTree

open Base

/- The entry holds a slot for the process that took it. -/
def HeldBy
    (state : TreeState) (id : String) (entry : SessionEntry) :
    Prop :=
  ∃ e, state.sessions.get? id = some e ∧
    e.status = .active ∧ e.pid = entry.pid ∧
    e.startedAt = entry.startedAt

theorem HeldBy.insert
    {state : TreeState} {id : String} {entry : SessionEntry}
    (hHeld : HeldBy state id entry) {other : String} (fresh : SessionEntry)
    (hOther : other ≠ id) :
    HeldBy { state with
      sessions := state.sessions.insert other fresh } id
      entry := by
  rcases hHeld with ⟨e, hGet, hRest⟩
  refine ⟨e, ?_, hRest⟩
  rw [Dict.get?_insert, if_neg (Ne.symm hOther), hGet]

theorem HeldBy.markCompleted
    {state : TreeState} {id : String} {entry : SessionEntry}
    (hHeld : HeldBy state id entry)
    (caller : Caller) {other : String} (hOther : other ≠ id) :
    HeldBy (markCompleted caller other state) id entry := by
  rcases hHeld with ⟨e, hGet, hRest⟩
  refine ⟨e, ?_, hRest⟩
  simp only [SessionTree.markCompleted, Dict.get?_modify]
  rw [if_neg (Ne.symm hOther), hGet]

theorem HeldBy.reapDead
    {state : TreeState} {id : String} {entry : SessionEntry}
    (hHeld : HeldBy state id entry) {caller : Caller}
    (hLive : holderIsLive caller entry = true) :
    HeldBy (reapDead caller state) id entry := by
  rcases hHeld with ⟨e, hGet, hActive, hPid, hStarted⟩
  have hSame : holderIsLive caller e = holderIsLive caller entry := by
    simp [holderIsLive, hPid]
  refine ⟨e, ?_, hActive, hPid, hStarted⟩
  simp [SessionTree.reapDead, hGet, hSame, hLive]

/- Listing a child leaves the parent's slot alone. -/
theorem HeldBy.modify_addChild
    {state : TreeState} {id : String} {entry : SessionEntry}
    (hHeld : HeldBy state id entry) (parent child : String) :
    HeldBy { state with
      sessions := state.sessions.modify parent
        (addChild child) } id entry := by
  rcases hHeld with ⟨e, hGet, hActive, hPid, hStarted⟩
  by_cases hParent : id = parent
  · refine ⟨addChild child e, ?_, ?_⟩
    · rw [Dict.get?_modify, if_pos hParent, hGet]
      rfl
    · unfold addChild
      split <;> exact ⟨hActive, hPid, hStarted⟩
  · refine ⟨e, ?_, hActive, hPid, hStarted⟩
    rw [Dict.get?_modify, if_neg hParent, hGet]

/- No change takes a live holder's slot but in its own name. -/
theorem Change.heldBy
    {caller : Caller} {state next : TreeState}
    {operation : Operation} {id : String} {entry : SessionEntry}
    (hChange : Change caller state operation next)
    (hHeld : HeldBy state id entry) (hLive : holderIsLive caller entry = true)
    (hOther : operation.sessionId? ≠ some id) :
    HeldBy next id entry := by
  cases hChange with
  | admitSession other depth proposed maxSessions =>
    have hNe : other ≠ id := by simpa [Operation.sessionId?] using hOther
    exact (hHeld.reapDead hLive).insert _ hNe
  | register other parent depth maxDepth maxSessions sessions
      _ _ hSessions =>
      have hNe : other ≠ id := by simpa [Operation.sessionId?] using hOther
      have hInsert := hHeld.insert (newEntry caller depth parent) hNe
      rcases hSessions with rfl | ⟨p, _, rfl⟩
      · exact hInsert
      · exact hInsert.modify_addChild p other
  | complete other =>
    have hNe : other ≠ id := by simpa [Operation.sessionId?] using hOther
    exact hHeld.markCompleted caller hNe
  | release other =>
    have hNe : other ≠ id := by simpa [Operation.sessionId?] using hOther
    exact hHeld.markCompleted caller hNe
  | ensureSealed proposed => exact hHeld

/- Pruning keeps an active entry that is young enough. -/
theorem HeldBy.pruneStale
    {state : TreeState} {id : String} {entry : SessionEntry}
    (hHeld : HeldBy state id entry) {now : UInt64}
    (hYoung : now.toNat - activeMaxAgeSecs.toNat ≤ entry.startedAt.toNat) :
    HeldBy (pruneStale now state) id entry := by
  rcases hHeld with ⟨e, hGet, hActive, hPid, hStarted⟩
  refine ⟨e, ?_, hActive, hPid, hStarted⟩
  rw [SessionTree.pruneStale, Dict.get?_retain_eq_some_iff]
  refine ⟨hGet, ?_⟩
  simpa [isFresh, hActive, hStarted] using hYoung

-- A Live Holder Over Runs

/-
  The call leaves room for `entry` under `id`: it names
  another session, sees the holder live, finds a file within
  the reader's limit, and prunes less than four hours after
  the entry's start.
-/
structure Spares
    (id : String) (entry : SessionEntry) (file : TreeFile) (call : Call) :
    Prop where
  other : call.operation.sessionId? ≠ some id
  live : holderIsLive call.caller entry = true
  readable : Readable file
  young : call.caller.prunedAt.toNat -
    activeMaxAgeSecs.toNat ≤ entry.startedAt.toNat

theorem heldBy_nextFile
    {treeId : String} {file : TreeFile} {call : Call}
    {id : String} {entry : SessionEntry}
    (hHeld : HeldBy (storedState file) id entry)
    (hSpares : Spares id entry file call) :
    HeldBy (storedState (nextFile treeId file call)) id
      entry := by
  rcases nextFile_eq treeId file call with
    hSame | ⟨next, hChange, hNext⟩
  · rw [hSame]
    exact hHeld
  · rw [loadState_of_readable hSpares.readable] at hChange
    rw [hNext, storedState_saveState]
    exact (hChange.heldBy hHeld hSpares.live
      hSpares.other).pruneStale hSpares.young

/-
  From any file, reached or not, an active entry stays
  active through every run of calls that spare it.
-/
theorem live_holder_keeps_slot
    (treeId : String) (file later : TreeFile)
    (id : String) (entry : SessionEntry)
    (hEntry : (storedState file).sessions.get? id = some entry)
    (hActive : entry.status = .active)
    (hRun : Reaches (nextFile treeId) (Spares id entry) file later) :
    ∃ e, (storedState later).sessions.get? id = some e ∧
      e.status = .active ∧ e.pid = entry.pid ∧
      e.startedAt = entry.startedAt :=
  hRun.invariant
    (fun file => HeldBy (storedState file) id entry)
    (fun _ _ => heldBy_nextFile)
    ⟨entry, hEntry, hActive, rfl, rfl⟩

/- Any file a run from the missing file reaches. -/
def Reachable (treeId : String) : TreeFile → Prop :=
  Reaches (nextFile treeId) (fun _ _ => True) none

theorem Reachable.tail
    {treeId : String} {file : TreeFile}
    (hRun : Reachable treeId file) (call : Call) :
    Reachable treeId (nextFile treeId file call) :=
  Reaches.tail hRun call trivial

/- A tree a live holder entered at second 100. -/
def heldTree : TreeFile :=
  nextFile "tree" none ⟨Caller.steady 100, .admitSession "holder" 0 3 10⟩

set_option maxRecDepth 20000 in
/-
  Releasing another session four hours and a second later
  prunes the live holder.
-/
theorem live_holder_pruned_after_four_hours :
    ¬ ∀ treeId file call id entry,
        Reachable treeId file →
        (storedState file).sessions.get? id = some entry →
        entry.status = .active →
        holderIsLive call.caller entry = true →
        call.operation.sessionId? ≠ some id →
          ∃ e,
            (storedState (nextFile treeId file
              call)).sessions.get? id = some e ∧
            e.status = .active := by
  intro hClaim
  have hStart : Reachable "tree" none := Reaches.refl none
  have hReached : Reachable "tree" heldTree := hStart.tail _
  rcases hClaim "tree" heldTree
    ⟨Caller.steady 14501, .release "other"⟩ "holder"
    (newEntry (Caller.steady 100) 0 none)
    hReached (by decide) rfl rfl (by decide) with
    ⟨e, hGet, _⟩
  have hGone :
      (storedState (nextFile "tree" heldTree
        ⟨Caller.steady 14501, .release "other"⟩)).sessions.get?
          "holder" = none := by decide
  rw [hGone] at hGet
  simp at hGet

set_option maxRecDepth 20000 in
theorem live_holder_keeps_slot_within_four_hours :
    ∃ e,
      (storedState (nextFile "tree" heldTree
        ⟨Caller.steady 14500, .release "other"⟩)).sessions.get?
          "holder" = some e ∧
      e.status = .active ∧ e.pid = some 1 ∧
      e.startedAt = 100 := by
  have hStart :
      Reaches (nextFile "tree")
        (Spares "holder" (newEntry (Caller.steady 100) 0 none))
        heldTree heldTree := Reaches.refl heldTree
  exact live_holder_keeps_slot "tree" heldTree _ "holder"
    (newEntry (Caller.steady 100) 0 none)
    (by decide) rfl
    (hStart.tail ⟨Caller.steady 14500, .release "other"⟩
      ⟨by decide, rfl, by decide, by decide⟩)

end SessionTree

-- Writer And Reader

namespace SessionTree

open Base

/- The empty tree is within the reader's limit. -/
theorem bytes_default_le :
    TreeState.default.bytes ≤ maxStateFileBytes := by
  decide

/- A write is read back exactly when the reader takes it. -/
theorem loadState_saveState_iff
    (now : UInt64) (state : TreeState) :
    loadState (saveState now state) = pruneStale now state ↔
      (pruneStale now state).bytes ≤ maxStateFileBytes := by
  rw [← readable_saveState_iff]
  constructor
  · intro hLoad
    by_contra hLarge
    rw [loadState, if_neg hLarge] at hLoad
    rw [readable_saveState_iff, ← hLoad] at hLarge
    exact hLarge bytes_default_le
  · intro hReadable
    rw [loadState_of_readable hReadable, storedState_saveState]

/- Whatever the call saves is within the reader's limit. -/
def SavesWithinLimit
    (treeId : String) (file : TreeFile) (call : Call) :
    Prop :=
  ∀ outcome state,
    call.operation.apply treeId call.caller
      (loadState file) = .ok (outcome, some state) →
    (pruneStale call.caller.prunedAt state).bytes ≤ maxStateFileBytes

theorem readable_nextFile
    {treeId : String} {file : TreeFile} {call : Call}
    (hReadable : Readable file) (hSaves : SavesWithinLimit treeId file call) :
    Readable (nextFile treeId file call) := by
  unfold nextFile perform withLockedTree
  split
  · exact hReadable
  · split
    · exact hReadable
    · exact hReadable
    · next hApply =>
        exact readable_saveState_iff.mpr (hSaves _ _ hApply)

/- A state some operation of a run hands to the writer. -/
def HandedToSave (treeId : String) (state : TreeState) :
    Prop :=
  ∃ (file : TreeFile) (call : Call) (outcome : Outcome),
    Reachable treeId file ∧
    call.operation.validate = .ok () ∧
    call.operation.apply treeId call.caller
      (loadState file) = .ok (outcome, some state)

/-
  Any state, reached by a run or not, is read back as saved
  if and only if its text is within the reader's limit; so a
  run whose writes all are loses nothing.
-/
theorem saved_tree_survives
    (treeId : String) (now : UInt64) (state : TreeState) :
    (loadState (saveState now state) = pruneStale now state ↔
      (pruneStale now state).bytes ≤ maxStateFileBytes) ∧
    (∀ file,
      Reaches (nextFile treeId) (SavesWithinLimit treeId)
        none file →
        loadState file = storedState file) := by
  refine ⟨loadState_saveState_iff now state, ?_⟩
  intro file hRun
  apply loadState_of_readable
  exact hRun.invariant Readable (fun _ _ => readable_nextFile)
    trivial

/- An empty tree is read back as saved. -/
theorem saved_tree_survives_of_default :
    loadState (saveState 100 .default) = pruneStale 100 .default :=
  (saved_tree_survives "tree" 100 .default).1.mpr (by decide)

-- A Long Day Of Short Sessions

/- The `i`-th session of the day. -/
def sessionName (i : ℕ) : String :=
  String.ofList (Nat.toDigits 10 i)

/- A session that ended within the second it began. -/
def shortSession : SessionEntry where
  depth := 0
  parent := none
  status := .completed
  startedAt := 100
  completedAt := some 100
  children := []
  pid := some 1

/- The first `n` sessions ended; no other ever began. -/
structure Finished (n : ℕ) (state : TreeState) : Prop where
  only : ∀ id entry,
    state.sessions.get? id = some entry → entry = shortSession
  all : ∀ i < n, state.sessions.get? (sessionName i) = some shortSession

theorem sessionName_injective :
    Function.Injective sessionName := by
  intro i j hEq
  have hDigits := String.ofList_injective hEq
  rw [← Nat.ofDigitChars_ten_toDigits (n := i), hDigits,
    Nat.ofDigitChars_ten_toDigits]

theorem isIdChar_of_isDigit
    {c : Char} (hDigit : c.isDigit = true) :
    isIdChar c = true := by
  simp [isIdChar, Char.isAlphanum, hDigit]

theorem validateTreeId_sessionName
    {i : ℕ} (hSmall : i < 10 ^ 64) :
    validateTreeId (sessionName i) = true := by
  have hAll : (Nat.toDigits 10 i).all isIdChar = true :=
    List.all_eq_true.mpr fun c hMem =>
      isIdChar_of_isDigit (isDigit_of_mem_decimal hMem)
  have hPos : 0 < (Nat.toDigits 10 i).length := Nat.length_toDigits_pos
  have hLength : (Nat.toDigits 10 i).length ≤ 64 :=
    (Nat.length_toDigits_le_iff (by decide) (by decide)).mpr hSmall
  simp [validateTreeId, sessionName, hAll, hLength, Nat.succ_le_of_lt hPos]

set_option maxRecDepth 20000 in
theorem bytes_shortSession :
    150 ≤ textBytes (Json.pretty 2 shortSession.toJson) := by
  decide

/- Every ended session takes its share of the file. -/
theorem bytes_of_finished
    {n : ℕ} {state : TreeState} (hFinished : Finished n state) :
    150 * n ≤ state.bytes := by
  have hShare :
      ∀ e ∈ state.sessions.entries,
        150 ≤ textBytes (Json.pretty 2 e.2.toJson) := by
    intro e hMem
    have hGet := Dict.get?_of_mem_entries (d := state.sessions) hMem
    rw [hFinished.only e.1 e.2 hGet]
    exact bytes_shortSession
  have hCount : n ≤ state.sessions.entries.length := by
    have hNodup : ((List.range n).map sessionName).Nodup :=
      List.nodup_range.map sessionName_injective
    have hSub :
        (List.range n).map sessionName ⊆
          state.sessions.keys := by
      intro id hMem
      rcases List.mem_map.mp hMem with ⟨i, hi, rfl⟩
      have hGet := hFinished.all i (List.mem_range.mp hi)
      exact List.mem_map.mpr ⟨_, Dict.get?_eq_some_iff.mp hGet, rfl⟩
    have hLength := (hNodup.subperm hSub).length_le
    simpa [Dict.keys] using hLength
  calc
    150 * n ≤ 150 * (state.sessions.entries.map
        fun e => (e.1, e.2.toJson)).length := by
      rw [List.length_map]
      omega
    _ ≤ textBytes (Json.prettyMembers 2
        (state.sessions.entries.map fun e => (e.1, e.2.toJson))) :=
      Json.mul_length_le_prettyMembers (by
        intro m hMem
        rcases List.mem_map.mp hMem with ⟨e, hEntry, rfl⟩
        exact hShare e hEntry)
    _ ≤ textBytes (Json.pretty 1 (.obj
        (state.sessions.entries.map fun e => (e.1, e.2.toJson)))) :=
      Json.textBytes_prettyMembers_le 1 _
    _ ≤ textBytes (Json.pretty 0 state.toJson) := by
      refine le_trans ?_ (Json.textBytes_prettyMembers_le 0 _)
      refine le_trans (Nat.le_add_right _ _)
        (Json.textBytes_prettyMembers_cons 1 ("sessions", _) _)

-- One Session After Another

/- At second 100 nothing is a day, or four hours, old. -/
theorem pruneStale_early (state : TreeState) :
    pruneStale 100 state = state := by
  have hFresh : ∀ (id : String) (e : SessionEntry), isFresh 100 e = true := by
    intro id e
    unfold isFresh
    split
    · have hCutoff : (100 : UInt64).toNat -
        completedMaxAgeSecs.toNat = 0 := by decide
      rw [hCutoff]
      exact decide_eq_true (Nat.zero_le _)
    · have hCutoff : (100 : UInt64).toNat -
        activeMaxAgeSecs.toNat = 0 := by decide
      rw [hCutoff]
      exact decide_eq_true (Nat.zero_le _)
  rw [pruneStale, Dict.retain_eq_self fun e _ => hFresh e.1 e.2]

/- With every session ended the tree has room. -/
theorem activeCount_of_finished
    {n : ℕ} {state : TreeState} (hFinished : Finished n state) :
    state.activeCount = 0 := by
  have hNone : activeSet state = ∅ := by
    rw [Finset.eq_empty_iff_forall_notMem]
    intro id hMem
    rcases Dict.mem_keysWhere_iff.mp hMem with ⟨entry, hGet, hActive⟩
    rw [hFinished.only id entry hGet] at hActive
    simp [SessionEntry.isActive, shortSession] at hActive
  rw [TreeState.activeCount, ← card_activeSet, hNone]
  rfl

/- The call that begins the `n`-th session. -/
def begins (n : ℕ) : Call :=
  ⟨Caller.steady 100, .register (sessionName n) none 0 3 10⟩

def ends (n : ℕ) : Call :=
  ⟨Caller.steady 100, .complete (sessionName n)⟩

/- The state with the `n`-th session begun. -/
def begun (n : ℕ) (state : TreeState) : TreeState :=
  { state with
    ceiling := some (state.ceiling.getD
      (effectiveMaxDepth state.ceiling (some 3)))
    sessions := state.sessions.insert (sessionName n)
      (newEntry (Caller.steady 100) 0 none) }

theorem apply_begins
    {treeId : String} {n : ℕ} {state : TreeState}
    (hFinished : Finished n state) :
    (begins n).operation.apply treeId (begins n).caller
      state = .ok (.registered, some (begun n state)) := by
  have hCount := activeCount_of_finished hFinished
  simp [begins, Operation.apply, runRegister, hCount, begun, Except.map]

theorem finished_succ
    {n : ℕ} {state : TreeState} (hFinished : Finished n state) :
    Finished (n + 1)
      (markCompleted (Caller.steady 100) (sessionName n)
        (begun n state)) := by
  have hGet :
      ∀ id,
        (markCompleted (Caller.steady 100) (sessionName n)
          (begun n state)).sessions.get? id =
            if id = sessionName n then some shortSession
            else state.sessions.get? id := by
    intro id
    simp only [markCompleted, begun, Dict.get?_modify, Dict.get?_insert]
    split <;> rfl
  constructor
  · intro id entry hEntry
    rw [hGet] at hEntry
    split at hEntry
    · simpa using hEntry.symm
    · exact hFinished.only id entry hEntry
  · intro i hi
    rw [hGet]
    split
    · rfl
    · next hNe =>
        have hLt : i < n := by
          rcases Nat.lt_succ_iff_lt_or_eq.mp hi with
            hLt | rfl
          · exact hLt
          · exact absurd rfl hNe
        exact hFinished.all i hLt

theorem nextFile_of_apply
    {treeId : String} {file : TreeFile} {call : Call}
    {outcome : Outcome} {state : TreeState}
    (hValid : call.operation.validate = .ok ())
    (hApply :
      call.operation.apply treeId call.caller
        (loadState file) = .ok (outcome, some state)) :
    nextFile treeId file call = saveState call.caller.prunedAt state := by
  simp [nextFile, perform, withLockedTree, hValid, hApply]

/- Every state handed to the writer would be read back. -/
def AllReadBack (treeId : String) : Prop :=
  ∀ state, HandedToSave treeId state →
    ∀ now, loadState (saveState now state) = pruneStale now state

/- A call at second 100 that saves, if its write is read back. -/
theorem step_early
    {treeId : String} {file : TreeFile} {call : Call}
    {outcome : Outcome} {state : TreeState} (hClaim : AllReadBack treeId)
    (hReach : Reachable treeId file) (hNow : call.caller.prunedAt = 100)
    (hValid : call.operation.validate = .ok ())
    (hApply :
      call.operation.apply treeId call.caller
        (loadState file) = .ok (outcome, some state)) :
    ∃ later, Reachable treeId later ∧
      loadState later = state ∧
      state.bytes ≤ maxStateFileBytes := by
  have hLoad := hClaim state ⟨file, call, outcome, hReach, hValid, hApply⟩ 100
  have hBytes := (loadState_saveState_iff 100 state).mp hLoad
  rw [pruneStale_early] at hLoad hBytes
  refine ⟨nextFile treeId file call, hReach.tail call, ?_, hBytes⟩
  rw [nextFile_of_apply hValid hApply, hNow, hLoad]

/- Were every write read back, the day could go on. -/
theorem finished_reachable
    {treeId : String} (hClaim : AllReadBack treeId) :
    ∀ n ≤ 10 ^ 64, ∃ file,
      Reachable treeId file ∧ Finished n (loadState file) ∧
        (0 < n → (loadState file).bytes ≤ maxStateFileBytes) := by
  intro n
  induction n with
  | zero =>
    intro _
    refine ⟨none, Reaches.refl none, ?_, by simp⟩
    constructor <;> simp [loadState, Readable, TreeState.default]
  | succ n ih =>
    intro hSmall
    rcases ih (by omega) with ⟨file, hReach, hFinished, _⟩
    have hId :=
      validateTreeId_sessionName (i := n) (by omega)
    rcases step_early hClaim hReach rfl
      (by simp [begins, Operation.validate, hId])
      (apply_begins hFinished) with
      ⟨file₁, hReach₁, hLoad₁, _⟩
    have hEnds :
        (ends n).operation.apply treeId (ends n).caller
            (loadState file₁) =
          .ok (.completed, some
            (markCompleted (Caller.steady 100)
              (sessionName n) (loadState file₁))) := rfl
    rcases step_early hClaim hReach₁ rfl
      (by simp [ends, Operation.validate, hId]) hEnds with
      ⟨file₂, hReach₂, hLoad₂, hBytes₂⟩
    refine ⟨file₂, hReach₂, ?_, fun _ => hLoad₂ ▸ hBytes₂⟩
    rw [hLoad₂, hLoad₁]
    exact finished_succ hFinished

/- Seven thousand short sessions outgrow the reader's limit. -/
theorem large_tree_lost :
    ¬ ∀ treeId state, HandedToSave treeId state →
        ∀ now, loadState (saveState now state) = pruneStale now state := by
  intro hClaim
  rcases finished_reachable (hClaim "tree") 7000
    (by norm_num) with ⟨file, _, hFinished, hBytes⟩
  have hLarge := bytes_of_finished hFinished
  have hSmall := hBytes (by norm_num)
  unfold maxStateFileBytes at hSmall
  omega

end SessionTree
