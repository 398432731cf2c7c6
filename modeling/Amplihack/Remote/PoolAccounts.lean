import Amplihack.Base.Runs
import Amplihack.Remote.VmPool

/-
  How the pool accounts for sessions over a run of
  allocations and releases.
-/

-- Accounted pools

namespace Remote

open Base

variable {S : Type}

/- No entry holds more sessions than its capacity. -/
def Within (pool : VMPool) : Prop :=
  ∀ k e, pool.get? k = some e → e.activeSessions.length ≤ e.capacity

/- And each session is recorded once, on one VM. -/
structure Accounted (pool : VMPool) : Prop where
  within : Within pool
  once : PlacedOnce VMPoolEntry.activeSessions pool

inductive PoolCall where
| allocate
    (sessionId : String)
    (size : VMSize)
    (region : String)
    (ans : PoolAnswers)
| release (sessionId : String) (ans : PoolAnswers)

def PoolCall.run
    (username : String) (state : PoolState S) :
    PoolCall → PoolState S
| .allocate sessionId size region ans =>
  (allocateVm username ans sessionId size region state).2
| .release sessionId ans => releaseSession ans sessionId state

/-
  What a call keeps: an allocation removes no session and
  undoes nothing or fails without effect; a release removes
  the named session and changes nothing else.
-/
def Kept (username : String) (state : PoolState S) :
    PoolCall → Prop
| .allocate sessionId size region ans =>
  (∀ k e s, state.pool.get? k = some e →
    s ∈ e.activeSessions →
    ∃ e',
      (allocateVm username ans sessionId size region
        state).2.pool.get? k = some e' ∧
      s ∈ e'.activeSessions) ∧
  ∀ err,
    (allocateVm username ans sessionId size region state).1 = .error err →
    (allocateVm username ans sessionId size region state).2 = state
| .release sessionId ans =>
  ∀ k,
    (releaseSession ans sessionId state).pool.get? k =
      (state.pool.get? k).map (VMPoolEntry.without sessionId)

/-
  When an allocation fits the pool: the session is recorded
  nowhere else, a machine that comes from outside replaces no
  entry with other sessions, and the pool can be saved.
-/
def Fits (username : String) (state : PoolState S) :
    PoolCall → Prop
| .allocate sessionId size region ans =>
  isBlank sessionId = true ∨
    match reusableEntry ans region state.pool with
    | some _ =>
      ¬Placed VMPoolEntry.activeSessions state.pool sessionId ∧
      ans.io = .fine ∧ state.file.Mergeable = true
    | none =>
      ∀ vm,
        provisionOrReuse username ans.azlin
          (poolOptions size region) = .ok vm →
        (∀ k e, state.pool.get? k = some e →
          sessionId ∈ e.activeSessions → k = vm.name) ∧
        (∀ e, state.pool.get? vm.name = some e →
          e.activeSessions ⊆ [sessionId]) ∧
        ans.io = .fine ∧ state.file.Mergeable = true
| .release _ _ => True

-- One allocation

variable {username : String} {ans : PoolAnswers}
variable {sessionId : String} {size : VMSize} {region : String}
variable {pool pool' : VMPool} {vm : VM}

/- An allocation writes one entry and leaves the others. -/
theorem allocateInMemory_cases
    (hAlloc :
      allocateInMemory username ans sessionId size region
        pool = .ok (vm, pool')) :
    isBlank sessionId = false ∧
      ((∃ name e, reusableEntry ans region pool = some (name, e) ∧
          pool.get? name = some e ∧
          e.activeSessions.length < e.capacity ∧
          pool'.get? name = some (e.push sessionId) ∧
          ∀ k, k ≠ name → pool'.get? k = pool.get? k) ∨
        (reusableEntry ans region pool = none ∧
          provisionOrReuse username ans.azlin
            (poolOptions size region) = .ok vm ∧
          pool'.get? vm.name = some (freshEntry vm sessionId size region) ∧
          ∀ k, k ≠ vm.name → pool'.get? k = pool.get? k)) := by
  rw [allocateInMemory] at hAlloc
  cases hBlank : isBlank sessionId with
  | true => simp [hBlank] at hAlloc
  | false =>
    refine ⟨rfl, ?_⟩
    simp only [hBlank, Bool.false_eq_true, if_false]
      at hAlloc
    cases hFirst : reusableEntry ans region pool with
    | some found =>
      rcases found with ⟨name, e⟩
      rcases get?_of_firstEntry hFirst with ⟨hGet, hReusable⟩
      simp only [hFirst, Except.ok.injEq, Prod.mk.injEq] at hAlloc
      rcases hAlloc with ⟨-, rfl⟩
      refine Or.inl ⟨name, e, rfl, hGet, ?_, ?_, ?_⟩
      · simp only [VMPoolEntry.isReusable, VMPoolEntry.availableCapacity,
          Bool.and_eq_true, bne_iff_ne, ne_eq]
          at hReusable
        omega
      · rw [Dict.get?_modify, if_pos rfl, hGet, Option.map_some]
      · intro k hNe
        rw [Dict.get?_modify, if_neg hNe]
    | none =>
      simp only [hFirst] at hAlloc
      cases hMade : provisionOrReuse username ans.azlin
          (poolOptions size region) with
      | error err => simp [hMade, bind, Except.bind] at hAlloc
      | ok made =>
        simp only [hMade, bind, Except.bind, pure, Except.pure,
          Except.ok.injEq, Prod.mk.injEq] at hAlloc
        rcases hAlloc with ⟨rfl, rfl⟩
        refine Or.inr ⟨rfl, rfl, ?_, ?_⟩
        · rw [Dict.get?_insert, if_pos rfl]
        · intro k hNe
          rw [Dict.get?_insert, if_neg hNe]

/- The capacity bound outlives every allocation. -/
theorem within_allocateInMemory
    (hWithin : Within pool)
    (hAlloc :
      allocateInMemory username ans sessionId size region
        pool = .ok (vm, pool')) :
    Within pool' := by
  intro k e' hGet
  rcases allocateInMemory_cases hAlloc with
    ⟨-, ⟨name, e, -, -, hRoom, hSelf, hOthers⟩ | ⟨-, -, hSelf, hOthers⟩⟩
  · by_cases hKey : k = name
    · subst hKey
      rw [hSelf] at hGet
      have hEntry := Option.some.inj hGet
      subst hEntry
      simpa [VMPoolEntry.push] using Nat.succ_le_of_lt hRoom
    · rw [hOthers k hKey] at hGet
      exact hWithin k e' hGet
  · by_cases hKey : k = vm.name
    · subst hKey
      rw [hSelf] at hGet
      have hEntry := Option.some.inj hGet
      subst hEntry
      simpa [freshEntry] using size.capacity_pos
    · rw [hOthers k hKey] at hGet
      exact hWithin k e' hGet

variable {state : PoolState S}

/- The memory after a call that got past its checks. -/
theorem pool_allocateVm
    (hAlloc :
      allocateInMemory username ans sessionId size region
        state.pool = .ok (vm, pool')) :
    (allocateVm username ans sessionId size region state).2.pool = pool' := by
  simp only [allocateVm, hAlloc]
  split <;> rfl

theorem allocateVm_of_error
    {err : RemoteError}
    (hAlloc :
      allocateInMemory username ans sessionId size region
        state.pool = .error err) :
    allocateVm username ans sessionId size region state =
      (.error err, state) := by
  simp only [allocateVm, hAlloc]

/- A pool that can be saved makes the allocation succeed. -/
theorem allocateVm_ok
    (hAlloc :
      allocateInMemory username ans sessionId size region
        state.pool = .ok (vm, pool'))
    (hIo : ans.io = .fine)
    (hFile : state.file.Mergeable = true) :
    (allocateVm username ans sessionId size region state).1 = .ok vm := by
  have hSaved : (savePool ans.io pool' state.file).1 = .ok () :=
    (mergeKeyIntoState_ok_iff _ _ _).mpr ⟨hIo, hFile⟩
  simp only [allocateVm, hAlloc, hSaved]

/- What `Fits` gives once the checks are passed. -/
theorem fits_allocate
    (hFits : Fits username state (.allocate sessionId size region ans))
    (hOnce : PlacedOnce VMPoolEntry.activeSessions state.pool)
    (hAlloc :
      allocateInMemory username ans sessionId size region
        state.pool = .ok (vm, pool')) :
    (ans.io = .fine ∧ state.file.Mergeable = true) ∧
      PlacedOnce VMPoolEntry.activeSessions pool' ∧
      ∀ k e s, state.pool.get? k = some e →
        s ∈ e.activeSessions →
        ∃ e', pool'.get? k = some e' ∧ s ∈ e'.activeSessions := by
  rcases allocateInMemory_cases hAlloc with ⟨hText, hCases⟩
  rcases hFits with hBlank | hFits
  · simp [hBlank] at hText
  rcases hCases with
    ⟨name, e, hFirst, hGet, -, hSelf, hOthers⟩ |
      ⟨hFirst, hMade, hSelf, hOthers⟩
  · simp only [hFirst] at hFits
    rcases hFits with ⟨hNew, hSaves⟩
    refine ⟨hSaves, ?_, ?_⟩
    · refine hOnce.of_update hOthers hSelf ?_ ?_
      · rw [VMPoolEntry.push, List.nodup_append]
        refine ⟨hOnce.nodup name e hGet, by simp, ?_⟩
        intro a hMem b hLast hEq
        rw [List.mem_singleton] at hLast
        subst hLast hEq
        exact hNew ⟨name, e, hGet, hMem⟩
      · intro s hMem k' e' hGet' hMem'
        simp only [VMPoolEntry.push, List.mem_append,
          List.mem_singleton] at hMem
        rcases hMem with hMem | rfl
        · exact hOnce.holder k' name e' e s hGet' hGet hMem' hMem
        · exact absurd ⟨k', e', hGet', hMem'⟩ hNew
    · intro k e₁ s hGet₁ hMem
      refine kept_of_update hOthers hSelf ?_ hGet₁ hMem
      intro e₂ hGet₂
      rw [hGet] at hGet₂
      have hEntry := Option.some.inj hGet₂
      subst hEntry
      exact List.subset_append_left _ _
  · simp only [hFirst] at hFits
    rcases hFits vm hMade with ⟨hElse, hSole, hSaves⟩
    refine ⟨hSaves, ?_, ?_⟩
    · refine hOnce.of_update hOthers hSelf (by simp [freshEntry]) ?_
      intro s hMem k' e' hGet' hMem'
      simp only [freshEntry, List.mem_singleton] at hMem
      subst hMem
      exact hElse k' e' hGet' hMem'
    · intro k e₁ s hGet₁ hMem
      exact kept_of_update hOthers hSelf hSole hGet₁ hMem

-- Every call

/- The map after a release, whatever the save answers. -/
theorem pool_releaseSession
    (ans : PoolAnswers) (sessionId : String) (state : PoolState S) :
    (releaseSession ans sessionId state).pool =
      (releaseInMemory ans.order sessionId state.pool).getD state.pool := by
  rw [releaseSession]
  split <;> next hReleased => simp [hReleased]

theorem within_run
    (username : String) (state : PoolState S) (call : PoolCall)
    (hWithin : Within state.pool) :
    Within (call.run username state).pool := by
  cases call with
  | allocate sessionId size region ans =>
    rw [PoolCall.run]
    cases hAlloc : allocateInMemory username ans sessionId
        size region state.pool with
    | error err =>
      rw [allocateVm_of_error hAlloc]
      exact hWithin
    | ok made =>
      rw [pool_allocateVm hAlloc]
      exact within_allocateInMemory hWithin hAlloc
  | release sessionId ans =>
    rw [PoolCall.run, pool_releaseSession, releaseInMemory]
    split
    · exact hWithin
    · intro k e' hGet
      rw [Option.getD_some, Dict.get?_modify] at hGet
      split at hGet
      · rcases Option.map_eq_some_iff.mp hGet with
          ⟨e, hOld, rfl⟩
        have hLess := hWithin k e hOld
        have hErase :
            (e.activeSessions.erase sessionId).length ≤
              e.activeSessions.length := List.length_erase_le
        exact hErase.trans hLess
      · exact hWithin k e' hGet

theorem kept_of_fits
    (username : String) (state : PoolState S) (call : PoolCall)
    (hOnce : PlacedOnce VMPoolEntry.activeSessions state.pool)
    (hFits : Fits username state call) :
    Kept username state call ∧
      PlacedOnce VMPoolEntry.activeSessions
        (call.run username state).pool := by
  cases call with
  | allocate sessionId size region ans =>
    rw [PoolCall.run]
    cases hAlloc : allocateInMemory username ans sessionId
        size region state.pool with
    | error err =>
      rw [Kept, allocateVm_of_error hAlloc]
      refine ⟨⟨?_, fun _ _ => rfl⟩, hOnce⟩
      intro k e s hGet hMem
      exact ⟨e, hGet, hMem⟩
    | ok made =>
      rcases fits_allocate hFits hOnce hAlloc with
        ⟨⟨hIo, hFile⟩, hNext, hKeeps⟩
      rw [Kept, pool_allocateVm hAlloc, allocateVm_ok hAlloc hIo hFile]
      refine ⟨⟨hKeeps, ?_⟩, hNext⟩
      intro err hErr
      simp at hErr
  | release sessionId ans =>
    rw [Kept, PoolCall.run, pool_releaseSession]
    refine ⟨get?_releaseInMemory hOnce _ _, ?_⟩
    refine hOnce.of_sublists ?_
    intro k e' hGet
    rw [get?_releaseInMemory hOnce] at hGet
    rcases Option.map_eq_some_iff.mp hGet with ⟨e, hOld, rfl⟩
    exact ⟨e, hOld, List.filter_sublist⟩

-- Runs

theorem accounted_of_reaches
    {username : String} {start state : PoolState S}
    (hStart : Accounted start.pool)
    (hRun : Reaches (PoolCall.run username) (Fits username) start state) :
    Accounted state.pool ∧
      ∀ call, Fits username state call →
        Kept username state call ∧
          Accounted (call.run username state).pool := by
  have hHere : Accounted state.pool := by
    refine hRun.invariant (fun state => Accounted state.pool) ?_ hStart
    intro state call hOk hFits
    exact ⟨within_run username state call hOk.within,
      (kept_of_fits username state call hOk.once hFits).2⟩
  refine ⟨hHere, ?_⟩
  intro call hFits
  rcases kept_of_fits username state call hHere.once hFits with ⟨hKept, hOnce⟩
  exact ⟨hKept, ⟨within_run username state call hHere.within, hOnce⟩⟩

/- A small machine that `azlin list` reports. -/
def listedVm : VM where
  name := "amplihack-u-1"
  size := "Standard_D8s_v3"
  region := "eastus"
  createdAt := none
  tags := none

/- A world that lists that machine and saves every file. -/
def listsOneVm : PoolAnswers where
  order := .stored
  azlin :=
    { now := 0
      listed := some [listedVm]
      byName := fun _ => .ok listedVm
      timestamp := "2"
      created := .ok 0 }
  io := .fine

def noPool : PoolState Unit := ⟨Dict.empty, .missing⟩

def firstCall : PoolCall :=
  .allocate "s1" .s "eastus" listsOneVm

def firstState : PoolState Unit :=
  firstCall.run "u" noPool

theorem accounted_of_first_allocation :
    Accounted firstState.pool := by
  have hFits : Fits "u" noPool firstCall := by
    refine Or.inr ?_
    intro vm _
    refine ⟨?_, ?_, rfl, rfl⟩
    · intro k e hGet
      simp [noPool] at hGet
    · intro e hGet
      simp [noPool] at hGet
  have hEmpty : Accounted noPool.pool :=
    ⟨by intro k e hGet; simp [noPool] at hGet, placedOnce_empty⟩
  exact (accounted_of_reaches hEmpty
    ((Reaches.refl noPool).tail firstCall hFits)).1

/-
  The listing offers the machine of the full entry again, and
  the second allocation replaces that entry.
-/
theorem reprovisioned_vm_drops_session :
    Reaches (PoolCall.run "u") (fun _ _ => True) noPool firstState ∧
      ¬Kept "u" firstState (.allocate "s2" .s "eastus" listsOneVm) := by
  refine ⟨(Reaches.refl noPool).tail firstCall trivial, ?_⟩
  intro hKept
  rcases hKept.1 "amplihack-u-1"
    (freshEntry listedVm "s1" .s "eastus") "s1" rfl
    (by simp [freshEntry]) with ⟨e', hGet, hMem⟩
  have hNow :
      (allocateVm "u" listsOneVm "s2" .s "eastus"
        firstState).2.pool.get? "amplihack-u-1" =
        some (freshEntry listedVm "s2" .s "eastus") := rfl
  rw [hNow] at hGet
  have hEntry := Option.some.inj hGet
  subst hEntry
  simp [freshEntry] at hMem

end Remote
