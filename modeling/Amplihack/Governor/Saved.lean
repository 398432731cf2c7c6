import Amplihack.Governor.System
import Amplihack.Governor.Files

/-
  What a round saves passes the checks again: each part of a
  round keeps the files valid.
-/

-- Files

namespace Governor

open Base

structure Files.Valid (now : ℤ) (files : Files) : Prop where
  history : files.history.Valid now
  queue : files.queue.Valid now
  state : files.state.Valid now

variable {now : ℤ}
variable {host : Host}
variable {files : Files}

theorem mem_of_mem_pruneWindow
    {admissions : List Admission} {a : Admission}
    (hMem : a ∈ pruneWindow admissions now) :
    a ∈ admissions := by
  have hSorted := List.mem_of_mem_drop hMem
  rw [List.mem_mergeSort] at hSorted
  exact List.mem_of_mem_filter hSorted

/- Repairs, reclaims and prunes only change what they may. -/
theorem prepare_valid
    (host : Host) (max_ : ℕ) (hValid : files.Valid now) :
    (prepare host max_ files).Valid now where
  history := hValid.history
  queue := hValid.queue.filter _
  state := by
    have hSlots : ∀ slot ∈ (prepare host max_ files).state.slots,
        slot ∈ files.state.slots := by
      intro slot hMem
      dsimp only [prepare, reclaim, repair] at hMem
      have hStored := List.mem_of_mem_filter hMem
      split at hStored <;> exact hStored
    have hKeys :
        ((prepare host max_ files).state.slots.map State.slotKey).Nodup := by
      dsimp only [prepare, reclaim, repair]
      split <;> exact hValid.state.slotKeys.sublist
        (List.filter_sublist.map State.slotKey)
    refine ⟨?_, ?_, ?_, hKeys, ?_, ?_⟩
    · dsimp only [prepare, reclaim, repair]
      unfold clampLimit
      omega
    · dsimp only [prepare, reclaim, repair]
      split <;> exact hValid.state.evaluated
    · exact fun slot hMem =>
        hValid.state.slots slot (hSlots slot hMem)
    · intro a hMem
      apply hValid.state.admissions
      dsimp only [prepare, reclaim, repair] at hMem
      have hStored := mem_of_mem_pruneWindow hMem
      split at hStored <;> exact hStored
    · dsimp only [prepare, reclaim, repair]
      split <;> exact hValid.state.failOpen

-- Samples

/- A reading that is recorded has a name and time in range. -/
def InRange (now : ℤ) (s : ProfileSnapshot) : Prop :=
  (sample s.sevenDay s.observedAt).isSome = true ∨
      (sample s.fiveHour s.observedAt).isSome = true →
    s.name.utf8ByteSize ≤ 64 ∧
      s.observedAt ≤ saturatingAdd now futureSlackSecs

theorem clamp_range
    {low high x : Float} (hLow : low.isFinite = true)
    (hHigh : high.isFinite = true) (hx : x.isFinite = true)
    (hOrder : low ≤ high) :
    (Binary64.clamp low high x).isFinite = true ∧
      low ≤ Binary64.clamp low high x ∧
      Binary64.clamp low high x ≤ high := by
  have hReflLow : low ≤ low :=
    (Binary64.le_iff_numberKey hLow hLow).2 (le_refl _)
  have hReflHigh : high ≤ high :=
    (Binary64.le_iff_numberKey hHigh hHigh).2 (le_refl _)
  unfold Binary64.clamp
  split
  next => exact ⟨hLow, hReflLow, hOrder⟩
  next hNotLow =>
    split
    next => exact ⟨hHigh, hOrder, hReflHigh⟩
    next hNotHigh =>
      exact ⟨hx, (Binary64.not_lt_iff_le hx hLow).1 hNotLow,
        (Binary64.not_lt_iff_le hHigh hx).1 hNotHigh⟩

/- A sample is a percentage, taken when it was observed. -/
theorem sample_ok
    {w : Option (Float × ℤ)} {observedAt : ℤ} {x : Sample}
    (hSample : sample w observedAt = some x)
    (hTime : observedAt ≤ saturatingAdd now futureSlackSecs) :
    History.SampleOk now x := by
  unfold sample at hSample
  split at hSample
  next => cases hSample
  next hPositive =>
    rcases Option.bind_eq_some_iff.1 hSample with ⟨b, hWindow, hMade⟩
    rcases Option.bind_eq_some_iff.1 hWindow with
      ⟨⟨pct, resetsAt⟩, -, hPlausible⟩
    cases hMade
    dsimp only [plausibleWindow] at hPlausible
    split at hPlausible
    next => cases hPlausible
    next hFinite =>
      have hPct : pct.isFinite = true := by
        simp only [Bool.or_eq_true, not_or,
          Bool.not_eq_true', Bool.not_eq_false] at hFinite
        exact hFinite.1.1
      rw [← Option.some.inj hPlausible]
      refine ⟨clamp_range (by decide) (by decide) hPct (by decide), ?_⟩
      rw [timeOk_iff]
      exact ⟨(not_le.1 hPositive).le, hTime⟩

theorem pushSample_ok
    {ring : List Sample} {x : Sample}
    (hLength : ring.length ≤ governorHistoryRing)
    (hRing : ∀ s ∈ ring, History.SampleOk now s)
    (hx : History.SampleOk now x) :
    (pushSample ring x).length ≤ governorHistoryRing ∧
      ∀ s ∈ pushSample ring x, History.SampleOk now s := by
  unfold pushSample
  split
  · exact ⟨hLength, hRing⟩
  · dsimp only
    constructor
    · rw [List.length_drop]
      omega
    · intro s hMem
      have hSorted := List.mem_of_mem_drop hMem
      rw [List.mem_mergeSort, List.mem_append] at hSorted
      rcases hSorted with hOld | hNew
      · exact hRing s hOld
      · rw [List.mem_singleton.1 hNew]
        exact hx

theorem pushInto_ok
    {name : String} {x : Option Sample} {rings : Dict String (List Sample)}
    (hRings : ∀ e ∈ rings.entries, History.RingOk now e)
    (hName : x.isSome = true → name.utf8ByteSize ≤ 64)
    (hSample : ∀ s ∈ x, History.SampleOk now s) :
    ∀ e ∈ (pushInto name x rings).entries, History.RingOk now e := by
  cases x with
  | none => exact hRings
  | some s =>
    intro e hMem
    rcases Dict.mem_of_mem_insert hMem with rfl | hOld
    · have hRing :
          ((rings.get? name).getD []).length ≤ governorHistoryRing ∧
            ∀ s ∈ (rings.get? name).getD [], History.SampleOk now s := by
        cases hGet : rings.get? name with
        | none => exact ⟨Nat.zero_le _, by simp⟩
        | some ring =>
          have hOk := hRings (name, ring) (Dict.mem_entries_of_get? hGet)
          exact ⟨hOk.length, hOk.samples⟩
      have hPushed := pushSample_ok hRing.1 hRing.2 (hSample s rfl)
      exact ⟨hName rfl, hPushed.1, hPushed.2⟩
    · exact hRings e hOld

theorem recordOne_valid
    {history : History} {s : ProfileSnapshot}
    (hValid : history.Valid now) (hRange : InRange now s) :
    (recordOne history s).Valid now := by
  constructor
  · refine pushInto_ok hValid.weekly (fun hSome => (hRange (.inl hSome)).1) ?_
    intro x hMem
    have hSome : sample s.sevenDay s.observedAt = some x := hMem
    exact sample_ok hSome (hRange (.inl (by simp [hSome]))).2
  · refine pushInto_ok hValid.session
      (fun hSome => (hRange (.inr hSome)).1) ?_
    intro x hMem
    have hSome : sample s.fiveHour s.observedAt = some x := hMem
    exact sample_ok hSome (hRange (.inr (by simp [hSome]))).2

/- Recording readings in range keeps the rings valid. -/
theorem recordSamples_valid
    {history : History} {snaps : List ProfileSnapshot}
    (hValid : history.Valid now) (hRange : ∀ s ∈ snaps, InRange now s) :
    (recordSamples history snaps).Valid now := by
  have hAdded : (snaps.foldl recordOne history).Valid now := by
    induction snaps generalizing history with
    | nil => exact hValid
    | cons s snaps ih =>
      rw [List.foldl_cons]
      refine ih (recordOne_valid hValid (hRange s List.mem_cons_self)) ?_
      intro t hMem
      exact hRange t (List.mem_cons_of_mem s hMem)
  constructor
  · intro e hMem
    exact hAdded.weekly e (Dict.mem_of_mem_retain hMem).1
  · intro e hMem
    exact hAdded.session e (Dict.mem_of_mem_retain hMem).1

-- Bookkeeping

variable {ctx : AdmitContext}
variable {treeId : String}
variable {deadline : ℤ}
variable {parent : Option ℕ}
variable {ticket : Option ℕ}
variable {state : State}

/- One slot is changed; its identity and times are not. -/
theorem modify_slots_valid
    {change : Slot → Slot} (index : ℕ)
    (hWorkstream : ∀ s, (change s).workstream = s.workstream)
    (hTree : ∀ s, (change s).treeId = s.treeId)
    (hPid : ∀ s, (change s).pid = s.pid)
    (hTime : ∀ s, (change s).admittedAt = s.admittedAt)
    (hValid : state.Valid now) :
    { state with
      slots := state.slots.modify index change }.Valid now where
  limit := hValid.limit
  evaluated := hValid.evaluated
  slots := by
    intro slot hMem
    rcases List.mem_iff_getElem?.1 hMem with ⟨i, hGet⟩
    rw [List.getElem?_modify] at hGet
    rcases Option.map_eq_some_iff.1 hGet with ⟨old, hOld, hChanged⟩
    have hOk := hValid.slots old (List.mem_of_getElem? hOld)
    split at hChanged
    · rw [← hChanged]
      unfold State.SlotOk
      rw [hWorkstream, hTree, hTime]
      exact hOk
    · rw [← hChanged]
      exact hOk
  slotKeys := by
    have hKeys :
        (state.slots.modify index change).map State.slotKey =
          state.slots.map State.slotKey := by
      apply List.ext_getElem?
      intro i
      rw [List.getElem?_map, List.getElem?_map, List.getElem?_modify,
        Option.map_eq_map, Option.map_map]
      refine congrFun (congrArg Option.map ?_) _
      funext slot
      simp only [Function.comp_apply]
      split
      · simp only [State.slotKey, hPid, hTree]
      · rfl
    rw [hKeys]
    exact hValid.slotKeys
  admissions := hValid.admissions
  failOpen := hValid.failOpen

theorem releaseHeld_valid
    (guard : Guard) (hValid : state.Valid now) :
    (releaseHeld guard state).Valid now := by
  cases guard with
  | inert code => exact hValid
  | slot pid treeId code =>
    exact
      { hValid with
        slots := fun s hMem =>
          hValid.slots s (List.mem_of_mem_filter hMem)
        slotKeys := hValid.slotKeys.sublist
          (List.filter_sublist.map State.slotKey) }
  | nested parentPid treeId =>
    exact modify_slots_valid _ (fun _ => rfl) (fun _ => rfl)
      (fun _ => rfl) (fun _ => rfl) hValid

theorem takeTicket_valid
    {queue : Queue} (ticket : Option ℕ) (hValid : queue.Valid now) :
    (takeTicket queue ticket).Valid now := by
  cases ticket with
  | none => exact hValid
  | some seq => exact hValid.filter _

/- The new slot's key is taken out before it is added. -/
theorem admitSlot_valid
    (ctx : AdmitContext) (hTree : treeIdOk treeId = true)
    (hNow : timeOk host.now now = true) (hValid : state.Valid now) :
    (admitSlot host ctx treeId state).Valid now where
  limit := hValid.limit
  evaluated := hValid.evaluated
  slots := by
    intro slot hMem
    rcases List.mem_append.1 hMem with hOld | hNew
    · exact hValid.slots slot (List.mem_of_mem_filter hOld)
    · rw [List.mem_singleton.1 hNew]
      exact ⟨ctx.workstream_ok, hTree, hNow⟩
  slotKeys := by
    have hRest := hValid.slotKeys.sublist
      (List.filter_sublist (p := fun s =>
        !(s.pid == host.pid && s.treeId == treeId))
        |>.map State.slotKey)
    dsimp only [admitSlot, pushSlot]
    rw [List.map_append, List.nodup_append]
    refine ⟨hRest, List.nodup_singleton _, ?_⟩
    intro key hOld key' hNew hSame
    rw [List.mem_singleton.1 hNew] at hSame
    rcases List.mem_map.1 hOld with ⟨slot, hMem, hKey⟩
    have hOther := (List.mem_filter.1 hMem).2
    rw [hSame] at hKey
    rcases Prod.mk.inj hKey with ⟨hPid, hTreeId⟩
    simp [hPid, hTreeId] at hOther
  admissions := by
    intro a hMem
    rcases List.mem_append.1 hMem with hOld | hNew
    · exact hValid.admissions a hOld
    · rw [List.mem_singleton.1 hNew]
      exact ⟨ctx.workstream_ok, hNow⟩
  failOpen := hValid.failOpen

/- A fault's message is cut to the length a load accepts. -/
theorem record_valid
    (fault : Option FailOpen) (hNow : timeOk host.now now = true)
    (hMessage : ∀ f ∈ fault, f.message.utf8ByteSize ≤ 512)
    (hValid : state.Valid now) :
    { state with
      failOpen := fault.map fun f => record f host.now }.Valid
        now where
  limit := hValid.limit
  evaluated := hValid.evaluated
  slots := hValid.slots
  slotKeys := hValid.slotKeys
  admissions := hValid.admissions
  failOpen := by
    intro f hMem
    rcases Option.map_eq_some_iff.1 hMem with ⟨g, hFault, hRecord⟩
    rw [← hRecord]
    exact ⟨hNow, hMessage g hFault⟩

theorem storeLimit_valid
    {d : Decision} (hLimit : d.limitAfter ≤ governorLimitCap)
    (hNow : timeOk host.now now = true) (hValid : state.Valid now) :
    (storeLimit host.now d state).Valid now := by
  unfold storeLimit
  split
  · exact
      { hValid with
        limit := hLimit
        evaluated := fun t hMem => by
          rw [← Option.some.inj hMem]
          exact hNow }
  · exact hValid

/- No entry that is queued has the next seq. -/
def Fresh (files : Files) : Prop :=
  ∀ e ∈ files.queue.entries, e.seq ≠ files.state.nextSeq

theorem enqueue_valid
    (ctx : AdmitContext) (hNow : timeOk host.now now = true)
    (hFresh : Fresh files) (hValid : files.Valid now) :
    (enqueue host ctx files).Valid now where
  history := hValid.history
  queue :=
    { entries := by
        intro e hMem
        rcases List.mem_append.1 hMem with hOld | hNew
        · exact hValid.queue.entries e hOld
        · rw [List.mem_singleton.1 hNew]
          exact ⟨ctx.workstream_ok, hNow⟩
      seqs := by
        dsimp only [enqueue]
        rw [List.map_append, List.nodup_append]
        refine ⟨hValid.queue.seqs, List.nodup_singleton _, ?_⟩
        intro seq hOld seq' hNew hSame
        rcases List.mem_map.1 hOld with ⟨e, hMem, hSeq⟩
        rw [List.mem_singleton.1 hNew] at hSame
        exact hFresh e hMem (hSeq.trans hSame) }
  state := { hValid.state with }

-- Rounds

theorem admitRound_valid
    {reason : Reason} (hTree : treeIdOk treeId = true)
    (hNow : timeOk host.now now = true) (hValid : files.Valid now) :
    (admitRound host ctx treeId parent reason files
      ticket).files.Valid now := by
  have hQueue := takeTicket_valid ticket hValid.queue
  unfold admitRound
  dsimp only
  generalize hFault : (if reason.code = .noReadings then
    some (FailOpen.new .noReadings reason.message)
    else none) = fault
  have hMessage : ∀ f ∈ fault, f.message.utf8ByteSize ≤ 512 := by
    intro f hMem
    rw [← hFault] at hMem
    split at hMem
    · rw [← Option.some.inj hMem]
      exact FailOpen.message_new_le _ _
    · cases hMem
  have hState := record_valid fault hNow hMessage hValid.state
  split
  · exact
      { history := hValid.history
        queue := hQueue
        state := modify_slots_valid _ (fun _ => rfl)
          (fun _ => rfl) (fun _ => rfl) (fun _ => rfl) hState }
  · exact
      { history := hValid.history
        queue := hQueue
        state := admitSlot_valid ctx hTree hNow hState }

theorem failOpenRound_valid
    {fault : FailOpen} (hNow : timeOk host.now now = true)
    (hMessage : fault.message.utf8ByteSize ≤ 512) (hValid : files.Valid now) :
    (failOpenRound host.now fault files ticket).files.Valid
      now where
  history := hValid.history
  queue := hValid.queue
  state := record_valid (some fault) hNow
    (fun f hMem => by rwa [← Option.some.inj hMem])
    hValid.state

/- A new entry is the one thing that needs a fresh seq. -/
theorem settleRound_valid
    {d : Decision} (hTree : treeIdOk treeId = true)
    (hNow : timeOk host.now now = true)
    (hFresh :
      parent = none → ticket = none → d.kind = .wait →
        host.now < deadline → Fresh files)
    (hValid : files.Valid now) :
    (settleRound host ctx treeId deadline parent d files
      ticket).files.Valid now := by
  have hTaken : ({ files with
      queue := takeTicket files.queue ticket } : Files).Valid
        now :=
    { hValid with
      queue := takeTicket_valid ticket hValid.queue }
  unfold settleRound
  cases hKind : d.kind with
  | allow => exact admitRound_valid hTree hNow hValid
  | deny => exact hTaken
  | wait =>
    dsimp only
    split
    next => exact hTaken
    next hEarly =>
      split
      next hNew =>
        rw [Bool.and_eq_true, Option.isNone_iff_eq_none,
          Option.isNone_iff_eq_none] at hNew
        exact enqueue_valid ctx hNow
          (hFresh hNew.1 hNew.2 hKind (not_le.1 hEarly))
          hValid
      next => exact hValid

end Governor
