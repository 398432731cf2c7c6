import Amplihack.Multitask.Orchestrator

/-
  How a run accounts for its workstreams: which list of a
  status each of them is in, when the monitor stops, and how a
  child that exits ends.
-/

-- Listings

namespace Multitask

open Base

namespace WorkstreamStatus

def lists (s : WorkstreamStatus) : Listing → List ℤ
| .running => s.running
| .completed => s.completed
| .failed => s.failed

def entries (s : WorkstreamStatus) : List ℤ :=
  s.running ++ s.completed ++ s.failed

theorem mem_lists_push
    (s : WorkstreamStatus) (issue : ℤ) (l : Listing) :
    issue ∈ (s.push issue (some l)).lists l := by
  cases l <;> simp [push, lists]

theorem lists_subset_push
    (s : WorkstreamStatus) (issue : ℤ) (pushed : Option Listing)
    (l : Listing) :
    s.lists l ⊆ (s.push issue pushed).lists l := by
  rcases pushed with _ | pushed
  · exact List.Subset.refl _
  · cases pushed <;> cases l <;> simp [push, lists]

theorem entries_push
    (s : WorkstreamStatus) (issue : ℤ) (pushed : Option Listing) :
    (s.push issue pushed).entries.Perm
      (s.entries ++
        if pushed.isSome then [issue] else []) := by
  rcases pushed with _ | pushed
  · simp [push]
  · cases pushed with
    | running =>
      simp only [push, entries, List.append_assoc,
        Option.isSome_some, if_true]
      refine List.Perm.append_left _ ?_
      refine List.perm_append_comm.trans ?_
      simp
    | completed =>
      simp only [push, entries, List.append_assoc,
        Option.isSome_some, if_true]
      refine List.Perm.append_left _
        (List.Perm.append_left _ List.perm_append_comm)
    | failed => simp [push, entries]

end WorkstreamStatus

/- The processes as the look at position `k` sees them. -/
def seen (moments : ℕ → Moment) (p : Processes) : ℕ → Processes
| 0 => (moments 0).advance p
| k + 1 => (moments (k + 1)).advance (seen moments p k)

structure Accounts (o : Orchestrator) : Prop where
  listed : ∀ passes moments,
    ∃ listed : Workstream × ℕ → Bool,
      ((after passes o).status moments).entries.Perm
        (((after passes o).workstreams.zipIdx.filter listed).map
          fun visit => visit.1.issue) ∧
      ∀ ws k c, (after passes o).workstreams[k]? = some ws →
        (after passes o).processes ws.issue = some c →
        ((ws.exitCode ≠ none ∨
            processScopeIsAuthoritative (moments k) ws c.pid = true) →
          listed (ws, k) = true) ∧
        (ws.exitCode = none →
          processScopeIsAuthoritative (moments k) ws c.pid = false →
          c.terminated = false →
          listed (ws, k) = false)
  waits : ∀ rounds looks o', monitor [] rounds o = .stopped looks o' →
    ∀ ws k c, o'.workstreams[k]? = some ws →
      o'.processes ws.issue = some c →
      c.life = .alive →
      ∃ look ∈ looks, processScopeIsAuthoritative (look k) ws c.pid = false
  ends : ∀ passes moments ws k c code,
    (after passes o).workstreams[k]? = some ws →
    seen moments (after passes o).processes k ws.issue = some c →
    processScopeIsAuthoritative (moments k) ws c.pid = true →
    c.tryWait = some code →
    ws.lifecycleState ≠ "interrupted_resumable" →
    ¬(ws.lifecycleState = "timed_out_resumable" ∧
      ws.timeoutPolicy = interruptPreserveTimeoutPolicy) →
    (ws.issue ∈ ((after passes o).status moments).lists
      (if code = 0 then .completed else .failed)) ∧
    ∀ later, ∃ ws',
      (after later ((after passes o).looked
        moments)).workstreams[k]? = some ws' ∧
      ws'.issue = ws.issue ∧
      (if code = 0 then ws'.lifecycleState = "completed"
        else ws'.lifecycleState ∈ ["failed_resumable", "failed_terminal"]) ∧
      ∀ moments',
        ws.issue ∈ ((after later ((after passes o).looked
          moments)).status moments').lists
            (if code = 0 then .completed else .failed)
  eligible : ∀ passes, ∀ ws ∈ (after passes o).workstreams,
    ws.cleanupEligible = true ↔ ws.lifecycleState ∈ cleanupEligibleStates

-- Every Workstream Once

variable {m : Moment} {ws ws' : Workstream}
variable {p q : Processes} {c : Child} {o : Orchestrator}
variable {moments : ℕ → Moment}

def isListed
    (moments : ℕ → Moment) (p : Processes) (visit : Workstream × ℕ) :
    Bool :=
  visit.1.exitCode.isSome ||
    (p visit.1.issue).any fun c =>
      processScopeIsAuthoritative (moments visit.2) visit.1 c.pid

variable {r : Workstream × Option Listing}

theorem Looks.isSome
    (hLooks : Looks m ws c r) :
    r.2.isSome = (ws.exitCode.isSome ||
      processScopeIsAuthoritative m ws c.pid) := by
  cases hLooks with
  | finalized code hAuth _ => simp [hAuth]
  | running hAuth _ _ => simp [hAuth]
  | displayOnly hNot hExit => simp [hNot, hExit]
  | known code hExit _ => simp [hExit]

variable {k : ℕ}

theorem lookAt_isSome
    (hSound : Sound p ws) (hEvolves : p.Evolves q) :
    (lookAt (moments k) ws ((moments k).advance q)).2.isSome =
      isListed moments p (ws, k) := by
  rcases hSound.held with ⟨c, hHeld⟩
  rcases (hSound.mono hEvolves).looks (moments k) with ⟨d, hNow, hLooks⟩
  rcases (hEvolves.trans
      (Processes.evolves_exiting (moments k).exits q)) _ _
        hHeld with ⟨e, hLater, hTo⟩
  have hSame : e = d := Option.some.inj (hLater.symm.trans hNow)
  rw [hLooks.isSome, isListed, hHeld, Option.any_some, ← hSame, hTo.pid]

variable {as : List Workstream}

theorem status_perm
    (hSound : ∀ ws ∈ as, Sound p ws) :
    ∀ (k : ℕ) (s : Processes × WorkstreamStatus), p.Evolves s.1 →
      (sweep getStatusOf moments k as s).2.2.entries.Perm
        (s.2.entries ++
          ((as.zipIdx k).filter (isListed moments p)).map
            fun visit => visit.1.issue) := by
  induction as with
  | nil =>
    intro k s _
    simp [sweep_nil]
  | cons a rest ih =>
    intro k s hEvolves
    have hRest := ih
      (fun w hMem => hSound w (List.mem_cons_of_mem a hMem))
      (k + 1) (getStatusOf (moments k) a s).2
      (hEvolves.trans (getStatusOf_evolves (moments k) a s))
    rw [sweep_cons, List.zipIdx_cons]
    refine hRest.trans ?_
    have hPush := WorkstreamStatus.entries_push s.2 a.issue
      (lookAt (moments k) a ((moments k).advance s.1)).2
    rw [lookAt_isSome (hSound a List.mem_cons_self) hEvolves]
      at hPush
    refine (List.Perm.append_right _ hPush).trans ?_
    rw [List.append_assoc]
    refine List.Perm.append_left _ ?_
    by_cases hListed : isListed moments p (a, k)
    · rw [if_pos hListed, List.filter_cons_of_pos hListed]
      exact List.Perm.refl _
    · rw [if_neg hListed, List.filter_cons_of_neg hListed]
      exact List.Perm.refl _

-- One Look

theorem evolves_seen (k : ℕ) : p.Evolves (seen moments p k) := by
  induction k with
  | zero => exact Processes.evolves_exiting _ p
  | succ k ih => exact ih.trans (Processes.evolves_exiting _ _)

def seenBefore
    (moments : ℕ → Moment) (p : Processes) :
    ℕ → Processes
| 0 => p
| k + 1 => seen moments p k

theorem advance_seenBefore (k : ℕ) :
    (moments k).advance (seenBefore moments p k) = seen moments p k := by
  cases k with
  | zero | succ _ => rfl

theorem sweptTo_getStatusOf
    {s : WorkstreamStatus} (hLe : k ≤ as.length) :
    (sweptTo getStatusOf moments 0 as (p, s) k).1 =
      seenBefore moments p k := by
  have hStep : ∀ j w (t : Processes × WorkstreamStatus),
      w ∈ as → t.1 = seenBefore moments p j →
      (getStatusOf (moments j) w t).2.1 = seenBefore moments p (j + 1) := by
    intro j w t _ hState
    change (moments j).advance t.1 = seen moments p j
    rw [hState, advance_seenBefore]
  have hStart : (p, s).1 = seenBefore moments p 0 := rfl
  have hSwept : (sweptTo getStatusOf moments 0 as (p, s) k).1 =
      seenBefore moments p (0 + k) :=
    sweptTo_state
      (fun j (t : Processes × WorkstreamStatus) =>
        t.1 = seenBefore moments p j)
      hStep hLe hStart
  rwa [Nat.zero_add] at hSwept

/- The processes evolve, and the lists of a status grow. -/
def Follows (s t : Processes × WorkstreamStatus) : Prop :=
  s.1.Evolves t.1 ∧ ∀ l, s.2.lists l ⊆ t.2.lists l

theorem follows_getStatusOf
    (m : Moment) (ws : Workstream) (s : Processes × WorkstreamStatus) :
    Follows s (getStatusOf m ws s).2 :=
  ⟨getStatusOf_evolves m ws s, WorkstreamStatus.lists_subset_push _ _ _⟩

/- What a status does at a position, and which list says so. -/
structure LookedAt
    (moments : ℕ → Moment) (o : Orchestrator) (k : ℕ)
    (ws : Workstream) (r : Workstream × Option Listing) :
    Prop where
  left : (o.looked moments).workstreams[k]? = some r.1
  listing : ∀ l, r.2 = some l → ws.issue ∈ (o.status moments).lists l
  evolves : (seen moments o.processes k).Evolves (o.looked moments).processes

theorem lookedAt
    (hAt : o.workstreams[k]? = some ws) :
    LookedAt moments o k ws
      (lookAt (moments k) ws (seen moments o.processes k)) := by
  have hLe : k ≤ o.workstreams.length := by
    rcases List.getElem?_eq_some_iff.mp hAt with ⟨hLt, _⟩
    omega
  have hState : (sweptTo getStatusOf moments 0 o.workstreams
      (o.processes, .empty) k).1 = seenBefore moments o.processes k :=
    sweptTo_getStatusOf hLe
  have hVisit : getStatusOf (moments k) ws
      (sweptTo getStatusOf moments 0 o.workstreams (o.processes, .empty) k) =
      ((lookAt (moments k) ws
          (seen moments o.processes k)).1,
        seen moments o.processes k,
        (sweptTo getStatusOf moments 0 o.workstreams
            (o.processes, .empty) k).2.push ws.issue
          (lookAt (moments k) ws (seen moments o.processes k)).2) := by
    rw [getStatusOf, hState, advance_seenBefore]
  have hEnd : Follows
      (getStatusOf (moments (0 + k)) ws
        (sweptTo getStatusOf moments 0 o.workstreams
          (o.processes, .empty) k)).2
      (sweep getStatusOf moments 0 o.workstreams (o.processes, .empty)).2 :=
    visit_relates_end Follows
      (fun s => ⟨Processes.Evolves.refl s.1, fun _ => List.Subset.refl _⟩)
      (fun _ _ _ h h' => ⟨h.1.trans h'.1,
        fun l => List.Subset.trans (h.2 l) (h'.2 l)⟩)
      (fun j w s _ => follows_getStatusOf (moments j) w s)
      hAt
  have hLeft : (sweep getStatusOf moments 0 o.workstreams
      (o.processes, .empty)).1[k]? = some
        (getStatusOf (moments (0 + k)) ws
          (sweptTo getStatusOf moments 0 o.workstreams
            (o.processes, .empty) k)).1 := getElem?_sweep 0 _ hAt
  rw [Nat.zero_add, hVisit] at hEnd hLeft
  refine ⟨hLeft, ?_, hEnd.1⟩
  intro l hListing
  refine hEnd.2 l ?_
  rw [hListing]
  exact WorkstreamStatus.mem_lists_push _ _ _

/- What a status leaves alive is running or was not its own. -/
theorem looked_alive
    (hSound : AllSound o)
    (hAt : (o.looked moments).workstreams[k]? = some ws')
    (hHeld : (o.looked moments).processes ws'.issue = some c)
    (hAlive : c.life = .alive) :
    (ws'.lifecycleState = "running" ∧
        ws'.issue ∈ (o.status moments).running) ∨
      processScopeIsAuthoritative (moments k) ws' c.pid =
        false := by
  rcases getElem?_of_sweep hAt with ⟨ws, hBefore, _⟩
  have hLooked : LookedAt moments o k ws _ := lookedAt hBefore
  have hNow : Sound (seen moments o.processes k) ws :=
    (hSound ws (List.mem_of_getElem? hBefore)).mono (evolves_seen k)
  rcases hNow.held with ⟨d, hSeen⟩
  have hLooks := lookAt_looks (m := moments k) hSeen
  have hWs : ws' = (lookAt (moments k) ws (seen moments o.processes k)).1 :=
    Option.some.inj (hAt.symm.trans hLooked.left)
  have hIssue : ws'.issue = ws.issue := hWs ▸ hLooks.sameScope.issue
  rcases hLooked.evolves _ _ hSeen with ⟨e, hEnd, hTo⟩
  have hSame : e = c := Option.some.inj (hEnd.symm.trans (hIssue ▸ hHeld))
  subst hSame
  have hWas : d.life = .alive := hTo.alive hAlive
  generalize lookAt (moments k) ws
    (seen moments o.processes k) = r at hLooks hWs hLooked
  subst hWs
  cases hLooks with
  | finalized code _ hCode =>
    rw [Child.tryWait_eq_none_iff.mpr hWas] at hCode
    cases hCode
  | running _ _ _ => exact Or.inl ⟨rfl, hLooked.listing .running rfl⟩
  | displayOnly hNot _ =>
    right
    rw [hTo.pid]
    exact hNot
  | known code hExit _ =>
    rcases hNow.finished code hExit with ⟨f, hFound, hCode⟩
    rw [hSeen] at hFound
    cases hFound
    rw [Child.tryWait_eq_none_iff.mpr hWas] at hCode
    cases hCode

-- The Monitor Stops

/- A live child runs, or one of the last looks disowned it. -/
structure Watched
    (last : List (ℕ → Moment)) (o : Orchestrator) :
    Prop where
  sound : AllSound o
  alive : ∀ k ws c, o.workstreams[k]? = some ws →
    o.processes ws.issue = some c →
    c.life = .alive →
    ws.lifecycleState = "running" ∨
      ∃ look ∈ last, processScopeIsAuthoritative (look k) ws c.pid = false

theorem watched_looked
    (hSound : AllSound o) :
    Watched [moments] (o.looked moments) := by
  refine ⟨allSound_pass (.status moments) hSound, ?_⟩
  intro k ws c hAt hHeld hAlive
  rcases looked_alive hSound hAt hHeld hAlive with ⟨hRunning, _⟩ | hNot
  · exact Or.inl hRunning
  · exact Or.inr ⟨moments, by simp, hNot⟩

/- After a cleanup a child lives only if it was disowned. -/
theorem cleanup_alive
    {last : List (ℕ → Moment)} (hWatched : Watched last o)
    (hAt : (o.cleanupRunning moments).workstreams[k]? = some ws')
    (hHeld : (o.cleanupRunning moments).processes ws'.issue = some c)
    (hAlive : c.life = .alive) :
    ∃ look ∈ last ++ [moments],
      processScopeIsAuthoritative (look k) ws' c.pid =
        false := by
  rcases visited_of_sweep Processes.Evolves
      Processes.Evolves.refl (fun _ _ _ h => h.trans)
      (fun j ws p =>
        (cleanupWorkstream_marks (moments j) ws p).evolves.1)
      hAt with ⟨ws, hBefore, hTo, hResult, hOn⟩
  rw [Nat.zero_add] at hResult hOn
  have hSound := hWatched.sound ws (List.mem_of_getElem? hBefore)
  generalize sweptTo cleanupWorkstream moments 0 o.workstreams
    o.processes k = t at hTo hResult hOn
  have hVisit := cleanupWorkstream_marks (moments k) ws t
  have hSame : SameScope ws ws' := hResult ▸ hVisit.evolves.2
  rcases hSound.held with ⟨b, hStart⟩
  rcases (hTo.trans (Processes.evolves_exiting
      (moments k).exits t)) _ _ hStart with ⟨d, hNow, hBD⟩
  rcases (hTo.trans (hVisit.evolves.1.trans hOn)) _ _ hStart
    with ⟨e, hEnd, hBE⟩
  have hE : e = c := Option.some.inj (hEnd.symm.trans (hSame.issue ▸ hHeld))
  subst hE
  have hPid : e.pid = d.pid := hBE.pid.trans hBD.pid.symm
  cases hAuth : processScopeIsAuthoritative (moments k) ws
      d.pid with
  | false =>
    refine ⟨moments, by simp, ?_⟩
    rw [hSame.authoritative, hPid]
    exact hAuth
  | true =>
    rcases hWatched.alive k ws b hBefore hStart
        (hBE.alive hAlive) with hRunning | hLooked
    · rw [cleanupWorkstream_terminates hRunning hNow hAuth]
        at hOn
      have hKilled : terminate (moments k) ws d
          ((moments k).advance t) ws.issue =
          some (d.terminate (moments k).waited) := if_pos rfl
      rcases hOn _ _ hKilled with ⟨f, hLast, hDF⟩
      rw [hEnd] at hLast
      cases hLast
      exact absurd (hDF.alive hAlive) (Child.life_terminate _ _)
    · rcases hLooked with ⟨look, hMem, hNot⟩
      refine ⟨look, by simp [hMem], ?_⟩
      rw [hSame.authoritative, hBE.pid]
      exact hNot

theorem monitor_stopped
    {rounds : List Round} :
    ∀ {last looks : List (ℕ → Moment)}
        {o o' : Orchestrator},
      Watched last o →
      monitor last rounds o = .stopped looks o' →
      ∀ ws k c, o'.workstreams[k]? = some ws →
        o'.processes ws.issue = some c →
        c.life = .alive →
        ∃ look ∈ looks,
          processScopeIsAuthoritative (look k) ws c.pid =
            false := by
  induction rounds with
  | nil =>
    intro last looks o o' _ hStopped
    cases hStopped
  | cons r rest ih =>
    intro last looks o o' hWatched hStopped ws k c hAt hHeld hAlive
    have hMarked : AllSound (o.enforceTimeouts r.timeouts) :=
      allSound_pass (.timeouts r.timeouts) hWatched.sound
    rw [monitor] at hStopped
    split at hStopped
    · simp only at hStopped
      split at hStopped
      · next hNone =>
          split at hStopped
          · cases hStopped
            rcases looked_alive hMarked hAt hHeld hAlive with
              ⟨_, hRunning⟩ | hNot
            · rw [hNone] at hRunning
              cases hRunning
            · exact ⟨r.looks, by simp, hNot⟩
          · cases hStopped
            exact cleanup_alive (watched_looked hMarked) hAt hHeld hAlive
      · exact ih (watched_looked hMarked) hStopped ws k c hAt hHeld hAlive
    · cases hStopped
      exact cleanup_alive hWatched hAt hHeld hAlive

-- How a Child Ends

def exitState (checkpointId : String) (code : ℤ) : String :=
  if code = 0 then "completed"
  else if checkpointId ≠ "" then "failed_resumable"
  else "failed_terminal"

def exitListing (code : ℤ) : Listing :=
  if code = 0 then .completed else .failed

/- The exit of the child that is held has been recorded. -/
structure Settled
    (p : Processes) (code : ℤ) (ws : Workstream) :
    Prop where
  exitCode : ws.exitCode = some code
  held : ∃ c, p ws.issue = some c ∧ c.tryWait = some code
  lifecycleState : ws.lifecycleState = exitState ws.checkpointId code

theorem exitState_ne (checkpointId : String) (code : ℤ) :
    exitState checkpointId code ≠ "running" ∧
      exitState checkpointId code ≠ "interrupted_resumable" ∧
      exitState checkpointId code ≠ "timed_out_resumable" := by
  rw [exitState]
  split
  · decide
  · split
    · decide
    · decide

theorem exitState_eq_completed_iff
    (checkpointId : String) (code : ℤ) :
    exitState checkpointId code = "completed" ↔ code = 0 := by
  rw [exitState]
  split
  · simp [*]
  · split
    · simp [*]
    · simp [*]

/- An exit that finds no mark of a timeout is recorded. -/
theorem lifecycleState_finalizeWorkstream
    (now : ℕ) (code : ℤ)
    (hInterrupted : ws.lifecycleState ≠ "interrupted_resumable")
    (hTimedOut : ¬(ws.lifecycleState = "timed_out_resumable" ∧
      ws.timeoutPolicy = interruptPreserveTimeoutPolicy)) :
    (finalizeWorkstream now ws code).lifecycleState =
      exitState ws.checkpointId code := by
  rw [finalizeWorkstream, if_neg]
  · rfl
  · rintro (hMark | hMark)
    · exact hInterrupted hMark
    · exact hTimedOut hMark

variable {code : ℤ}

theorem Settled.mono
    (hSettled : Settled p code ws) (hEvolves : p.Evolves q) :
    Settled q code ws := by
  rcases hSettled.held with ⟨c, hHeld, hCode⟩
  rcases hEvolves _ _ hHeld with ⟨d, hNow, hTo⟩
  exact ⟨hSettled.exitCode, ⟨d, hNow, hTo.tryWait hCode⟩,
    hSettled.lifecycleState⟩

theorem settled_finalizeWorkstream
    (now : ℕ) (hHeld : p ws.issue = some c) (hCode : c.tryWait = some code)
    (hInterrupted : ws.lifecycleState ≠ "interrupted_resumable")
    (hTimedOut : ¬(ws.lifecycleState = "timed_out_resumable" ∧
      ws.timeoutPolicy = interruptPreserveTimeoutPolicy)) :
    Settled p code (finalizeWorkstream now ws code) := by
  have hSame : SameScope ws (finalizeWorkstream now ws code) :=
    sameScope_finalizeWorkstream now code
  refine ⟨exitCode_finalizeWorkstream now code,
    ⟨c, hSame.issue ▸ hHeld, hCode⟩, ?_⟩
  rw [hSame.checkpointId]
  exact lifecycleState_finalizeWorkstream now code hInterrupted hTimedOut

/- A look at a settled workstream lists it by its exit. -/
theorem Settled.looks
    (hSettled : Settled p code ws) (hHeld : p ws.issue = some c)
    (hLooks : Looks m ws c r) :
    Settled p code r.1 ∧ r.2 = some (exitListing code) := by
  rcases hSettled.held with ⟨d, hFound, hWait⟩
  rw [hHeld] at hFound
  cases hFound
  have hNe := exitState_ne ws.checkpointId code
  rw [← hSettled.lifecycleState] at hNe
  cases hLooks with
  | finalized other _ hCode =>
    rw [hWait] at hCode
    cases hCode
    have hNow : Settled p code (finalizeWorkstream m.now ws code) :=
      settled_finalizeWorkstream m.now hHeld hWait hNe.2.1
        (fun h => hNe.2.2 h.1)
    refine ⟨hNow, ?_⟩
    simp only [hNow.lifecycleState, exitState_eq_completed_iff, exitListing]
  | running _ _ hExit =>
    rw [hSettled.exitCode] at hExit
    cases hExit
  | displayOnly _ hExit =>
    rw [hSettled.exitCode] at hExit
    cases hExit
  | known other hExit _ =>
    rw [hSettled.exitCode] at hExit
    cases hExit
    refine ⟨hSettled, ?_⟩
    simp only [hSettled.lifecycleState,
      exitState_eq_completed_iff, or_self, exitListing]

theorem Visit.settled
    (hVisit : Visit m ws p ws' q) (hSettled : Settled p code ws) :
    Settled q code ws' := by
  have hNe := exitState_ne ws.checkpointId code
  rw [← hSettled.lifecycleState] at hNe
  have hKept := hSettled.mono hVisit.evolves
  cases hVisit with
  | marks _ _ hMarks =>
    cases hMarks with
    | kept => exact hKept
    | marked hRunning => exact absurd hRunning hNe.1
    | terminated _ hRunning _ => exact absurd hRunning hNe.1
  | looks =>
    rcases hKept.held with ⟨c, hHeld, _⟩
    exact (hKept.looks hHeld (lookAt_looks hHeld)).1

theorem length_pass (kind : Pass) :
    (pass o kind).workstreams.length =
      o.workstreams.length := by
  cases kind with
  | timeouts _ | status _ | cleanup _ => exact length_sweep _ _ _

/- A pass keeps a settled workstream, at its position. -/
theorem settled_pass
    (kind : Pass) (hSound : AllSound o) (hAt : o.workstreams[k]? = some ws)
    (hSettled : Settled o.processes code ws) :
    ∃ ws', (pass o kind).workstreams[k]? = some ws' ∧
      ws'.issue = ws.issue ∧
      Settled (pass o kind).processes code ws' := by
  have hLt : k < (pass o kind).workstreams.length := by
    rcases List.getElem?_eq_some_iff.mp hAt with ⟨hLt, _⟩
    rwa [length_pass]
  have hEnd := List.getElem?_eq_getElem hLt
  rcases (visitedAt_of_pass hEnd).visited with
    ⟨m, w, p, q, hBefore, hTo, hVisit, hOn⟩
  rw [hAt] at hBefore
  cases hBefore
  have hStart := hSound ws (List.mem_of_getElem? hAt)
  exact ⟨_, hEnd, (hVisit.sameScope (hStart.mono hTo)).issue,
    (hVisit.settled (hSettled.mono hTo)).mono hOn⟩

theorem settled_after
    (passes : List Pass) (hSound : AllSound o)
    (hAt : o.workstreams[k]? = some ws)
    (hSettled : Settled o.processes code ws) :
    ∃ ws', (after passes o).workstreams[k]? = some ws' ∧
      ws'.issue = ws.issue ∧
      Settled (after passes o).processes code ws' := by
  induction passes generalizing o ws with
  | nil => exact ⟨ws, hAt, rfl, hSettled⟩
  | cons kind passes ih =>
    rcases settled_pass kind hSound hAt hSettled with ⟨w, hNow, hIssue, hKept⟩
    rcases ih (allSound_pass kind hSound) hNow hKept with
      ⟨v, hEnd, hLast, hStill⟩
    exact ⟨v, hEnd, hLast.trans hIssue, hStill⟩

theorem listed_of_settled
    (hAt : o.workstreams[k]? = some ws)
    (hSettled : Settled o.processes code ws) :
    ws.issue ∈ (o.status moments).lists (exitListing code) := by
  have hNow : Settled (seen moments o.processes k) code ws :=
    hSettled.mono (evolves_seen k)
  rcases hNow.held with ⟨c, hHeld, _⟩
  exact (lookedAt hAt).listing _ (hNow.looks hHeld (lookAt_looks hHeld)).2

/- The look that finds an exit settles the workstream. -/
theorem settled_of_exit
    (hAt : o.workstreams[k]? = some ws)
    (hHeld : seen moments o.processes k ws.issue = some c)
    (hAuth : processScopeIsAuthoritative (moments k) ws c.pid = true)
    (hCode : c.tryWait = some code)
    (hInterrupted : ws.lifecycleState ≠ "interrupted_resumable")
    (hTimedOut : ¬(ws.lifecycleState = "timed_out_resumable" ∧
      ws.timeoutPolicy = interruptPreserveTimeoutPolicy)) :
    ws.issue ∈
        (o.status moments).lists (exitListing code) ∧
      ∃ ws', (o.looked moments).workstreams[k]? = some ws' ∧
        ws'.issue = ws.issue ∧
        Settled (o.looked moments).processes code ws' := by
  have hLooked : LookedAt moments o k ws _ := lookedAt hAt
  have hLooks := lookAt_looks (m := moments k) hHeld
  generalize lookAt (moments k) ws
    (seen moments o.processes k) = r at hLooked hLooks
  have hSettled : Settled (seen moments o.processes k) code
      (finalizeWorkstream (moments k).now ws code) :=
    settled_finalizeWorkstream _ hHeld hCode hInterrupted hTimedOut
  cases hLooks with
  | finalized other _ hOther =>
    rw [hCode] at hOther
    cases hOther
    refine ⟨hLooked.listing _ ?_, _, hLooked.left, ?_,
      hSettled.mono hLooked.evolves⟩
    · simp only [hSettled.lifecycleState,
        exitState_eq_completed_iff, exitListing]
    · exact (sameScope_finalizeWorkstream _ code).issue
  | running _ hAlive _ =>
    rw [Child.tryWait_eq_none_iff.mpr hAlive] at hCode
    cases hCode
  | displayOnly hNot _ =>
    rw [hAuth] at hNot
    cases hNot
  | known _ _ hNot =>
    rcases hNot with hNot | hAlive
    · rw [hAuth] at hNot
      cases hNot
    · rw [Child.tryWait_eq_none_iff.mpr hAlive] at hCode
      cases hCode

theorem Settled.endState
    (hSettled : Settled p code ws) :
    if code = 0 then ws.lifecycleState = "completed"
    else ws.lifecycleState ∈ ["failed_resumable", "failed_terminal"] := by
  rw [hSettled.lifecycleState, exitState]
  by_cases hZero : code = 0
  · rw [if_pos hZero, if_pos hZero]
  · rw [if_neg hZero, if_neg hZero]
    split
    · exact List.mem_cons_self
    · exact List.mem_cons_of_mem _ List.mem_cons_self

theorem Sound.cleanupEligible_iff (hSound : Sound p ws) :
    ws.cleanupEligible = true ↔
      ws.lifecycleState ∈ cleanupEligibleStates := by
  rw [hSound.eligible, deriveCleanupEligible, List.contains_iff_mem]

-- Accounts

theorem accounts_of_launchFresh
    {limit : ℕ} {spawns : ℕ → Spawn} {fresh : List Workstream}
    (hOk : launchFresh limit spawns fresh = .ok o) :
    Accounts o := by
  rcases allSound_launchFresh hOk with ⟨hSound, hRunning, _⟩
  refine ⟨?_, ?_, ?_, ?_⟩
  · intro passes moments
    have hNow := allSound_after passes hSound
    refine ⟨isListed moments (after passes o).processes, ?_, ?_⟩
    · exact status_perm hNow 0
        ((after passes o).processes, .empty)
        (Processes.Evolves.refl _)
    · intro ws k c hAt hHeld
      rw [isListed, hHeld, Option.any_some]
      refine ⟨?_, ?_⟩
      · rintro (hExit | hAuth)
        · simp [Option.isSome_iff_ne_none.mpr hExit]
        · simp [hAuth]
      · intro hExit hAuth _
        simp [hExit, hAuth]
  · intro rounds looks o' hStopped
    have hWatched : Watched [] o := by
      refine ⟨hSound, ?_⟩
      intro k ws c hAt _ _
      exact Or.inl (hRunning ws (List.mem_of_getElem? hAt))
    exact monitor_stopped hWatched hStopped
  · intro passes moments ws k c code hAt hHeld hAuth hCode
      hInterrupted hTimedOut
    have hNow := allSound_after passes hSound
    rcases settled_of_exit hAt hHeld hAuth hCode hInterrupted
        hTimedOut with ⟨hListed, w, hLeft, hIssue, hSettled⟩
    refine ⟨hListed, ?_⟩
    intro later
    rcases settled_after later
        (allSound_pass (.status moments) hNow) hLeft hSettled
      with ⟨v, hEnd, hLast, hStill⟩
    refine ⟨v, hEnd, hLast.trans hIssue, hStill.endState, ?_⟩
    intro moments'
    have hListedLater : v.issue ∈ ((after later
        ((after passes o).looked moments)).status
          moments').lists (exitListing code) := listed_of_settled hEnd hStill
    rw [hLast, hIssue] at hListedLater
    exact hListedLater
  · intro passes ws hMem
    exact (allSound_after passes hSound ws hMem).cleanupEligible_iff

/- One workstream, its launch, and a world around it. -/
def soleScope : WorkstreamScope where
  repository := "owner/repo"
  repoRoot := "/tmp/ws-7"
  workdir := "/tmp/ws-7"
  branch := "feat/seven"
  issueId := "7"
  workItemId := "7"
  recipeRunId := "run"
  treeId := "tree"
  workstreamId := "ws-7"

def soleFresh : Workstream where
  issue := 7
  branch := "feat/seven"
  pid := none
  startTime := none
  endTime := none
  exitCode := none
  lifecycleState := "pending"
  cleanupEligible := false
  checkpointId := ""
  attempt := 0
  timeoutPolicy := defaultTimeoutPolicy
  maxRuntime := defaultMaxRuntime
  workstreamScope := soleScope
  processScope := ⟨none, "", "", "", "", "", "", "", "", "", "",
    ""⟩

def soleSpawn : Spawn where
  exits := fun _ => none
  started := some ⟨100, 0, "4242", "then", true⟩

def soleLaunch : Launched Orchestrator :=
  launchFresh 1 (fun _ => soleSpawn) [soleFresh]

/- The world a number of seconds after the launch. -/
def soleMoment (seconds : ℕ) : Moment where
  exits := fun _ => none
  now := seconds * 1000000000
  workDir := "/tmp/ws-7"
  alive := true
  startedAt := some "4242"
  age := fun _ => some seconds
  idle := false
  waited := none

def soleRound (seconds : ℕ) : Round where
  running := true
  runningAfter := true
  timeouts := fun _ => soleMoment seconds
  looks := fun _ => soleMoment seconds
  cleanups := fun _ => soleMoment seconds

theorem accounts_of_soleLaunch :
    ∃ o, soleLaunch = .ok o ∧ Accounts o :=
  ⟨_, rfl, accounts_of_launchFresh
    (show launchFresh 1 (fun _ => soleSpawn) [soleFresh] = .ok _ from rfl)⟩

/- In time the child is authoritative, and it is waited for. -/
example :
    ∃ o, soleLaunch = .ok o ∧
      (o.status fun _ => soleMoment 60).running = [7] :=
  ⟨_, rfl, rfl⟩

/-
  A child that has run past its budget for more than an hour
  is in no list, and the monitor stops while it lives.
-/
theorem old_child_is_dropped :
    ∃ o o' looks, soleLaunch = .ok o ∧
      monitor [] [soleRound 10801] o = .stopped looks o' ∧
      o'.processes 7 = some ⟨100, .alive, false⟩ ∧
      o.workstreams.length = 1 ∧
      (o.status fun _ => soleMoment 10801).entries = [] ∧
      o.workstreams.map
          (processScopeValidation (soleMoment 10801) · 100) =
        [.tooOld] :=
  ⟨_, _, _, rfl, rfl, rfl, rfl, rfl, rfl⟩

end Multitask
