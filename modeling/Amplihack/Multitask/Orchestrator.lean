import Amplihack.Multitask.State

/-
  The orchestrator: launch, passes in any order, and the
  monitor's loop over them.
-/

-- Runs

namespace Multitask

open Base

structure Orchestrator where
  workstreams : List Workstream
  processes : Processes

namespace Orchestrator

def enforceTimeouts
    (moments : ℕ → Moment) (o : Orchestrator) :
    Orchestrator :=
  let swept :=
    Multitask.enforceTimeouts moments o.workstreams o.processes
  ⟨swept.1, swept.2⟩

def cleanupRunning
    (moments : ℕ → Moment) (o : Orchestrator) :
    Orchestrator :=
  let swept :=
    Multitask.cleanupRunning moments o.workstreams o.processes
  ⟨swept.1, swept.2⟩

def looked
    (moments : ℕ → Moment) (o : Orchestrator) :
    Orchestrator :=
  let swept :=
    Multitask.getStatus moments o.workstreams o.processes
  ⟨swept.1, swept.2.1⟩

def status
    (moments : ℕ → Moment) (o : Orchestrator) :
    WorkstreamStatus :=
  (Multitask.getStatus moments o.workstreams o.processes).2.2

end Orchestrator

def launchFresh
    (limit : ℕ) (spawns : ℕ → Spawn) (fresh : List Workstream) :
    Launched Orchestrator := do
  let r ← launchAll limit spawns fresh fun _ => none
  pure ⟨r.1, r.2⟩

inductive Pass where
| timeouts (moments : ℕ → Moment)
| status (moments : ℕ → Moment)
| cleanup (moments : ℕ → Moment)

def pass (o : Orchestrator) : Pass → Orchestrator
| .timeouts moments => o.enforceTimeouts moments
| .status moments => o.looked moments
| .cleanup moments => o.cleanupRunning moments

def after (passes : List Pass) (o : Orchestrator) :
    Orchestrator :=
  passes.foldl pass o

/-
  One round of the monitor: the flag at its head and after its
  loop, and the moments of the passes it makes.
-/
structure Round where
  running : Bool
  runningAfter : Bool
  timeouts : ℕ → Moment
  looks : ℕ → Moment
  cleanups : ℕ → Moment

/- `looks`: the moments at which it last saw each process. -/
inductive Monitored where
| monitoring (o : Orchestrator)
| stopped (looks : List (ℕ → Moment)) (o : Orchestrator)

def monitor :
    List (ℕ → Moment) → List Round → Orchestrator → Monitored
| _, [], o => .monitoring o
| last, r :: rest, o =>
  if r.running then
    let marked := o.enforceTimeouts r.timeouts
    if (marked.status r.looks).running = [] then
      if r.runningAfter then
        .stopped [r.looks] (marked.looked r.looks)
      else
        .stopped [r.looks, r.cleanups]
          ((marked.looked r.looks).cleanupRunning r.cleanups)
    else
      monitor [r.looks] rest (marked.looked r.looks)
  else
    .stopped (last ++ [r.cleanups]) (o.cleanupRunning r.cleanups)

-- Sound Workstreams

structure Sound (p : Processes) (ws : Workstream) : Prop where
  held : ∃ c, p ws.issue = some c
  eligible : ws.cleanupEligible = deriveCleanupEligible ws.lifecycleState
  unfinished : ws.exitCode = none → ws.cleanupEligible = false
  finished : ∀ code, ws.exitCode = some code →
    ∃ c, p ws.issue = some c ∧ c.tryWait = some code

variable {m : Moment} {ws ws' : Workstream}
variable {p q : Processes} {c : Child} {o : Orchestrator}

theorem Sound.mono
    (hSound : Sound p ws) (hEvolves : p.Evolves q) :
    Sound q ws := by
  refine ⟨?_, hSound.eligible, hSound.unfinished, ?_⟩
  · rcases hSound.held with ⟨c, hHeld⟩
    rcases hEvolves _ _ hHeld with ⟨d, hNow, _⟩
    exact ⟨d, hNow⟩
  · intro code hExit
    rcases hSound.finished code hExit with ⟨c, hHeld, hCode⟩
    rcases hEvolves _ _ hHeld with ⟨d, hNow, hTo⟩
    exact ⟨d, hNow, hTo.tryWait hCode⟩

theorem IsLaunched.sound (hLaunched : IsLaunched p ws) :
    Sound p ws := by
  refine ⟨Option.isSome_iff_exists.mp hLaunched.held, ?_,
    fun _ => hLaunched.cleanupEligible, ?_⟩
  · rw [hLaunched.cleanupEligible, hLaunched.lifecycleState]
    rfl
  · intro code hExit
    rw [hLaunched.exitCode] at hExit
    cases hExit

theorem SameScope.refl (ws : Workstream) : SameScope ws ws :=
  ⟨rfl, rfl, rfl, rfl, rfl, rfl⟩

theorem sameScope_marked (lifecycleState : String) (now : ℕ) :
    SameScope ws (marked lifecycleState now ws) :=
  ⟨rfl, rfl, rfl, rfl, rfl, rfl⟩

variable {lifecycleState : String} {r : Workstream × Processes}

/- A visit marks what runs, and no more than that. -/
theorem Marks.evolves
    (hMarks : Marks m ws p lifecycleState r) :
    p.Evolves r.2 ∧ SameScope ws r.1 := by
  have hAdvance := Processes.evolves_exiting m.exits p
  cases hMarks with
  | kept => exact ⟨hAdvance, SameScope.refl ws⟩
  | marked hRunning => exact ⟨hAdvance, sameScope_marked _ _⟩
  | terminated c hRunning hHeld =>
    refine ⟨hAdvance.trans ?_, sameScope_marked _ _⟩
    exact Processes.evolves_insert hHeld (Child.evolves_terminate m.waited c)

theorem Marks.sound
    (hMarks : Marks m ws p lifecycleState r)
    (hState : deriveCleanupEligible lifecycleState = false)
    (hSound : Sound p ws) :
    Sound r.2 r.1 := by
  have hKept := hSound.mono hMarks.evolves.1
  have hMarked : ws.lifecycleState = "running" →
      Sound r.2 (Multitask.marked lifecycleState m.now ws) := by
    intro hRunning
    have hNot : ws.cleanupEligible = false := by
      rw [hSound.eligible, hRunning]
      rfl
    exact ⟨hKept.held, hNot.trans hState.symm,
      hKept.unfinished, hKept.finished⟩
  cases hMarks with
  | kept => exact hKept
  | marked hRunning => exact hMarked hRunning
  | terminated c hRunning hHeld => exact hMarked hRunning

theorem sameScope_finalizeWorkstream (now : ℕ) (code : ℤ) :
    SameScope ws (finalizeWorkstream now ws code) := by
  rw [finalizeWorkstream]
  split
  · exact ⟨rfl, rfl, rfl, rfl, rfl, rfl⟩
  · exact ⟨rfl, rfl, rfl, rfl, rfl, rfl⟩

theorem exitCode_finalizeWorkstream (now : ℕ) (code : ℤ) :
    (finalizeWorkstream now ws code).exitCode = some code := by
  rw [finalizeWorkstream]
  split
  · rfl
  · rfl

theorem eligible_finalizeWorkstream
    (now : ℕ) (code : ℤ)
    (hEligible : ws.cleanupEligible =
      deriveCleanupEligible ws.lifecycleState) :
    (finalizeWorkstream now ws code).cleanupEligible =
      deriveCleanupEligible
        (finalizeWorkstream now ws code).lifecycleState := by
  rw [finalizeWorkstream]
  split
  · exact hEligible
  · rfl

theorem Looks.sameScope
    {r : Workstream × Option Listing} (hLooks : Looks m ws c r) :
    SameScope ws r.1 := by
  cases hLooks with
  | finalized code _ _ => exact sameScope_finalizeWorkstream m.now code
  | running _ _ _ => exact ⟨rfl, rfl, rfl, rfl, rfl, rfl⟩
  | displayOnly _ _ | known _ _ _ => exact SameScope.refl ws

theorem Looks.sound
    {r : Workstream × Option Listing} (hLooks : Looks m ws c r)
    (hHeld : p ws.issue = some c) (hSound : Sound p ws) :
    Sound p r.1 := by
  cases hLooks with
  | finalized code _ hCode =>
    have hIssue : (finalizeWorkstream m.now ws code).issue =
        ws.issue := (sameScope_finalizeWorkstream m.now code).issue
    have hExit : (finalizeWorkstream m.now ws code).exitCode = some code :=
      exitCode_finalizeWorkstream m.now code
    refine ⟨⟨c, hIssue ▸ hHeld⟩,
      eligible_finalizeWorkstream m.now code hSound.eligible,
      ?_, ?_⟩
    · intro hNone
      rw [hExit] at hNone
      cases hNone
    · intro other hOther
      rw [hExit] at hOther
      exact ⟨c, hIssue ▸ hHeld, hCode.trans hOther⟩
  | running _ _ hExit =>
    exact ⟨hSound.held, hSound.unfinished hExit,
      hSound.unfinished, hSound.finished⟩
  | displayOnly _ _ | known _ _ _ => exact hSound

-- Sound Runs

/- A visit of any pass: it marks a workstream or looks at it. -/
inductive Visit
    (m : Moment) (ws : Workstream) (p : Processes) :
    Workstream → Processes → Prop
| marks
    {ws' : Workstream}
    {q : Processes}
    (lifecycleState : String)
    (hState : deriveCleanupEligible lifecycleState = false)
    (hMarks : Marks m ws p lifecycleState (ws', q)) :
    Visit m ws p ws' q
| looks :
    Visit m ws p (lookAt m ws (m.advance p)).1 (m.advance p)

theorem Sound.looks
    (hSound : Sound p ws) (m : Moment) :
    ∃ c, m.advance p ws.issue = some c ∧
      Looks m ws c (lookAt m ws (m.advance p)) := by
  have hNow := hSound.mono (Processes.evolves_exiting m.exits p)
  rcases hNow.held with ⟨c, hHeld⟩
  exact ⟨c, hHeld, lookAt_looks hHeld⟩

theorem Visit.evolves (hVisit : Visit m ws p ws' q) :
    p.Evolves q := by
  cases hVisit with
  | marks _ _ hMarks => exact hMarks.evolves.1
  | looks => exact Processes.evolves_exiting m.exits p

theorem Visit.sameScope
    (hVisit : Visit m ws p ws' q) (hSound : Sound p ws) :
    SameScope ws ws' := by
  cases hVisit with
  | marks _ _ hMarks => exact hMarks.evolves.2
  | looks =>
    rcases hSound.looks m with ⟨c, _, hLooks⟩
    exact hLooks.sameScope

theorem Visit.sound
    (hVisit : Visit m ws p ws' q) (hSound : Sound p ws) :
    Sound q ws' := by
  cases hVisit with
  | marks _ hState hMarks => exact hMarks.sound hState hSound
  | looks =>
    rcases hSound.looks m with ⟨c, hHeld, hLooks⟩
    exact hLooks.sound hHeld
      (hSound.mono (Processes.evolves_exiting m.exits p))

/-
  The workstream at position `k` is visited between the start
  of the pass and its end.
-/
structure VisitedAt
    (o o' : Orchestrator) (k : ℕ) (ws' : Workstream) :
    Prop where
  visited : ∃ m ws p q, o.workstreams[k]? = some ws ∧
    o.processes.Evolves p ∧
    Visit m ws p ws' q ∧
    q.Evolves o'.processes

variable {k : ℕ}

theorem visitedAt_of_marks
    {visit : Moment → Workstream → Processes → Workstream × Processes}
    {moments : ℕ → Moment}
    (hState : deriveCleanupEligible lifecycleState = false)
    (hMarks : ∀ m ws p, Marks m ws p lifecycleState (visit m ws p))
    (hAt : (sweep visit moments 0 o.workstreams
      o.processes).1[k]? = some ws') :
    VisitedAt o
      ⟨(sweep visit moments 0 o.workstreams o.processes).1,
        (sweep visit moments 0 o.workstreams o.processes).2⟩
      k ws' := by
  rcases visited_of_sweep Processes.Evolves
      Processes.Evolves.refl (fun _ _ _ h => h.trans)
      (fun j ws p => (hMarks (moments j) ws p).evolves.1) hAt
    with ⟨ws, hBefore, hTo, rfl, hOn⟩
  exact ⟨_, ws, _, _, hBefore, hTo,
    .marks lifecycleState hState (hMarks _ _ _), hOn⟩

theorem getStatusOf_evolves
    (m : Moment) (ws : Workstream) (s : Processes × WorkstreamStatus) :
    s.1.Evolves (getStatusOf m ws s).2.1 :=
  Processes.evolves_exiting m.exits s.1

theorem visitedAt_of_pass
    {kind : Pass} (hAt : (pass o kind).workstreams[k]? = some ws') :
    VisitedAt o (pass o kind) k ws' := by
  cases kind with
  | timeouts moments => exact visitedAt_of_marks rfl enforceTimeout_marks hAt
  | status moments =>
    rcases visited_of_sweep
        (fun s t : Processes × WorkstreamStatus =>
          s.1.Evolves t.1)
        (fun s => Processes.Evolves.refl s.1)
        (fun _ _ _ h => h.trans)
        (fun j => getStatusOf_evolves (moments j)) hAt
      with ⟨ws, hBefore, hTo, rfl, hOn⟩
    exact ⟨_, ws, _, _, hBefore, hTo, .looks, hOn⟩
  | cleanup moments =>
    exact visitedAt_of_marks rfl cleanupWorkstream_marks hAt

/- The workstreams at every position satisfy `P`. -/
def AllSound (o : Orchestrator) : Prop :=
  ∀ ws ∈ o.workstreams, Sound o.processes ws

theorem allSound_pass
    (kind : Pass) (hSound : AllSound o) :
    AllSound (pass o kind) := by
  intro ws' hMem
  rcases List.getElem?_of_mem hMem with ⟨k, hAt⟩
  rcases (visitedAt_of_pass hAt).visited with
    ⟨m, ws, p, q, hBefore, hTo, hVisit, hOn⟩
  have hStart := hSound ws (List.mem_of_getElem? hBefore)
  exact (hVisit.sound (hStart.mono hTo)).mono hOn

theorem allSound_after
    (passes : List Pass) (hSound : AllSound o) :
    AllSound (after passes o) := by
  induction passes generalizing o with
  | nil => exact hSound
  | cons kind passes ih => exact ih (allSound_pass kind hSound)

theorem allSound_launchFresh
    {limit : ℕ} {spawns : ℕ → Spawn} {fresh : List Workstream}
    (hOk : launchFresh limit spawns fresh = .ok o) :
    AllSound o ∧
      (∀ ws ∈ o.workstreams, ws.lifecycleState = "running") ∧
      o.workstreams.map Workstream.issue = fresh.map Workstream.issue := by
  rw [launchFresh] at hOk
  cases hAll : launchAll limit spawns fresh fun _ => none with
  | error e =>
    rw [hAll] at hOk
    cases hOk
  | ok r =>
    rw [hAll] at hOk
    cases hOk
    rcases launchAll_launched hAll with ⟨hLaunched, hIssues⟩
    exact ⟨fun ws hMem => (hLaunched ws hMem).sound,
      fun ws hMem => (hLaunched ws hMem).lifecycleState,
      hIssues⟩

end Multitask
