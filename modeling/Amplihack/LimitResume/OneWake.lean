import Amplihack.Base.Caps
import Mathlib.Algebra.Order.Group.Int
import Amplihack.LimitResume.Commit
import Amplihack.LimitResume.System

/-
  A limit stop wakes a session at most once, in every
  interleaving of hooks.
-/

-- Records and wakes

namespace LimitResume

open Base

/- When the session was woken, in the order of commits. -/
def wakes (session : Key) (attempts : List Attempt) : List ℤ :=
  (attempts.filter fun a =>
    a.resumed && a.hook.session = session).map (·.now)

/- What can be read of a session's record covers its wakes. -/
def RecordCovers (record : Option Text) (past : List ℤ) :
    Prop :=
  match record with
  | none => past = []
  | some raw =>
    ∀ times, parseSession raw = some times → Covers daySecs times past

section Counted

variable {record : Option Text}
variable {start now : ℤ}
variable {times past : List ℤ}

/- What the check of a record has found when it passes. -/
theorem exists_of_countedTimes
    (hCounted : countedTimes record start now = .ok times) :
    ∃ all,
      (∀ t ∈ all, t ≤ start) ∧
      times = recentOf daySecs now all ∧
      times.length < maxResumesPerSession ∧
      ∀ past, RecordCovers record past → Covers daySecs all past := by
  cases record with
  | none =>
    rw [← Except.ok.inj hCounted]
    refine ⟨[], by simp, rfl, by decide, ?_⟩
    exact fun past hPast => Or.inl hPast
  | some raw =>
    rw [countedTimes] at hCounted
    cases hParse : parseSession raw with
    | none =>
      rw [hParse] at hCounted
      cases hCounted
    | some all =>
      rw [hParse] at hCounted
      simp only at hCounted
      split at hCounted
      · cases hCounted
      · next hLater =>
          split at hCounted
          · cases hCounted
          · next hCap =>
              rw [← Except.ok.inj hCounted]
              refine ⟨all, ?_, rfl, not_le.mp hCap, ?_⟩
              · simpa using hLater
              · exact fun past hPast => hPast all hParse

theorem covers_written
    (hCounted : countedTimes record start now = .ok times)
    (hStart : start ≤ now) (hCovers : RecordCovers record past) :
    RecordCovers (some (formatSession (times ++ [now]))) past ∧
      RecordCovers (some (formatSession (times ++ [now])))
        (past ++ [now]) := by
  rcases exists_of_countedTimes hCounted with ⟨all, hAll, rfl, _, hPast⟩
  have hLe : ∀ t ∈ all, t ≤ now := fun t ht =>
    (hAll t ht).trans hStart
  constructor
  · intro read hRead
    rw [eq_of_parseSession_formatSession (by simp) hRead]
    exact (hPast past hCovers).keep hLe
  · intro read hRead
    rw [eq_of_parseSession_formatSession (by simp) hRead]
    exact (hPast past hCovers).push hLe

end Counted

-- The invariant

/- A later wake is by a hook that started no earlier. -/
def StartedAfter (a b : Attempt) : Prop :=
  a.resumed = true → b.resumed = true →
    a.hook.session = b.hook.session →
    a.now ≤ b.hook.start

/-
  The marker that a wake left is on disk, or a later commit
  found it older than its retention.
-/
def MarkerKept (a : Attempt) (later : List Attempt)
    (d : Disk) : Prop :=
  ∃ m, a.left.marker a.hook.event = some m ∧ a.now ≤ m ∧
    (d.marker a.hook.event = some m ∨
      ∃ c ∈ later, m < c.now - markerRetentionSecs)

structure Invariant (s : System) : Prop where
  waiting : ∀ id h, s.hooks id = some (.waiting h) → h.start ≤ s.disk.clock
  committing : ∀ id h now, s.hooks id = some (.committing h now) →
    h.start ≤ now ∧ now ≤ s.disk.clock
  timely : ∀ a ∈ s.attempts, a.hook.start ≤ a.now
  covered : ∀ session, RecordCovers (s.disk.record session)
    (wakes session s.attempts)
  spaced : ∀ session, Spaced daySecs maxResumesPerSession
    (wakes session s.attempts)
  ordered : s.attempts.Pairwise StartedAfter
  marked : ∀ pre a later, s.attempts = pre ++ a :: later →
    a.resumed = true → MarkerKept a later s.disk
  once : ∀ pre a mid b post, s.attempts = pre ++ a :: (mid ++ b :: post) →
    a.resumed = true → b.resumed = true →
    a.hook.event = b.hook.event →
    ∃ m, a.left.marker a.hook.event = some m ∧ a.now ≤ m ∧
      ∃ c ∈ mid ++ [b], m < c.now - markerRetentionSecs

section Steps

variable {s t : System}
variable {id : ℕ} {h : Hook} {now : ℤ}

/- A step that tries no commit and only lets time pass. -/
theorem Invariant.quiet
    (hInv : Invariant s) (hAttempts : t.attempts = s.attempts)
    (hRecord : t.disk.record = s.disk.record)
    (hMarker : ∀ e, t.disk.marker e = s.disk.marker e)
    (hWaiting : ∀ id h, t.hooks id = some (.waiting h) →
      h.start ≤ t.disk.clock)
    (hCommitting : ∀ id h now, t.hooks id = some (.committing h now) →
      h.start ≤ now ∧ now ≤ t.disk.clock) :
    Invariant t where
  waiting := hWaiting
  committing := hCommitting
  timely := by
    rw [hAttempts]
    exact hInv.timely
  covered := by
    rw [hAttempts, hRecord]
    exact hInv.covered
  spaced := by
    rw [hAttempts]
    exact hInv.spaced
  ordered := by
    rw [hAttempts]
    exact hInv.ordered
  marked := by
    intro pre a later hSplit hResumed
    rw [hAttempts] at hSplit
    rw [MarkerKept, hMarker]
    exact hInv.marked pre a later hSplit hResumed
  once := by
    rw [hAttempts]
    exact hInv.once

theorem invariant_fresh (d : Disk) :
    Invariant (System.fresh d) where
  waiting := by
    intro id h hHook
    cases hHook
  committing := by
    intro id h now hHook
    cases hHook
  timely := by simp [System.fresh]
  covered := by
    intro session
    change RecordCovers (d.record session) []
    cases hRecord : d.record session with
    | none => rfl
    | some raw => exact fun times _ => Or.inl rfl
  spaced := by
    intro session pre n post hSplit
    simp [System.fresh, wakes] at hSplit
  ordered := List.Pairwise.nil
  marked := by
    intro pre a later hSplit
    simp [System.fresh] at hSplit
  once := by
    intro pre a mid b post hSplit
    simp [System.fresh] at hSplit

/- A hook goes on to a phase whose times are in order. -/
theorem invariant_set
    (hInv : Invariant s) (phase : Phase)
    (hWaiting : ∀ h, phase = .waiting h → h.start ≤ s.disk.clock)
    (hCommitting : ∀ h now, phase = .committing h now →
      h.start ≤ now ∧ now ≤ s.disk.clock) :
    Invariant (s.set id phase) := by
  refine hInv.quiet rfl rfl (fun _ => rfl) ?_ ?_
  · intro i h hHook
    simp only [System.set] at hHook
    split at hHook
    · exact hWaiting h (Option.some.inj hHook)
    · exact hInv.waiting i h hHook
  · intro i h n hHook
    simp only [System.set] at hHook
    split at hHook
    · exact hCommitting h n (Option.some.inj hHook)
    · exact hInv.committing i h n hHook

theorem invariant_tick
    (hInv : Invariant s) (elapsed : ℕ) :
    Invariant (step s (.tick elapsed)) := by
  have hClock : s.disk.clock ≤ s.disk.clock + (elapsed : ℤ) := by omega
  refine hInv.quiet rfl rfl (fun _ => rfl) ?_ ?_
  · intro i h hHook
    exact (hInv.waiting i h hHook).trans hClock
  · intro i h n hHook
    have hTimes := hInv.committing i h n hHook
    exact ⟨hTimes.1, hTimes.2.trans hClock⟩

theorem invariant_arrive
    (hInv : Invariant s) (id : ℕ) (event session : Key) (a : Arrival) :
    Invariant (step s (.arrive id event session a)) := by
  simp only [step]
  split
  · rw [arriveStep]
    split
    · refine invariant_set hInv _ ?_ ?_
      · rintro h ⟨rfl⟩
        exact le_rfl
      · intro h n hPhase
        cases hPhase
    · refine invariant_set hInv _ ?_ ?_
      · intro h hPhase
        cases hPhase
      · intro h n hPhase
        cases hPhase
  · exact hInv

theorem invariant_poll
    (hInv : Invariant s) (id : ℕ) (a : Answers) :
    Invariant (step s (.poll id a)) := by
  simp only [step]
  split
  · next h hHook =>
      rw [pollStep]
      split
      · exact hInv
      · refine invariant_set hInv _ ?_ ?_
        · intro h hPhase
          cases hPhase
        · intro h n hPhase
          cases hPhase
      · refine invariant_set hInv _ ?_ ?_
        · intro h hPhase
          cases hPhase
        · rintro h n ⟨rfl, rfl⟩
          exact ⟨hInv.waiting id _ hHook, le_rfl⟩
  · exact hInv

-- A commit

theorem eq_ok_of_settle
    {result : Option Committed} (hSettle : settle result = some .resumed) :
    result = some (.ok ()) := by
  match result with
  | none => cases hSettle
  | some (.ok ()) => rfl
  | some (.error .duplicate) => cases hSettle
  | some (.error .cap) => cases hSettle
  | some (.error .io) => cases hSettle

theorem wakes_append
    (session : Key) (attempts : List Attempt) (b : Attempt) :
    wakes session (attempts ++ [b]) =
      wakes session attempts ++
        if b.resumed = true ∧ b.hook.session = session then
          [b.now]
        else [] := by
  rw [wakes, wakes, List.filter_append, List.map_append]
  congr 1
  by_cases hWoken : b.resumed = true ∧ b.hook.session = session
  · simp [hWoken]
  · simp [hWoken]

theorem mem_wakes
    {attempts : List Attempt} {a : Attempt}
    (hMem : a ∈ attempts) (hResumed : a.resumed = true) :
    a.now ∈ wakes a.hook.session attempts :=
  List.mem_map.mpr ⟨a, List.mem_filter.mpr ⟨hMem, by simp [hResumed]⟩, rfl⟩

/- What one more attempt, with its commit's effects, may be. -/
structure NextAttempt (s : System) (b : Attempt) : Prop where
  started : b.hook.start ≤ b.now
  known : b.now ≤ s.disk.clock
  progress : Progress b.hook.session b.hook.start b.now s.disk b.left
  succeeded : b.resumed = true →
    Succeeded b.hook.event b.hook.session b.hook.start b.now s.disk b.left

section Next

variable {b : Attempt}

theorem NextAttempt.covered
    (hInv : Invariant s) (hNext : NextAttempt s b) (session : Key) :
    RecordCovers (b.left.record session)
      (wakes session (s.attempts ++ [b])) := by
  rw [wakes_append]
  by_cases hSession : session = b.hook.session
  · subst hSession
    have hCovers := hInv.covered b.hook.session
    by_cases hResumed : b.resumed = true
    · rcases (hNext.succeeded hResumed).record with
        ⟨times, hCounted, hWritten⟩
      rw [hWritten, if_pos ⟨hResumed, rfl⟩]
      exact (covers_written hCounted hNext.started hCovers).2
    · rw [if_neg (fun hBoth => hResumed hBoth.1), List.append_nil]
      rcases hNext.progress.record with
        hSame | ⟨times, hCounted, hWritten⟩
      · rw [hSame]
        exact hCovers
      · rw [hWritten]
        exact (covers_written hCounted hNext.started hCovers).1
  · rw [hNext.progress.others session hSession,
      if_neg (fun hBoth => hSession hBoth.2.symm), List.append_nil]
    exact hInv.covered session

/- What a wake's check found of the session's earlier wakes. -/
theorem NextAttempt.earlier
    (hInv : Invariant s) (hNext : NextAttempt s b)
    (hResumed : b.resumed = true) :
    (∀ t ∈ wakes b.hook.session s.attempts, t ≤ b.hook.start) ∧
    (recentOf daySecs b.now
      (wakes b.hook.session s.attempts)).length <
        maxResumesPerSession := by
  rcases (hNext.succeeded hResumed).record with ⟨times, hCounted, _⟩
  rcases exists_of_countedTimes hCounted with ⟨all, hAll, rfl, hCap, hPast⟩
  have hCovers := hPast _ (hInv.covered b.hook.session)
  refine ⟨hCovers.past_le hAll, ?_⟩
  have hSublist := hCovers.recentOf_sublist fun t ht =>
    (hAll t ht).trans hNext.started
  exact hSublist.length_le.trans_lt hCap

theorem NextAttempt.spaced
    (hInv : Invariant s) (hNext : NextAttempt s b) (session : Key) :
    Spaced daySecs maxResumesPerSession
      (wakes session (s.attempts ++ [b])) := by
  rw [wakes_append]
  split
  · next hWoken =>
      rcases hWoken with ⟨hResumed, rfl⟩
      exact (hInv.spaced _).push (hNext.earlier hInv hResumed).2
  · rw [List.append_nil]
    exact hInv.spaced session

theorem NextAttempt.ordered
    (hInv : Invariant s) (hNext : NextAttempt s b) :
    (s.attempts ++ [b]).Pairwise StartedAfter := by
  rw [List.pairwise_append]
  refine ⟨hInv.ordered, List.pairwise_singleton _ _, ?_⟩
  intro a ha c hc hResumedA hResumedB hSession
  rw [List.mem_singleton.mp hc] at hResumedB hSession ⊢
  have hWake := mem_wakes ha hResumedA
  rw [hSession] at hWake
  exact (hNext.earlier hInv hResumedB).1 _ hWake

theorem NextAttempt.marked
    (hInv : Invariant s) (hNext : NextAttempt s b)
    {pre later : List Attempt} {a : Attempt}
    (hSplit : s.attempts ++ [b] = pre ++ a :: later)
    (hResumed : a.resumed = true) :
    MarkerKept a later b.left := by
  rcases last_or_earlier hSplit with ⟨_, rfl, _⟩ | ⟨rest, rfl, hPast⟩
  · rcases (hNext.succeeded hResumed).marked with
      ⟨m, hMarker, hClock⟩
    exact ⟨m, hMarker, hNext.known.trans hClock, Or.inl hMarker⟩
  · rcases hInv.marked pre a rest hPast hResumed with
      ⟨m, hLeft, hLe, hKept | ⟨c, hc, hOld⟩⟩
    · refine ⟨m, hLeft, hLe, ?_⟩
      rcases hNext.progress.kept _ m hKept with
        hStill | hOld
      · exact Or.inl hStill
      · exact Or.inr ⟨b, by simp, hOld⟩
    · exact ⟨m, hLeft, hLe, Or.inr ⟨c, List.mem_append_left _ hc, hOld⟩⟩

theorem NextAttempt.once
    (hInv : Invariant s) (hNext : NextAttempt s b)
    {pre mid post : List Attempt} {a c : Attempt}
    (hSplit : s.attempts ++ [b] = pre ++ a :: (mid ++ c :: post))
    (hResumedA : a.resumed = true) (hResumedC : c.resumed = true)
    (hEvent : a.hook.event = c.hook.event) :
    ∃ m, a.left.marker a.hook.event = some m ∧ a.now ≤ m ∧
      ∃ x ∈ mid ++ [c], m < x.now - markerRetentionSecs := by
  have hWhole : s.attempts ++ [b] = (pre ++ a :: mid) ++ c :: post := by
    rw [hSplit, List.append_assoc, List.cons_append]
  rcases last_or_earlier hWhole with ⟨hPast, rfl, _⟩ | ⟨rest, _, hPast⟩
  · rcases hInv.marked pre a mid hPast.symm hResumedA with
      ⟨m, hLeft, hLe, hKept | ⟨x, hx, hOld⟩⟩
    · rw [hEvent] at hKept
      exact ⟨m, hLeft, hLe, c, by simp,
        (hNext.succeeded hResumedC).unmarked m hKept⟩
    · exact ⟨m, hLeft, hLe, x, List.mem_append_left _ hx, hOld⟩
  · exact hInv.once pre a mid c rest (by simp [hPast])
      hResumedA hResumedC hEvent

end Next

theorem nextAttempt_commit
    (hInv : Invariant s) (hHook : s.hooks id = some (.committing h now))
    (faults : List Fault) :
    let run := (commit h.event h.session h.start now).execute
      files faults s.disk
    NextAttempt s ⟨h, now, settle run.2, run.1⟩ := by
  have hTimes := hInv.committing id h now hHook
  have hRun := commit_execute h.event h.session h.start now faults s.disk
  refine ⟨hTimes.1, hTimes.2, hRun.1, ?_⟩
  intro hResumed
  have hSettle : settle
      ((commit h.event h.session h.start now).execute files
        faults s.disk).2 = some .resumed := by
    simpa [Attempt.resumed] using hResumed
  exact hRun.2 (eq_ok_of_settle hSettle)

theorem invariant_commit
    (hInv : Invariant s) (id : ℕ) (faults : List Fault) :
    Invariant (step s (.commit id faults)) := by
  simp only [step]
  split
  · next h now hHook =>
      have hNext := nextAttempt_commit hInv hHook faults
      have hClock := hNext.progress.clock
      exact
        { waiting := by
            intro i other hOther
            simp only [commitStep, System.set] at hOther
            split at hOther
            · cases hOther
            · exact (hInv.waiting i other hOther).trans hClock
          committing := by
            intro i other n hOther
            simp only [commitStep, System.set] at hOther
            split at hOther
            · cases hOther
            · have hOld := hInv.committing i other n hOther
              exact ⟨hOld.1, hOld.2.trans hClock⟩
          timely := by
            intro a ha
            rcases List.mem_append.mp ha with hOld | hNew
            · exact hInv.timely a hOld
            · rw [List.mem_singleton.mp hNew]
              exact hNext.started
          covered := hNext.covered hInv
          spaced := hNext.spaced hInv
          ordered := hNext.ordered hInv
          marked := fun pre a later hSplit =>
            hNext.marked hInv hSplit
          once := fun pre a mid c post hSplit =>
            hNext.once hInv hSplit }
  · exact hInv

theorem invariant_step
    (hInv : Invariant s) (act : Act) :
    Invariant (step s act) := by
  cases act with
  | tick elapsed => exact invariant_tick hInv elapsed
  | arrive id event session a =>
    exact invariant_arrive hInv id event session a
  | poll id a => exact invariant_poll hInv id a
  | commit id faults => exact invariant_commit hInv id faults

end Steps

-- One wake

/-
  What a run's commits have done.  Attempts stand in the order
  in which the lock was held.
-/
structure WokenOnce (s : System) : Prop where
  /- A marker found older than 7 days lies between two wakes. -/
  event : ∀ pre a mid b post, s.attempts = pre ++ a :: (mid ++ b :: post) →
    a.resumed = true → b.resumed = true →
    a.hook.event = b.hook.event →
    ∃ m, a.left.marker a.hook.event = some m ∧ a.now ≤ m ∧
      ∃ c ∈ mid ++ [b], m < c.now - markerRetentionSecs
  /- No hook that was already waiting wakes a session again. -/
  session : s.attempts.Pairwise fun a b =>
    a.resumed = true → b.resumed = true →
    a.hook.session = b.hook.session →
    a.now ≤ b.hook.start ∧ b.hook.start ≤ b.now
  day : ∀ session start,
    ((wakes session s.attempts).filter fun t =>
      start ≤ t ∧ t < start + daySecs).length ≤ maxResumesPerSession

theorem wakes_sorted
    {s : System} (hInv : Invariant s) (session : Key) :
    (wakes session s.attempts).Pairwise (· ≤ ·) := by
  rw [wakes, List.pairwise_map]
  refine (hInv.ordered.filter _).imp_of_mem ?_
  intro a b ha hb hAfter
  simp only [List.mem_filter, Bool.and_eq_true, decide_eq_true_eq] at ha hb
  have hSession := ha.2.2.trans hb.2.2.symm
  exact (hAfter ha.2.1 hb.2.1 hSession).trans (hInv.timely b hb.1)

/-
  Whatever the files were at first, in every run a limit stop
  wakes a session at most once.
-/
theorem wokenOnce
    {d : Disk} {s : System} (hRun : Reaches step Anytime (System.fresh d) s) :
    WokenOnce s := by
  have hInv : Invariant s :=
    hRun.invariant Invariant
      (fun _ act hInv _ => invariant_step hInv act)
      (invariant_fresh d)
  refine ⟨hInv.once, ?_, ?_⟩
  · refine hInv.ordered.imp_of_mem ?_
    intro a b _ hb hAfter hResumedA hResumedB hSession
    exact ⟨hAfter hResumedA hResumedB hSession, hInv.timely b hb⟩
  · intro session start
    exact (hInv.spaced session).length_window_le
      (wakes_sorted hInv session) start

/- A hook that starts, sees capacity and commits. -/
def wakingActs : List Act :=
  let key := String.ofList (List.replicate 64 'a')
  [ .arrive 0 key key
      { enabled := true, limit := true, sessionOk := true,
        stopHookActive := false, seenFails := false,
        resumesFails := false, rotatorDown := false,
        prepared := true },
    .tick 60,
    .poll 0
      { enabled := true, alive := true,
        movedOn := some false, freshCapacity := true,
        movedOnLast := some false },
    .commit 0 (List.replicate 10 ⟨0, .none⟩) ]

theorem wokenOnce_of_wakingActs :
    WokenOnce (wakingActs.foldl step
      (System.fresh ⟨1000, [], fun _ => none⟩)) ∧
    ((wakingActs.foldl step
      (System.fresh ⟨1000, [], fun _ => none⟩)).attempts.map
        fun a => (a.now, a.resumed)) = [(1060, true)] :=
  ⟨wokenOnce (Reaches.foldl _ (fun _ _ _ => trivial) _),
    by decide⟩

end LimitResume
