import Amplihack.LimitResume.System

/-
  What a commit does to the files, wherever it stops.
-/

-- Records written and read back

namespace LimitResume

open Base

theorem isDigit_of_mem_toDigits
    {n : ℕ} {c : Char} (hMem : c ∈ Nat.toDigits 10 n) :
    c.isDigit = true :=
  Nat.isDigit_of_mem_toDigits (by decide) (by decide) hMem

theorem newline_not_mem_showInt (t : ℤ) :
    '\n' ∉ showInt t := by
  cases t with
  | ofNat n =>
    intro hMem
    exact absurd (isDigit_of_mem_toDigits hMem) (by decide)
  | negSucc n =>
    intro hMem
    rcases List.mem_cons.mp hMem with hSign | hMem
    · exact absurd hSign (by decide)
    · exact absurd (isDigit_of_mem_toDigits hMem) (by decide)

theorem showInt_ne_nil (t : ℤ) : showInt t ≠ [] := by
  cases t with
  | ofNat n => exact Nat.toDigits_ne_nil
  | negSucc n => exact List.cons_ne_nil _ _

/- A line that is read states the number it was written for. -/
theorem eq_of_parseLine_showInt
    {t u : ℤ} (hParse : parseLine (showInt t) = some u) :
    u = t := by
  cases t with
  | ofNat n =>
    rw [parseLine, showInt, Nat.ofDigitChars_ten_toDigits]
      at hParse
    split at hParse
    · simp only at hParse
      split at hParse
      · exact (Option.some.inj hParse).symm
      · cases hParse
    · cases hParse
  | negSucc n =>
    rw [parseLine, showInt] at hParse
    split at hParse
    · next hDigits =>
        have hSign : ('-' : Char).isDigit = true :=
          List.all_eq_true.mp hDigits.2 '-' List.mem_cons_self
        exact absurd hSign (by decide)
    · cases hParse

theorem eq_of_mapM_parseLine
    {times : List ℤ} :
    ∀ {read : List ℤ},
      (times.map showInt).mapM parseLine = some read →
      read = times := by
  induction times with
  | nil =>
    intro read hRead
    simpa using hRead.symm
  | cons t times ih =>
    intro read hRead
    rw [List.map_cons, List.mapM_cons] at hRead
    simp only [Option.bind_eq_bind, Option.bind_eq_some_iff] at hRead
    rcases hRead with ⟨u, hLine, rest, hRest, hRead⟩
    rw [← Option.some.inj hRead, eq_of_parseLine_showInt hLine, ih hRest]

theorem formatSession_eq
    {times : List ℤ} (hNil : times ≠ []) :
    formatSession times =
      ['\n'].intercalate (times.map showInt) ++ ['\n'] := by
  induction times with
  | nil => exact absurd rfl hNil
  | cons t times ih =>
    cases times with
    | nil => simp [formatSession]
    | cons u times =>
      have hRest := ih (List.cons_ne_nil u times)
      rw [formatSession, List.flatMap_cons, ← formatSession, hRest]
      simp [List.intercalate_cons_cons]

/- A record that is read has the times it was written for. -/
theorem eq_of_parseSession_formatSession
    {times read : List ℤ} (hNil : times ≠ [])
    (hParse : parseSession (formatSession times) = some read) :
    read = times := by
  have hBody : ['\n'].intercalate (times.map showInt) ≠ [] := by
    cases times with
    | nil => exact absurd rfl hNil
    | cons t times =>
      cases times with
      | nil => simpa using showInt_ne_nil t
      | cons u times => simp [List.intercalate_cons_cons]
  rw [parseSession, formatSession_eq hNil] at hParse
  simp only [List.getLast?_append, List.getLast?_singleton,
    List.dropLast_concat, Option.some_or, if_true, if_neg hBody] at hParse
  rw [List.splitOn_intercalate] at hParse
  · exact eq_of_mapM_parseLine hParse
  · intro line hLine
    rcases List.mem_map.mp hLine with ⟨t, _, rfl⟩
    exact newline_not_mem_showInt t
  · simpa using hNil

-- What a commit changes

/- What a commit at `now` has done to the files so far. -/
structure Progress
    (session : Key) (start now : ℤ) (d₀ d : Disk) :
    Prop where
  clock : d₀.clock ≤ d.clock
  kept : ∀ e m, d₀.marker e = some m →
    d.marker e = some m ∨ m < now - markerRetentionSecs
  created : ∀ e m, d.marker e = some m → d₀.marker e = some m ∨ d₀.clock ≤ m
  others : ∀ s, s ≠ session → d.record s = d₀.record s
  record : d.record session = d₀.record session ∨
    ∃ times, countedTimes (d₀.record session) start now = .ok times ∧
      d.record session = some (formatSession (times ++ [now]))

/- What a commit that succeeds has done to the files. -/
structure Succeeded
    (event session : Key) (start now : ℤ) (d₀ d : Disk) :
    Prop where
  unmarked : ∀ m, d₀.marker event = some m → m < now - markerRetentionSecs
  marked : ∃ m, d.marker event = some m ∧ d₀.clock ≤ m
  record : ∃ times, countedTimes (d₀.record session) start now = .ok times ∧
    d.record session = some (formatSession (times ++ [now]))

section Effects

variable {event session : Key}
variable {start now : ℤ}
variable {d₀ d : Disk}
variable {fault : Fault}

theorem Progress.refl :
    Progress session start now d d where
  clock := le_rfl
  kept := fun _ _ hMarker => Or.inl hMarker
  created := fun _ _ hMarker => Or.inl hMarker
  others := fun _ _ => rfl
  record := Or.inl rfl

theorem Progress.tick
    (hProgress : Progress session start now d₀ d) (elapsed : ℕ) :
    Progress session start now d₀ (d.tick elapsed) where
  clock := by
    have hClock := hProgress.clock
    simp only [Disk.tick]
    omega
  kept := hProgress.kept
  created := hProgress.created
  others := hProgress.others
  record := hProgress.record

theorem marker_removed
    (d : Disk) (removed e : Key) :
    (d.done (.removeEvent removed)).marker e =
      if e = removed then none else d.marker e := by
  rw [Disk.marker, Disk.done, List.find?_filter]
  split
  · next hEq =>
      subst hEq
      simp
  · next hNe =>
      rw [Disk.marker]
      congr 2
      funext entry
      by_cases hEntry : entry.1 = e
      · simp [hEntry, hNe]
      · simp [hEntry]

theorem marker_created
    (d : Disk) (made e : Key) :
    (d.done (.createEvent made)).marker e =
      if e = made ∧ d.marker made = none then some d.clock
      else d.marker e := by
  rw [Disk.done]
  cases hMade : d.marker made with
  | some m => simp
  | none =>
    by_cases hEq : e = made
    · simp [Disk.marker, hEq]
    · simp [Disk.marker, hEq, Ne.symm hEq]

theorem marker_of_found
    {e : Key} {m : ℤ} (hReply : reply d fault (.statEvent e) = .found m) :
    d.marker e = some m := by
  have hLook : (if fault.fine then lookMarker (d.marker e)
      else .failed) = .found m := hReply
  split at hLook
  · cases hMarker : d.marker e with
    | none =>
      rw [hMarker] at hLook
      cases hLook
    | some mtime =>
      rw [hMarker] at hLook
      rw [(Look.found.inj hLook : mtime = m)]
  · cases hLook

theorem marker_of_missing
    {e : Key} (hReply : reply d fault (.statEvent e) = .missing) :
    d.marker e = none := by
  have hLook : (if fault.fine then lookMarker (d.marker e)
      else .failed) = .missing := hReply
  split at hLook
  · cases hMarker : d.marker e with
    | none => rfl
    | some mtime =>
      rw [hMarker] at hLook
      cases hLook
  · cases hLook

/- The times that count are those of the record. -/
theorem countedTimes_of_readTimes
    {times : List ℤ}
    (hTimes : readTimes (reply d fault (.readRecord session))
      start now = .ok times) :
    countedTimes (d.record session) start now = .ok times := by
  change readTimes (if fault.fine then
    lookRecord (d.record session) else .failed) start now =
      .ok times at hTimes
  split at hTimes
  · cases hRecord : d.record session with
    | none =>
      rw [hRecord] at hTimes
      exact hTimes
    | some raw =>
      rw [hRecord, lookRecord] at hTimes
      split at hTimes
      · cases hTimes
      · exact hTimes
  · cases hTimes

/- An operation that only looks lets time pass. -/
theorem after_of_done
    {op : FileOp} (hDone : ∀ d : Disk, d.done op = d) :
    after d fault op = d.tick fault.elapsed := by
  rw [after]
  split
  · rfl
  · rw [hDone]

/- What every outcome of an operation has, each of both has. -/
theorem after_induct
    {op : FileOp} {P : Disk → Prop} (hFailed : P (d.tick fault.elapsed))
    (hDone : P ((d.tick fault.elapsed).done op)) :
    P (after d fault op) := by
  rw [after]
  split
  · exact hFailed
  · exact hDone

theorem after_of_fine
    {op : FileOp} (hFine : fault.fine = true) :
    after d fault op = (d.tick fault.elapsed).done op := by
  have hNone : fault.mishap = .none := by simpa [Fault.fine] using hFine
  rw [after, hNone]

theorem Progress.removed
    {removed : Key} (hProgress : Progress session start now d₀ d)
    (hOld : ∀ m, d₀.marker removed = some m → m < now - markerRetentionSecs) :
    Progress session start now d₀
      (d.done (.removeEvent removed)) where
  clock := hProgress.clock
  kept := by
    intro e m hMarker
    rw [marker_removed]
    split
    · next hEq =>
        subst hEq
        exact Or.inr (hOld m hMarker)
    · exact hProgress.kept e m hMarker
  created := by
    intro e m hMarker
    rw [marker_removed] at hMarker
    split at hMarker
    · cases hMarker
    · exact hProgress.created e m hMarker
  others := hProgress.others
  record := hProgress.record

theorem Progress.marked
    {made : Key} (hProgress : Progress session start now d₀ d) :
    Progress session start now d₀
      (d.done (.createEvent made)) where
  clock := by
    rw [Disk.done]
    split
    · exact hProgress.clock
    · exact hProgress.clock
  kept := by
    intro e m hMarker
    rw [marker_created]
    split
    · next hNew =>
        rcases hProgress.kept e m hMarker with hKept | hOld
        · rw [hNew.1, hNew.2] at hKept
          cases hKept
        · exact Or.inr hOld
    · exact hProgress.kept e m hMarker
  created := by
    intro e m hMarker
    rw [marker_created] at hMarker
    split at hMarker
    · rw [← Option.some.inj hMarker]
      exact Or.inr hProgress.clock
    · exact hProgress.created e m hMarker
  others := by
    rw [Disk.done]
    split
    · exact hProgress.others
    · exact hProgress.others
  record := by
    rw [Disk.done]
    split
    · exact hProgress.record
    · exact hProgress.record

theorem Progress.recorded
    {times : List ℤ} (hProgress : Progress session start now d₀ d)
    (hCounted : countedTimes (d₀.record session) start now = .ok times) :
    Progress session start now d₀
      (d.done (.writeRecord session
        (formatSession (times ++ [now])))) where
  clock := hProgress.clock
  kept := hProgress.kept
  created := hProgress.created
  others := by
    intro s hs
    rw [Disk.done]
    exact (if_neg hs).trans (hProgress.others s hs)
  record := Or.inr ⟨times, hCounted, if_pos rfl⟩

end Effects

-- The program of a commit

section Programs

variable {event session : Key}
variable {start now : ℤ}
variable {d₀ d : Disk}

/- A commit runs alone under the lock. -/
def committing
    (session : Key) (start now : ℤ) (d₀ : Disk) :
    Contract Disk Fault FileOp :=
  alone (Progress session start now d₀) (fun _ _ _ => True)

/- Markers may be gone, but no record is written yet. -/
structure Pruned
    (session : Key) (start now : ℤ) (d₀ d : Disk) :
    Prop where
  progress : Progress session start now d₀ d
  record : d.record = d₀.record

theorem Pruned.tick
    (hPruned : Pruned session start now d₀ d) (elapsed : ℕ) :
    Pruned session start now d₀ (d.tick elapsed) :=
  ⟨hPruned.progress.tick elapsed, hPruned.record⟩

/- An operation that only looks, in a program. -/
theorem upholds_look
    {α : Type} {op : FileOp} {next : Reply op → Files α}
    {post : α → Disk → Prop} (hDone : ∀ d : Disk, d.done op = d)
    (hProgress : Progress session start now d₀ d)
    (hNext : ∀ fault, (next (reply d fault op)).Upholds files
      (committing session start now d₀) post
      (d.tick fault.elapsed)) :
    (Program.call op next).Upholds files
      (committing session start now d₀) post d := by
  apply Program.Upholds.call_alone
  intro fault _
  have hAfter : files.after d fault op = d.tick fault.elapsed :=
    after_of_done hDone
  rw [hAfter]
  exact ⟨hProgress.tick _, hNext fault⟩

theorem pruneEvent_upholds
    (e : Key) (hPruned : Pruned session start now d₀ d) :
    (pruneEvent (now - markerRetentionSecs) e).Upholds files
      (committing session start now d₀)
      (fun _ => Pruned session start now d₀) d := by
  rw [pruneEvent]
  split
  · refine upholds_look (fun _ => rfl) hPruned.progress ?_
    intro fault
    have hTick := hPruned.tick fault.elapsed
    cases hReply : reply d fault (.statEvent e) with
    | missing | failed => exact hTick
    | found mtime =>
      simp only
      split
      · next hOld =>
          have hMarker := marker_of_found hReply
          have hGone : ∀ m, d₀.marker e = some m →
              m < now - markerRetentionSecs := by
            intro m hm
            rcases hPruned.progress.kept e m hm with
              hKept | hLess
            · rw [hMarker] at hKept
              rw [← Option.some.inj hKept]
              exact hOld
            · exact hLess
          apply Program.Upholds.call_alone
          intro second _
          have hAfter : Pruned session start now d₀
              (after (d.tick fault.elapsed) second (.removeEvent e)) :=
            after_induct (hTick.tick _)
              ⟨(hTick.tick _).progress.removed hGone, hTick.record⟩
          exact ⟨hAfter.progress, hAfter⟩
      · exact hTick
  · exact hPruned

theorem pruneEvents_upholds
    (names : List Key) :
    ∀ {d : Disk}, Pruned session start now d₀ d →
      (pruneEvents (now - markerRetentionSecs) names).Upholds
        files (committing session start now d₀)
        (fun _ => Pruned session start now d₀) d := by
  induction names with
  | nil => exact fun hPruned => hPruned
  | cons e names ih =>
    intro d hPruned
    exact (pruneEvent_upholds e hPruned).bind fun _ _ hNext => ih hNext

theorem prune_upholds
    (hPruned : Pruned session start now d₀ d) :
    (prune now markerRetentionSecs).Upholds files
      (committing session start now d₀)
      (fun _ => Pruned session start now d₀) d := by
  refine upholds_look (fun _ => rfl) hPruned.progress ?_
  intro fault
  exact pruneEvents_upholds _ (hPruned.tick _)

/- A success is what `Succeeded` says; else nothing is said. -/
def Ends
    (event session : Key) (start now : ℤ) (d₀ : Disk)
    (result : Committed) (d : Disk) :
    Prop :=
  result = .ok () → Succeeded event session start now d₀ d

theorem ends_error {e : CommitError} :
    Ends event session start now d₀ (.error e) d := by
  intro hOk
  cases hOk

theorem writeResume_upholds
    {times : List ℤ} (hProgress : Progress session start now d₀ d)
    (hUnmarked : ∀ m, d₀.marker event = some m →
      m < now - markerRetentionSecs)
    (hMarked : ∃ m, d.marker event = some m ∧ d₀.clock ≤ m)
    (hCounted : countedTimes (d₀.record session) start now = .ok times) :
    (writeResume event session times now).Upholds files
      (committing session start now d₀)
      (Ends event session start now d₀) d := by
  refine upholds_look (fun _ => rfl) hProgress ?_
  intro first
  split
  · exact ends_error
  · have hFirst := hProgress.tick first.elapsed
    refine upholds_look (fun _ => rfl) hFirst ?_
    intro second
    split
    · exact ends_error
    · have hSecond := hFirst.tick second.elapsed
      apply Program.Upholds.call_alone
      intro third _
      refine ⟨?_, ?_⟩
      · exact after_induct (hSecond.tick _)
          ((hSecond.tick _).recorded hCounted)
      · split
        · exact ends_error
        · next hWritten =>
            have hNot : ¬(!third.fine) = true := hWritten
            have hFine : third.fine = true := by simpa using hNot
            intro _
            change Succeeded event session start now d₀
              (after (d.tick first.elapsed |>.tick second.elapsed) third _)
            rw [after_of_fine hFine]
            exact ⟨hUnmarked, hMarked, times, hCounted, if_pos rfl⟩

theorem recordResume_upholds
    {times : List ℤ} (hProgress : Progress session start now d₀ d)
    (hUnmarked : ∀ m, d₀.marker event = some m →
      m < now - markerRetentionSecs)
    (hCounted : countedTimes (d₀.record session) start now = .ok times) :
    (recordResume event session times now).Upholds files
      (committing session start now d₀)
      (Ends event session start now d₀) d := by
  apply Program.Upholds.call_alone
  intro fault _
  refine ⟨after_induct (hProgress.tick _) (hProgress.tick _).marked, ?_⟩
  cases hReply : files.reply d fault (.createEvent event) with
  | found _ | failed => exact ends_error
  | missing =>
    have hCreated : fault.fine = true ∧ d.marker event = none := by
      have hLook : (if fault.fine then
          if (d.marker event).isNone then Look.missing
          else .found ()
        else .failed) = .missing := hReply
      split at hLook
      · next hFine =>
          split at hLook
          · next hNone =>
              exact ⟨hFine, Option.isNone_iff_eq_none.mp hNone⟩
          · cases hLook
      · cases hLook
    refine writeResume_upholds (after_induct
      (hProgress.tick _) (hProgress.tick _).marked)
      hUnmarked ?_ hCounted
    change ∃ m, (after d fault (.createEvent event)).marker
      event = some m ∧ d₀.clock ≤ m
    rw [after_of_fine hCreated.1, marker_created]
    exact ⟨_, if_pos ⟨rfl, hCreated.2⟩, (hProgress.tick fault.elapsed).clock⟩

theorem checkSession_upholds
    (hPruned : Pruned session start now d₀ d)
    (hUnmarked : ∀ m, d₀.marker event = some m →
      m < now - markerRetentionSecs) :
    (checkSession event session start now).Upholds files
      (committing session start now d₀)
      (Ends event session start now d₀) d := by
  refine upholds_look (fun _ => rfl) hPruned.progress ?_
  intro fault
  have hTick := (hPruned.tick fault.elapsed).progress
  cases hTimes : readTimes
      (reply d fault (.readRecord session)) start now with
  | error e => exact ends_error
  | ok times =>
    refine recordResume_upholds hTick hUnmarked ?_
    rw [← hPruned.record]
    exact countedTimes_of_readTimes hTimes

theorem checkEvent_upholds
    (hPruned : Pruned session start now d₀ d) :
    (checkEvent event session start now).Upholds files
      (committing session start now d₀)
      (Ends event session start now d₀) d := by
  refine upholds_look (fun _ => rfl) hPruned.progress ?_
  intro fault
  cases hReply : reply d fault (.statEvent event) with
  | found _ | failed => exact ends_error
  | missing =>
    refine checkSession_upholds (hPruned.tick _) ?_
    intro m hm
    rcases hPruned.progress.kept event m hm with
      hKept | hLess
    · rw [marker_of_missing hReply] at hKept
      cases hKept
    · exact hLess

theorem commit_upholds (d : Disk) :
    (commit event session start now).Upholds files
      (committing session start now d)
      (Ends event session start now d) d := by
  have hStart : Pruned session start now d d := ⟨Progress.refl, rfl⟩
  rw [commit]
  split
  · exact ends_error
  · refine upholds_look (fun _ => rfl) hStart.progress ?_
    intro first
    split
    · exact ends_error
    · have hFirst := hStart.tick first.elapsed
      refine upholds_look (fun _ => rfl) hFirst.progress ?_
      intro second
      split
      · exact ends_error
      · exact (prune_upholds (hFirst.tick _)).bind
          fun _ _ hPruned => checkEvent_upholds hPruned

/- Wherever a commit stops, and when it succeeds. -/
theorem commit_execute
    (event session : Key) (start now : ℤ) (faults : List Fault) (d : Disk) :
    let run := (commit event session start now).execute
      files faults d
    Progress session start now d run.1 ∧
      (run.2 = some (.ok ()) →
        Succeeded event session start now d run.1) := by
  have hCommit : (commit event session start now).Upholds
      files (committing session start now d)
      (Ends event session start now d) d := commit_upholds d
  have hRun := hCommit.execute Progress.refl
    (Program.within_of_forall (fun _ _ _ => trivial) _ faults d)
  exact ⟨hRun.1, fun hOk => hRun.2 _ hOk rfl⟩

end Programs

end LimitResume
