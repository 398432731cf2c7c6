import Amplihack.Stop.Tree

/-
  Who gets a signal, and when that is the recorded tree and
  never this process or what it descends from.
-/

-- What Is Promised

namespace Stop

/- A process and its ancestors, whoever owns them. -/
inductive Above (t : Table) (self : ℕ) : ℕ → Prop where
| self : Above t self self
| parent {p : Process} (hP : p ∈ t.processes)
    (hBelow : Above t self p.pid) :
    Above t self p.ppid

/- It was this process or an ancestor, and still is. -/
def IsLine (t : Table) (self : ℕ) (r : Process) : Prop :=
  ∃ p ∈ t.processes, Above t self p.pid ∧ r.pid = p.pid ∧ r.start = p.start

/- The tree is the least set without this line, and signals
   go to what was recorded or to the groups of the panes. -/
structure Meets (m : Machine) (w : Moments) (o : Outcome) :
    Prop where
  least : ∀ pid start, (pid, start) ∈ o.recorded ↔
    ∃ p ∈ w.atSnapshot.snapshot m.uid,
      p.pid = pid ∧ p.start = start ∧
        InTree (w.atSnapshot.snapshot m.uid) o.roots pid ∧
          ¬ Above w.atSnapshot m.self pid
  aimed : ∀ d ∈ o.deliveries,
    (d.receiver.pid, d.receiver.start) ∈ o.recorded ∨
      d.receiver.pgid ∈ o.panes
  spared : ∀ d ∈ o.deliveries, ¬ IsLine w.atSnapshot m.self d.receiver

/- A listed process of the tree that the climb leaves out. -/
def Target (m : Machine) (w : Moments) (roots : Finset ℕ)
    (p : Proc) :
    Prop :=
  p ∈ w.atSnapshot.snapshot m.uid ∧
    InTree (w.atSnapshot.snapshot m.uid) roots p.pid ∧
      ¬ Reached (w.atSnapshot.snapshot m.uid) m.self p.pid

/- Whoever has a checked id when it is signalled is the one
   that was recorded, or in the group of a pane. -/
def StillThere (m : Machine) (w : Moments) (roots : Finset ℕ)
    (panes : List ℕ) (checks signals : ℕ → Table) :
    Prop :=
  ∀ p, Target m w roots p → 1 < p.pid →
    (checks p.pid).startTime p.pid = some p.start →
      ∀ r ∈ (signals p.pid).processes, r.pid = p.pid →
        m.permitted r = true → r.start = p.start ∨ r.pgid ∈ panes

structure Undisturbed (m : Machine) (w : Moments)
    (roots : Finset ℕ) (panes : List ℕ) :
    Prop where
  /- ancestors in the tree are found by listed parents -/
  listed : ∀ p, Target m w roots p → ¬ Above w.atSnapshot m.self p.pid
  /- no group of a pane has this process or an ancestor -/
  apart : ∀ p, Target m w roots p → p.pid ∈ panes →
    1 < p.pid → ∀ r ∈ (w.atGroup p.pid).processes,
      r.pgid = p.pid → m.permitted r = true → ¬ IsLine w.atSnapshot m.self r
  term : panes = [] → StillThere m w roots panes w.atTermCheck w.atTerm
  kill : StillThere m w roots panes w.atKillCheck w.atKill

-- The Recorded Tree

variable {m : Machine}
variable {w : Moments}
variable {t : Table}
variable {roots : Finset ℕ}
variable {panes : List ℕ}

variable {pid : ℕ}

theorem above_of_reached
    (hReached : Reached (t.snapshot m.uid) m.self pid) :
    Above t m.self pid := by
  induction hReached with
  | self => exact .self
  | parent hP _ _ ih =>
    obtain ⟨q, hQ, -, -, rfl⟩ := Table.mem_snapshot.mp hP
    exact .parent hQ ih

theorem mem_record
    {found : List Proc → Finset ℕ} {e : ℕ × ℕ} :
    e ∈ m.record t found ↔ ∃ p ∈ t.snapshot m.uid,
      p.pid ∈ found (t.snapshot m.uid) ∧
        ¬ Reached (t.snapshot m.uid) m.self p.pid ∧ (p.pid, p.start) = e := by
  unfold Machine.record
  rw [List.mem_map]
  refine exists_congr fun p => ?_
  rw [List.mem_filter, decide_eq_true_iff,
    mem_selfAndAncestors (t.nodup_snapshot m.uid), and_assoc, and_assoc]

theorem mem_snapshotTree {e : ℕ × ℕ} :
    e ∈ m.snapshotTree w.atSnapshot roots ↔
      ∃ p, Target m w roots p ∧ (p.pid, p.start) = e := by
  unfold Machine.snapshotTree Target
  rw [mem_record]
  refine exists_congr fun p => ?_
  rw [mem_tree, and_assoc, and_assoc]

/- A process id is recorded with one start time. -/
theorem start_unique
    {pid a b : ℕ} (hA : (pid, a) ∈ m.snapshotTree w.atSnapshot roots)
    (hB : (pid, b) ∈ m.snapshotTree w.atSnapshot roots) :
    a = b := by
  obtain ⟨p, ⟨hP, -⟩, hEqP⟩ := mem_snapshotTree.mp hA
  obtain ⟨q, ⟨hQ, -⟩, hEqQ⟩ := mem_snapshotTree.mp hB
  have hPid : p.pid = q.pid :=
    (congrArg Prod.fst hEqP).trans (congrArg Prod.fst hEqQ).symm
  have hSame := List.inj_on_of_nodup_map
    (w.atSnapshot.nodup_snapshot m.uid) hP hQ hPid
  rw [hSame] at hEqP
  exact congrArg Prod.snd (hEqP.symm.trans hEqQ)

/- The tree is right where the climb reaches all ancestors. -/
theorem least_iff :
    (∀ pid start,
      (pid, start) ∈ m.snapshotTree w.atSnapshot roots ↔
        ∃ p ∈ w.atSnapshot.snapshot m.uid,
          p.pid = pid ∧ p.start = start ∧
            InTree (w.atSnapshot.snapshot m.uid) roots pid ∧
              ¬ Above w.atSnapshot m.self pid) ↔
      ∀ p, Target m w roots p → ¬ Above w.atSnapshot m.self p.pid := by
  constructor
  · intro hLeast p hTarget
    have hMem := (hLeast p.pid p.start).mp
      (mem_snapshotTree.mpr ⟨p, hTarget, rfl⟩)
    obtain ⟨q, -, -, -, -, hNot⟩ := hMem
    exact hNot
  · intro hListed pid start
    rw [mem_snapshotTree]
    constructor
    · rintro ⟨p, hTarget, hEq⟩
      cases hEq
      exact ⟨p, hTarget.1, rfl, rfl, hTarget.2.1, hListed p hTarget⟩
    · rintro ⟨p, hP, rfl, rfl, hIn, hNot⟩
      refine ⟨p, ⟨hP, hIn, ?_⟩, rfl⟩
      exact fun hReached => hNot (above_of_reached hReached)

-- Signals

variable {signal : Signal}

theorem mem_signalGroup
    {pgid : ℕ} {d : Delivery} :
    d ∈ m.signalGroup t signal pgid ↔ 1 < pgid ∧
      ∃ r ∈ t.processes, r.pgid = pgid ∧
        m.permitted r = true ∧ ⟨signal, r⟩ = d := by
  unfold Machine.signalGroup
  split
  next hPos => simp [hPos, and_assoc]
  next hNot => simp [hNot]

theorem mem_signalPid
    {d : Delivery} :
    d ∈ m.signalPid t signal pid ↔ 1 < pid ∧
      ∃ r ∈ t.processes, r.pid = pid ∧
        m.permitted r = true ∧ ⟨signal, r⟩ = d := by
  unfold Machine.signalPid
  split
  next hPos => simp [hPos, and_assoc]
  next hNot => simp [hNot]

variable {checks signals : ℕ → Table}

theorem mem_signalChecked
    {d : Delivery} :
    d ∈ m.signalChecked checks signals signal
        (m.snapshotTree w.atSnapshot roots) ↔
      ∃ p, Target m w roots p ∧ 1 < p.pid ∧
        (checks p.pid).startTime p.pid = some p.start ∧
          ∃ r ∈ (signals p.pid).processes, r.pid = p.pid ∧
            m.permitted r = true ∧ ⟨signal, r⟩ = d := by
  unfold Machine.signalChecked
  rw [List.mem_flatMap]
  constructor
  · rintro ⟨e, hE, hD⟩
    obtain ⟨p, hTarget, rfl⟩ := mem_snapshotTree.mp hE
    split at hD
    next hSame =>
      obtain ⟨hPid, hR⟩ := mem_signalPid.mp hD
      unfold Machine.sameProcess at hSame
      exact ⟨p, hTarget, hPid, by simpa using hSame, hR⟩
    next => cases hD
  · rintro ⟨p, hTarget, hPid, hSame, hR⟩
    refine ⟨(p.pid, p.start), mem_snapshotTree.mpr ⟨p, hTarget, rfl⟩, ?_⟩
    rw [if_pos (by simpa [Machine.sameProcess] using hSame)]
    exact mem_signalPid.mpr ⟨hPid, hR⟩

/- A checked signal is aimed at what was recorded. -/
theorem aimed_iff
    (checks signals : ℕ → Table) (signal : Signal) :
    (∀ d ∈ m.signalChecked checks signals signal
        (m.snapshotTree w.atSnapshot roots),
      (d.receiver.pid, d.receiver.start) ∈
          m.snapshotTree w.atSnapshot roots ∨
        d.receiver.pgid ∈ panes) ↔
      StillThere m w roots panes checks signals := by
  constructor
  · intro hAimed p hTarget hPid hSame r hR hEq hMay
    have hEntry := mem_snapshotTree.mpr ⟨p, hTarget, rfl⟩
    rcases hAimed ⟨signal, r⟩ (mem_signalChecked.mpr
      ⟨p, hTarget, hPid, hSame, r, hR, hEq, hMay, rfl⟩) with
      hMem | hPane
    · left
      change (r.pid, r.start) ∈ _ at hMem
      rw [hEq] at hMem
      exact start_unique hMem hEntry
    · exact Or.inr hPane
  · intro hStill d hD
    obtain ⟨p, hTarget, hPid, hSame, r, hR, hEq, hMay, rfl⟩ :=
      mem_signalChecked.mp hD
    refine (hStill p hTarget hPid hSame r hR hEq hMay).imp_left ?_
    intro hStart
    exact mem_snapshotTree.mpr ⟨p, hTarget, by rw [hEq, hStart]⟩

/- Nothing recorded is an ancestor, so none is signalled. -/
theorem spared_of_listed
    (hListed : ∀ p, Target m w roots p → ¬ Above w.atSnapshot m.self p.pid)
    (d : Delivery)
    (hD : d ∈ m.signalChecked checks signals signal
      (m.snapshotTree w.atSnapshot roots)) :
    ¬ IsLine w.atSnapshot m.self d.receiver := by
  obtain ⟨p, hTarget, -, -, r, -, hEq, -, rfl⟩ :=
    mem_signalChecked.mp hD
  rintro ⟨q, -, hAbove, hPid, -⟩
  apply hListed p hTarget
  rw [← hEq, hPid]
  exact hAbove

theorem mem_paneDeliveries {d : Delivery} :
    d ∈ (panes.filter ((m.snapshotTree w.atSnapshot
        roots).map Prod.fst).contains).flatMap
          (fun pane => m.signalGroup (w.atGroup pane) .term pane) ↔
      ∃ p, Target m w roots p ∧ p.pid ∈ panes ∧ 1 < p.pid ∧
        ∃ r ∈ (w.atGroup p.pid).processes, r.pgid = p.pid ∧
          m.permitted r = true ∧ ⟨.term, r⟩ = d := by
  rw [List.mem_flatMap]
  constructor
  · rintro ⟨pane, hPane, hD⟩
    obtain ⟨hMem, hKey⟩ := List.mem_filter.mp hPane
    rw [List.contains_iff_mem] at hKey
    obtain ⟨e, hE, rfl⟩ := List.mem_map.mp hKey
    obtain ⟨p, hTarget, rfl⟩ := mem_snapshotTree.mp hE
    obtain ⟨hPos, hR⟩ := mem_signalGroup.mp hD
    exact ⟨p, hTarget, hMem, hPos, hR⟩
  · rintro ⟨p, hTarget, hMem, hPos, hR⟩
    refine ⟨p.pid, List.mem_filter.mpr ⟨hMem, ?_⟩,
      mem_signalGroup.mpr ⟨hPos, hR⟩⟩
    rw [List.contains_iff_mem]
    exact List.mem_map.mpr ⟨(p.pid, p.start),
      mem_snapshotTree.mpr ⟨p, hTarget, rfl⟩, rfl⟩

-- The Command

variable {o : Outcome}

/- Both kinds of targets send their signals in this way. -/
theorem outcome_meets_iff
    (hRecorded : o.recorded = m.snapshotTree w.atSnapshot o.roots)
    (hDeliveries : ∀ d, d ∈ o.deliveries ↔
      (∃ p, Target m w o.roots p ∧ p.pid ∈ o.panes ∧
        1 < p.pid ∧ ∃ r ∈ (w.atGroup p.pid).processes,
          r.pgid = p.pid ∧ m.permitted r = true ∧ ⟨.term, r⟩ = d) ∨
      (o.panes = [] ∧ d ∈ m.terminate w o.recorded) ∨
      d ∈ m.sweep w o.recorded) :
    Meets m w o ↔ Undisturbed m w o.roots o.panes := by
  rw [hRecorded] at hDeliveries
  constructor
  · rintro ⟨hLeast, hAimed, hSpared⟩
    rw [hRecorded] at hLeast hAimed
    constructor
    case listed => exact least_iff.mp hLeast
    case apart =>
      intro p hTarget hPane hPos r hR hGroup hMay
      exact hSpared _ ((hDeliveries _).mpr (Or.inl
        ⟨p, hTarget, hPane, hPos, r, hR, hGroup, hMay, rfl⟩))
    case term =>
      intro hNone
      apply (aimed_iff w.atTermCheck w.atTerm .term).mp
      intro d hD
      exact hAimed d ((hDeliveries d).mpr (Or.inr (Or.inl ⟨hNone, hD⟩)))
    case kill =>
      apply (aimed_iff w.atKillCheck w.atKill .kill).mp
      intro d hD
      exact hAimed d ((hDeliveries d).mpr (Or.inr (Or.inr hD)))
  · rintro ⟨hListed, hApart, hTerm, hKill⟩
    constructor
    case least =>
      rw [hRecorded]
      exact least_iff.mpr hListed
    case aimed =>
      rw [hRecorded]
      intro d hD
      rcases (hDeliveries d).mp hD with
        ⟨p, -, hPane, -, r, -, hGroup, -, rfl⟩ | ⟨hNone, hSent⟩ | hSwept
      · right
        change r.pgid ∈ o.panes
        rw [hGroup]
        exact hPane
      · exact (aimed_iff w.atTermCheck w.atTerm .term).mpr
          (hTerm hNone) d hSent
      · exact (aimed_iff w.atKillCheck w.atKill .kill).mpr hKill d hSwept
    case spared =>
      intro d hD
      rcases (hDeliveries d).mp hD with
        ⟨p, hTarget, hPane, hPos, r, hR, hGroup, hMay, rfl⟩ |
          ⟨-, hSent⟩ | hSwept
      · exact hApart p hTarget hPane hPos r hR hGroup hMay
      · exact spared_of_listed hListed d hSent
      · exact spared_of_listed hListed d hSwept

theorem stopSession_meets_iff
    {listing : List Pane} (hStop : m.stopSession w listing = some o) :
    Meets m w o ↔ Undisturbed m w o.roots o.panes := by
  unfold Machine.stopSession at hStop
  dsimp only at hStop
  split at hStop
  · cases hStop
  next hSome =>
    cases hStop
    apply outcome_meets_iff rfl
    intro d
    dsimp only
    rw [List.mem_append, mem_paneDeliveries]
    refine or_congr_right ?_
    constructor
    · exact Or.inr
    · rintro (⟨hNone, -⟩ | hSwept)
      · rw [hNone] at hSome
        exact absurd rfl hSome
      · exact hSwept

variable {runId : String}

theorem stopRunId_meets_iff
    (hStop : m.stopRunId w runId = some o) :
    Meets m w o ↔ Undisturbed m w o.roots o.panes := by
  unfold Machine.stopRunId at hStop
  dsimp only at hStop
  split at hStop
  · cases hStop
  next hSome =>
    cases hStop
    apply outcome_meets_iff rfl
    intro d
    dsimp only
    rw [List.mem_append]
    constructor
    · rintro (hSent | hSwept)
      · exact Or.inr (Or.inl ⟨rfl, hSent⟩)
      · exact Or.inr (Or.inr hSwept)
    · rintro (⟨p, -, hNone, -⟩ | ⟨-, hSent⟩ | hSwept)
      · exact (List.not_mem_nil hNone).elim
      · exact Or.inl hSent
      · exact Or.inr hSwept

/-
  The tree is the least set and signals are aimed well if and
  only if no ancestor is hidden behind an unlisted process, no
  pane's group has this process or an ancestor, and no checked
  id is taken over before its signal.
-/
theorem meets_iff_undisturbed
    {target : String} {o : Outcome} (hStop : m.runStop w target = some o) :
    Meets m w o ↔ Undisturbed m w o.roots o.panes := by
  unfold Machine.runStop at hStop
  split at hStop
  · cases hStop
  · split at hStop
    · exact stopSession_meets_iff hStop
    · exact stopRunId_meets_iff hStop

-- Two Tables

/- The user is 1000, this process is 12; no tmux. -/
def sampleMachine : Machine where
  uid := 1000
  self := 12
  permitted r := r.owner == 1000
  sessions _ := none

def runnerEnviron : List String :=
  ["AMPLIHACK_RECIPE_RUN_ID=r"]

/- The runner, and this process under another shell. -/
def plainTable : Table where
  processes :=
    [⟨⟨10, 1, 10, 100⟩, 1000, false, runnerEnviron⟩,
      ⟨⟨12, 2, 12, 102⟩, 1000, false, []⟩]
  nodupPids := by decide

/- The runner started this process by way of `sudo`. -/
def sudoTable : Table where
  processes :=
    [⟨⟨10, 1, 10, 100⟩, 1000, false, runnerEnviron⟩,
      ⟨⟨11, 10, 10, 101⟩, 0, false, []⟩,
      ⟨⟨12, 11, 12, 102⟩, 1000, false, []⟩]
  nodupPids := by decide

/- Nothing changes while the signals are sent. -/
def still (t : Table) : Moments where
  atList := t
  atSnapshot := t
  atGroup _ := t
  atTermCheck _ := t
  atTerm _ := t
  atKillCheck _ := t
  atKill _ := t

theorem stillThere_still
    (m : Machine) (t : Table) (roots : Finset ℕ) (panes : List ℕ) :
    StillThere m (still t) roots panes (fun _ => t) (fun _ => t) := by
  intro p hTarget _ _ r hR hPid _
  obtain ⟨q, hQ, -, -, hSame⟩ := Table.mem_snapshot.mp hTarget.1
  left
  have hEq := Table.eq_of_pid hR hQ (by rw [hPid, ← hSame])
  rw [hEq, ← hSame]

theorem runStop_sample (t : Table) :
    sampleMachine.runStop (still t) "r" =
      sampleMachine.stopRunId (still t) "r" := by
  unfold Machine.runStop
  rw [if_neg (by decide)]
  rfl

/- A target makes the command go on. -/
theorem stopRunId_of_target
    {p : Proc}
    (hTarget : Target m w
      (m.withEnv w.atList Machine.runIdVariable runId) p) :
    m.stopRunId w runId = some
      { roots := m.withEnv w.atList Machine.runIdVariable runId
        panes := []
        recorded := m.snapshotTree w.atSnapshot
          (m.withEnv w.atList Machine.runIdVariable runId)
        deliveries :=
          m.terminate w (m.snapshotTree w.atSnapshot
            (m.withEnv w.atList Machine.runIdVariable runId)) ++
          m.sweep w (m.snapshotTree w.atSnapshot
            (m.withEnv w.atList Machine.runIdVariable runId)) } := by
  have hMem := mem_snapshotTree.mpr ⟨p, hTarget, rfl⟩
  have hSome : ¬ (m.snapshotTree w.atSnapshot (m.withEnv w.atList
      Machine.runIdVariable runId)).isEmpty = true := by
    rw [List.isEmpty_iff]
    exact List.ne_nil_of_mem hMem
  unfold Machine.stopRunId
  dsimp only
  rw [if_neg hSome]

theorem reached_plain
    (hReached : Reached (plainTable.snapshot 1000) 12 pid) :
    pid = 12 ∨ pid = 2 := by
  induction hReached with
  | self => exact Or.inl rfl
  | parent hP _ _ ih =>
    rcases List.mem_pair.mp hP with rfl | rfl
    · exact absurd ih (by decide)
    · exact Or.inr rfl

theorem above_plain
    (hAbove : Above plainTable 12 pid) :
    pid = 12 ∨ pid = 2 := by
  induction hAbove with
  | self => exact Or.inl rfl
  | parent hP _ ih =>
    rcases List.mem_pair.mp hP with rfl | rfl
    · exact absurd ih (by decide)
    · exact Or.inr rfl

theorem target_plain :
    Target sampleMachine (still plainTable)
      (sampleMachine.withEnv plainTable Machine.runIdVariable "r")
      ⟨10, 1, 10, 100⟩ := by
  refine ⟨List.mem_cons_self, .root (by decide), ?_⟩
  intro hReached
  exact absurd (reached_plain hReached) (by decide)

/- The runner is stopped, and nothing else. -/
theorem meets_plain :
    ∃ o, sampleMachine.runStop (still plainTable) "r" = some o ∧
      (10, 100) ∈ o.recorded ∧ Meets sampleMachine (still plainTable) o := by
  have hStop := (runStop_sample plainTable).trans
    (stopRunId_of_target target_plain)
  refine ⟨_, hStop, mem_snapshotTree.mpr ⟨_, target_plain, rfl⟩, ?_⟩
  refine (meets_iff_undisturbed hStop).mpr ?_
  constructor
  case listed =>
    rintro p ⟨hP, -, hNot⟩ hAbove
    rcases above_plain hAbove with hSelf | hParent
    · apply hNot
      rw [hSelf]
      exact .self (by decide)
    · rcases List.mem_pair.mp hP with rfl | rfl
      · exact absurd hParent (by decide)
      · exact absurd hParent (by decide)
  case apart =>
    exact fun _ _ hNone => (List.not_mem_nil hNone).elim
  case term => exact fun _ => stillThere_still _ _ _ _
  case kill => exact stillThere_still _ _ _ _

theorem reached_sudo
    (hReached : Reached (sudoTable.snapshot 1000) 12 pid) :
    pid = 12 ∨ pid = 11 := by
  induction hReached with
  | self => exact Or.inl rfl
  | parent hP _ _ ih =>
    rcases List.mem_pair.mp hP with rfl | rfl
    · exact absurd ih (by decide)
    · exact Or.inr rfl

theorem target_sudo :
    Target sampleMachine (still sudoTable)
      (sampleMachine.withEnv sudoTable Machine.runIdVariable "r")
      ⟨10, 1, 10, 100⟩ := by
  refine ⟨List.mem_cons_self, .root (by decide), ?_⟩
  intro hReached
  exact absurd (reached_sudo hReached) (by decide)

/- The runner gets a signal from what it started. -/
theorem hidden_ancestor_is_signalled :
    ∃ o, sampleMachine.runStop (still sudoTable) "r" = some o ∧
      ∃ d ∈ o.deliveries, IsLine sudoTable sampleMachine.self d.receiver := by
  have hStop := (runStop_sample sudoTable).trans
    (stopRunId_of_target target_sudo)
  refine ⟨_, hStop, ⟨.term, ⟨⟨10, 1, 10, 100⟩, 1000, false, runnerEnviron⟩⟩,
    ?_, ?_⟩
  · apply List.mem_append_left
    refine mem_signalChecked.mpr
      ⟨_, target_sudo, by decide, by decide, _,
        List.mem_cons_self, rfl, by decide, rfl⟩
  · refine ⟨_, List.mem_cons_self, ?_, rfl, rfl⟩
    have hThis : ⟨⟨12, 11, 12, 102⟩, 1000, false, []⟩ ∈
        sudoTable.processes :=
      List.mem_cons_of_mem _ (List.mem_cons_of_mem _ List.mem_cons_self)
    have hSudo : ⟨⟨11, 10, 10, 101⟩, 0, false, []⟩ ∈
        sudoTable.processes := List.mem_cons_of_mem _ List.mem_cons_self
    have hParent : Above sudoTable 12 11 := .parent hThis .self
    exact .parent hSudo hParent

end Stop
