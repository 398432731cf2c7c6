import Mathlib.Data.List.Nodup
import Amplihack.Base.Descent
import Amplihack.Base.Search

/-
  Process tables, and the processes under some roots.

  Stopping a recipe run: the tree is recorded once, and its
  processes get signals while the table changes.
-/

-- Tables

namespace Stop

open Base

structure Proc where
  pid : ℕ
  ppid : ℕ
  pgid : ℕ
  start : ℕ

/- A process of any owner, dead but not reaped or alive. -/
structure Process extends Proc where
  owner : ℕ
  zombie : Bool
  environ : List String

/- No two processes have one id at the same time. -/
structure Table where
  processes : List Process
  nodupPids : (processes.map (·.pid)).Nodup

namespace Table

variable (t : Table)

/- The live processes of a user. -/
def snapshot (uid : ℕ) : List Proc :=
  (t.processes.filter fun p => p.owner == uid && !p.zombie).map (·.toProc)

/- The start time of a process that exists and is alive. -/
def startTime (pid : ℕ) : Option ℕ :=
  (t.processes.find? fun p => p.pid == pid && !p.zombie).map (·.start)

def environOf (pid : ℕ) : List String :=
  ((t.processes.find? (·.pid == pid)).map (·.environ)).getD []

theorem eq_of_pid
    {t : Table} {p q : Process} (hP : p ∈ t.processes)
    (hQ : q ∈ t.processes) (hPid : p.pid = q.pid) :
    p = q :=
  List.inj_on_of_nodup_map t.nodupPids hP hQ hPid

theorem mem_snapshot
    {t : Table} {uid : ℕ} {p : Proc} :
    p ∈ t.snapshot uid ↔ ∃ q ∈ t.processes,
      q.owner = uid ∧ q.zombie = false ∧ q.toProc = p := by
  unfold snapshot
  rw [List.mem_map]
  constructor
  · rintro ⟨q, hMem, rfl⟩
    obtain ⟨hQ, hLive⟩ := List.mem_filter.mp hMem
    rw [Bool.and_eq_true, beq_iff_eq, Bool.not_eq_true'] at hLive
    exact ⟨q, hQ, hLive.1, hLive.2, rfl⟩
  · rintro ⟨q, hQ, hOwner, hLive, rfl⟩
    refine ⟨q, List.mem_filter.mpr ⟨hQ, ?_⟩, rfl⟩
    rw [hOwner, hLive, beq_self_eq_true]
    rfl

theorem nodup_snapshot (uid : ℕ) :
    ((t.snapshot uid).map (·.pid)).Nodup := by
  unfold snapshot
  rw [List.map_map]
  exact t.nodupPids.sublist (List.filter_sublist.map fun p : Process => p.pid)

end Table

-- Trees

def groups (procs : List Proc) (roots found : Finset ℕ) :
    Finset ℕ :=
  ((procs.filter (·.pid ∈ found)).map (·.pgid)).toFinset ∪ roots

def enter (held now : Finset ℕ) (p : Proc) : Finset ℕ :=
  if p.ppid ∈ now ∨ p.pgid ∈ held then insert p.pid now
  else now

def pass (procs : List Proc) (roots found : Finset ℕ) :
    Finset ℕ :=
  procs.foldl (enter (groups procs roots found)) found

/- The least set with the roots, their groups, and the
   children and groups of its processes. -/
inductive InTree (procs : List Proc) (roots : Finset ℕ) :
    ℕ → Prop where
| root {pid : ℕ} (hRoot : pid ∈ roots) : InTree procs roots pid
| rootGroup {p : Proc} (hP : p ∈ procs) (hRoot : p.pgid ∈ roots) :
    InTree procs roots p.pid
| child {p : Proc} (hP : p ∈ procs)
    (hParent : InTree procs roots p.ppid) :
    InTree procs roots p.pid
| member {p q : Proc} (hP : p ∈ procs) (hQ : q ∈ procs)
    (hFound : InTree procs roots q.pid)
    (hGroup : p.pgid = q.pgid) :
    InTree procs roots p.pid

variable {procs : List Proc}
variable {roots found : Finset ℕ}

theorem mem_groups {g : ℕ} :
    g ∈ groups procs roots found ↔
      (∃ q ∈ procs, q.pid ∈ found ∧ q.pgid = g) ∨ g ∈ roots := by
  unfold groups
  rw [Finset.mem_union, List.mem_toFinset, List.mem_map]
  refine or_congr_left (exists_congr fun q => ?_)
  rw [List.mem_filter, decide_eq_true_iff, and_assoc]

/- The pass over some processes, with fixed groups. -/
theorem foldl_enter_spec
    (listed : List Proc) (held now : Finset ℕ) :
    now ⊆ listed.foldl (enter held) now ∧
      listed.foldl (enter held) now ⊆ now ∪ (listed.map (·.pid)).toFinset ∧
      ∀ p ∈ listed, p.ppid ∈ now ∨ p.pgid ∈ held →
        p.pid ∈ listed.foldl (enter held) now := by
  induction listed generalizing now with
  | nil => simp
  | cons p rest ih =>
    obtain ⟨hSub, hSup, hEach⟩ := ih (enter held now p)
    have hGrow : now ⊆ enter held now p := by
      unfold enter
      split
      · exact Finset.subset_insert _ _
      · exact Finset.Subset.rfl
    refine ⟨hGrow.trans hSub, ?_, ?_⟩
    · refine hSup.trans ?_
      intro x hX
      rw [List.map_cons, List.toFinset_cons, Finset.mem_union,
        Finset.mem_insert]
      rcases Finset.mem_union.mp hX with hIn | hRest
      · unfold enter at hIn
        split at hIn
        · rcases Finset.mem_insert.mp hIn with hSelf | hOld
          · exact Or.inr (Or.inl hSelf)
          · exact Or.inl hOld
        · exact Or.inl hIn
      · exact Or.inr (Or.inr hRest)
    · intro q hQ hEnters
      rcases List.mem_cons.mp hQ with hHead | hTail
      · apply hSub
        rw [hHead] at hEnters ⊢
        unfold enter
        rw [if_pos hEnters]
        exact Finset.mem_insert_self _ _
      · apply hEach q hTail
        exact hEnters.imp_left fun hIn => hGrow hIn

/- What a pass adds is a child or in a group. -/
theorem foldl_enter_induction
    {P : ℕ → Prop} (listed : List Proc) (held now : Finset ℕ)
    (hNow : ∀ x ∈ now, P x)
    (hStep : ∀ p ∈ listed, P p.ppid ∨ p.pgid ∈ held → P p.pid) :
    ∀ x ∈ listed.foldl (enter held) now, P x := by
  induction listed generalizing now with
  | nil => exact hNow
  | cons p rest ih =>
    refine ih (enter held now p) ?_ ?_
    · intro x hX
      unfold enter at hX
      split at hX
      next hEnters =>
        rcases Finset.mem_insert.mp hX with hSelf | hOld
        · rw [hSelf]
          apply hStep p List.mem_cons_self
          exact hEnters.imp_left fun hIn => hNow _ hIn
        · exact hNow x hOld
      next => exact hNow x hX
    · exact fun q hQ => hStep q (List.mem_cons_of_mem _ hQ)

def growth (procs : List Proc) (roots : Finset ℕ) : Growth ℕ where
  grow := pass procs roots
  points := (procs.map fun p : Proc => p.pid).toFinset
  subset_grow := fun found => (foldl_enter_spec procs _ found).1
  grow_subset := fun found =>
    (foldl_enter_spec procs _ found).2.1

/- Passes over all processes until one adds nothing. -/
def tree (procs : List Proc) (roots : Finset ℕ) : Finset ℕ :=
  (growth procs roots).saturate roots

/- The loop computes the least set. -/
theorem mem_tree {pid : ℕ} :
    pid ∈ tree procs roots ↔ InTree procs roots pid := by
  constructor
  · refine (growth procs roots).saturate_induction
      (fun s => ∀ pid ∈ s, InTree procs roots pid) ?_
      (fun _ hRoot => .root hRoot) pid
    intro s hS
    refine foldl_enter_induction procs _ s hS ?_
    rintro p hP (hParent | hGroup)
    · exact .child hP hParent
    · rcases mem_groups.mp hGroup with ⟨q, hQ, hFound, hEq⟩ | hRoot
      · exact .member hP hQ (hS _ hFound) hEq.symm
      · exact .rootGroup hP hRoot
  · intro hIn
    have hPass : ∀ p ∈ procs,
        p.ppid ∈ tree procs roots ∨
          p.pgid ∈ groups procs roots (tree procs roots) →
        p.pid ∈ tree procs roots := by
      intro p hP hEnters
      have hMem := (foldl_enter_spec procs
        (groups procs roots (tree procs roots))
        (tree procs roots)).2.2 p hP hEnters
      have hStable := (growth procs roots).grow_saturate roots
      change pass procs roots (tree procs roots) = tree procs roots at hStable
      rw [← hStable]
      exact hMem
    induction hIn with
    | root hRoot => exact (growth procs roots).subset_saturate roots hRoot
    | rootGroup hP hRoot =>
      exact hPass _ hP (Or.inr (mem_groups.mpr (Or.inr hRoot)))
    | child hP _ ih => exact hPass _ hP (Or.inl ih)
    | member hP hQ _ hGroup ih =>
      exact hPass _ hP (Or.inr (mem_groups.mpr
        (Or.inl ⟨_, hQ, ih, hGroup.symm⟩)))

-- This Process And Its Ancestors

/- Up the parents, as far as they are listed. -/
def climb (procs : List Proc) (pid : ℕ) (found : Finset ℕ) :
    Finset ℕ :=
  if 1 < pid ∧ pid ∉ found then
    match _hFind : procs.find? (·.pid == pid) with
    | none => insert pid found
    | some p => climb procs p.ppid (insert pid found)
  else found
termination_by ((procs.map (·.pid)).toFinset \ found).card
decreasing_by
  rename_i hNew
  have hPid : p.pid = pid := by simpa using List.find?_some _hFind
  have hPoint : pid ∈ (procs.map (·.pid)).toFinset := by
    rw [List.mem_toFinset, ← hPid]
    exact List.mem_map_of_mem (List.mem_of_find?_eq_some _hFind)
  apply Finset.card_lt_card
  rw [Finset.ssubset_iff_of_subset (Finset.sdiff_subset_sdiff
    Finset.Subset.rfl (Finset.subset_insert _ _))]
  refine ⟨pid, Finset.mem_sdiff.mpr ⟨hPoint, hNew.2⟩, ?_⟩
  rw [Finset.mem_sdiff]
  exact fun hBoth => hBoth.2 (Finset.mem_insert_self _ _)

/- What is reached by listed parents, init apart. -/
inductive Reached (procs : List Proc) (self : ℕ) : ℕ → Prop where
| self (hSelf : 1 < self) : Reached procs self self
| parent {p : Proc} (hP : p ∈ procs)
    (hBelow : Reached procs self p.pid) (hPid : 1 < p.ppid) :
    Reached procs self p.ppid

/- Everything found before is found, and its parents are. -/
theorem climb_spec
    (procs : List Proc) (hNodup : (procs.map (·.pid)).Nodup)
    (pid : ℕ) (found : Finset ℕ)
    (hClosed : ∀ p ∈ procs, p.pid ∈ found →
      p.ppid = pid ∨ p.ppid ≤ 1 ∨ p.ppid ∈ found) :
    found ⊆ climb procs pid found ∧
      (1 < pid → pid ∈ climb procs pid found) ∧
      ∀ p ∈ procs, p.pid ∈ climb procs pid found →
        p.ppid ≤ 1 ∨ p.ppid ∈ climb procs pid found := by
  induction pid, found using climb.induct procs with
  | case1 pid found hNew hFind =>
    have hStop : climb procs pid found = insert pid found := by
      rw [climb, if_pos hNew]
      split
      · rfl
      next p hP =>
        rw [hFind] at hP
        cases hP
    rw [hStop]
    refine ⟨Finset.subset_insert _ _, fun _ => Finset.mem_insert_self _ _, ?_⟩
    intro p hP hMem
    rcases Finset.mem_insert.mp hMem with hSelf | hOld
    · have hNone := List.find?_eq_none.mp hFind p hP
      simp [hSelf] at hNone
    · rcases hClosed p hP hOld with hUp | hLow | hIn
      · rw [hUp]
        exact Or.inr (Finset.mem_insert_self _ _)
      · exact Or.inl hLow
      · exact Or.inr (Finset.mem_insert_of_mem hIn)
  | case2 pid found hNew p hFind ih =>
    have hGo : climb procs pid found =
        climb procs p.ppid (insert pid found) := by
      rw [climb, if_pos hNew]
      split
      next hNone =>
        rw [hFind] at hNone
        cases hNone
      next q hQ =>
        rw [hFind] at hQ
        cases hQ
        rfl
    have hPid : p.pid = pid := by simpa using List.find?_some hFind
    have hRest := ih (by
      intro q hQ hMem
      rcases Finset.mem_insert.mp hMem with hSelf | hOld
      · left
        have hSame := List.inj_on_of_nodup_map hNodup hQ
          (List.mem_of_find?_eq_some hFind)
          (hSelf.trans hPid.symm)
        rw [hSame]
      · right
        rcases hClosed q hQ hOld with hUp | hLow | hIn
        · rw [hUp]
          exact Or.inr (Finset.mem_insert_self _ _)
        · exact Or.inl hLow
        · exact Or.inr (Finset.mem_insert_of_mem hIn))
    rw [hGo]
    refine ⟨(Finset.subset_insert _ _).trans hRest.1, ?_, hRest.2.2⟩
    intro _
    exact hRest.1 (Finset.mem_insert_self _ _)
  | case3 pid found hOld =>
    have hStop : climb procs pid found = found := by rw [climb, if_neg hOld]
    have hFound : 1 < pid → pid ∈ found := by
      intro hPid
      by_contra hNot
      exact hOld ⟨hPid, hNot⟩
    rw [hStop]
    refine ⟨Finset.Subset.rfl, hFound, ?_⟩
    intro p hP hMem
    rcases hClosed p hP hMem with hUp | hEither
    · by_cases hLow : p.ppid ≤ 1
      · exact Or.inl hLow
      · rw [hUp] at hLow ⊢
        exact Or.inr (hFound (by omega))
    · exact hEither

/- What the climb adds is reached from where it starts. -/
theorem climb_sound
    {procs : List Proc} {self pid : ℕ} {found : Finset ℕ}
    (hPid : 1 < pid → Reached procs self pid)
    (hFound : ∀ x ∈ found, Reached procs self x) :
    ∀ x ∈ climb procs pid found, Reached procs self x := by
  induction pid, found using climb.induct procs with
  | case1 pid found hNew hFind =>
    rw [climb, if_pos hNew]
    split
    · intro x hX
      rcases Finset.mem_insert.mp hX with hSelf | hOld
      · rw [hSelf]
        exact hPid hNew.1
      · exact hFound x hOld
    next p hP =>
      rw [hFind] at hP
      cases hP
  | case2 pid found hNew p hFind ih =>
    have hMem := List.mem_of_find?_eq_some hFind
    have hSame : p.pid = pid := by simpa using List.find?_some hFind
    rw [climb, if_pos hNew]
    split
    next hNone =>
      rw [hFind] at hNone
      cases hNone
    next q hQ =>
      rw [hFind] at hQ
      cases hQ
      apply ih
      · intro hUp
        refine .parent hMem ?_ hUp
        rw [hSame]
        exact hPid hNew.1
      · intro x hX
        rcases Finset.mem_insert.mp hX with hSelf | hOld
        · rw [hSelf]
          exact hPid hNew.1
        · exact hFound x hOld
  | case3 pid found hOld =>
    rw [climb, if_neg hOld]
    exact hFound

def selfAndAncestors (procs : List Proc) (self : ℕ) : Finset ℕ :=
  climb procs self ∅

theorem mem_selfAndAncestors
    {procs : List Proc} {self pid : ℕ} (hNodup : (procs.map (·.pid)).Nodup) :
    pid ∈ selfAndAncestors procs self ↔ Reached procs self pid := by
  unfold selfAndAncestors
  constructor
  · exact climb_sound (fun hSelf => .self hSelf)
      (fun _ hNone => (Finset.notMem_empty _ hNone).elim) pid
  · intro hReached
    obtain ⟨-, hStart, hParents⟩ := climb_spec procs hNodup
      self ∅ (fun _ _ hNone => (Finset.notMem_empty _ hNone).elim)
    induction hReached with
    | self hSelf => exact hStart hSelf
    | parent hP _ hPid ih => exact (hParents _ hP ih).resolve_left (by omega)

end Stop

-- The Machine

namespace Stop

open Base

structure Pane where
  pid : ℕ
  startCommand : String

/- The user, this process, whom it may signal, and tmux. -/
structure Machine where
  uid : ℕ
  self : ℕ
  permitted : Process → Bool
  sessions : String → Option (List Pane)

/- The table at each read and at each signal of one run. -/
structure Moments where
  /- when environments are read -/
  atList : Table
  /- when the tree is recorded -/
  atSnapshot : Table
  /- when the group of a pane is signalled -/
  atGroup : ℕ → Table
  /- when a process id is checked, and then signalled -/
  atTermCheck : ℕ → Table
  atTerm : ℕ → Table
  atKillCheck : ℕ → Table
  atKill : ℕ → Table

/- Process ids, each with the start time it was found with. -/
abbrev Tree := List (ℕ × ℕ)

inductive Signal where
| term
| kill
deriving DecidableEq

structure Delivery where
  signal : Signal
  receiver : Process

/- What was aimed at, what was found, and who was hit. -/
structure Outcome where
  roots : Finset ℕ
  panes : List ℕ
  recorded : Tree
  deliveries : List Delivery

namespace Machine

variable (m : Machine)

-- The Recorded Tree

/- What is found, never this process or its ancestors. -/
def record (t : Table) (found : List Proc → Finset ℕ) : Tree :=
  let procs := t.snapshot m.uid
  let guarded := selfAndAncestors procs m.self
  (procs.filter fun p =>
    p.pid ∈ found procs ∧ p.pid ∉ guarded).map fun p =>
      (p.pid, p.start)

def snapshotTree (t : Table) (roots : Finset ℕ) : Tree :=
  m.record t fun procs => tree procs roots

/- The processes whose environment has the entry. -/
def withEnv (t : Table) (name value : String) : Finset ℕ :=
  (((t.snapshot m.uid).filter fun p =>
    (t.environOf p.pid).contains (name ++ "=" ++ value)).map (·.pid)).toFinset

-- Signals

def signalGroup (t : Table) (signal : Signal) (pgid : ℕ) :
    List Delivery :=
  if 1 < pgid then
    (t.processes.filter fun r =>
      r.pgid == pgid && m.permitted r).map (⟨signal, ·⟩)
  else []

def signalPid (t : Table) (signal : Signal) (pid : ℕ) :
    List Delivery :=
  if 1 < pid then
    (t.processes.filter fun r =>
      r.pid == pid && m.permitted r).map (⟨signal, ·⟩)
  else []

/- The process that was recorded, and alive. -/
def sameProcess (t : Table) (entry : ℕ × ℕ) : Bool :=
  t.startTime entry.1 == some entry.2

/- Each process is checked, and signalled a moment later. -/
def signalChecked
    (checks signals : ℕ → Table) (signal : Signal) (recorded : Tree) :
    List Delivery :=
  recorded.flatMap fun e =>
    if sameProcess (checks e.1) e then
      m.signalPid (signals e.1) signal e.1
    else []

def terminate (w : Moments) : Tree → List Delivery :=
  m.signalChecked w.atTermCheck w.atTerm .term

/- After the grace period, what is still there. -/
def sweep (w : Moments) : Tree → List Delivery :=
  m.signalChecked w.atKillCheck w.atKill .kill

-- The Command

def detachedChild : String := "recipe detached-child"

/- The panes that run the detached run. -/
def ownPanes (panes : List Pane) : List ℕ :=
  ((panes.filter fun pane =>
    (find detachedChild.toList
      pane.startCommand.toList).isSome).map (·.pid)).dedup

def stopSession (w : Moments) (listing : List Pane) :
    Option Outcome :=
  let panes := ownPanes listing
  if panes.isEmpty then none
  else
    let recorded := m.snapshotTree w.atSnapshot panes.toFinset
    some
      { roots := panes.toFinset
        panes := panes
        recorded := recorded
        deliveries :=
          ((panes.filter (recorded.map Prod.fst).contains).flatMap
            fun pane => m.signalGroup (w.atGroup pane) .term
              pane) ++ m.sweep w recorded }

def runIdVariable : String := "AMPLIHACK_RECIPE_RUN_ID"

def stopRunId (w : Moments) (runId : String) :
    Option Outcome :=
  let roots := m.withEnv w.atList runIdVariable runId
  let recorded := m.snapshotTree w.atSnapshot roots
  if recorded.isEmpty then none
  else
    some
      { roots := roots
        panes := []
        recorded := recorded
        deliveries := m.terminate w recorded ++ m.sweep w recorded }

/- A session of that name goes before a run id. -/
def runStop (w : Moments) (target : String) : Option Outcome :=
  if target.isEmpty || ['-'].isPrefixOf target.toList then none
  else
    match m.sessions target with
    | some panes => m.stopSession w panes
    | none => m.stopRunId w target

end Machine

end Stop
