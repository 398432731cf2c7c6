import Amplihack.Base.Runs
import Amplihack.Governor.Model

/-
  Runs of the fair queue: requests join, give up and are
  admitted from the head.

  While two workstreams contend for admission, the one that
  is behind goes next; the workstreams take turns in pairs,
  and one is admitted twice in a row only across a tie.
-/

-- Runs of the queue

namespace Governor

open Base

structure Waiting where
  entries : List QueueEntry
  admissions : List Admission
  nextSeq : ℕ

/- A request as it joins, without its ticket. -/
structure Arrival where
  workstream : String
  class_ : Class
  pid : ℕ
  startTime : Option ℕ
  enqueuedAt : ℤ

/- `leave` keeps the entries of processes that still wait. -/
inductive QueueStep where
| join (arrival : Arrival)
| leave (keep : QueueEntry → Bool)
| admission (now : ℤ)
| prune (now : ℤ)

namespace Waiting

def entryOf (arrival : Arrival) (seq : ℕ) : QueueEntry where
  seq := seq
  workstream := arrival.workstream
  class_ := arrival.class_
  pid := arrival.pid
  startTime := arrival.startTime
  enqueuedAt := arrival.enqueuedAt

/- The entry that the next admission goes to. -/
def admitted (σ : Waiting) : Option QueueEntry :=
  headEntry σ.entries σ.admissions

/- Every round repairs the counter before it uses it. -/
def step (σ : Waiting) : QueueStep → Waiting
| .join arrival =>
  let seq := repairedSeq σ.nextSeq σ.entries
  { entries := σ.entries ++ [entryOf arrival seq]
    admissions := σ.admissions
    nextSeq := addUpTo u64Max seq 1 }
| .leave keep =>
  { σ with entries := σ.entries.filter keep }
| .admission now =>
  match σ.admitted with
  | some e =>
    { entries := withoutSeq e.seq σ.entries
      admissions :=
        σ.admissions ++ [⟨e.workstream, now⟩]
      nextSeq := repairedSeq σ.nextSeq σ.entries }
  | none => σ
| .prune now =>
  { σ with admissions := pruneWindow σ.admissions now }

/- The admissions counted for a workstream. -/
def count (σ : Waiting) (workstream : String) : ℕ :=
  admissionsTo workstream σ.admissions

/-
  Both workstreams wait in class `c`, and nothing else waits
  in that class or a better one.
-/
def Contended
    (c : Class) (A B : String) (σ : Waiting) :
    Prop :=
  (∃ e ∈ σ.entries, e.workstream = A ∧ e.class_ = c) ∧
  (∃ e ∈ σ.entries, e.workstream = B ∧ e.class_ = c) ∧
  ∀ e ∈ σ.entries, e.class_.rank ≤ c.rank →
    e.class_ = c ∧ (e.workstream = A ∨ e.workstream = B)

instance (c : Class) (A B : String) (σ : Waiting) :
    Decidable (σ.Contended c A B) :=
  inferInstanceAs (Decidable (_ ∧ _ ∧ _))

/- No admission leaves the fairness window in the step. -/
def KeepsWindow (σ : Waiting) (l : QueueStep) : Prop :=
  ∀ now, l = .prune now →
    (pruneWindow σ.admissions now).length = σ.admissions.length

/- The counts differ by at most one. -/
def Balanced (A B : String) (σ : Waiting) : Prop :=
  σ.count A ≤ σ.count B + 1 ∧ σ.count B ≤ σ.count A + 1

-- One admission

variable {c : Class} {A B : String}
variable {σ τ : Waiting} {e f : QueueEntry}

theorem admitted_key_le
    (hAdmitted : σ.admitted = some e) (hMem : f ∈ σ.entries) :
    e.class_.rank < f.class_.rank ∨
      e.class_.rank = f.class_.rank ∧
        (σ.count e.workstream < σ.count f.workstream ∨
          σ.count e.workstream = σ.count f.workstream ∧ e.seq ≤ f.seq) :=
  keyFor_le_iff.mp (orderKey_headEntry_le hAdmitted hMem)

/- The workstream that is ahead of the other waits. -/
theorem admitted_behind
    (hContended : σ.Contended c A B) (hAdmitted : σ.admitted = some e) :
    e.class_ = c ∧
      (e.workstream = A ∧ σ.count A ≤ σ.count B ∨
        e.workstream = B ∧ σ.count B ≤ σ.count A) := by
  obtain ⟨⟨a, hMemA, hA, hClassA⟩, ⟨b, hMemB, hB, hClassB⟩,
    hOthers⟩ := hContended
  have hKeyA := admitted_key_le hAdmitted hMemA
  have hKeyB := admitted_key_le hAdmitted hMemB
  rw [hA, hClassA] at hKeyA
  rw [hB, hClassB] at hKeyB
  have hRank : e.class_.rank ≤ c.rank := by omega
  obtain ⟨hClass, hStream⟩ :=
    hOthers e (headEntry_mem hAdmitted) hRank
  refine ⟨hClass, ?_⟩
  rw [hClass] at hKeyA hKeyB
  rcases hStream with hStream | hStream
  · rw [hStream] at hKeyB
    exact Or.inl ⟨hStream, by omega⟩
  · rw [hStream] at hKeyA
    exact Or.inr ⟨hStream, by omega⟩

theorem exists_admitted
    (hContended : σ.Contended c A B) :
    ∃ e, σ.admitted = some e :=
  let ⟨_, hMem, _⟩ := hContended.1
  headEntry_isSome hMem

theorem count_admission
    (hAdmitted : σ.admitted = some e) (now : ℤ) (workstream : String) :
    (σ.step (.admission now)).count workstream =
      σ.count workstream +
        if e.workstream = workstream then 1 else 0 := by
  simp only [step, hAdmitted, count, admissionsTo_append,
    admissionsTo_singleton]

/- Only an admission changes what is counted. -/
theorem count_step
    {l : QueueStep} (hKeeps : σ.KeepsWindow l)
    (hNoAdmission : ∀ now, l ≠ .admission now) (workstream : String) :
    (σ.step l).count workstream = σ.count workstream := by
  cases l with
  | join _ | leave _ => rfl
  | admission now => exact absurd rfl (hNoAdmission now)
  | prune now =>
    simp only [step, count]
    exact admissionsTo_pruneWindow (hKeeps now rfl) workstream

theorem Balanced.step
    (hBalanced : σ.Balanced A B) (hNe : A ≠ B)
    (hContended : σ.Contended c A B) (l : QueueStep)
    (hKeeps : σ.KeepsWindow l) :
    (σ.step l).Balanced A B := by
  by_cases hAdmission : ∃ now, l = .admission now
  · obtain ⟨now, rfl⟩ := hAdmission
    obtain ⟨e, hAdmitted⟩ := exists_admitted hContended
    obtain ⟨_, hBehind⟩ :=
      admitted_behind hContended hAdmitted
    unfold Balanced at hBalanced ⊢
    rw [count_admission hAdmitted now A, count_admission hAdmitted now B]
    rcases hBehind with ⟨hStream, hLe⟩ | ⟨hStream, hLe⟩
    · rw [if_pos hStream, if_neg (by rwa [hStream])]
      omega
    · rw [if_pos hStream, if_neg (by rw [hStream]; exact hNe.symm)]
      omega
  · have hCount := count_step hKeeps (fun now hEq => hAdmission ⟨now, hEq⟩)
    unfold Balanced at hBalanced ⊢
    rw [hCount A, hCount B]
    exact hBalanced

-- The order within one workstream

/-
  After the admission of `e`, what its workstream has waiting
  in its class, and the counter, are past its seq.
-/
def Past (e : QueueEntry) (σ : Waiting) : Prop :=
  (∀ f ∈ σ.entries, f.workstream = e.workstream →
    f.class_ = e.class_ → e.seq < f.seq) ∧
  e.seq < σ.nextSeq

theorem past_of_admitted
    (hAdmitted : σ.admitted = some e) (hSeq : e.seq < u64Max) (now : ℤ) :
    (σ.step (.admission now)).Past e := by
  simp only [step, hAdmitted]
  refine ⟨?_, ?_⟩
  · intro f hMem hStream hClass
    simp only [withoutSeq, List.mem_filter, bne_iff_ne] at hMem
    have hKey := admitted_key_le hAdmitted hMem.1
    rw [hClass, hStream] at hKey
    have hNe : f.seq ≠ e.seq := hMem.2
    omega
  · have hPast : addUpTo u64Max e.seq 1 ≤ repairedSeq σ.nextSeq σ.entries :=
      addUpTo_le_repairedSeq (headEntry_mem hAdmitted)
    unfold addUpTo at hPast
    dsimp only
    omega

theorem Past.step
    (hPast : σ.Past e) (hSeq : e.seq < u64Max) (l : QueueStep) :
    (σ.step l).Past e := by
  cases l with
  | join arrival =>
    have hRepaired := le_repairedSeq σ.nextSeq σ.entries
    have hNext : e.seq < repairedSeq σ.nextSeq σ.entries :=
      hPast.2.trans_le hRepaired
    refine ⟨?_, ?_⟩
    · intro f hMem hStream hClass
      simp only [Waiting.step, List.mem_append, List.mem_singleton] at hMem
      rcases hMem with hMem | rfl
      · exact hPast.1 f hMem hStream hClass
      · exact hNext
    · simp only [Waiting.step, addUpTo]
      omega
  | leave keep =>
    refine ⟨?_, hPast.2⟩
    intro f hMem hStream hClass
    exact hPast.1 f (List.mem_of_mem_filter hMem) hStream hClass
  | admission now =>
    simp only [Waiting.step]
    cases hAdmitted : σ.admitted with
    | none => exact hPast
    | some g =>
      refine ⟨?_, ?_⟩
      · intro f hMem hStream hClass
        exact hPast.1 f (List.mem_of_mem_filter hMem) hStream hClass
      · exact hPast.2.trans_le (le_repairedSeq _ _)
  | prune now =>
    simp only [Waiting.step]
    exact ⟨hPast.1, hPast.2⟩

end Waiting

-- Fair runs

open Waiting

/- The steps of a run in which `A` and `B` always contend. -/
def Contending
    (c : Class) (A B : String) (σ : Waiting) (l : QueueStep) :
    Prop :=
  σ.Contended c A B ∧ σ.KeepsWindow l

/- The steps of such a run between two admissions. -/
def Between
    (c : Class) (A B : String) (σ : Waiting) (l : QueueStep) :
    Prop :=
  Contending c A B σ l ∧ ∀ now, l ≠ .admission now

theorem fair_queue_balances
    (c : Class) (A B : String) (σ₀ σ : Waiting) (hNe : A ≠ B)
    (hRun : Reaches step (Contending c A B) σ₀ σ)
    (hContended : σ.Contended c A B) :
    (σ₀.Balanced A B → σ.Balanced A B) ∧
    (∃ e, σ.admitted = some e ∧ e.class_ = c ∧
      (e.workstream = A ∧ σ.count A ≤ σ.count B ∨
        e.workstream = B ∧ σ.count B ≤ σ.count A)) ∧
    (∀ e now τ f, σ.admitted = some e →
      σ.count A = σ.count B →
      Reaches step (Between c A B) (σ.step (.admission now)) τ →
      τ.Contended c A B →
      τ.admitted = some f →
      f.workstream ≠ e.workstream) ∧
    ∀ e now τ f, σ.admitted = some e →
      e.seq < u64Max →
      Reaches step (fun _ _ => True) (σ.step (.admission now)) τ →
      τ.admitted = some f →
      f.workstream = e.workstream →
      f.class_ = e.class_ →
      e.seq < f.seq := by
  refine ⟨?_, ?_, ?_, ?_⟩
  · intro hBalanced
    exact hRun.invariant (Balanced A B)
      (fun _ l hBalanced hAllowed =>
        hBalanced.step hNe hAllowed.1 l hAllowed.2) hBalanced
  · obtain ⟨e, hAdmitted⟩ := exists_admitted hContended
    exact ⟨e, hAdmitted, admitted_behind hContended hAdmitted⟩
  · intro e now τ f hAdmitted hTie hLater hContendedτ hNext
    let Same := fun ρ : Waiting =>
      ∀ w, ρ.count w = (σ.step (.admission now)).count w
    have hSame : Same τ := by
      refine hLater.invariant Same ?_ (fun _ => rfl)
      intro ρ l hCount hAllowed w
      rw [count_step hAllowed.1.2 hAllowed.2 w]
      exact hCount w
    have hFirst := (admitted_behind hContended hAdmitted).2
    have hSecond := (admitted_behind hContendedτ hNext).2
    rw [hSame A, hSame B, count_admission hAdmitted now A,
      count_admission hAdmitted now B, hTie] at hSecond
    intro hEq
    rw [hEq] at hSecond
    rcases hFirst with ⟨hStream, _⟩ | ⟨hStream, _⟩
    · rw [hStream] at hSecond
      simp only [hNe, if_true, if_false, true_and,
        false_and, or_false] at hSecond
      omega
    · rw [hStream] at hSecond
      simp only [hNe.symm, if_true, if_false, true_and,
        false_and, false_or] at hSecond
      omega
  · intro e now τ f hAdmitted hSeq hLater hNext hStream hClass
    have hPast : τ.Past e :=
      hLater.invariant (Past e)
        (fun _ l hPast _ => hPast.step hSeq l)
        (past_of_admitted hAdmitted hSeq now)
    exact hPast.1 f (headEntry_mem hNext) hStream hClass

/- An ordinary request with ticket `seq`. -/
def request (workstream : String) (seq : ℕ) : QueueEntry where
  seq := seq
  workstream := workstream
  class_ := .ordinary
  pid := 100 + seq
  startTime := some 1
  enqueuedAt := 0

/- The first request of `left` is the earliest of all. -/
def unevenArrivals : Waiting where
  entries :=
    [request "left" 1, request "right" 2, request "right" 3,
      request "right" 4, request "left" 10]
  admissions := []
  nextSeq := 11

/- Across a tie, one workstream is admitted twice in a row. -/
theorem right_admitted_twice :
    ¬ ∀ (c : Class) (A B : String) (σ₀ σ : Waiting), A ≠ B →
      Reaches step (Contending c A B) σ₀ σ →
      σ.Contended c A B →
      σ₀.Balanced A B →
      σ.Balanced A B ∧
      ∀ e now τ f, σ.admitted = some e →
        Reaches step (Between c A B) (σ.step (.admission now)) τ →
        τ.Contended c A B →
        τ.admitted = some f →
        f.workstream ≠ e.workstream := by
  intro hAll
  have hStart : Reaches step (Contending .ordinary "left" "right")
      unevenArrivals unevenArrivals := Reaches.refl _
  have hRun := hStart.tail (.admission 0) ⟨by decide, nofun⟩
  have hAlternate := (hAll .ordinary "left" "right" _ _
    (by decide) hRun (by decide) ⟨by decide, by decide⟩).2
  exact hAlternate (request "right" 2) 1 _ (request "right" 3)
    (by decide) (Reaches.refl _) (by decide) (by decide) rfl

theorem fair_queue_balances_of_uneven_arrivals :
    (unevenArrivals.step (.admission 0)).Balanced "left" "right" ∧
      "right" ≠ "left" := by
  have hStart : Reaches step (Contending .ordinary "left" "right")
      unevenArrivals unevenArrivals := Reaches.refl _
  have hRun := hStart.tail (.admission 0) ⟨by decide, nofun⟩
  have hBalanced := (fair_queue_balances .ordinary "left" "right"
    _ _ (by decide) hRun (by decide)).1
    ⟨by decide, by decide⟩
  have hTurn := (fair_queue_balances .ordinary "left" "right"
    _ _ (by decide) hStart (by decide)).2.2.1
  exact ⟨hBalanced, hTurn (request "left" 1) 0 _
    (request "right" 2) (by decide) (by decide)
    (Reaches.refl _) (by decide) (by decide)⟩

end Governor
