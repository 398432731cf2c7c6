import Amplihack.Usage.Aggregate
import Mathlib.Algebra.BigOperators.Fin
import Mathlib.Algebra.Group.WithOne.Basic

/-
  No token of the books is lost in the report, and a session
  answers for itself and for all that it started.
-/

-- The total

namespace Usage

open Base

variable {m : Manifest}
variable {b : Books m}

theorem sum_addModels (all bucket : ModelMap) :
    sum (addModels all bucket) = sum all + sum bucket := by
  unfold addModels
  rw [sum_eq bucket]
  unfold OrderedMap.sumOf OrderedMap.values
  rw [List.foldl_map]
  induction bucket.entries generalizing all with
  | nil => simp
  | cons e rest ih =>
    rw [List.foldl_cons, ih, sum_add, List.map_cons, List.sum_cons, add_assoc]

theorem sum_foldl_addModels
    (buckets : Buckets m) (owners : List (Owner m)) (all : ModelMap) :
    sum (owners.foldl
      (fun all o => addModels all (buckets o)) all) =
      sum all + (owners.map fun o => sum (buckets o)).sum := by
  induction owners generalizing all with
  | nil => simp
  | cons o rest ih =>
    rw [List.foldl_cons, ih, sum_addModels, List.map_cons,
      List.sum_cons, add_assoc]

/- The rows have the tokens of every bucket, once. -/
theorem sum_allModels (b : Books m) :
    sum b.allModels =
      (m.indices.map b.direct).sum + sum (b.buckets none) := by
  unfold Books.allModels
  rw [sum_foldl_addModels, sum_empty, zero_add]
  unfold Manifest.owners
  rw [List.map_append, List.sum_append, List.map_map]
  simp only [List.map_cons, List.map_nil, List.sum_cons,
    List.sum_nil, add_zero]
  rfl

-- Own diagnostics

variable {i : m.Index}

theorem noted_note
    {ds : Diagnostics} {session : Option ℕ} {code : String}
    (hOther : session ≠ some i.val) :
    noted (note ds session code) i = noted ds i := by
  unfold noted note
  simp [hOther]

theorem noted_eq_false_iff {ds : Diagnostics} {i : m.Index} :
    noted ds i = false ↔ ∀ d ∈ ds, d.session ≠ some i.val := by
  simp [noted]

theorem noted_identityNotes {ds : Diagnostics} {i : m.Index} :
    noted (identityNotes m ds) i = noted ds i := by
  unfold identityNotes
  split
  · apply noted_note
    simp
  · rfl

variable {c : Counted m}

/- A later session is not noted of an earlier one. -/
theorem noted_next
    {i j : m.Index} (hOther : j ≠ i) :
    noted (c.next b i).ds j = noted c.ds j := by
  unfold Counted.next
  dsimp only
  split
  · apply noted_note
    intro hSame
    exact hOther (Fin.ext (Option.some.inj hSame)).symm
  · rfl

theorem complete_foldl
    {sessions : List m.Index} (hNodup : sessions.Nodup)
    (hDone : i ∈ sessions ∨ c.complete i = !noted c.ds i) :
    (sessions.foldl (Counted.next b) c).complete i =
      !noted (sessions.foldl (Counted.next b) c).ds i := by
  induction sessions generalizing c with
  | nil => exact hDone.resolve_left (List.not_mem_nil)
  | cons j rest ih =>
    rcases List.nodup_cons.1 hNodup with ⟨hNew, hRest⟩
    rw [List.foldl_cons]
    apply ih hRest
    by_cases hSame : i = j
    · right
      rw [hSame]
      exact Function.update_self ..
    · rcases hDone with hMem | hDone
      · left
        exact (List.mem_cons.1 hMem).resolve_left hSame
      · right
        rw [noted_next hSame, ← hDone]
        exact Function.update_of_ne hSame ..

/- A session is complete at the end if nothing is noted. -/
theorem counted_complete (i : m.Index) :
    (counted b).complete i = !noted (counted b).ds i :=
  complete_foldl (List.nodup_finRange _) (.inl (List.mem_finRange i))

-- Ancestors

variable {tokens : Spent} {above : List m.Index}

theorem inclusive_addTo
    {complete : Bool} (hNodup : above.Nodup) (t : Totals m) (p : m.Index) :
    (above.foldl (Totals.addTo tokens complete) t).inclusive p =
      t.inclusive p + if p ∈ above then tokens else 0 := by
  induction above generalizing t with
  | nil => simp
  | cons q rest ih =>
    rcases List.nodup_cons.1 hNodup with ⟨hNew, hRest⟩
    rw [List.foldl_cons, ih hRest]
    by_cases hSame : p = q
    · subst hSame
      simp [Totals.addTo, addOptional, hNew]
    · simp [Totals.addTo, hSame]

theorem complete_addTo
    {complete : Bool} (t : Totals m) (p : m.Index) :
    (above.foldl (Totals.addTo tokens complete) t).complete p ↔
      t.complete p ∧ (p ∈ above → complete) := by
  induction above generalizing t with
  | nil => simp
  | cons q rest ih =>
    rw [List.foldl_cons, ih]
    by_cases hSame : p = q
    · subst hSame
      simp [Totals.addTo]
      tauto
    · simp [Totals.addTo, hSame]

open Classical in
/- What a session adds to those above it. -/
noncomputable def share
    (direct : m.Index → Spent)
    (p i : m.Index) :
    Spent :=
  if Above m.parentIndex i p then direct i else 0

/- What the sessions of a list have added to each session. -/
structure RolledUp
    (direct : m.Index → Spent) (complete : m.Index → Bool)
    (added : List m.Index) (t : Totals m) :
    Prop where
  inclusive : ∀ p, t.inclusive p = direct p + (added.map (share direct p)).sum
  complete : ∀ p, t.complete p ↔
    complete p ∧ ∀ i ∈ added, Above m.parentIndex i p → complete i

variable {direct : m.Index → Spent}
variable {complete : m.Index → Bool}
variable {added : List m.Index}
variable {t : Totals m}

theorem climb_spec
    (hAcyclic : ∀ i, ¬ Above m.parentIndex i i)
    (hRolled : RolledUp direct complete added t) (i : m.Index) :
    ∃ t', t.climb direct i = some t' ∧
      RolledUp direct complete (added ++ [i]) t' := by
  have hEnds := ancestors_isSome hAcyclic
    (by simp : Fintype.card m.Index ≤ m.sessions.length)
    (m.parentIndex i)
  rcases Option.isSome_iff_exists.1 hEnds with ⟨above, hWalk⟩
  have hNodup := nodup_ancestors hAcyclic hWalk
  have hAbove : ∀ p, p ∈ above ↔ Above m.parentIndex i p :=
    fun p => mem_ancestors_iff hWalk
  refine ⟨_, by rw [Totals.climb, hWalk]; rfl, ?_, ?_⟩
  · intro p
    have hShare : (if p ∈ above then direct i else 0) = share direct p i := by
      unfold share
      by_cases hUp : Above m.parentIndex i p
      · rw [if_pos hUp, if_pos ((hAbove p).2 hUp)]
      · rw [if_neg hUp, if_neg fun hMem => hUp ((hAbove p).1 hMem)]
    rw [inclusive_addTo hNodup, hRolled.inclusive p, hShare,
      List.map_append, List.sum_append, add_assoc]
    simp
  · intro p
    rw [complete_addTo, hRolled.complete, hRolled.complete, hAbove]
    constructor
    · rintro ⟨⟨hOwn, hOld⟩, hNew⟩
      refine ⟨hOwn, ?_⟩
      intro j hMem hUp
      rcases List.mem_append.1 hMem with hMem | hLast
      · exact hOld j hMem hUp
      · rw [List.mem_singleton.1 hLast] at hUp ⊢
        exact (hNew hUp).1
    · rintro ⟨hOwn, hAll⟩
      refine ⟨⟨hOwn, ?_⟩, ?_⟩
      · intro j hMem hUp
        exact hAll j (List.mem_append_left _ hMem) hUp
      · intro hUp
        refine ⟨hAll i (by simp) hUp, ?_⟩
        intro j hMem hUnder
        exact hAll j (List.mem_append_left _ hMem)
          (Relation.TransGen.trans hUnder hUp)

/- Every session in turn. -/
theorem foldlM_climb
    (hAcyclic : ∀ i, ¬ Above m.parentIndex i i)
    (hRolled : RolledUp direct complete added t) (sessions : List m.Index) :
    ∃ t', sessions.foldlM (Totals.climb direct) t = some t' ∧
      RolledUp direct complete (added ++ sessions) t' := by
  induction sessions generalizing added t with
  | nil =>
    refine ⟨t, rfl, ?_⟩
    rw [List.append_nil]
    exact hRolled
  | cons i rest ih =>
    rcases climb_spec hAcyclic hRolled i with ⟨t₁, hClimb, hRolled₁⟩
    rcases ih hRolled₁ with ⟨t', hRest, hRolled'⟩
    refine ⟨t', ?_, ?_⟩
    · rw [List.foldlM_cons, hClimb]
      exact hRest
    · rw [List.append_assoc] at hRolled'
      exact hRolled'

theorem rollUp_spec
    (hAcyclic : ∀ i, ¬ Above m.parentIndex i i) (b : Books m)
    (complete : m.Index → Bool) :
    ∃ t, rollUp b complete = some t ∧
      RolledUp b.direct complete m.indices t := by
  have hStart : RolledUp b.direct complete []
      { inclusive := b.direct, complete := complete } :=
    { inclusive := by simp
      complete := by simp }
  exact foldlM_climb hAcyclic hStart m.indices

-- Conservation

/- `j` was started by `i`, or by one that `i` started. -/
def Manifest.Descends (m : Manifest) (j i : m.Index) : Prop :=
  Relation.TransGen
    (fun j p => (m.session j).parent = some (m.session p).id)
    j i

theorem above_iff_descends
    (hNodup : (m.sessions.map Session.id).Nodup) {i j : m.Index} :
    Above m.parentIndex j i ↔ m.Descends j i := by
  unfold Above Manifest.Descends
  simp only [parentIndex_eq_some_iff hNodup]

/- The tokens that go to no session. -/
def unattributedBucket
    (m : Manifest) (observations : List (Observation m)) (ds : Diagnostics) :
    Spent :=
  sum ((books (gather m observations ds)).buckets none)

/- Nothing about the session or what it started was noted. -/
def ClearBelow
    (m : Manifest) (ds : Diagnostics) (i : m.Index) :
    Prop :=
  ∀ j, j = i ∨ m.Descends j i → ∀ d ∈ ds, d.session ≠ some j.val

def agentSession (id : String) (parent : Option String) :
    Session where
  id := id
  provider := .claude
  runId := none
  parent := parent
  complete := true
  files := []

def parentAndChild : Manifest where
  version := 1
  workstream := none
  repository := none
  branch := none
  prs := []
  completed := false
  sessions :=
    [agentSession "lead" none, agentSession "helper" (some "lead")]

def fewTokens (n : ℕ) : Tokens :=
  .fromValues fun _ => .ofNat _ n

def helperUse : Observation parentAndChild where
  session := ⟨1, by decide⟩
  timestamp := none
  event :=
    .usage
      { key := some "response"
        nativeSession := some "helper"
        model := some "model"
        tokens := some (fewTokens 3)
        cumulative := false }
  incomplete := false

/- The lead's tokens are those of its helper. -/
example :
    (aggregate parentAndChild [helperUse] ∅).map
        (fun r => r.sessions.map SessionReport.inclusive) =
      some [some (fewTokens 3), some (fewTokens 3)] :=
  rfl

end Usage
