import Amplihack.Usage.Aggregate
import Amplihack.Usage.Gathered
import Mathlib.Algebra.Group.WithOne.Basic

/-
  The books depend on the numbers of each response, and on
  the cumulative counters; each response is charged once.
-/

-- Folds side by side

namespace Usage

open Base

/- Lists that agree under a map, under related steps. -/
theorem foldl_related
    {α β γ : Type} {R : β → β → Prop} {f : β → α → β} {h : α → γ}
    (hStep : ∀ b b' a a', R b b' → h a = h a' → R (f b a) (f b' a'))
    {l l' : List α} {b b' : β} (hSame : l.map h = l'.map h)
    (hStart : R b b') :
    R (l.foldl f b) (l'.foldl f b') := by
  induction l generalizing l' b b' with
  | nil =>
    rw [List.map_nil, eq_comm, List.map_eq_nil_iff] at hSame
    rw [hSame]
    exact hStart
  | cons a rest ih =>
    cases l' with
    | nil => cases hSame
    | cons a' rest' =>
      rw [List.map_cons, List.map_cons, List.cons.injEq] at hSame
      rw [List.foldl_cons, List.foldl_cons]
      exact ih hSame.2 (hStep b b' a a' hStart hSame.1)

variable {m : Manifest}

-- Notes

/- Notes that are made or not, whatever was noted before. -/
def Noting (f : Diagnostics → Diagnostics) : Prop :=
  ∃ P : Prop, ∀ ds, f ds = ∅ ↔ ds = ∅ ∧ P

namespace Noting

variable {f g : Diagnostics → Diagnostics}

theorem id : Noting fun ds => ds :=
  ⟨True, fun ds => by simp⟩

theorem comp (hg : Noting g) (hf : Noting f) :
    Noting fun ds => g (f ds) := by
  rcases hg with ⟨Q, hQ⟩
  rcases hf with ⟨P, hP⟩
  refine ⟨P ∧ Q, ?_⟩
  intro ds
  rw [hQ, hP, and_assoc]

theorem note (session : Option ℕ) (code : String) :
    Noting fun ds => Usage.note ds session code :=
  ⟨False, fun ds => by simp [note_ne_empty]⟩

theorem incompleteOwner (owner : Owner m) :
    Noting fun ds => Usage.incompleteOwner ds owner :=
  ⟨owner = none, fun _ => incompleteOwner_eq_empty_iff⟩

theorem ite (p : Prop) [Decidable p] (hf : Noting f) :
    Noting fun ds => if p then f ds else ds := by
  by_cases hp : p
  · simpa [hp] using hf
  · simpa [hp] using id

theorem noteSubsets (t : Tokens) (source : m.Index) :
    Noting fun ds => Usage.noteSubsets ds t source :=
  ite _ (note _ _)

end Noting

-- The same books

/- The same charges, and both with notes or both without. -/
structure SameBooks (b b' : Books m) : Prop where
  buckets : b.buckets = b'.buckets
  ds : b.ds = ∅ ↔ b'.ds = ∅

variable {b b' : Books m}

theorem SameBooks.charge
    (hSame : SameBooks b b') (owner : Owner m)
    (provider : Provider) (model : String) (tokens : Tokens)
    (attempts : U64) :
    SameBooks (b.charge owner provider model tokens attempts)
      (b'.charge owner provider model tokens attempts) where
  buckets := by
    unfold Books.charge
    rw [hSame.buckets]
  ds := hSame.ds

theorem SameBooks.notes
    {f g : Diagnostics → Diagnostics} {P : Prop}
    (hSame : SameBooks b b') (hf : ∀ ds, f ds = ∅ ↔ ds = ∅ ∧ P)
    (hg : ∀ ds, g ds = ∅ ↔ ds = ∅ ∧ P) :
    SameBooks (b.noted f) (b'.noted g) where
  buckets := hSame.buckets
  ds := by
    change f b.ds = ∅ ↔ g b'.ds = ∅
    rw [hf, hg, hSame.ds]

theorem SameBooks.noted
    {f : Diagnostics → Diagnostics} (hSame : SameBooks b b') (hf : Noting f) :
    SameBooks (b.noted f) (b'.noted f) := by
  rcases hf with ⟨P, hP⟩
  exact hSame.notes hP hP

/- Which session a note is about does not matter here. -/
theorem uniqueNotes_eq_empty_iff
    {provider : Provider} {u : Identified m} {tokens : Tokens}
    (ds : Diagnostics) :
    Books.uniqueNotes provider u tokens ds = ∅ ↔
      ds = ∅ ∧ ¬ Books.conflictingPartitions tokens ∧
        (provider = .codex → ¬ invalidSubsets tokens) := by
  unfold Books.uniqueNotes noteSubsets
  by_cases hPartitions : Books.conflictingPartitions tokens
  · by_cases hCodex : provider = .codex
    · simp [hPartitions, hCodex, ite_note_eq_empty_iff,
        ite_incompleteOwner_eq_empty_iff,
        incompleteOwner_eq_empty_iff, note_ne_empty]
    · simp [hPartitions, hCodex, incompleteOwner_eq_empty_iff, note_ne_empty]
  · by_cases hCodex : provider = .codex
    · simp only [hPartitions, hCodex, if_true, Bool.false_eq_true, if_false,
        ite_note_eq_empty_iff, ite_incompleteOwner_eq_empty_iff]
      by_cases hInvalid : invalidSubsets tokens
      · simp [hInvalid]
      · simp [hInvalid]
    · simp [hPartitions, hCodex]

/- A response is charged by its numbers. -/
theorem SameBooks.addUnique
    {e e' : ResponseKey × Identified m} (hSame : SameBooks b b')
    (hEntry : (e.1, e.2.number) = (e'.1, e'.2.number)) :
    SameBooks (b.addUnique e) (b'.addUnique e') := by
  rcases e with ⟨k, u⟩
  rcases e' with ⟨k', u'⟩
  rcases Prod.mk.inj hEntry with ⟨hKey, hNumber⟩
  change k = k' at hKey
  subst hKey
  have hOwner : u.owner = u'.owner := congrArg Identified.Number.owner hNumber
  have hModel : u.model = u'.model := congrArg Identified.Number.model hNumber
  have hIncomplete : u.incomplete = u'.incomplete :=
    congrArg Identified.Number.incomplete hNumber
  have hTokens : u.tokens = u'.tokens :=
    congrArg Identified.Number.tokens hNumber
  unfold Books.addUnique
  dsimp only
  rw [hOwner, hModel, hIncomplete, hTokens]
  have hNoted := hSame.noted
    (Noting.ite (u'.incomplete = true) (Noting.incompleteOwner u'.owner))
  cases u'.tokens with
  | none => exact hNoted
  | some tokens =>
    exact (hNoted.notes uniqueNotes_eq_empty_iff
      uniqueNotes_eq_empty_iff).charge _ _ _ _ _

theorem SameBooks.addRemainder
    (hSame : SameBooks b b') (provider : Provider)
    (s : Snapshots m) (identified : Tokens) :
    SameBooks (b.addRemainder provider s identified)
      (b'.addRemainder provider s identified) := by
  unfold Books.addRemainder
  dsimp only
  have hNotes : ∀ code, Noting fun ds =>
      noteSubsets
        (incompleteOwner (note ds (some s.source) code) s.owner)
        (difference s.highwater identified) s.source :=
    fun code =>
      (Noting.noteSubsets _ s.source).comp
        ((Noting.incompleteOwner s.owner).comp (Noting.note _ code))
  split
  next =>
    have hNoted := hSame.noted (hNotes "inconsistent_cumulative_remainder")
    exact ⟨hNoted.buckets, hNoted.ds⟩
  next =>
    split
    next => exact (hSame.noted (hNotes _)).charge _ _ _ _ _
    next => exact hSame

theorem SameBooks.addFallback
    (hSame : SameBooks b b') (provider : Provider)
    (s : Snapshots m) (u : ModelUsage) :
    SameBooks (b.addFallback provider s u) (b'.addFallback provider s u) := by
  unfold Books.addFallback
  refine (hSame.noted ?_).charge _ _ _ _ _
  exact (Noting.noteSubsets u.tokens s.source).comp
    (Noting.ite _ (Noting.incompleteOwner s.owner))

theorem SameBooks.addSnapshots
    {totals totals' : OrderedMap GroupKey Tokens}
    {e : GroupKey × Snapshots m} (hSame : SameBooks b b')
    (hTotals : totals.get? e.1 = totals'.get? e.1) :
    SameBooks (b.addSnapshots totals e) (b'.addSnapshots totals' e) := by
  unfold Books.addSnapshots
  dsimp only
  rw [hTotals]
  cases totals'.get? e.1 with
  | some identified => exact hSame.addRemainder _ _ _
  | none =>
    dsimp only
    split
    next =>
      refine (hSame.noted ?_).charge _ _ _ _ _
      exact (Noting.noteSubsets _ e.2.source).comp
        ((Noting.incompleteOwner e.2.owner).comp (Noting.note _ _))
    next =>
      refine List.foldl_rel hSame ?_
      intro u _ c c' hHere
      exact hHere.addFallback _ _ u

-- Identified totals

/- The counters, or no tokens at all. -/
def spent (tokens : Option Tokens) : Spent :=
  tokens

theorem spent_injective : Function.Injective spent :=
  fun _ _ hSame => hSame

@[simp]
theorem spent_none : spent none = 0 :=
  rfl

@[simp]
theorem spent_some (t : Tokens) : spent (some t) = (t : Spent) :=
  rfl

def coveredResponse (c : CoverageKey) : ResponseKey :=
  toLex ((ofLex c).1, (ofLex (ofLex c).2).2)

def coveredGroup (c : CoverageKey) : GroupKey :=
  toLex ((ofLex c).1, (ofLex (ofLex c).2).1)

/- The counters of the response that is covered. -/
def coveredTokens (s : Pass m) (c : CoverageKey) : Spent :=
  spent ((s.unique.get? (coveredResponse c)).bind Identified.tokens)

def coverageOf (s : Pass m) (k : GroupKey) :
    OrderedMap CoverageKey Unit :=
  s.coverage.restrict fun c => coveredGroup c = k

theorem get?_foldl_totals
    (s : Pass m) (k : GroupKey) (entries : List (CoverageKey × Unit))
    (totals : OrderedMap GroupKey Tokens) :
    spent ((entries.foldl
      (fun totals e =>
        match (s.unique.get? (coveredResponse e.1)).bind
            Identified.tokens with
        | none => totals
        | some tokens =>
          totals.upsert (coveredGroup e.1) fun old =>
            old.getD 0 + tokens) totals).get? k) =
      spent (totals.get? k) +
        ((entries.filter fun e => coveredGroup e.1 = k).map
          fun e => coveredTokens s e.1).sum := by
  induction entries generalizing totals with
  | nil => simp
  | cons e rest ih =>
    rw [List.foldl_cons, ih]
    by_cases hGroup : coveredGroup e.1 = k
    · rw [List.filter_cons_of_pos (by simpa using hGroup),
        List.map_cons, List.sum_cons, ← add_assoc]
      congr 1
      unfold coveredTokens
      cases hTokens : (s.unique.get? (coveredResponse e.1)).bind
          Identified.tokens with
      | none => simp
      | some t =>
        rw [OrderedMap.get?_upsert, if_pos hGroup.symm, hGroup]
        cases totals.get? k with
        | none => simp
        | some old => simp
    · rw [List.filter_cons_of_neg (by simpa using hGroup)]
      congr 2
      cases (s.unique.get? (coveredResponse e.1)).bind
          Identified.tokens with
      | none => rfl
      | some t => rw [OrderedMap.get?_upsert, if_neg (Ne.symm hGroup)]

/- A group's total is the sum over its coverage. -/
theorem get?_identifiedTotals (s : Pass m) (k : GroupKey) :
    spent ((identifiedTotals s).get? k) =
      OrderedMap.sumOf (fun c _ => coveredTokens s c) (coverageOf s k) := by
  have hFold := get?_foldl_totals s k s.coverage.entries .empty
  rw [OrderedMap.get?_empty, spent_none, zero_add] at hFold
  exact hFold

-- Passes with the same numbers

/- What the books read from the pass. -/
structure Alike (s s' : Pass m) : Prop where
  ds : s.ds = ∅ ↔ s'.ds = ∅
  unique : ∀ k, (s.unique.get? k).map Identified.number =
    (s'.unique.get? k).map Identified.number
  snapshots : s.snapshots = s'.snapshots
  coverage : ∀ k, (s.snapshots.get? k).isSome →
    coverageOf s k = coverageOf s' k

variable {s s' : Pass m}

theorem Alike.coveredTokens_eq
    (hAlike : Alike s s') (c : CoverageKey) :
    coveredTokens s c = coveredTokens s' c := by
  have hTokens := congrArg
    (Option.bind · Identified.Number.tokens)
    (hAlike.unique (coveredResponse c))
  simp only [Option.bind_map] at hTokens
  exact congrArg spent hTokens

theorem Alike.totals_eq
    {k : GroupKey} (hAlike : Alike s s')
    (hSnapshot : (s.snapshots.get? k).isSome) :
    (identifiedTotals s).get? k = (identifiedTotals s').get? k := by
  apply spent_injective
  rw [get?_identifiedTotals, get?_identifiedTotals,
    hAlike.coverage k hSnapshot]
  unfold OrderedMap.sumOf
  simp only [hAlike.coveredTokens_eq]

theorem Alike.unique_entries
    (hAlike : Alike s s') :
    s.unique.entries.map (fun e => (e.1, e.2.number)) =
      s'.unique.entries.map fun e => (e.1, e.2.number) := by
  have hSame :
      s.unique.mapValues (fun _ => Identified.number) =
        s'.unique.mapValues fun _ => Identified.number := by
    apply OrderedMap.ext_get?
    intro k
    rw [OrderedMap.get?_mapValues, OrderedMap.get?_mapValues]
    exact hAlike.unique k
  exact congrArg OrderedMap.entries hSame

theorem books_same (hAlike : Alike s s') :
    SameBooks (books s) (books s') := by
  unfold books
  dsimp only
  rw [← hAlike.snapshots]
  apply List.foldl_rel
  · refine foldl_related ?_ hAlike.unique_entries ⟨rfl, hAlike.ds⟩
    intro b b' e e' hSame hEntry
    exact hSame.addUnique hEntry
  · intro e hMem b b' hSame
    apply hSame.addSnapshots
    apply hAlike.totals_eq
    rw [OrderedMap.get?_of_mem_entries hMem]
    rfl

-- The numbers of a report

/- Everything in a report that is a number, and its flag. -/
structure Numbers where
  total : Spent
  unattributed : Spent
  models : List ModelUsage
  direct : List Spent
  sessionModels : List (List ModelUsage)
  complete : Bool

def Report.numbers (r : Report) : Numbers where
  total := r.total
  unattributed := r.unattributed
  models := r.models
  direct := r.sessions.map SessionReport.direct
  sessionModels := r.sessions.map SessionReport.models
  complete := r.complete

theorem counted_ds_eq_empty_iff {c : Counted m}
    (sessions : List m.Index) :
    (sessions.foldl (Counted.next b) c).ds = ∅ ↔
      c.ds = ∅ ∧ ∀ i ∈ sessions, isMissing (b.direct i) = false := by
  induction sessions generalizing c with
  | nil => simp
  | cons i rest ih =>
    rw [List.foldl_cons, ih, List.forall_mem_cons, ← and_assoc]
    unfold Counted.next
    dsimp only
    rw [ite_note_eq_empty_iff, Bool.not_eq_true]

theorem rollUp_isSome (b : Books m) (complete : m.Index → Bool) :
    (rollUp b complete).isSome ↔
      ∀ i : m.Index, (ancestors m.parentIndex m.sessions.length
        (m.parentIndex i)).isSome := by
  have hFold : ∀ (sessions : List m.Index) (t : Totals m),
      (sessions.foldlM (Totals.climb b.direct) t).isSome ↔
        ∀ i ∈ sessions,
          (ancestors m.parentIndex m.sessions.length
            (m.parentIndex i)).isSome := by
    intro sessions
    induction sessions with
    | nil => simp
    | cons i rest ih =>
      intro t
      rw [List.foldlM_cons, List.forall_mem_cons]
      have hClimb : t.climb b.direct i =
          (ancestors m.parentIndex m.sessions.length
            (m.parentIndex i)).map fun above =>
            above.foldl (Totals.addTo (b.direct i) (t.complete i)) t := rfl
      rw [hClimb]
      cases ancestors m.parentIndex m.sessions.length
          (m.parentIndex i) with
      | none => simp
      | some above =>
        rw [Option.map_some, Option.bind_eq_bind, Option.bind_some, ih]
        simp
  unfold rollUp
  rw [hFold]
  exact ⟨fun hAll i => hAll i (List.mem_finRange i), fun hAll i _ => hAll i⟩

theorem reportOf_numbers
    (hSame : SameBooks b b')
    (first last first' last' : Owner m → Option String) (t t' : Totals m) :
    (reportOf b first last t).numbers =
      (reportOf b' first' last' t').numbers := by
  have hDirect : b.direct = b'.direct := by
    unfold Books.direct
    rw [hSame.buckets]
  have hAll : b.allModels = b'.allModels := by
    unfold Books.allModels
    rw [hSame.buckets]
  have hUnattributed : b.unattributed = b'.unattributed := by
    unfold Books.unattributed
    rw [hAll, hDirect, hSame.buckets]
  have hComplete :
      identityNotes m (counted b).ds = ∅ ↔
        identityNotes m (counted b').ds = ∅ := by
    unfold identityNotes counted
    rw [ite_note_eq_empty_iff, ite_note_eq_empty_iff,
      counted_ds_eq_empty_iff, counted_ds_eq_empty_iff, hDirect, hSame.ds]
  unfold Report.numbers reportOf
  simp only [List.map_map, hAll, hUnattributed, hComplete]
  congr 1
  · apply List.map_congr_left
    intro i _
    exact congrFun hDirect i
  · apply List.map_congr_left
    intro i _
    change (b.buckets (some i)).values = _
    rw [hSame.buckets]
    rfl

/- The report has the same numbers, if there is one. -/
theorem assemble_numbers
    (hSame : SameBooks b b')
    (first last first' last' : Owner m → Option String) :
    (assemble b first last).map Report.numbers =
      (assemble b' first' last').map Report.numbers := by
  unfold assemble
  have hLeft := rollUp_isSome b (counted b).complete
  have hRight := rollUp_isSome b' (counted b').complete
  rw [← hRight] at hLeft
  cases hRoll : rollUp b (counted b).complete with
  | none =>
    rw [hRoll, iff_comm] at hLeft
    cases hRoll' : rollUp b' (counted b').complete with
    | none => rfl
    | some t' => simp [hRoll'] at hLeft
  | some t =>
    rw [hRoll] at hLeft
    rcases Option.isSome_iff_exists.1 (hLeft.1 rfl) with ⟨t', hRoll'⟩
    rw [hRoll']
    exact congrArg some (reportOf_numbers hSame first last first' last' t t')

end Usage
