import Amplihack.Usage.Booked
import Amplihack.Usage.Conservation

/-
  Reports do not depend on the order of the observations, nor
  on how often a response was copied and where; and a
  response is counted once.
-/

-- Interchangeable observations

namespace Usage

open Base

variable {m : Manifest}
variable {l l' l'' : List (Observation m)}
variable {ds : Diagnostics}

/- Readings of a session's counters are among them. -/
def HasCounter (l : List (Observation m)) (k : GroupKey) :
    Prop :=
  countersOf k l ≠ []

/- The same evidence of each response and each session. -/
structure Interchangeable (l l' : List (Observation m)) : Prop
where
  quiet : (∀ o ∈ l, o.Quiet) ↔ ∀ o ∈ l', o.Quiet
  copies : ∀ k, Identified.SameCopies (copiesOf k l) (copiesOf k l')
  counters : ∀ k, countersOf k l = countersOf k l'
  covers : ∀ c, HasCounter l (coveredGroup c) →
    ((∃ o ∈ l, o.covers = some c) ↔ ∃ o ∈ l', o.covers = some c)

namespace Interchangeable

theorem refl (l : List (Observation m)) :
    Interchangeable l l where
  quiet := Iff.rfl
  copies _ _ := Iff.rfl
  counters _ := rfl
  covers _ _ := Iff.rfl

theorem trans
    (hLeft : Interchangeable l l') (hRight : Interchangeable l' l'') :
    Interchangeable l l'' where
  quiet := hLeft.quiet.trans hRight.quiet
  copies k c := (hLeft.copies k c).trans (hRight.copies k c)
  counters k := (hLeft.counters k).trans (hRight.counters k)
  covers c hCounter := by
    refine (hLeft.covers c hCounter).trans (hRight.covers c ?_)
    unfold HasCounter at hCounter ⊢
    rw [← hLeft.counters]
    exact hCounter

end Interchangeable

theorem agreeing_of_sameCopies
    {copies copies' : List (Identified m)}
    (hSame : Identified.SameCopies copies copies') :
    Agreeing copies ↔ Agreeing copies' := by
  unfold Agreeing
  rw [Identified.natives_eq_of_sameCopies hSame,
    Identified.models_eq_of_sameCopies hSame]

theorem advanceAll_isSome (counters : List (Counter m)) :
    (advanceAll counters).isSome ↔ counters ≠ [] := by
  rcases List.eq_nil_or_concat counters with
    rfl | ⟨init, c, rfl⟩
  · simp [advanceAll]
  · rw [List.concat_eq_append, advanceAll_append]
    simp

theorem mergeAll_isSome (copies : List (Identified m)) :
    (Identified.mergeAll copies).isSome ↔ ∃ c, c ∈ copies := by
  rcases List.eq_nil_or_concat copies with
    rfl | ⟨init, c, rfl⟩
  · simp [Identified.mergeAll]
  · rw [List.concat_eq_append, Identified.mergeAll_append]
    simp only [Option.isSome_some, true_iff]
    exact ⟨c, by simp⟩

/- The same evidence gives the books the same numbers. -/
theorem alike_of_interchangeable
    (hSame : Interchangeable l l') :
    Alike (gather m l ds) (gather m l' ds) where
  ds := by
    rw [gather_ds_eq_empty_iff, gather_ds_eq_empty_iff]
    have hAgreeing : (∀ k, Agreeing (copiesOf k l)) ↔
        ∀ k, Agreeing (copiesOf k l') :=
      forall_congr' fun k =>
        agreeing_of_sameCopies (hSame.copies k)
    have hSteady : (∀ k, Steady none (countersOf k l)) ↔
        ∀ k, Steady none (countersOf k l') := by simp only [hSame.counters]
    constructor
    · rintro ⟨hEmpty, hQuiet, hAgree, hStead⟩
      exact ⟨hEmpty, hSame.quiet.1 hQuiet,
        hAgreeing.1 hAgree, hSteady.1 hStead⟩
    · rintro ⟨hEmpty, hQuiet, hAgree, hStead⟩
      exact ⟨hEmpty, hSame.quiet.2 hQuiet,
        hAgreeing.2 hAgree, hSteady.2 hStead⟩
  unique := by
    intro k
    have hThere :
        ((gather m l ds).unique.get? k).isSome ↔
          ((gather m l' ds).unique.get? k).isSome := by
      rw [gather_unique, gather_unique, mergeAll_isSome, mergeAll_isSome]
      have hSome := (hSame.copies k).exists_iff fun _ => True
      simpa using hSome
    cases hLeft : (gather m l ds).unique.get? k with
    | none =>
      cases hRight : (gather m l' ds).unique.get? k with
      | none => rfl
      | some y =>
        rw [hLeft, hRight] at hThere
        cases hThere.2 rfl
    | some x =>
      cases hRight : (gather m l' ds).unique.get? k with
      | none =>
        rw [hLeft, hRight] at hThere
        cases hThere.1 rfl
      | some y =>
        exact congrArg some
          (Identified.number_eq (hSame.copies k)
            (gather_mergedFrom hLeft)
            (gather_mergedFrom hRight))
  snapshots := by
    apply OrderedMap.ext_get?
    intro k
    rw [gather_snapshots, gather_snapshots, hSame.counters]
  coverage := by
    intro k hSnapshot
    rw [gather_snapshots, advanceAll_isSome] at hSnapshot
    apply OrderedMap.ext_get?
    intro c
    unfold coverageOf
    rw [OrderedMap.get?_restrict, OrderedMap.get?_restrict]
    by_cases hGroup : coveredGroup c = k
    · simp only [hGroup, decide_true, if_true]
      have hCovers := hSame.covers c (by rw [hGroup]; exact hSnapshot)
      rw [← gather_coverage ds, ← gather_coverage ds] at hCovers
      cases hLeft : (gather m l ds).coverage.get? c with
      | none =>
        cases hRight : (gather m l' ds).coverage.get? c with
        | none => rfl
        | some _ =>
          rw [hLeft, hRight] at hCovers
          cases hCovers.2 rfl
      | some _ => exact (hCovers.1 hLeft).symm
    · simp [hGroup]

-- Rearrangements

namespace Observation

/- It reads the counters that are kept under `k`. -/
def Reads (o : Observation m) (k : GroupKey) : Prop :=
  ∃ c, o.counter = some (k, c)

/- A cumulative observation of the native session `k`. -/
def inGroup (k : GroupKey) (o : Observation m) : Bool :=
  match o.event with
  | .usage u =>
    u.cumulative &&
      (u.nativeSession.map fun id => toLex (o.provider, id)) = some k
  | _ => false

def native (o : Observation m) : Option String :=
  match o.event with
  | .usage u => u.nativeSession
  | _ => none

/- The record is found in a file of another session. -/
def under (o : Observation m) (i : m.Index) : Observation m :=
  { o with session := i }

variable {o : Observation m}

theorem inGroup_of_reads
    {k : GroupKey} {c : Counter m} (hCounter : o.counter = some (k, c)) :
    o.inGroup k = true := by
  unfold counter at hCounter
  unfold inGroup
  split at hCounter
  next u hEvent =>
    split at hCounter
    next hCumulative =>
      rcases Option.bind_eq_some_iff.1 hCounter with ⟨id, hNative, hTokens⟩
      rcases Option.map_eq_some_iff.1 hTokens with ⟨tokens, -, hSame⟩
      cases hSame
      simp [hEvent, hCumulative, hNative]
    next => cases hCounter
  next => cases hCounter

theorem counter_eq_none (hResponse : o.response.isSome) :
    o.counter = none := by
  unfold response at hResponse
  unfold counter
  split
  next u hEvent =>
    rw [hEvent] at hResponse
    split
    next hCumulative =>
      simp [hCumulative] at hResponse
    next => rfl
  next => rfl

end Observation

/- Copies under a session whose placeholder no session has. -/
def Uncovered
    (l : List (Observation m)) (o : Observation m) (i : m.Index) :
    Prop :=
  o.native = none → ∀ o' ∈ l, ¬ o'.Reads (toLex (o.provider, placeholder i))

/-
  Observations in another order, or with an identified one
  repeated or copied. The order of a session's cumulative
  observations is kept.
-/
inductive Rearranged
    (allowed : List (Observation m) → Observation m → m.Index → Prop) :
    List (Observation m) → List (Observation m) → Prop
where
| reorder {l l' : List (Observation m)}
    (hPerm : l.Perm l')
    (hOrder : ∀ k,
      l.filter (Observation.inGroup k) =
        l'.filter (Observation.inGroup k)) :
    Rearranged allowed l l'
| again {l₁ l₂ : List (Observation m)} {o : Observation m}
    (hMem : o ∈ l₁ ++ l₂)
    (hResponse : o.response.isSome) :
    Rearranged allowed (l₁ ++ l₂) (l₁ ++ o :: l₂)
| copy {l₁ l₂ : List (Observation m)} {o : Observation m}
    (i : m.Index)
    (hMem : o ∈ l₁ ++ l₂)
    (hResponse : o.response.isSome)
    (hProvider : (m.session i).provider = o.provider)
    (hAllowed : allowed (l₁ ++ l₂) o i) :
    Rearranged allowed (l₁ ++ l₂) (l₁ ++ o.under i :: l₂)

/- Only the observations of a group count for its counters. -/
theorem countersOf_filter (k : GroupKey) :
    countersOf k (l.filter (Observation.inGroup k)) = countersOf k l := by
  unfold countersOf underKey
  rw [List.filterMap_filter]
  apply List.filterMap_congr
  intro o _
  by_cases hGroup : o.inGroup k
  · rw [if_pos hGroup]
  · rw [if_neg hGroup]
    cases hCounter : o.counter with
    | none => rfl
    | some e =>
      rcases e with ⟨k', c⟩
      rw [Option.bind_some, eq_comm]
      apply if_neg
      intro hKey
      change k' = k at hKey
      subst hKey
      exact hGroup (Observation.inGroup_of_reads hCounter)

theorem interchangeable_of_perm
    (hPerm : l.Perm l')
    (hOrder : ∀ k,
      l.filter (Observation.inGroup k) =
        l'.filter (Observation.inGroup k)) :
    Interchangeable l l' where
  quiet := by simp only [hPerm.mem_iff]
  copies := by
    intro k c
    unfold copiesOf
    simp only [mem_underKey, hPerm.mem_iff]
  counters := by
    intro k
    rw [← countersOf_filter, hOrder, countersOf_filter]
  covers := by
    intro c _
    simp only [hPerm.mem_iff]

/- An observation that adds no evidence may be put anywhere. -/
theorem interchangeable_insert
    {l₁ l₂ : List (Observation m)} {o : Observation m}
    (hQuiet : (∀ o ∈ l₁ ++ l₂, o.Quiet) → o.Quiet)
    (hCopies : ∀ k c, o.response = some (k, c) →
      ∃ o' ∈ l₁ ++ l₂, ∃ c', o'.response = some (k, c') ∧
        c'.content = c.content)
    (hCounter : o.counter = none)
    (hCovers : ∀ c, HasCounter (l₁ ++ l₂) (coveredGroup c) →
      o.covers = some c → ∃ o' ∈ l₁ ++ l₂, o'.covers = some c) :
    Interchangeable (l₁ ++ l₂) (l₁ ++ o :: l₂) := by
  have hMem : ∀ o', o' ∈ l₁ ++ o :: l₂ ↔ o' = o ∨ o' ∈ l₁ ++ l₂ := by
    intro o'
    simp only [List.mem_append, List.mem_cons]
    tauto
  exact
    { quiet := by
        constructor
        · intro hAll o' hIn
          rcases (hMem o').1 hIn with rfl | hOld
          · exact hQuiet hAll
          · exact hAll o' hOld
        · intro hAll o' hIn
          exact hAll o' ((hMem o').2 (.inr hIn))
      copies := by
        intro k content
        unfold copiesOf
        simp only [mem_underKey, hMem]
        constructor
        · rintro ⟨c, ⟨o', hIn, hResponse⟩, hContent⟩
          exact ⟨c, ⟨o', .inr hIn, hResponse⟩, hContent⟩
        · rintro ⟨c, ⟨o', rfl | hIn, hResponse⟩, hContent⟩
          · rcases hCopies k c hResponse with
              ⟨o'', hOld, c', hOther, hSame⟩
            exact ⟨c', ⟨o'', hOld, hOther⟩, hSame.trans hContent⟩
          · exact ⟨c, ⟨o', hIn, hResponse⟩, hContent⟩
      counters := by
        intro k
        unfold countersOf underKey
        rw [List.filterMap_append, List.filterMap_append,
          List.filterMap_cons, hCounter]
        rfl
      covers := by
        intro c hHas
        simp only [hMem]
        constructor
        · rintro ⟨o', hIn, hCover⟩
          exact ⟨o', .inr hIn, hCover⟩
        · rintro ⟨o', rfl | hIn, hCover⟩
          · exact hCovers c hHas hCover
          · exact ⟨o', hIn, hCover⟩ }

section Copy

variable {o : Observation m}
variable {i : m.Index}

theorem under_owner
    (hProvider : (m.session i).provider = o.provider) (u : UsageRecord) :
    (o.under i).owner u = o.owner u := by
  unfold Observation.owner
  exact congrArg (m.owner · u.nativeSession) hProvider

theorem under_isIncomplete
    (hProvider : (m.session i).provider = o.provider) (u : UsageRecord) :
    (o.under i).isIncomplete u = o.isIncomplete u := by
  have hSame : (o.under i).provider = o.provider := hProvider
  unfold Observation.isIncomplete
  rw [hSame]
  rfl

theorem under_quiet
    (hProvider : (m.session i).provider = o.provider) (hQuiet : o.Quiet) :
    (o.under i).Quiet := by
  intro u hEvent
  rw [under_owner hProvider, under_isIncomplete hProvider]
  exact hQuiet u hEvent

theorem under_response
    (hProvider : (m.session i).provider = o.provider)
    {k : ResponseKey} {c : Identified m}
    (hResponse : (o.under i).response = some (k, c)) :
    ∃ c', o.response = some (k, c') ∧ c'.content = c.content := by
  have hSame : (o.under i).provider = o.provider := hProvider
  have hEventSame : (o.under i).event = o.event := rfl
  unfold Observation.response at hResponse ⊢
  rw [hEventSame] at hResponse
  cases hEvent : o.event with
  | model => simp [hEvent] at hResponse
  | nativeSession => simp [hEvent] at hResponse
  | usage u =>
    simp only [hEvent] at hResponse ⊢
    split at hResponse
    next => cases hResponse
    next hSingle =>
      rcases Option.map_eq_some_iff.1 hResponse with ⟨key, hKey, hPair⟩
      rcases Prod.mk.inj hPair with ⟨hk, hc⟩
      refine ⟨o.identified u, ?_, ?_⟩
      · rw [if_neg hSingle, hKey, ← hk, hSame]
        rfl
      · rw [← hc]
        unfold Identified.content Observation.identified
        dsimp only
        rw [under_isIncomplete hProvider]

theorem response_under (hResponse : o.response.isSome) :
    (o.under i).response.isSome := by
  have hEventSame : (o.under i).event = o.event := rfl
  unfold Observation.response at hResponse ⊢
  rw [hEventSame]
  cases hEvent : o.event with
  | model => simp [hEvent] at hResponse
  | nativeSession => simp [hEvent] at hResponse
  | usage u =>
    simp only [hEvent] at hResponse ⊢
    split
    next hCumulative => simp [hCumulative] at hResponse
    next hSingle =>
      rw [if_neg hSingle, Option.isSome_map] at hResponse
      rw [Option.isSome_map]
      exact hResponse

/- The coverage is the same, or is of the new placeholder. -/
theorem under_covers
    (hProvider : (m.session i).provider = o.provider)
    {c : CoverageKey} (hCovers : (o.under i).covers = some c) :
    o.covers = some c ∨
      o.native = none ∧
        coveredGroup c = toLex (o.provider, placeholder i) := by
  have hSame : (o.under i).provider = o.provider := hProvider
  have hEventSame : (o.under i).event = o.event := rfl
  unfold Observation.covers at hCovers ⊢
  unfold Observation.native
  rw [hEventSame] at hCovers
  cases hEvent : o.event with
  | model => simp [hEvent] at hCovers
  | nativeSession => simp [hEvent] at hCovers
  | usage u =>
    simp only [hEvent] at hCovers ⊢
    split at hCovers
    next => cases hCovers
    next hSingle =>
      rcases Option.map_eq_some_iff.1 hCovers with ⟨key, hKey, rfl⟩
      rw [if_neg hSingle, hKey, hSame]
      cases hNative : u.nativeSession with
      | none =>
        right
        unfold coveredGroup Observation.group
        rw [hNative]
        exact ⟨rfl, rfl⟩
      | some id =>
        left
        unfold Observation.group
        rw [hNative]
        rfl

end Copy

theorem hasCounter_iff {k : GroupKey} :
    HasCounter l k ↔ ∃ o ∈ l, o.Reads k := by
  constructor
  · intro hSome
    rcases List.exists_mem_of_ne_nil _ hSome with ⟨c, hMem⟩
    rcases mem_underKey.1 hMem with ⟨o, hIn, hCounter⟩
    exact ⟨o, hIn, c, hCounter⟩
  · rintro ⟨o, hIn, c, hCounter⟩
    exact List.ne_nil_of_mem (mem_underKey.2 ⟨o, hIn, hCounter⟩)

theorem interchangeable_of_rearranged
    (hStep : Rearranged Uncovered l l') :
    Interchangeable l l' := by
  cases hStep with
  | reorder hPerm hOrder => exact interchangeable_of_perm hPerm hOrder
  | again hMem hResponse =>
    rename_i l₁ l₂ o
    refine interchangeable_insert (fun hAll => hAll o hMem) ?_
      (Observation.counter_eq_none hResponse) ?_
    · intro k c hCopy
      exact ⟨o, hMem, c, hCopy, rfl⟩
    · intro c _ hCovers
      exact ⟨o, hMem, hCovers⟩
  | copy i hMem hResponse hProvider hAllowed =>
    rename_i l₁ l₂ o
    refine interchangeable_insert ?_ ?_
      (Observation.counter_eq_none (response_under hResponse))
      ?_
    · intro hAll
      exact under_quiet hProvider (hAll o hMem)
    · intro k c hCopy
      rcases under_response hProvider hCopy with ⟨c', hOther, hContent⟩
      exact ⟨o, hMem, c', hOther, hContent⟩
    · intro c hHas hCovers
      rcases under_covers hProvider hCovers with
        hOld | ⟨hNative, hGroup⟩
      · exact ⟨o, hMem, hOld⟩
      · rw [hGroup, hasCounter_iff] at hHas
        rcases hHas with ⟨o', hIn, hReads⟩
        exact absurd hReads (hAllowed hNative o' hIn)

theorem interchangeable_of_run
    (hRun : Relation.ReflTransGen (Rearranged Uncovered) l l') :
    Interchangeable l l' := by
  induction hRun with
  | refl => exact .refl l
  | tail _ hLast ih => exact ih.trans (interchangeable_of_rearranged hLast)

-- Once each

/- What a response is charged. -/
def responseTokens (e : ResponseKey × Identified m) : Spent :=
  match e.2.tokens with
  | none => 0
  | some tokens =>
    let charged :=
      if (ofLex e.1).1 = .codex then disjoint tokens else tokens
    (charged : Spent)

/- What is charged for a session's cumulative counters. -/
def counterTokens
    (totals : OrderedMap GroupKey Tokens) (e : GroupKey × Snapshots m) :
    Spent :=
  match totals.get? e.1 with
  | some identified =>
    let remainder := difference e.2.highwater identified
    if invalidSubsets remainder then 0
    else if 0 < remainder.total then (disjoint remainder : Spent)
    else 0
  | none =>
    if e.2.ambiguousSubsets &&
        1 < e.2.fallback.entries.length then
      (disjoint e.2.highwater : Spent)
    else
      (e.2.fallback.values.map fun u =>
        (disjoint u.tokens : Spent)).sum

/- `x` if the tokens are the owner's. -/
def ofOwner (owner owner' : Owner m) (x : Spent) : Spent :=
  if owner' = owner then x else 0

theorem sum_charge
    (b : Books m) (owner owner' : Owner m) (provider : Provider)
    (model : String) (tokens : Tokens) (attempts : U64) :
    sum ((b.charge owner' provider model tokens attempts).buckets owner) =
      sum (b.buckets owner) + ofOwner owner owner' tokens := by
  unfold Books.charge ofOwner
  by_cases hOwner : owner' = owner
  · subst hOwner
    simp
  · simp [hOwner, Ne.symm hOwner]

theorem sum_addUnique
    (b : Books m) (owner : Owner m) (e : ResponseKey × Identified m) :
    sum ((b.addUnique e).buckets owner) =
      sum (b.buckets owner) +
        ofOwner owner e.2.owner (responseTokens e) := by
  unfold Books.addUnique responseTokens
  dsimp only
  cases e.2.tokens with
  | none => simp [ofOwner, Books.noted]
  | some tokens => exact sum_charge _ _ _ _ _ _ _

theorem sum_addFallbacks
    (provider : Provider) (s : Snapshots m) (owner : Owner m)
    (rows : List ModelUsage) (b : Books m) :
    sum ((rows.foldl (fun b u => b.addFallback provider s u)
        b).buckets owner) =
      sum (b.buckets owner) +
        ofOwner owner s.owner
          (rows.map fun u => (disjoint u.tokens : Spent)).sum := by
  induction rows generalizing b with
  | nil => simp [ofOwner]
  | cons u rest ih =>
    rw [List.foldl_cons, ih]
    unfold Books.addFallback
    rw [sum_charge, List.map_cons, List.sum_cons, add_assoc]
    congr 1
    unfold ofOwner
    split
    · rfl
    · simp

theorem sum_addSnapshots
    (totals : OrderedMap GroupKey Tokens) (b : Books m)
    (owner : Owner m) (e : GroupKey × Snapshots m) :
    sum ((b.addSnapshots totals e).buckets owner) =
      sum (b.buckets owner) +
        ofOwner owner e.2.owner (counterTokens totals e) := by
  unfold Books.addSnapshots counterTokens
  dsimp only
  cases totals.get? e.1 with
  | none =>
    dsimp only
    split
    · rw [sum_charge]
      rfl
    · exact sum_addFallbacks _ _ _ _ _
  | some identified =>
    unfold Books.addRemainder
    dsimp only
    split
    · simp [ofOwner]
    · split
      · rw [sum_charge]
        rfl
      · simp [ofOwner]

theorem sum_foldl_charges
    {α : Type} {f : Books m → α → Books m} {charged : α → Spent}
    {owner : Owner m}
    (hStep : ∀ b e, sum ((f b e).buckets owner) =
      sum (b.buckets owner) + charged e)
    (l : List α)
    (b : Books m) :
    sum ((l.foldl f b).buckets owner) =
      sum (b.buckets owner) + (l.map charged).sum := by
  induction l generalizing b with
  | nil => simp
  | cons e rest ih =>
    rw [List.foldl_cons, ih, hStep, List.map_cons, List.sum_cons, add_assoc]

/- Each response and each session's counters count once. -/
theorem sum_bucket (s : Pass m) (owner : Owner m) :
    sum ((books s).buckets owner) =
      (s.unique.entries.map fun e =>
        ofOwner owner e.2.owner (responseTokens e)).sum +
      (s.snapshots.entries.map fun e =>
        ofOwner owner e.2.owner
          (counterTokens (identifiedTotals s) e)).sum := by
  unfold books
  dsimp only
  rw [sum_foldl_charges (sum_addSnapshots _ · owner),
    sum_foldl_charges (sum_addUnique · owner)]
  simp

/- The counters that some copy of the response shows. -/
def seenTokens (k : ResponseKey) (l : List (Observation m)) :
    Set Tokens :=
  fun t => ∃ o ∈ l, ∃ c, o.response = some (k, c) ∧ c.tokens = some t

/- The componentwise maximum, or none where none are seen. -/
def HasHighest (seen : Set Tokens) : Option Tokens → Prop
| none => ∀ t, ¬ seen t
| some t => (∃ s, seen s) ∧ IsLUB seen t

/- One charge for each response, with its highest counters. -/
structure CountsOnce
    (m : Manifest) (l : List (Observation m)) (ds : Diagnostics)
    (responses : List (ResponseKey × Identified m)) :
    Prop where
  distinct : (responses.map Prod.fst).Nodup
  keys : ∀ k, k ∈ responses.map Prod.fst ↔
    ∃ o ∈ l, ∃ c, o.response = some (k, c)
  highest : ∀ k x, (k, x) ∈ responses → HasHighest (seenTokens k l) x.tokens
  charged : ∀ owner,
    sum ((books (gather m l ds)).buckets owner) =
      (responses.map fun e =>
        ofOwner owner e.2.owner (responseTokens e)).sum +
      ((gather m l ds).snapshots.entries.map fun e =>
        ofOwner owner e.2.owner
          (counterTokens (identifiedTotals (gather m l ds)) e)).sum

theorem hasHighest_of_mergedFrom
    {own : String → Owner m} {k : ResponseKey} {x : Identified m}
    (hMerged : Identified.MergedFrom own (copiesOf k l) x) :
    HasHighest (seenTokens k l) x.tokens := by
  have hSeen : Identified.shown (copiesOf k l) = seenTokens k l := by
    funext t
    apply propext
    unfold Identified.shown seenTokens copiesOf
    simp only [mem_underKey]
    constructor
    · rintro ⟨c, ⟨o, hIn, hResponse⟩, hTokens⟩
      exact ⟨o, hIn, c, hResponse, hTokens⟩
    · rintro ⟨o, hIn, c, hResponse, hTokens⟩
      exact ⟨c, ⟨o, hIn, hResponse⟩, hTokens⟩
  rw [hMerged.tokens, ← hSeen]
  rcases Identified.highest_spec (copiesOf k l) with
    ⟨hNone, hEmpty⟩ | ⟨t, hSome, hAny, hLub⟩
  · rw [hNone]
    exact hEmpty
  · rw [hSome]
    exact ⟨hAny, hLub⟩

theorem countsOnce
    (l : List (Observation m)) (ds : Diagnostics) :
    CountsOnce m l ds (gather m l ds).unique.entries where
  distinct := OrderedMap.nodupKeys _
  keys := by
    intro k
    have hThere : k ∈ (gather m l ds).unique.entries.map Prod.fst ↔
        ((gather m l ds).unique.get? k).isSome := by
      constructor
      · intro hMem
        rcases List.mem_map.1 hMem with ⟨⟨k', x⟩, hIn, rfl⟩
        rw [OrderedMap.get?_of_mem_entries hIn]
        rfl
      · intro hSome
        rcases Option.isSome_iff_exists.1 hSome with ⟨x, hGet⟩
        exact List.mem_map_of_mem (OrderedMap.mem_entries_of_get? hGet)
    rw [hThere, gather_unique, mergeAll_isSome]
    unfold copiesOf
    simp only [mem_underKey]
    exact exists_comm.trans (by simp)
  highest := by
    intro k x hMem
    exact hasHighest_of_mergedFrom
      (gather_mergedFrom (OrderedMap.get?_of_mem_entries hMem))
  charged := sum_bucket _

/-
  Reordering, repeating and copying leave every number of the
  report, and each response is charged once, with the highest
  counters seen for it.
-/
theorem usage_order_free
    (m : Manifest) (l l' : List (Observation m)) (ds : Diagnostics)
    (hRun : Relation.ReflTransGen (Rearranged Uncovered) l l') :
    (aggregate m l ds).map Report.numbers =
        (aggregate m l' ds).map Report.numbers ∧
      unattributedBucket m l ds = unattributedBucket m l' ds ∧
      ∃ responses, CountsOnce m l ds responses := by
  have hSame : SameBooks (books (gather m l ds)) (books (gather m l' ds)) :=
    books_same (alike_of_interchangeable (interchangeable_of_run hRun))
  refine ⟨assemble_numbers hSame _ _ _ _, ?_, _, countsOnce l ds⟩
  unfold unattributedBucket
  rw [hSame.buckets]

theorem usage_order_free_of_repeated :
    (aggregate parentAndChild [helperUse] ∅).map Report.numbers =
      (aggregate parentAndChild [helperUse, helperUse] ∅).map
        Report.numbers := by
  have hRepeat : Rearranged Uncovered ([helperUse] ++ [])
      ([helperUse] ++ helperUse :: []) :=
    .again (by simp) rfl
  have hAgain : Rearranged Uncovered [helperUse] [helperUse, helperUse] :=
    hRepeat
  exact (usage_order_free parentAndChild [helperUse]
    [helperUse, helperUse] ∅
    (Relation.ReflTransGen.single hAgain)).1

-- A session named like a placeholder

def codexSession (id : String) : Session where
  id := id
  provider := .codex
  runId := none
  parent := none
  complete := true
  files := []

def placeholderSession : Manifest where
  version := 1
  workstream := none
  repository := none
  branch := none
  prs := []
  completed := false
  sessions :=
    [codexSession "unidentified-source-1", codexSession "other"]

def inputOnly (n : ℕ) : Tokens :=
  { (0 : Tokens) with input := .ofNat _ n }

def codexUse
    (key native : Option String) (input : ℕ) :
    Observation placeholderSession where
  session := ⟨0, by decide⟩
  timestamp := none
  event :=
    .usage
      { key := key
        nativeSession := native
        model := some "model"
        tokens := some (inputOnly input)
        cumulative := key.isNone }
  incomplete := false

/- A session's counter, and a response of no session. -/
def counterAndResponse : List (Observation placeholderSession) :=
  [codexUse none (some "unidentified-source-1") 100,
    codexUse (some "response") none 40]

def copiedResponse : List (Observation placeholderSession) :=
  counterAndResponse ++
    [(codexUse (some "response") none 40).under ⟨1, by decide⟩]

def Numbers.input (n : Numbers) : ℕ :=
  match n.total with
  | none => 0
  | some t => t.input.val

/- The copy is taken for a part of the session's counter. -/
theorem copied_response_covers :
    Rearranged (fun _ _ _ => True) counterAndResponse copiedResponse ∧
      (aggregate placeholderSession counterAndResponse ∅).map
          Report.numbers ≠
        (aggregate placeholderSession copiedResponse ∅).map
          Report.numbers := by
  constructor
  · have hCopy : Rearranged (fun _ _ _ => True)
        (counterAndResponse ++ []) copiedResponse :=
      .copy ⟨1, by decide⟩ (by simp [counterAndResponse]) rfl
        rfl trivial
    exact hCopy
  · intro hSame
    have hInput := congrArg (Option.map Numbers.input) hSame
    exact absurd hInput (by decide)

end Usage
