import Amplihack.Usage.Copies

/-
  What the pass has gathered under a key is what the
  observations of that key come to.
-/

-- Observations by key

namespace Usage

open Base

variable {m : Manifest}

/- A reading of the cumulative counters of a session. -/
structure Counter (m : Manifest) where
  owner : Owner m
  source : m.Index
  provider : Provider
  model : String
  tokens : Tokens

namespace Observation

/- The identified response that it is a copy of. -/
def response (o : Observation m) :
    Option (ResponseKey × Identified m) :=
  match o.event with
  | .usage u =>
    if u.cumulative then none
    else u.key.map fun key =>
      (toLex (o.provider, key), o.identified u)
  | _ => none

def covers (o : Observation m) : Option CoverageKey :=
  match o.event with
  | .usage u =>
    if u.cumulative then none
    else u.key.map fun key =>
      toLex (o.provider, toLex (o.group u, key))
  | _ => none

/- The counters that it reads, of a session that it names. -/
def counter (o : Observation m) :
    Option (GroupKey × Counter m) :=
  match o.event with
  | .usage u =>
    if u.cumulative then
      u.nativeSession.bind fun id =>
        u.tokens.map fun tokens =>
          (toLex (o.provider, id),
            { owner := o.owner u
              source := o.session
              provider := o.provider
              model := u.model.getD unknown
              tokens := tokens })
    else none
  | _ => none

end Observation

def underKey
    {κ ν : Type} [DecidableEq κ] (f : Observation m → Option (κ × ν)) (k : κ)
    (l : List (Observation m)) :
    List ν :=
  l.filterMap fun o =>
    (f o).bind fun e => if e.1 = k then some e.2 else none

def copiesOf (k : ResponseKey) (l : List (Observation m)) :
    List (Identified m) :=
  underKey Observation.response k l

def countersOf (k : GroupKey) (l : List (Observation m)) :
    List (Counter m) :=
  underKey Observation.counter k l

variable {κ ν : Type} {f : Observation m → Option (κ × ν)}

theorem underKey_append
    [DecidableEq κ] {k : κ} {l : List (Observation m)} {o : Observation m} :
    underKey f k (l ++ [o]) =
      underKey f k l ++
        ((f o).bind fun e =>
          if e.1 = k then some e.2 else none).toList := by
  unfold underKey
  rw [List.filterMap_append]
  rfl

theorem mem_underKey
    [DecidableEq κ] {k : κ} {v : ν} {l : List (Observation m)} :
    v ∈ underKey f k l ↔ ∃ o ∈ l, f o = some (k, v) := by
  unfold underKey
  rw [List.mem_filterMap]
  constructor
  · rintro ⟨o, hMem, hEntry⟩
    rcases Option.bind_eq_some_iff.1 hEntry with ⟨⟨k', v'⟩, hSome, hKey⟩
    split at hKey
    next hSame =>
      rw [← Option.some.inj hKey, ← hSame]
      exact ⟨o, hMem, hSome⟩
    next => cases hKey
  · rintro ⟨o, hMem, hSome⟩
    refine ⟨o, hMem, ?_⟩
    rw [hSome]
    exact if_pos rfl

/- The counters of a session, one reading after another. -/
def advanceAll (counters : List (Counter m)) :
    Option (Snapshots m) :=
  counters.foldl
    (fun s c =>
      some ((s.getD (.start c.owner c.source)).advance
        c.provider c.model c.tokens))
    none

variable {counters : List (Counter m)}

theorem advanceAll_append
    {c : Counter m} :
    advanceAll (counters ++ [c]) =
      some (((advanceAll counters).getD
        (.start c.owner c.source)).advance c.provider c.model c.tokens) := by
  unfold advanceAll
  rw [List.foldl_append]
  rfl

-- One observation

namespace Pass

variable (s : Pass m)
variable (o : Observation m)
variable (u : UsageRecord)

@[simp]
theorem timed_ds : (s.timed o u).ds = s.ds := by
  unfold timed
  split <;> rfl

@[simp]
theorem timed_unique : (s.timed o u).unique = s.unique := by
  unfold timed
  split <;> rfl

@[simp]
theorem timed_coverage :
    (s.timed o u).coverage = s.coverage := by
  unfold timed
  split <;> rfl

@[simp]
theorem timed_snapshots :
    (s.timed o u).snapshots = s.snapshots := by
  unfold timed
  split <;> rfl

@[simp]
theorem noted_unique : (s.noted o u).unique = s.unique :=
  rfl

@[simp]
theorem noted_coverage : (s.noted o u).coverage = s.coverage :=
  rfl

@[simp]
theorem noted_snapshots :
    (s.noted o u).snapshots = s.snapshots :=
  rfl

/- What has no identity leaves the maps. -/
theorem unkeyed_maps :
    (s.unkeyed o u).unique = s.unique ∧
      (s.unkeyed o u).coverage = s.coverage ∧
      (s.unkeyed o u).snapshots = s.snapshots := by
  unfold unkeyed
  split <;> exact ⟨rfl, rfl, rfl⟩

theorem snapshot_maps (tokens : Tokens) :
    (s.snapshot o u tokens).unique = s.unique ∧
      (s.snapshot o u tokens).coverage = s.coverage := by
  unfold snapshot
  split <;> exact ⟨rfl, rfl⟩

/- A response is merged under its key. -/
theorem observe_unique (k : ResponseKey) :
    (s.observe o).unique.get? k =
      match o.response.bind fun e =>
          if e.1 = k then some e.2 else none with
      | none => s.unique.get? k
      | some c =>
        some ((s.unique.get? k).elim c fun old => old.merge c)
        := by
  unfold observe Observation.response
  cases o.event with
  | model | nativeSession => rfl
  | usage u =>
    dsimp only
    unfold record
    by_cases hCumulative : u.cumulative
    · simp only [hCumulative, if_true, Option.bind_none]
      cases u.tokens with
      | none => simp
      | some tokens =>
        rw [(snapshot_maps _ o u tokens).1]
        simp
    · simp only [hCumulative, if_false, Bool.false_eq_true]
      cases u.key with
      | none =>
        rw [(unkeyed_maps _ o u).1]
        simp
      | some key =>
        unfold identify
        simp only [timed_unique, noted_unique, OrderedMap.get?_upsert,
          Option.map_some, Option.bind_some]
        by_cases hKey : k = toLex (o.provider, key)
        · subst hKey
          simp only [if_true]
          cases s.unique.get? (toLex (o.provider, key)) <;> rfl
        · rw [if_neg hKey, if_neg (Ne.symm hKey)]

theorem observe_snapshots (k : GroupKey) :
    (s.observe o).snapshots.get? k =
      match o.counter.bind fun e =>
          if e.1 = k then some e.2 else none with
      | none => s.snapshots.get? k
      | some c =>
        some (((s.snapshots.get? k).getD
          (.start c.owner c.source)).advance
            c.provider c.model c.tokens) := by
  unfold observe Observation.counter
  cases o.event with
  | model | nativeSession => rfl
  | usage u =>
    dsimp only
    unfold record
    by_cases hCumulative : u.cumulative
    · simp only [hCumulative, if_true]
      cases hTokens : u.tokens with
      | none => cases u.nativeSession <;> simp
      | some tokens =>
        unfold snapshot
        cases hNative : u.nativeSession with
        | none => simp
        | some id =>
          simp only [timed_snapshots, noted_snapshots,
            OrderedMap.get?_upsert, Option.map_some, Option.bind_some]
          by_cases hKey : k = toLex (o.provider, id)
          · subst hKey
            simp
          · rw [if_neg hKey, if_neg (Ne.symm hKey)]
    · simp only [hCumulative, if_false, Bool.false_eq_true, Option.bind_none]
      cases u.key with
      | none =>
        rw [(unkeyed_maps _ o u).2.2]
        simp
      | some key =>
        unfold identify
        simp

theorem observe_coverage (k : CoverageKey) :
    (s.observe o).coverage.get? k =
      if o.covers = some k then some ()
      else s.coverage.get? k := by
  unfold observe Observation.covers
  cases o.event with
  | model | nativeSession => rfl
  | usage u =>
    dsimp only
    unfold record
    by_cases hCumulative : u.cumulative
    · simp only [hCumulative, if_true]
      cases u.tokens with
      | none => simp
      | some tokens =>
        rw [(snapshot_maps _ o u tokens).2]
        simp
    · simp only [hCumulative, if_false, Bool.false_eq_true]
      cases u.key with
      | none =>
        rw [(unkeyed_maps _ o u).2.1]
        simp
      | some key =>
        unfold identify
        simp only [timed_coverage, noted_coverage, OrderedMap.get?_upsert,
          Option.map_some, Option.some.injEq]
        by_cases hKey : k = toLex (o.provider, toLex (o.group u, key))
        · rw [if_pos hKey, if_pos hKey.symm]
        · rw [if_neg hKey, if_neg (Ne.symm hKey)]

end Pass

-- All observations

variable {ds : Diagnostics}
variable {l : List (Observation m)}

theorem gather_append (o : Observation m) :
    gather m (l ++ [o]) ds = (gather m l ds).observe o := by
  unfold gather
  rw [List.foldl_append]
  rfl

theorem gather_unique (k : ResponseKey) :
    (gather m l ds).unique.get? k = Identified.mergeAll (copiesOf k l) := by
  induction l using List.reverseRecOn with
  | nil => rfl
  | append_singleton rest o ih =>
    rw [gather_append, Pass.observe_unique]
    unfold copiesOf at ih ⊢
    rw [underKey_append]
    cases hEntry : o.response.bind fun e =>
        if e.1 = k then some e.2 else none with
    | none =>
      rw [Option.toList_none, List.append_nil]
      exact ih
    | some c => rw [Option.toList_some, Identified.mergeAll_append, ih]

theorem gather_snapshots (k : GroupKey) :
    (gather m l ds).snapshots.get? k = advanceAll (countersOf k l) := by
  induction l using List.reverseRecOn with
  | nil => rfl
  | append_singleton rest o ih =>
    rw [gather_append, Pass.observe_snapshots]
    unfold countersOf at ih ⊢
    rw [underKey_append]
    cases hEntry : o.counter.bind fun e =>
        if e.1 = k then some e.2 else none with
    | none =>
      rw [Option.toList_none, List.append_nil]
      exact ih
    | some c => rw [Option.toList_some, advanceAll_append, ih]

theorem gather_coverage
    (ds : Diagnostics) (k : CoverageKey) :
    (gather m l ds).coverage.get? k = some () ↔
      ∃ o ∈ l, o.covers = some k := by
  induction l using List.reverseRecOn with
  | nil =>
    constructor
    · intro hSome
      cases hSome
    · rintro ⟨o, hMem, -⟩
      cases hMem
  | append_singleton rest o ih =>
    rw [gather_append, Pass.observe_coverage]
    by_cases hCovers : o.covers = some k
    · simp [hCovers]
    · simp only [hCovers, if_false, ih, List.mem_append, List.mem_singleton,
        or_and_right, exists_or, exists_eq_left, or_false]

-- Whether anything is noted

theorem note_ne_empty
    (ds : Diagnostics) (session : Option ℕ) (code : String) :
    note ds session code ≠ ∅ :=
  Finset.insert_ne_empty _ _

theorem incompleteOwner_eq_empty_iff {owner : Owner m} :
    incompleteOwner ds owner = ∅ ↔ ds = ∅ ∧ owner = none := by
  cases owner with
  | none => simp [incompleteOwner]
  | some i => simp [incompleteOwner, note_ne_empty]

variable {p : Prop}

theorem ite_note_eq_empty_iff
    [Decidable p] {session : Option ℕ} {code : String} :
    (if p then note ds session code else ds) = ∅ ↔ ds = ∅ ∧ ¬ p := by
  by_cases hNoted : p
  · simp [hNoted, note_ne_empty]
  · simp [hNoted]

theorem ite_incompleteOwner_eq_empty_iff
    [Decidable p] {owner : Owner m} :
    (if p then incompleteOwner ds owner else ds) = ∅ ↔
      ds = ∅ ∧ (p → owner = none) := by
  by_cases hNoted : p
  · simp [hNoted, incompleteOwner_eq_empty_iff]
  · simp [hNoted]

namespace Observation

/- The observation has nothing that is noted of it alone. -/
def Quiet (o : Observation m) : Prop :=
  ∀ u, o.event = .usage u →
    (o.owner u).isSome ∧ o.incomplete = false ∧ o.isIncomplete u = false

variable {o : Observation m}
variable {u : UsageRecord}

theorem notes_eq_empty_iff (ds : Diagnostics) :
    o.notes u ds = ∅ ↔
      ds = ∅ ∧ (o.owner u).isSome ∧ o.incomplete = false ∧
        o.isIncomplete u = false := by
  have hUnknown : u.model.getD unknown = unknown →
      o.isIncomplete u = true := by
    intro hModel
    simp [isIncomplete, hModel]
  unfold notes
  rw [ite_incompleteOwner_eq_empty_iff, ite_note_eq_empty_iff,
    ite_incompleteOwner_eq_empty_iff, ite_note_eq_empty_iff]
  cases o.owner u with
  | none => simp
  | some i =>
    simp only [Option.isNone_some, Bool.false_eq_true,
      not_false_iff, and_true, reduceCtorEq, imp_false,
      Option.isSome_some, true_and, Bool.not_eq_true]
    constructor
    · rintro ⟨⟨⟨hEmpty, hOwn⟩, -⟩, hIncomplete⟩
      exact ⟨hEmpty, hOwn, hIncomplete⟩
    · rintro ⟨hEmpty, hOwn, hIncomplete⟩
      refine ⟨⟨⟨hEmpty, hOwn⟩, ?_⟩, hIncomplete⟩
      intro hModel
      rw [hUnknown hModel] at hIncomplete
      cases hIncomplete

end Observation

theorem mergeNotes_eq_empty_iff {old new : Identified m} :
    Identified.mergeNotes ds old new = ∅ ↔
      ds = ∅ ∧ old.conflict new = false := by
  unfold Identified.mergeNotes
  by_cases hConflict : old.conflict new
  · simp [hConflict, note_ne_empty]
  · have hNo : old.ownershipConflict new = false := by
      unfold Identified.conflict at hConflict
      rw [Bool.or_eq_true, not_or] at hConflict
      exact Bool.eq_false_iff.2 hConflict.1
    simp [hConflict, hNo]

theorem start_regressed
    (owner : Owner m) (source : m.Index) (tokens : Tokens) :
    (Snapshots.start owner source).regressed tokens = false := by
  have hNot : ∀ n : U64, ¬ n < 0 := fun n => not_lt_bot
  unfold Snapshots.regressed Snapshots.start
  simp only [Bool.or_eq_false_iff, decide_eq_false_iff_not]
  exact ⟨⟨⟨hNot _, hNot _⟩, hNot _⟩, hNot _⟩

namespace Pass

variable (s : Pass m)
variable (o : Observation m)

/- The observation fits what has been gathered before. -/
def Fits : Prop :=
  (∀ k c, o.response = some (k, c) →
    ∀ old, s.unique.get? k = some old → old.conflict c = false) ∧
    ∀ k c, o.counter = some (k, c) →
      ∀ old, s.snapshots.get? k = some old → old.regressed c.tokens = false

/- Nothing is noted of an observation that fits. -/
theorem observe_ds_eq_empty_iff :
    (s.observe o).ds = ∅ ↔ s.ds = ∅ ∧ o.Quiet ∧ s.Fits o := by
  unfold observe Fits Observation.Quiet Observation.response
    Observation.counter
  cases hEvent : o.event with
  | model | nativeSession => simp
  | usage u =>
    have hNotes := Observation.notes_eq_empty_iff s.ds (o := o) (u := u)
    simp only [Event.usage.injEq, forall_eq']
    unfold record
    by_cases hCumulative : u.cumulative
    · simp only [hCumulative, if_true]
      cases hTokens : u.tokens with
      | none => simpa [noted] using hNotes
      | some tokens =>
        unfold snapshot
        cases hNative : u.nativeSession with
        | none =>
          have hOwner : o.owner u = none := by
            simp [Observation.owner, Manifest.owner, hNative]
          simp only [hOwner, Option.isSome_none, Bool.false_eq_true,
            false_and, and_false, iff_false]
          unfold noteSubsets
          split
          · exact note_ne_empty _ _ _
          · rw [timed_ds]
            intro hEmpty
            rw [noted, hNotes, hOwner] at hEmpty
            cases hEmpty.2.1
        | some id =>
          simp only [timed_snapshots, noted_snapshots, timed_ds]
          cases hState : s.snapshots.get?
              (toLex (o.provider, id)) with
          | none =>
            simp only [Option.getD_none, start_regressed,
              Bool.false_eq_true, if_false]
            simpa [noted, hState] using hNotes
          | some old =>
            simp only [Option.getD_some]
            by_cases hRegressed : old.regressed tokens = true
            · rw [if_pos hRegressed, incompleteOwner_eq_empty_iff]
              simp [note_ne_empty, hState, hRegressed]
            · rw [if_neg hRegressed]
              simpa [noted, hState, hRegressed]
                using hNotes
    · simp only [hCumulative, if_false, Bool.false_eq_true]
      cases hKey : u.key with
      | none =>
        have hBad : o.isIncomplete u = true := by
          simp [Observation.isIncomplete, hCumulative, hKey]
        simp only [hBad, Bool.true_eq_false, and_false, false_and, iff_false]
        unfold unkeyed
        split
        · exact note_ne_empty _ _ _
        · dsimp only
          split
          · unfold noteSubsets
            split <;> exact note_ne_empty _ _ _
          · exact note_ne_empty _ _ _
      | some key =>
        unfold identify
        simp only [timed_unique, noted_unique, timed_ds]
        cases hOld : s.unique.get?
            (toLex (o.provider, key)) with
        | none => simpa [noted, hOld] using hNotes
        | some old =>
          dsimp only
          rw [mergeNotes_eq_empty_iff, noted, hNotes]
          simp [hOld, and_assoc]

end Pass

/- The session that a native id names at a provider. -/
def ownerAt (m : Manifest) (provider : Provider) (id : String) :
    Owner m :=
  m.owner provider (some id)

variable {k : ResponseKey} {c : Identified m}

theorem fresh_of_response
    {o : Observation m} (hResponse : o.response = some (k, c)) :
    Identified.Fresh (ownerAt m (ofLex k).1) c := by
  unfold Observation.response at hResponse
  split at hResponse
  next u hEvent =>
    split at hResponse
    next => cases hResponse
    next =>
      rcases Option.map_eq_some_iff.1 hResponse with ⟨key, -, hSame⟩
      cases hSame
      refine ⟨?_, rfl, rfl⟩
      change m.owner o.provider u.nativeSession =
        u.nativeSession.bind fun id => m.owner o.provider (some id)
      cases u.nativeSession <;> rfl
  next => cases hResponse

theorem fresh_copiesOf
    (hMem : c ∈ copiesOf k l) :
    Identified.Fresh (ownerAt m (ofLex k).1) c := by
  rcases mem_underKey.1 hMem with ⟨o, -, hResponse⟩
  exact fresh_of_response hResponse

theorem gather_mergedFrom
    {x : Identified m} (hGet : (gather m l ds).unique.get? k = some x) :
    Identified.MergedFrom (ownerAt m (ofLex k).1) (copiesOf k l) x := by
  rw [gather_unique] at hGet
  exact Identified.mergedFrom_of_mergeAll
    (fun _ hMem => fresh_copiesOf hMem) hGet

/- The copies of a response agree on session and model. -/
def Agreeing (copies : List (Identified m)) : Prop :=
  ¬ 1 < (Identified.natives copies).card ∧
    ¬ 1 < (Identified.models copies).card

theorem agreeing_nil : Agreeing ([] : List (Identified m)) := by
  simp [Agreeing, Identified.natives, Identified.models]

theorem agreeing_singleton (c : Identified m) :
    Agreeing [c] := by
  constructor
  · have hLe := List.toFinset_card_le ([c].filterMap Identified.nativeSession)
    have hLength := List.length_filterMap_le Identified.nativeSession [c]
    rw [List.length_singleton] at hLength
    exact not_lt.2 (hLe.trans hLength)
  · have hLe := Finset.card_erase_le
      (s := ([c].map Identified.model).toFinset)
      (a := unknown)
    exact not_lt.2 (hLe.trans (List.toFinset_card_le _))

/- No reading is below the highest counters before it. -/
def Steady : Option (Snapshots m) → List (Counter m) → Prop
| _, [] => True
| s, c :: rest =>
  (∀ old, s = some old → old.regressed c.tokens = false) ∧
    Steady
      (some ((s.getD (.start c.owner c.source)).advance
        c.provider c.model c.tokens)) rest

theorem steady_append
    {s : Option (Snapshots m)} {c : Counter m} :
    Steady s (counters ++ [c]) ↔
      Steady s counters ∧
        ∀ old,
          counters.foldl
            (fun s c =>
              some ((s.getD (.start c.owner c.source)).advance
                c.provider c.model c.tokens)) s = some old →
          old.regressed c.tokens = false := by
  induction counters generalizing s with
  | nil => simp [Steady]
  | cons d rest ih =>
    rw [List.cons_append, Steady, Steady, ih, and_assoc]
    rfl

theorem copiesOf_append
    {o : Observation m} :
    copiesOf k (l ++ [o]) =
      match o.response.bind fun e =>
          if e.1 = k then some e.2 else none with
      | none => copiesOf k l
      | some c => copiesOf k l ++ [c] := by
  unfold copiesOf
  rw [underKey_append]
  cases o.response.bind fun e =>
      if e.1 = k then some e.2 else none with
  | none => exact List.append_nil _
  | some c => rfl

theorem countersOf_append
    {k : GroupKey} {o : Observation m} :
    countersOf k (l ++ [o]) =
      match o.counter.bind fun e =>
          if e.1 = k then some e.2 else none with
      | none => countersOf k l
      | some c => countersOf k l ++ [c] := by
  unfold countersOf
  rw [underKey_append]
  cases o.counter.bind fun e =>
      if e.1 = k then some e.2 else none with
  | none => exact List.append_nil _
  | some c => rfl

/- One more copy agrees with those before it. -/
theorem agreeing_append
    {c : Identified m} :
    Agreeing (copiesOf k l ++ [c]) ↔
      Agreeing (copiesOf k l) ∧
        ∀ old, (gather m l ds).unique.get? k = some old →
          old.conflict c = false := by
  cases hOld : (gather m l ds).unique.get? k with
  | none =>
    have hNil : copiesOf k l = [] := by
      rw [gather_unique] at hOld
      rcases List.eq_nil_or_concat (copiesOf k l) with
        hNil | ⟨init, d, hConcat⟩
      · exact hNil
      · rw [hConcat, List.concat_eq_append,
          Identified.mergeAll_append] at hOld
        cases hOld
    rw [hNil]
    simp [agreeing_nil, agreeing_singleton]
  | some old =>
    have hMerged := gather_mergedFrom hOld
    unfold Agreeing
    rw [Identified.one_lt_card_natives hMerged.owner,
      Identified.one_lt_card_models hMerged.model]
    simp only [Option.some.injEq, forall_eq', Identified.conflict,
      Bool.eq_false_iff, ne_eq, Bool.or_eq_true, not_or]
    tauto

/- Nothing is to be noted while the observations are read. -/
structure Clear (l : List (Observation m)) : Prop where
  quiet : ∀ o ∈ l, o.Quiet
  agreeing : ∀ k, Agreeing (copiesOf k l)
  steady : ∀ k, Steady none (countersOf k l)

theorem clear_append
    (ds : Diagnostics) {o : Observation m} :
    Clear (l ++ [o]) ↔ Clear l ∧ o.Quiet ∧ (gather m l ds).Fits o := by
  have hAgreeing : (∀ k, Agreeing (copiesOf k (l ++ [o]))) ↔
      (∀ k, Agreeing (copiesOf k l)) ∧
        ∀ k c, o.response = some (k, c) →
          ∀ old, (gather m l ds).unique.get? k = some old →
            old.conflict c = false := by
    cases hResponse : o.response with
    | none => simp [copiesOf_append, hResponse]
    | some e =>
      rcases e with ⟨k, c⟩
      have hOne : Agreeing (copiesOf k l ++ [c]) ↔
          Agreeing (copiesOf k l) ∧
            ∀ old, (gather m l ds).unique.get? k = some old →
              old.conflict c = false := agreeing_append
      constructor
      · intro hAll
        have hHere := hAll k
        simp only [copiesOf_append, hResponse,
          Option.bind_some, if_true] at hHere
        refine ⟨?_, ?_⟩
        · intro k'
          have hThere := hAll k'
          by_cases hKey : k = k'
          · rw [← hKey]
            exact (hOne.1 hHere).1
          · simpa [copiesOf_append, hResponse, hKey]
              using hThere
        · intro k' c' hSame
          cases hSame
          exact (hOne.1 hHere).2
      · rintro ⟨hAll, hFits⟩ k'
        by_cases hKey : k = k'
        · subst hKey
          simp only [copiesOf_append, hResponse, Option.bind_some, if_true]
          exact hOne.2 ⟨hAll k, hFits k c rfl⟩
        · simpa [copiesOf_append, hResponse, hKey]
            using hAll k'
  have hSteady :
      (∀ k, Steady none (countersOf k (l ++ [o]))) ↔
      (∀ k, Steady none (countersOf k l)) ∧
        ∀ k c, o.counter = some (k, c) →
          ∀ old, (gather m l ds).snapshots.get? k = some old →
            old.regressed c.tokens = false := by
    cases hCounter : o.counter with
    | none => simp [countersOf_append, hCounter]
    | some e =>
      rcases e with ⟨k, c⟩
      constructor
      · intro hAll
        have hHere := hAll k
        simp only [countersOf_append, hCounter,
          Option.bind_some, if_true, steady_append] at hHere
        refine ⟨?_, ?_⟩
        · intro k'
          have hThere := hAll k'
          by_cases hKey : k = k'
          · rw [← hKey]
            exact hHere.1
          · simpa [countersOf_append, hCounter, hKey]
              using hThere
        · intro k' c' hSame old hOld
          cases hSame
          rw [gather_snapshots] at hOld
          exact hHere.2 old hOld
      · rintro ⟨hAll, hFits⟩ k'
        by_cases hKey : k = k'
        · subst hKey
          simp only [countersOf_append, hCounter,
            Option.bind_some, if_true, steady_append]
          refine ⟨hAll k, ?_⟩
          intro old hOld
          apply hFits k c rfl
          rw [gather_snapshots]
          exact hOld
        · simpa [countersOf_append, hCounter, hKey]
            using hAll k'
  constructor
  · rintro ⟨hQuiet, hAgree, hStead⟩
    have hA := hAgreeing.1 hAgree
    have hS := hSteady.1 hStead
    exact ⟨⟨fun o hMem => hQuiet o (List.mem_append_left _ hMem),
      hA.1, hS.1⟩, hQuiet o (by simp), hA.2, hS.2⟩
  · rintro ⟨⟨hQuiet, hAgree, hStead⟩, hLast, hA, hS⟩
    refine ⟨?_, hAgreeing.2 ⟨hAgree, hA⟩, hSteady.2 ⟨hStead, hS⟩⟩
    intro o' hMem
    rcases List.mem_append.1 hMem with hOld | hNew
    · exact hQuiet o' hOld
    · rw [List.mem_singleton.1 hNew]
      exact hLast

theorem gather_ds_eq_empty_iff :
    (gather m l ds).ds = ∅ ↔ ds = ∅ ∧ Clear l := by
  induction l using List.reverseRecOn with
  | nil =>
    constructor
    · intro hEmpty
      refine ⟨hEmpty, by simp, ?_, fun _ => trivial⟩
      exact fun _ => agreeing_nil
    · exact fun hClear => hClear.1
  | append_singleton rest o ih =>
    rw [gather_append, Pass.observe_ds_eq_empty_iff, ih,
      clear_append ds, and_assoc]

end Usage
