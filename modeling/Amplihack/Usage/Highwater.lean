import Mathlib.Algebra.Group.WithOne.Basic
import Mathlib.Algebra.Order.BigOperators.Group.List
import Amplihack.Usage.OrderFree

/-
  Cumulative counters: the rows that their advances fill add
  up to the highest counters seen, and what is identified
  fills up to them once.
-/

-- Sums of Tokens

namespace Usage

open Base

def u64Max : ℕ := 18446744073709551615

theorem values_difference (now previous : Tokens) (i : Fin 7) :
    (difference now previous).values i = now.values i - previous.values i :=
  congrFun (Tokens.values_fromValues _) i

/- What an advance adds reaches the higher of the two. -/
theorem add_difference (high t : Tokens) :
    high + difference t high = high ⊔ t := by
  apply Tokens.values_injective
  funext i
  have hMax : (high ⊔ t).values i = high.values i ⊔ t.values i :=
    congrFun (Tokens.values_max high t) i
  rw [Tokens.values_add, Pi.add_apply, values_difference, hMax]
  have hCap := (t.values i).le_cap
  have hHigh := (high.values i).le_cap
  ext
  rcases le_total (high.values i) (t.values i) with hLe | hLe
  · rw [sup_eq_right.mpr hLe]
    have hVal := Capped.le_iff.mp hLe
    simp only [Capped.val_add, Capped.val_sub]
    omega
  · rw [sup_eq_left.mpr hLe]
    have hVal := Capped.le_iff.mp hLe
    simp only [Capped.val_add, Capped.val_sub]
    omega

theorem invalidSubsets_eq_false_iff {t : Tokens} :
    invalidSubsets t = false ↔
      min (t.cacheRead.val + t.cacheWrite.val) u64Max ≤ t.input.val ∧
        t.reasoning.val ≤ t.output.val := by
  unfold invalidSubsets
  rw [Bool.or_eq_false_iff, decide_eq_false_iff_not,
    decide_eq_false_iff_not, not_lt, not_lt, Capped.le_iff, Capped.le_iff]
  rfl

variable {s t : Tokens}

theorem val_cut (a b : U64) :
    (a + b).val = min (a.val + b.val) u64Max :=
  rfl

theorem add_eq (s t : Tokens) :
    s + t =
      { input := s.input + t.input
        cacheWrite := s.cacheWrite + t.cacheWrite
        cacheWrite5m := s.cacheWrite5m + t.cacheWrite5m
        cacheWrite1h := s.cacheWrite1h + t.cacheWrite1h
        cacheRead := s.cacheRead + t.cacheRead
        output := s.output + t.output
        reasoning := s.reasoning + t.reasoning } :=
  rfl

theorem valid_add
    (hLeft : invalidSubsets s = false) (hRight : invalidSubsets t = false) :
    invalidSubsets (s + t) = false := by
  rw [invalidSubsets_eq_false_iff] at *
  rw [add_eq]
  simp only [val_cut]
  omega

/- Disjoint parts of a sum that is not cut at the cap. -/
theorem disjoint_add
    (hLeft : invalidSubsets s = false) (hRight : invalidSubsets t = false)
    (hInput : s.input.val + t.input.val ≤ u64Max)
    (hOutput : s.output.val + t.output.val ≤ u64Max) :
    disjoint (s + t) = disjoint s + disjoint t := by
  rw [invalidSubsets_eq_false_iff] at hLeft hRight
  have hIn :
      s.input + t.input - (s.cacheRead + t.cacheRead) -
          (s.cacheWrite + t.cacheWrite) =
        s.input - s.cacheRead - s.cacheWrite +
          (t.input - t.cacheRead - t.cacheWrite) := by
    ext
    simp only [val_cut, Capped.val_sub]
    omega
  have hOut :
      s.output + t.output - (s.reasoning + t.reasoning) =
        s.output - s.reasoning + (t.output - t.reasoning) := by
    ext
    simp only [val_cut, Capped.val_sub]
    omega
  rw [add_eq, add_eq]
  unfold disjoint
  dsimp only
  rw [hIn, hOut]

variable {l : List Tokens}

/- Numbers of one kind, added up without a cap. -/
def amountOf (i : Fin 7) (l : List Tokens) : ℕ :=
  (l.map fun t => (t.values i).val).sum

theorem values_sum (i : Fin 7) (hRoom : amountOf i l ≤ u64Max) :
    (l.sum.values i).val = amountOf i l := by
  induction l with
  | nil => simp [amountOf]
  | cons t rest ih =>
    have hSplit : amountOf i (t :: rest) =
        (t.values i).val + amountOf i rest := by
      unfold amountOf
      rw [List.map_cons, List.sum_cons]
    have hRest := ih (by omega)
    rw [List.sum_cons, Tokens.values_add, Pi.add_apply,
      Capped.val_add, hRest, ← hSplit]
    exact min_eq_left hRoom

theorem valid_sum
    (hValid : ∀ t ∈ l, invalidSubsets t = false) :
    invalidSubsets l.sum = false := by
  induction l with
  | nil => rfl
  | cons t rest ih =>
    rw [List.forall_mem_cons] at hValid
    rw [List.sum_cons]
    exact valid_add hValid.1 (ih hValid.2)

theorem disjoint_sum
    (hValid : ∀ t ∈ l, invalidSubsets t = false)
    (hInput : amountOf 0 l ≤ u64Max) (hOutput : amountOf 5 l ≤ u64Max) :
    disjoint l.sum = (l.map disjoint).sum := by
  induction l with
  | nil => rfl
  | cons t rest ih =>
    rw [List.forall_mem_cons] at hValid
    have hSplit : ∀ i, amountOf i (t :: rest) =
        (t.values i).val + amountOf i rest := by
      intro i
      unfold amountOf
      rw [List.map_cons, List.sum_cons]
    rw [hSplit] at hInput hOutput
    have hRestInput : amountOf 0 rest ≤ u64Max := by omega
    have hRestOutput : amountOf 5 rest ≤ u64Max := by omega
    rw [← values_sum 0 hRestInput] at hInput
    rw [← values_sum 5 hRestOutput] at hOutput
    rw [List.sum_cons, List.map_cons, List.sum_cons,
      ← ih hValid.2 hRestInput hRestOutput]
    exact disjoint_add hValid.1 (valid_sum hValid.2) hInput hOutput

-- Rows of Advances

variable {m : Manifest}

/- The highest that each counter of the readings has been. -/
def highwater (counters : List (Counter m)) : Tokens :=
  (counters.map Counter.tokens).foldl (· ⊔ ·) 0

def rows (map : ModelMap) : List Tokens :=
  map.entries.map fun e => e.2.tokens

/-
  The rows add up to the high-water mark, not cut at the cap;
  their subsets are valid unless an advance's were not.
-/
structure Filled (state : Snapshots m) : Prop where
  exact : ∀ i, amountOf i (rows state.fallback) =
    (state.highwater.values i).val
  valid : state.ambiguousSubsets = false →
    ∀ t ∈ rows state.fallback, invalidSubsets t = false

theorem amountOf_append (i : Fin 7) (before after : List Tokens) :
    amountOf i (before ++ after) = amountOf i before + amountOf i after := by
  unfold amountOf
  rw [List.map_append, List.sum_append]

theorem amountOf_cons (i : Fin 7) (t : Tokens) (l : List Tokens) :
    amountOf i (t :: l) = (t.values i).val + amountOf i l := by
  unfold amountOf
  rw [List.map_cons, List.sum_cons]

theorem filled_start (owner : Owner m) (source : m.Index) :
    Filled (.start owner source) where
  exact := by
    intro i
    change 0 = ((0 : Tokens).values i).val
    rw [Tokens.values_zero]
    rfl
  valid := by
    intro _ t hMem
    cases hMem

theorem values_sup (high t : Tokens) (i : Fin 7) :
    (high ⊔ t).values i = high.values i ⊔ t.values i :=
  congrFun (Tokens.values_max high t) i

/- An advance, over the higher of the mark and the reading. -/
theorem val_values_sup (high t : Tokens) (i : Fin 7) :
    ((high ⊔ t).values i).val =
      (high.values i).val + ((difference t high).values i).val := by
  rw [values_sup, values_difference, Capped.val_sub]
  rcases le_total (high.values i) (t.values i) with hLe | hLe
  · rw [sup_eq_right.mpr hLe]
    have hVal := Capped.le_iff.mp hLe
    omega
  · rw [sup_eq_left.mpr hLe]
    have hVal := Capped.le_iff.mp hLe
    omega

variable {state : Snapshots m}

/- One reading: a row is made of its advance, or grows by it. -/
theorem Filled.advance
    (hFilled : Filled state) (provider : Provider)
    (model : String) (tokens : Tokens) :
    Filled (state.advance provider model tokens) := by
  let delta := difference tokens state.highwater
  have hSup : ∀ i, ((state.highwater ⊔ tokens).values i).val =
      (state.highwater.values i).val + (delta.values i).val :=
    val_values_sup state.highwater tokens
  have hZero : (0 : Tokens) + delta = delta := zero_add delta
  have hEntries := OrderedMap.entries_upsert
    (m := state.fallback) (k := toLex (provider, model))
    fun b => (b.getD (noUsage provider model)).plus delta
      (if 0 < delta.total then .ofNat _ 1 else 0)
  rcases hEntries with
    ⟨before, after, hOld, hNew⟩ | ⟨before, u, after, hOld, hNew⟩
  · have hRows : rows state.fallback =
        before.map (fun e => e.2.tokens) ++
          after.map (fun e => e.2.tokens) := by
      unfold rows
      rw [hOld, List.map_append]
    have hRowsNew :
        rows (state.advance provider model tokens).fallback =
          before.map (fun e => e.2.tokens) ++
            delta :: after.map (fun e => e.2.tokens) := by
      unfold rows Snapshots.advance add
      dsimp only
      rw [hNew, List.map_append, List.map_cons]
      exact congrArg (fun t => before.map _ ++ t :: after.map _) hZero
    constructor
    case exact =>
      intro i
      have hExact := hFilled.exact i
      rw [hRows, amountOf_append] at hExact
      rw [hRowsNew, amountOf_append, amountOf_cons]
      have hHigh := hSup i
      change _ = ((state.highwater ⊔ tokens).values i).val
      omega
    case valid =>
      intro hClear t hMem
      rcases Bool.or_eq_false_iff.mp hClear with ⟨hPast, hNow⟩
      have hAll := hFilled.valid hPast
      rw [hRows] at hAll
      rw [hRowsNew] at hMem
      rcases List.mem_append.mp hMem with hBefore | hRest
      · exact hAll t (List.mem_append_left _ hBefore)
      · rcases List.mem_cons.mp hRest with rfl | hAfter
        · exact hNow
        · exact hAll t (List.mem_append_right _ hAfter)
  · have hRows : rows state.fallback =
        before.map (fun e => e.2.tokens) ++
          u.tokens :: after.map (fun e => e.2.tokens) := by
      unfold rows
      rw [hOld, List.map_append, List.map_cons]
    have hRowsNew :
        rows (state.advance provider model tokens).fallback =
          before.map (fun e => e.2.tokens) ++
            (u.tokens + delta) :: after.map (fun e => e.2.tokens) := by
      unfold rows Snapshots.advance add
      dsimp only
      rw [hNew, List.map_append, List.map_cons]
      rfl
    constructor
    case exact =>
      intro i
      have hExact := hFilled.exact i
      rw [hRows, amountOf_append, amountOf_cons] at hExact
      rw [hRowsNew, amountOf_append, amountOf_cons]
      have hHigh := hSup i
      have hCap := ((state.highwater ⊔ tokens).values i).le_cap
      have hSum : ((u.tokens + delta).values i).val =
          (u.tokens.values i).val + (delta.values i).val := by
        rw [Tokens.values_add, Pi.add_apply, val_cut]
        refine min_eq_left ?_
        unfold u64Max
        omega
      change _ = ((state.highwater ⊔ tokens).values i).val
      omega
    case valid =>
      intro hClear t hMem
      rcases Bool.or_eq_false_iff.mp hClear with ⟨hPast, hNow⟩
      have hAll := hFilled.valid hPast
      rw [hRows] at hAll
      rw [hRowsNew] at hMem
      rcases List.mem_append.mp hMem with hBefore | hRest
      · exact hAll t (List.mem_append_left _ hBefore)
      · rcases List.mem_cons.mp hRest with rfl | hAfter
        · refine valid_add (hAll u.tokens ?_) hNow
          exact List.mem_append_right _ List.mem_cons_self
        · exact hAll t (List.mem_append_right _
            (List.mem_cons_of_mem _ hAfter))

/- What the readings of one session leave behind. -/
structure Advanced
    (counters : List (Counter m)) (state : Snapshots m) :
    Prop where
  high : state.highwater = highwater counters
  filled : Filled state
  some_row : state.fallback.entries ≠ []
  owner : ∀ own, (∀ c ∈ counters, c.owner = own) → state.owner = own

theorem advance_ne_nil
    (state : Snapshots m) (provider : Provider) (model : String)
    (tokens : Tokens) :
    (state.advance provider model tokens).fallback.entries ≠ [] := by
  unfold Snapshots.advance add
  dsimp only
  rcases OrderedMap.entries_upsert
    (m := state.fallback) (k := toLex (provider, model)) _ with
    ⟨before, after, -, hNew⟩ | ⟨before, u, after, -, hNew⟩
  · rw [hNew]
    simp
  · rw [hNew]
    simp

/- By induction on the readings, the last one at the end. -/
theorem advanced_of_readings
    {counters : List (Counter m)} (hSome : counters ≠ []) :
    ∃ state, advanceAll counters = some state ∧ Advanced counters state := by
  induction counters using List.reverseRecOn with
  | nil => exact absurd rfl hSome
  | append_singleton counters c ih =>
    refine ⟨_, advanceAll_append, ?_⟩
    have hHigh : ∀ high : Tokens, high = highwater counters →
        high ⊔ c.tokens = highwater (counters ++ [c]) := by
      intro high hSame
      unfold highwater
      rw [List.map_append, List.foldl_append, hSame]
      rfl
    rcases List.eq_nil_or_concat counters with
      rfl | ⟨init, last, hConcat⟩
    · exact
        { high := hHigh _ rfl
          filled := (filled_start _ _).advance _ _ _
          some_row := advance_ne_nil _ _ _ _
          owner := fun own hOwn =>
            hOwn c (List.mem_append_right _ List.mem_cons_self) }
    · have hNe : counters ≠ [] := by
        rw [hConcat, List.concat_eq_append]
        simp
      rcases ih hNe with ⟨state, hState, hAdvanced⟩
      rw [hState, Option.getD_some]
      exact
        { high := hHigh _ hAdvanced.high
          filled := hAdvanced.filled.advance _ _ _
          some_row := advance_ne_nil _ _ _ _
          owner := fun own hOwn =>
            hAdvanced.owner own fun c hMem =>
              hOwn c (List.mem_append_left _ hMem) }

-- What Is Charged

theorem coe_sum {l : List Tokens} (hSome : l ≠ []) :
    (l.map fun t : Tokens => (t : Spent)).sum = (l.sum : Spent) := by
  induction l with
  | nil => exact absurd rfl hSome
  | cons t rest ih =>
    rw [List.map_cons, List.sum_cons, List.sum_cons]
    cases rest with
    | nil => rw [List.map_nil, List.sum_nil, List.sum_nil, add_zero, add_zero]
    | cons u rest =>
      rw [ih (List.cons_ne_nil _ _)]
      rfl

theorem Filled.sum_rows
    (hFilled : Filled state) :
    (rows state.fallback).sum = state.highwater := by
  apply Tokens.values_injective
  funext i
  have hExact := hFilled.exact i
  have hRoom : amountOf i (rows state.fallback) ≤ u64Max := by
    rw [hExact]
    exact (state.highwater.values i).le_cap
  ext
  rw [values_sum i hRoom, hExact]

/- The disjoint rows are the disjoint high-water mark. -/
theorem Filled.sum_disjoint_rows
    (hFilled : Filled state) (hSome : state.fallback.entries ≠ [])
    (hPlain : state.ambiguousSubsets = false ∨
      ¬ 1 < state.fallback.entries.length) :
    ((rows state.fallback).map disjoint).sum = disjoint state.highwater := by
  rw [← hFilled.sum_rows]
  rcases hPlain with hClear | hShort
  · have hRoom : ∀ i, amountOf i (rows state.fallback) ≤ u64Max := by
      intro i
      rw [hFilled.exact i]
      exact (state.highwater.values i).le_cap
    exact (disjoint_sum (hFilled.valid hClear) (hRoom 0) (hRoom 5)).symm
  · unfold rows
    cases hEntries : state.fallback.entries with
    | nil => exact absurd hEntries hSome
    | cons e rest =>
      rw [hEntries] at hShort
      have hNil : rest = [] := by
        rw [← List.length_eq_zero_iff]
        simp only [List.length_cons] at hShort
        omega
      rw [hNil]
      simp

/-
  What a session's counters add, over the tokens identified:
  all of the high-water mark, or the rest of it if that is
  tokens with valid subsets.
-/
def filling (high : Tokens) : Option Tokens → Spent
| none => disjoint high
| some identified =>
  if invalidSubsets (difference high identified) then 0
  else if 0 < (difference high identified).total then
    disjoint (difference high identified)
  else 0

variable {totals : OrderedMap GroupKey Tokens}
variable {e : GroupKey × Snapshots m}

theorem counterTokens_eq
    (hFilled : Filled e.2) (hSome : e.2.fallback.entries ≠ []) :
    counterTokens totals e = filling e.2.highwater (totals.get? e.1) := by
  unfold counterTokens filling
  cases totals.get? e.1 with
  | some identified => rfl
  | none =>
    dsimp only
    split
    next hAmbiguous => rfl
    next hPlain =>
      have hCases : e.2.ambiguousSubsets = false ∨
          ¬ 1 < e.2.fallback.entries.length := by
        by_cases hClear : e.2.ambiguousSubsets = true
        · right
          intro hLong
          exact hPlain (by simp [hClear, hLong])
        · exact .inl (Bool.eq_false_iff.mpr hClear)
      have hSum := hFilled.sum_disjoint_rows hSome hCases
      have hNe : (rows e.2.fallback).map disjoint ≠ [] := by
        unfold rows
        rw [List.map_map, ne_eq, List.map_eq_nil_iff]
        exact hSome
      have hRows :
          (e.2.fallback.values.map fun u =>
            (disjoint u.tokens : Spent)) =
            ((rows e.2.fallback).map disjoint).map
              fun t : Tokens => (t : Spent) := by
        unfold rows OrderedMap.values
        rw [List.map_map, List.map_map, List.map_map]
        rfl
      rw [hRows, coe_sum hNe, hSum]

-- The Counters of a Session

variable {l : List (Observation m)}
variable {ds : Diagnostics}
variable {i : m.Index}

/- The name that a session's counters are kept under. -/
def Manifest.group (m : Manifest) (i : m.Index) : GroupKey :=
  toLex ((m.session i).provider, (m.session i).id)

variable {id : String}

theorem group_of_owner
    {provider : Provider} (hOwner : m.owner provider (some id) = some i) :
    toLex (provider, id) = m.group i := by
  have hFound := (List.findFinIdx?_eq_some_iff.mp hOwner).1
  rw [Bool.and_eq_true, decide_eq_true_iff, decide_eq_true_iff] at hFound
  change toLex (provider, id) =
    toLex (m.sessions[i].provider, m.sessions[i].id)
  rw [hFound.1, hFound.2]

theorem owner_session
    (hNodup : (m.sessions.map Session.id).Nodup) (i : m.Index) :
    m.owner (m.session i).provider (some (m.session i).id) = some i := by
  cases hOwner :
      m.owner (m.session i).provider
        (some (m.session i).id) with
  | none =>
    have hNone := List.findFinIdx?_eq_none_iff.mp hOwner
      (m.session i) (List.get_mem _ _)
    simp at hNone
  | some j =>
    have hSame := group_of_owner hOwner
    unfold Manifest.group at hSame
    have hId := (Prod.mk.inj (toLex.injective hSame)).2
    rw [index_eq_of_id hNodup hId]

variable {k : GroupKey}

theorem owner_of_counter
    {c : Counter m} (hMem : c ∈ countersOf k l) :
    c.owner = m.owner (ofLex k).1 (some (ofLex k).2) := by
  rcases mem_underKey.mp hMem with ⟨o, -, hCounter⟩
  unfold Observation.counter at hCounter
  split at hCounter
  next u hEvent =>
    split at hCounter
    next hCumulative =>
      rcases Option.bind_eq_some_iff.mp hCounter with ⟨id, hNative, hTokens⟩
      rcases Option.map_eq_some_iff.mp hTokens with ⟨tokens, -, hSame⟩
      cases hSame
      change m.owner o.provider u.nativeSession = _
      rw [hNative]
      rfl
    next => cases hCounter
  next => cases hCounter

theorem advanced_of_mem
    (hMem : e ∈ (gather m l ds).snapshots.entries) :
    Advanced (countersOf e.1 l) e.2 := by
  have hGet := OrderedMap.get?_of_mem_entries hMem
  rw [gather_snapshots] at hGet
  have hSome : countersOf e.1 l ≠ [] := by
    rw [← advanceAll_isSome, hGet]
    rfl
  rcases advanced_of_readings hSome with ⟨state, hState, hAdvanced⟩
  rw [hGet] at hState
  rw [Option.some.inj hState]
  exact hAdvanced

theorem group_of_mem
    (hMem : e ∈ (gather m l ds).snapshots.entries)
    (hOwner : e.2.owner = some i) :
    e.1 = m.group i := by
  have hOwn := (advanced_of_mem hMem).owner
    (m.owner (ofLex e.1).1 (some (ofLex e.1).2))
    fun c hCounter => owner_of_counter hCounter
  rw [hOwner] at hOwn
  exact group_of_owner hOwn.symm

/- The sum over entries of which only one counts. -/
theorem sum_eq_of_mem
    {κ ν : Type} {entries : List (κ × ν)} {e : κ × ν}
    {f : κ × ν → Spent} (hNodup : (entries.map Prod.fst).Nodup)
    (hMem : e ∈ entries) (hZero : ∀ e' ∈ entries, e'.1 ≠ e.1 → f e' = 0) :
    (entries.map f).sum = f e := by
  rcases List.append_of_mem hMem with ⟨before, after, hSplit⟩
  subst hSplit
  rw [List.map_append, List.map_cons] at hNodup
  have hApart := (List.nodup_middle.mp hNodup).notMem
  rw [List.mem_append, not_or] at hApart
  have hBefore : (before.map f).sum = 0 := by
    refine List.sum_eq_zero ?_
    intro x hx
    rcases List.mem_map.mp hx with ⟨e', hIn, rfl⟩
    refine hZero e' (List.mem_append_left _ hIn) ?_
    intro hSame
    exact hApart.1 (hSame ▸ List.mem_map_of_mem hIn)
  have hAfter : (after.map f).sum = 0 := by
    refine List.sum_eq_zero ?_
    intro x hx
    rcases List.mem_map.mp hx with ⟨e', hIn, rfl⟩
    refine hZero e' (List.mem_append_right _ (List.mem_cons_of_mem _ hIn)) ?_
    intro hSame
    exact hApart.2 (hSame ▸ List.mem_map_of_mem hIn)
  rw [List.map_append, List.sum_append, List.map_cons,
    List.sum_cons, hBefore, hAfter, zero_add, add_zero]

/- Only its own counters are charged to a session. -/
theorem sum_counterTokens
    (hNodup : (m.sessions.map Session.id).Nodup)
    (hSome : countersOf (m.group i) l ≠ []) :
    ((gather m l ds).snapshots.entries.map fun e =>
      ofOwner (some i) e.2.owner
        (counterTokens (identifiedTotals (gather m l ds)) e)).sum =
      filling (highwater (countersOf (m.group i) l))
        ((identifiedTotals (gather m l ds)).get? (m.group i)) := by
  rcases advanced_of_readings hSome with ⟨state, hState, hAdvanced⟩
  have hGet : (gather m l ds).snapshots.get? (m.group i) = some state := by
    rw [gather_snapshots]
    exact hState
  have hOwner : state.owner = some i := by
    refine hAdvanced.owner (some i) ?_
    intro c hCounter
    rw [owner_of_counter hCounter]
    exact owner_session hNodup i
  rw [sum_eq_of_mem (OrderedMap.nodupKeys _)
    (OrderedMap.mem_entries_of_get? hGet)]
  · unfold ofOwner
    rw [if_pos hOwner, counterTokens_eq hAdvanced.filled hAdvanced.some_row,
      hAdvanced.high]
  · intro e hMem hOther
    unfold ofOwner
    rw [if_neg]
    intro hOwn
    exact hOther (group_of_mem hMem hOwn)

-- The Responses of a Session

/- The responses that are part of what the counters show. -/
def groupResponses (s : Pass m) (k : GroupKey) :
    List ResponseKey :=
  (coverageOf s k).entries.map fun e => coveredResponse e.1

theorem mem_coverageOf_iff
    {c : CoverageKey} :
    (∃ e ∈ (coverageOf (gather m l ds) k).entries, e.1 = c) ↔
      coveredGroup c = k ∧ ∃ o ∈ l, o.covers = some c := by
  rw [← gather_coverage ds]
  constructor
  · rintro ⟨e, hMem, rfl⟩
    have hGet := OrderedMap.get?_of_mem_entries hMem
    unfold coverageOf at hGet
    rw [OrderedMap.get?_restrict] at hGet
    split at hGet
    next hGroup => exact ⟨of_decide_eq_true hGroup, hGet⟩
    next => cases hGet
  · rintro ⟨hGroup, hGet⟩
    have hHere : (coverageOf (gather m l ds) k).get? c = some () := by
      unfold coverageOf
      rw [OrderedMap.get?_restrict, if_pos (by simp [hGroup])]
      exact hGet
    exact ⟨_, OrderedMap.mem_entries_of_get? hHere, rfl⟩

theorem mem_groupResponses_iff
    {key : ResponseKey} :
    key ∈ groupResponses (gather m l ds) k ↔
      ∃ o ∈ l, ∃ c, coveredGroup c = k ∧
        coveredResponse c = key ∧ o.covers = some c := by
  unfold groupResponses
  rw [List.mem_map]
  constructor
  · rintro ⟨e, hMem, hKey⟩
    rcases mem_coverageOf_iff.mp ⟨e, hMem, rfl⟩ with ⟨hGroup, o, hIn, hCovers⟩
    exact ⟨o, hIn, e.1, hGroup, hKey, hCovers⟩
  · rintro ⟨o, hIn, c, hGroup, hKey, hCovers⟩
    rcases mem_coverageOf_iff.mpr ⟨hGroup, o, hIn, hCovers⟩ with
      ⟨e, hMem, hSame⟩
    exact ⟨e, hMem, by rw [hSame]; exact hKey⟩

variable {o : Observation m}

/- What covers a response is a copy of it. -/
theorem response_of_covers
    {c : CoverageKey} (hCovers : o.covers = some c) :
    ∃ x, o.response = some (coveredResponse c, x) := by
  unfold Observation.covers at hCovers
  unfold Observation.response
  split at hCovers
  next u hEvent =>
    split at hCovers
    next => cases hCovers
    next hPlain =>
      rcases Option.map_eq_some_iff.mp hCovers with ⟨key, hKey, rfl⟩
      rw [if_neg hPlain, hKey]
      exact ⟨_, rfl⟩
  next => cases hCovers

variable {key : ResponseKey} {x : Identified m}

theorem covers_of_response
    (hResponse : o.response = some (key, x))
    (hNative : x.nativeSession = some id) :
    o.covers = some (toLex ((ofLex key).1, toLex (id, (ofLex key).2))) := by
  unfold Observation.response at hResponse
  unfold Observation.covers
  split at hResponse
  next u hEvent =>
    split at hResponse
    next => cases hResponse
    next hPlain =>
      rcases Option.map_eq_some_iff.mp hResponse with ⟨k, hKey, hSame⟩
      cases hSame
      rw [if_neg hPlain, hKey, Option.map_some]
      change u.nativeSession = some id at hNative
      unfold Observation.group
      rw [hNative]
      rfl
  next => cases hResponse

/- A session's responses are part of what its counters show. -/
theorem mem_groupResponses_of_owner
    (hGet : (gather m l ds).unique.get? key = some x)
    (hOwner : x.owner = some i) :
    key ∈ groupResponses (gather m l ds) (m.group i) := by
  have hMerged := gather_mergedFrom hGet
  cases hMerged.owner with
  | unknown hNamed hNative hClear hNone =>
    rw [hNone] at hOwner
    cases hOwner
  | conflict id hNamed hId hNative hAmbiguous hNone =>
    rw [hNone] at hOwner
    cases hOwner
  | agreed id hNamed hNative hClear hOwn =>
    rw [hOwn] at hOwner
    have hGroup := group_of_owner hOwner
    have hId : id ∈ Identified.natives (copiesOf key l) := by
      rw [hNamed]
      exact Finset.mem_singleton_self id
    rcases Identified.mem_natives.mp hId with ⟨c, hCopy, hName⟩
    rcases mem_underKey.mp hCopy with ⟨o, hIn, hResponse⟩
    have hCovers := covers_of_response hResponse hName
    rw [mem_groupResponses_iff]
    exact ⟨o, hIn, toLex ((ofLex key).1, toLex (id, (ofLex key).2)),
      hGroup, rfl, hCovers⟩

/- The counters of the response under `key`. -/
def tokensOf (s : Pass m) (key : ResponseKey) :
    Option Tokens :=
  (s.unique.get? key).bind Identified.tokens

def identifiedTokens (s : Pass m) (k : GroupKey) :
    List Tokens :=
  (groupResponses s k).filterMap (tokensOf s)

theorem sum_spent
    {α : Type} (f : α → Option Tokens) (l : List α) :
    (l.map fun a => spent (f a)).sum =
      ((l.filterMap f).map fun t : Tokens => (t : Spent)).sum
    := by
  induction l with
  | nil => rfl
  | cons a rest ih =>
    rw [List.map_cons, List.sum_cons, ih]
    cases hTokens : f a with
    | none => rw [List.filterMap_cons_none hTokens, spent_none, zero_add]
    | some t =>
      rw [List.filterMap_cons_some hTokens, List.map_cons,
        List.sum_cons, spent_some]

/- What is identified of a group, if anything is. -/
theorem identifiedTotals_eq (s : Pass m) (k : GroupKey) :
    (identifiedTotals s).get? k =
      if identifiedTokens s k = [] then none
      else some (identifiedTokens s k).sum := by
  apply spent_injective
  have hSpent :
      OrderedMap.sumOf (fun c _ => coveredTokens s c) (coverageOf s k) =
      ((groupResponses s k).map fun key =>
        spent (tokensOf s key)).sum := by
    unfold OrderedMap.sumOf groupResponses
    rw [List.map_map]
    rfl
  rw [get?_identifiedTotals, hSpent, sum_spent]
  change ((identifiedTokens s k).map _).sum = _
  by_cases hNil : identifiedTokens s k = []
  · rw [if_pos hNil, hNil]
    rfl
  · rw [if_neg hNil, coe_sum hNil]
    rfl

theorem tokensOf_of_get?
    {s : Pass m} {e : ResponseKey × Identified m}
    (hMem : e ∈ s.unique.entries) :
    tokensOf s e.1 = e.2.tokens := by
  unfold tokensOf
  rw [OrderedMap.get?_of_mem_entries hMem]
  rfl

/- Nothing identified is charged to a session without any. -/
theorem sum_responseTokens_of_none
    (hNone : (identifiedTotals (gather m l ds)).get? (m.group i) = none) :
    ((gather m l ds).unique.entries.map fun e =>
      ofOwner (some i) e.2.owner (responseTokens e)).sum =
      0 := by
  have hNil : identifiedTokens (gather m l ds) (m.group i) = [] := by
    rw [identifiedTotals_eq] at hNone
    by_contra hSome
    rw [if_neg hSome] at hNone
    cases hNone
  refine List.sum_eq_zero ?_
  intro x hx
  rcases List.mem_map.mp hx with ⟨e, hMem, rfl⟩
  unfold ofOwner
  split
  next hOwner =>
    have hKey := mem_groupResponses_of_owner
      (OrderedMap.get?_of_mem_entries hMem) hOwner
    have hTokens := List.filterMap_eq_nil_iff.mp hNil e.1 hKey
    rw [tokensOf_of_get? hMem] at hTokens
    unfold responseTokens
    rw [hTokens]
  next => rfl

theorem nodup_groupResponses (s : Pass m) (k : GroupKey) :
    (groupResponses s k).Nodup := by
  unfold groupResponses
  refine List.Nodup.map_on ?_ ?_
  · intro e hMem e' hMem' hSame
    have hGroup : coveredGroup e.1 = k := by
      simpa using (List.mem_filter.mp hMem).2
    have hGroup' : coveredGroup e'.1 = k := by
      simpa using (List.mem_filter.mp hMem').2
    have hBoth := hGroup.trans hGroup'.symm
    rcases e with ⟨c, u⟩
    rcases e' with ⟨c', u'⟩
    have hProvider := (Prod.mk.inj (toLex.injective hBoth)).1
    have hName := (Prod.mk.inj (toLex.injective hBoth)).2
    have hKey := (Prod.mk.inj (toLex.injective hSame)).2
    have hRest : (ofLex c).2 = (ofLex c').2 :=
      ofLex.injective (Prod.ext hName hKey)
    have hWhole : c = c' := ofLex.injective (Prod.ext hProvider hRest)
    rw [hWhole]
  · exact (List.Nodup.of_map Prod.fst (OrderedMap.nodupKeys (coverageOf s k)))

/- The responses of a session's group are all its own. -/
def OwnResponses (s : Pass m) (i : m.Index) : Prop :=
  ∀ key ∈ groupResponses s (m.group i),
    ∀ x, s.unique.get? key = some x → x.owner = some i

theorem unique_of_groupResponses
    (hKey : key ∈ groupResponses (gather m l ds) k) :
    ∃ x, (gather m l ds).unique.get? key = some x := by
  rcases mem_groupResponses_iff.mp hKey with ⟨o, hIn, c, -, rfl, hCovers⟩
  rcases response_of_covers hCovers with ⟨x, hResponse⟩
  rw [← Option.isSome_iff_exists, gather_unique, mergeAll_isSome]
  exact ⟨x, mem_underKey.mpr ⟨o, hIn, hResponse⟩⟩

/- The responses charged to a session are those of its group. -/
theorem perm_groupResponses
    (hOwn : OwnResponses (gather m l ds) i) :
    (((gather m l ds).unique.entries.filter fun e =>
      e.2.owner = some i).map Prod.fst).Perm
      (groupResponses (gather m l ds) (m.group i)) := by
  rw [List.perm_ext_iff_of_nodup _ (nodup_groupResponses _ _)]
  · intro key
    rw [List.mem_map]
    constructor
    · rintro ⟨e, hMem, rfl⟩
      rcases List.mem_filter.mp hMem with ⟨hIn, hOwner⟩
      exact mem_groupResponses_of_owner
        (OrderedMap.get?_of_mem_entries hIn)
        (of_decide_eq_true hOwner)
    · intro hKey
      rcases unique_of_groupResponses hKey with ⟨x, hGet⟩
      refine ⟨(key, x), ?_, rfl⟩
      rw [List.mem_filter]
      exact ⟨OrderedMap.mem_entries_of_get? hGet,
        decide_eq_true (hOwn key hKey x hGet)⟩
  · exact (OrderedMap.nodupKeys _).sublist (List.filter_sublist.map Prod.fst)

/- Codex responses that are all the session's are charged. -/
theorem sum_responseTokens
    (hCodex : (m.session i).provider = .codex)
    (hOwn : OwnResponses (gather m l ds) i) :
    ((gather m l ds).unique.entries.map fun e =>
      ofOwner (some i) e.2.owner (responseTokens e)).sum =
      (((identifiedTokens (gather m l ds) (m.group i)).map
        disjoint).map fun t : Tokens => (t : Spent)).sum := by
  have hFilter : ∀ entries : List (ResponseKey × Identified m),
      (∀ e ∈ entries, e ∈ (gather m l ds).unique.entries) →
      (entries.map fun e =>
        ofOwner (some i) e.2.owner (responseTokens e)).sum =
      (((entries.filter fun e => e.2.owner = some i).map
        Prod.fst).map fun key =>
          spent ((tokensOf (gather m l ds) key).map disjoint)).sum := by
    intro entries
    induction entries with
    | nil => intro _; rfl
    | cons e rest ih =>
      intro hAll
      rw [List.forall_mem_cons] at hAll
      rw [List.map_cons, List.sum_cons, ih hAll.2]
      unfold ofOwner
      by_cases hOwner : e.2.owner = some i
      · rw [List.filter_cons_of_pos (by simpa using hOwner),
          List.map_cons, List.map_cons, List.sum_cons,
          if_pos hOwner, tokensOf_of_get? hAll.1]
        congr 1
        have hKey := mem_groupResponses_of_owner
          (OrderedMap.get?_of_mem_entries hAll.1) hOwner
        rcases mem_groupResponses_iff.mp hKey with
          ⟨o, hIn, c, hGroup, hSame, hCovers⟩
        have hProvider : (ofLex e.1).1 = .codex := by
          rw [← hSame, ← hCodex]
          exact (Prod.mk.inj (toLex.injective hGroup)).1
        unfold responseTokens
        rw [hProvider]
        cases e.2.tokens <;> rfl
      · rw [List.filter_cons_of_neg (by simpa using hOwner),
          if_neg hOwner, zero_add]
  have hDisjoint :
      (groupResponses (gather m l ds)
        (m.group i)).filterMap (fun key =>
          (tokensOf (gather m l ds) key).map disjoint) =
      (identifiedTokens (gather m l ds) (m.group i)).map
        disjoint := List.map_filterMap.symm
  rw [hFilter _ fun e hMem => hMem,
    ((perm_groupResponses hOwn).map _).sum_eq, sum_spent, hDisjoint]

-- The High-Water Mark

theorem mem_unresolved_addSnapshots
    {b : Books m} {u : UnresolvedUsage} (hMem : u ∈ b.unresolved) :
    u ∈ (b.addSnapshots totals e).unresolved := by
  have hRows : ∀ (usages : List ModelUsage) (b : Books m),
      u ∈ b.unresolved →
      u ∈ (usages.foldl (fun b r =>
        b.addFallback (ofLex e.1).1 e.2 r) b).unresolved := by
    intro usages
    induction usages with
    | nil => exact fun b hHere => hHere
    | cons r rest ih => exact fun b hHere => ih _ hHere
  unfold Books.addSnapshots
  dsimp only
  cases totals.get? e.1 with
  | none =>
    dsimp only
    split
    · exact hMem
    · exact hRows _ _ hMem
  | some identified =>
    dsimp only
    unfold Books.addRemainder
    dsimp only
    split
    · exact List.mem_append_left _ hMem
    · split
      · exact hMem
      · exact hMem

/- What is listed of a remainder that is not added. -/
def unadded
    (provider : Provider) (remainder : Tokens) :
    UnresolvedUsage where
  provider := provider
  model := unknown
  tokens := disjoint remainder
  reason := "inconsistent_cumulative_remainder_non_additive"

theorem mem_unresolved_books
    {s : Pass m} {identified : Tokens} (hMem : e ∈ s.snapshots.entries)
    (hTotal : (identifiedTotals s).get? e.1 = some identified)
    (hInvalid : invalidSubsets (difference e.2.highwater identified) = true) :
    unadded (ofLex e.1).1
        (difference e.2.highwater identified) ∈
      (books s).unresolved := by
  have hKept : ∀ (entries : List (GroupKey × Snapshots m))
      (b : Books m) (u : UnresolvedUsage),
      u ∈ b.unresolved →
      u ∈ (entries.foldl
        (fun b e => b.addSnapshots (identifiedTotals s) e) b).unresolved := by
    intro entries
    induction entries with
    | nil => exact fun b u hHere => hHere
    | cons e rest ih =>
      exact fun b u hHere =>
        ih _ u (mem_unresolved_addSnapshots hHere)
  rcases List.append_of_mem hMem with ⟨before, after, hSplit⟩
  unfold books
  dsimp only
  rw [hSplit, List.foldl_append, List.foldl_cons]
  apply hKept
  unfold Books.addSnapshots
  dsimp only
  rw [hTotal]
  dsimp only
  unfold Books.addRemainder
  dsimp only
  rw [if_pos hInvalid]
  exact List.mem_append_right _ List.mem_cons_self

/-
  The group's responses are the session's own, with valid
  subsets, and few enough tokens to be added up.
-/
structure Additive
    (s : Pass m) (i : m.Index) (remainder : Tokens) :
    Prop where
  codex : (m.session i).provider = .codex
  own : OwnResponses s i
  valid : ∀ t ∈ identifiedTokens s (m.group i), invalidSubsets t = false
  input : amountOf 0 (identifiedTokens s (m.group i)) ≤ u64Max
  output : amountOf 5 (identifiedTokens s (m.group i)) ≤ u64Max
  consistent : invalidSubsets remainder = false
  durations : remainder.total = 0 → remainder = 0

/- The tokens of the responses that are charged to a session. -/
def identifiedCharge (s : Pass m) (i : m.Index) : Spent :=
  (s.unique.entries.map fun e =>
    ofOwner (some i) e.2.owner (responseTokens e)).sum

/-
  A session's direct tokens, from its high-water mark: all of
  it when nothing is identified, else what is identified and
  the remainder up to the mark.
-/
structure FillsUp
    (s : Pass m) (i : m.Index) (high : Tokens)
    (unresolved : List UnresolvedUsage) (direct : Spent) :
    Prop where
  alone : (identifiedTotals s).get? (m.group i) = none →
    direct = (disjoint high : Spent)
  reaches : ∀ identified,
    (identifiedTotals s).get? (m.group i) = some identified →
    identified + difference high identified = high ⊔ identified
  added : ∀ identified,
    (identifiedTotals s).get? (m.group i) = some identified →
    invalidSubsets (difference high identified) = false →
    0 < (difference high identified).total →
    direct = identifiedCharge s i +
      (disjoint (difference high identified) : Spent)
  nothing : ∀ identified,
    (identifiedTotals s).get? (m.group i) = some identified →
    (difference high identified).total = 0 →
    direct = identifiedCharge s i
  unadded : ∀ identified,
    (identifiedTotals s).get? (m.group i) = some identified →
    invalidSubsets (difference high identified) = true →
    direct = identifiedCharge s i ∧
      Usage.unadded (m.session i).provider
        (difference high identified) ∈ unresolved
  disjoint_max : ∀ identified,
    (identifiedTotals s).get? (m.group i) = some identified →
    Additive s i (difference high identified) →
    direct = (disjoint (high ⊔ identified) : Spent)

theorem direct_eq
    (hNodup : (m.sessions.map Session.id).Nodup)
    (hSome : countersOf (m.group i) l ≠ []) :
    (books (gather m l ds)).direct i =
      identifiedCharge (gather m l ds) i +
        filling (highwater (countersOf (m.group i) l))
          ((identifiedTotals (gather m l ds)).get? (m.group i)) := by
  unfold Books.direct
  rw [sum_bucket, sum_counterTokens hNodup hSome]
  rfl

/- The disjoint parts of both are those of the maximum. -/
theorem disjoint_sup
    {high : Tokens}
    (hSome : identifiedTokens (gather m l ds) (m.group i) ≠ [])
    (hAdditive : Additive (gather m l ds) i
      (difference high (identifiedTokens (gather m l ds) (m.group i)).sum)) :
    identifiedCharge (gather m l ds) i +
        filling high
          (some (identifiedTokens (gather m l ds) (m.group i)).sum) =
      (disjoint (high ⊔
        (identifiedTokens (gather m l ds) (m.group i)).sum) : Spent) := by
  have hCharge : identifiedCharge (gather m l ds) i =
      (disjoint (identifiedTokens (gather m l ds)
        (m.group i)).sum : Spent) := by
    unfold identifiedCharge
    rw [sum_responseTokens hAdditive.codex hAdditive.own,
      coe_sum (by simpa using hSome),
      disjoint_sum hAdditive.valid hAdditive.input hAdditive.output]
  have hValid := valid_sum hAdditive.valid
  generalize
    (identifiedTokens (gather m l ds) (m.group i)).sum = identified at *
  have hSup := val_values_sup identified high
  have hRoom : ∀ j,
      (identified.values j).val +
        ((difference high identified).values j).val ≤
          u64Max := by
    intro j
    rw [← hSup j]
    exact ((identified ⊔ high).values j).le_cap
  have hAdd := disjoint_add hValid hAdditive.consistent (hRoom 0) (hRoom 5)
  rw [add_difference, sup_comm] at hAdd
  rw [hCharge, hAdd]
  unfold filling
  dsimp only
  rw [if_neg (by simp [hAdditive.consistent])]
  split
  next hTotal => rfl
  next hTotal =>
    have hZero : (difference high identified).total = 0 := by
      by_contra hOther
      exact hTotal (bot_lt_iff_ne_bot.mpr hOther)
    rw [hAdditive.durations hZero, add_zero]
    change _ = ((disjoint identified + 0 : Tokens) : Spent)
    rw [add_zero]

theorem fillsUp
    (hNodup : (m.sessions.map Session.id).Nodup)
    (hSome : countersOf (m.group i) l ≠ []) :
    FillsUp (gather m l ds) i
      (highwater (countersOf (m.group i) l))
      (books (gather m l ds)).unresolved
      ((books (gather m l ds)).direct i) := by
  have hDirect :
      (books (gather m l ds)).direct i =
        identifiedCharge (gather m l ds) i +
          filling (highwater (countersOf (m.group i) l))
            ((identifiedTotals (gather m l ds)).get? (m.group i)) :=
    direct_eq hNodup hSome
  constructor
  case alone =>
    intro hNone
    have hZero : identifiedCharge (gather m l ds) i = 0 :=
      sum_responseTokens_of_none hNone
    rw [hDirect, hNone, hZero, zero_add]
    rfl
  case reaches =>
    intro identified hTotal
    rw [add_difference, sup_comm]
  case added =>
    intro identified hTotal hValid hPositive
    rw [hDirect, hTotal]
    unfold filling
    dsimp only
    rw [if_neg (by simp [hValid]), if_pos hPositive]
  case nothing =>
    intro identified hTotal hZero
    rw [hDirect, hTotal]
    unfold filling
    dsimp only
    rw [hZero, if_neg (lt_irrefl _), ite_self, add_zero]
  case unadded =>
    intro identified hTotal hInvalid
    constructor
    · rw [hDirect, hTotal]
      unfold filling
      dsimp only
      rw [if_pos hInvalid, add_zero]
    · rcases advanced_of_readings hSome with
        ⟨state, hState, hAdvanced⟩
      have hGet :
          (gather m l ds).snapshots.get? (m.group i) = some state := by
        rw [gather_snapshots]
        exact hState
      rw [← hAdvanced.high] at hInvalid ⊢
      exact mem_unresolved_books
        (OrderedMap.mem_entries_of_get? hGet) hTotal hInvalid
  case disjoint_max =>
    intro identified hTotal hAdditive
    have hEq := identifiedTotals_eq (gather m l ds) (m.group i)
    rw [hTotal] at hEq
    by_cases hNil : identifiedTokens (gather m l ds) (m.group i) = []
    · rw [if_pos hNil] at hEq
      cases hEq
    · rw [if_neg hNil] at hEq
      have hSum := Option.some.inj hEq
      subst hSum
      rw [hDirect, hTotal]
      exact disjoint_sup hNil hAdditive

/-
  In every report on a valid manifest, a session's direct
  tokens come to its high-water mark, each token once.
-/
theorem filled_to_highwater
    (m : Manifest) (hValid : validate m = .ok ())
    (observations : List (Observation m)) (ds : Diagnostics) :
    ∃ r, aggregate m observations ds = some r ∧
      ∃ report : m.Index → SessionReport,
        r.sessions = m.indices.map report ∧
        (∀ i, (report i).id = (m.session i).id) ∧
        ∀ i, countersOf (m.group i) observations ≠ [] →
          FillsUp (gather m observations ds) i
            (highwater (countersOf (m.group i) observations))
            r.unresolved (report i).direct := by
  have hAcyclic := not_above_self_of_validate hValid
  have hNodup := (sessions_of_validate hValid).2
  let s := gather m observations ds
  let b := books s
  rcases rollUp_spec hAcyclic b (counted b).complete with ⟨t, hRollUp, -⟩
  have hAggregate : aggregate m observations ds =
      some (reportOf b s.first s.last t) :=
    congrArg (Option.map (reportOf b s.first s.last)) hRollUp
  refine ⟨_, hAggregate, sessionReport b t s.first s.last,
    rfl, fun _ => rfl, ?_⟩
  intro i hSome
  exact fillsUp hNodup hSome

-- A Remainder That Is Not Added

def codexAlone : Manifest where
  version := 1
  workstream := none
  repository := none
  branch := none
  prs := []
  completed := false
  sessions := [codexSession "codex"]

/- A response if it has a key, else a snapshot. -/
def codexReading
    (key : Option String) (tokens : Tokens) :
    Observation codexAlone where
  session := ⟨0, by decide⟩
  timestamp := none
  event :=
    .usage
      { key := key
        nativeSession := some "codex"
        model := some "model"
        tokens := some tokens
        cumulative := key.isNone }
  incomplete := false

def cachedInput (input cacheRead : ℕ) : Tokens :=
  { (0 : Tokens) with
    input := .ofNat _ input
    cacheRead := .ofNat _ cacheRead }

def readsOf : Spent → ℕ
| none => 0
| some t => t.cacheRead.val

/- The mark has cache reads that its identified part lacks. -/
def unsplitResponse : List (Observation codexAlone) :=
  [codexReading (some "response") (cachedInput 10 0),
    codexReading none (cachedInput 10 5)]

theorem remainder_is_not_added :
    ¬ ∀ (m : Manifest) (l : List (Observation m))
      (ds : Diagnostics) (i : m.Index),
      validate m = .ok () →
      (∀ c ∈ countersOf (m.group i) l, invalidSubsets c.tokens = false) →
      ∀ identified,
        (identifiedTotals (gather m l ds)).get? (m.group i) =
          some identified →
        (books (gather m l ds)).direct i =
          identifiedCharge (gather m l ds) i +
            (disjoint (difference
              (highwater (countersOf (m.group i) l))
              identified) : Spent) := by
  intro hAll
  have hDirect := hAll codexAlone unsplitResponse ∅
    ⟨0, by decide⟩ (by decide) (by decide) (cachedInput 10 0)
    (by decide)
  exact absurd (congrArg readsOf hDirect) (by decide)

/- Two snapshots, the second one lower. -/
def loweredSnapshots : List (Observation codexAlone) :=
  [codexReading none (cachedInput 10 5), codexReading none (cachedInput 8 2)]

theorem filled_to_highwater_of_lowered :
    ∃ r, aggregate codexAlone loweredSnapshots ∅ = some r ∧
      r.sessions.map SessionReport.direct = [(cachedInput 5 5 : Spent)] := by
  have hValid : validate codexAlone = .ok () := by decide
  rcases filled_to_highwater codexAlone hValid
    loweredSnapshots ∅ with
    ⟨r, hReport, report, hSessions, -, hFills⟩
  have hAlone := (hFills ⟨0, by decide⟩ (by decide)).alone (by decide)
  refine ⟨r, hReport, ?_⟩
  rw [hSessions]
  exact congrArg (fun direct => [direct]) hAlone

end Usage
