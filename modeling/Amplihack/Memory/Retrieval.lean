import Amplihack.Base.TopMerge
import Amplihack.Memory.Quality

/-
  The retrieval pipeline: candidates are filtered, ranked,
  told apart by their contents and cut to a budget.

  Scores are exact, and read at one time of the clock.
-/

-- The Pipeline

namespace Memory

open Base Hive

structure ScoredEntry where
  entry : MemoryEntry
  score : ℚ
  stageScores : List (String × ℚ)

namespace ScoredEntry

def new (entry : MemoryEntry) (score : ℚ) : ScoredEntry where
  entry := entry
  score := score
  stageScores := []

def withStageScore
    (s : ScoredEntry) (stage : String) (score : ℚ) :
    ScoredEntry :=
  { s with stageScores := s.stageScores ++ [(stage, score)] }

/- About four characters a token. -/
def estimatedTokens (s : ScoredEntry) : ℕ :=
  (s.entry.content.utf8ByteSize + s.entry.title.utf8ByteSize) / 4

end ScoredEntry

inductive RetrievalStage where
| filter
| rank
| deduplicate
| budgetEnforce
deriving DecidableEq

structure RetrievalResult where
  entries : List ScoredEntry
  totalCandidates : ℕ
  totalTokensUsed : ℕ
  stagesApplied : List RetrievalStage
  truncated : Bool

structure RetrievalPipelineConfig where
  minScoreThreshold : ℚ
  maxResults : ℕ

structure RetrievalPipeline where
  config : RetrievalPipelineConfig
  stages : List RetrievalStage

/- `scored.iter().map(estimated_tokens).sum()` -/
def tokensOf (scored : List ScoredEntry) : ℕ :=
  scored.foldl (fun n s => n + s.estimatedTokens) 0

namespace RetrievalPipeline

/- The default stages, in their order. -/
def withConfig
    (config : RetrievalPipelineConfig) :
    RetrievalPipeline where
  config := config
  stages := [.filter, .rank, .deduplicate, .budgetEnforce]

variable (r : Readings)
variable (now : ℚ)
variable (query : RetrievalQuery)

def passes
    (p : RetrievalPipeline) (s : ScoredEntry) :
    Bool :=
  r.matchesQuery now s.entry query && p.config.minScoreThreshold ≤ s.score

def filter
    (p : RetrievalPipeline) (candidates : List ScoredEntry) :
    List ScoredEntry :=
  ((candidates.filter (p.passes r now query)).take
    p.config.maxResults).map fun s =>
      s.withStageScore "filter" s.score

/- The entry with its score taken again. -/
def rescored (s : ScoredEntry) : ScoredEntry :=
  let newScore := r.relevanceScore now s.entry (queryWords query)
  { s with score := newScore }.withStageScore "rank" newScore

def rank (entries : List ScoredEntry) : List ScoredEntry :=
  (entries.map (rescored r now query)).mergeSort fun a b => b.score ≤ a.score

/- The first entry of each fingerprint. -/
def deduplicate (entries : List ScoredEntry) :
    List ScoredEntry :=
  unseen (r.contentFingerprint ·.entry) [] entries

/- The entries kept so far, with the tokens they take. -/
def enforceFrom
    (tokenBudget total : ℕ) :
    ℕ → List ScoredEntry → List ScoredEntry → List ScoredEntry × Bool
| _, kept, [] => (kept, kept.length < total)
| used, kept, entry :: rest =>
  let tokens := max entry.estimatedTokens 1
  if tokenBudget < used + tokens ∧ kept ≠ [] then (kept, true)
  else
    enforceFrom tokenBudget total (used + tokens) (kept ++ [entry]) rest

/- What is kept, and whether something was cut. -/
def enforceBudget
    (entries : List ScoredEntry) (tokenBudget : ℕ) :
    List ScoredEntry × Bool :=
  enforceFrom tokenBudget entries.length 0 [] entries

def budgetOf (query : RetrievalQuery) : ℕ :=
  if 0 < query.tokenBudget then query.tokenBudget else 4000

/- The stages that are left, after those applied. -/
def runStages
    (p : RetrievalPipeline) (total : ℕ) :
    List RetrievalStage → List RetrievalStage →
      List ScoredEntry → RetrievalResult
| [], applied, scored =>
  { entries := scored
    totalCandidates := total
    totalTokensUsed := tokensOf scored
    stagesApplied := applied
    truncated := false }
| .filter :: stages, applied, scored =>
  p.runStages total stages (applied ++ [.filter])
    (p.filter r now query scored)
| .rank :: stages, applied, scored =>
  p.runStages total stages (applied ++ [.rank]) (rank r now query scored)
| .deduplicate :: stages, applied, scored =>
  p.runStages total stages (applied ++ [.deduplicate]) (deduplicate r scored)
| .budgetEnforce :: _, applied, scored =>
  let (entries, truncated) :=
    enforceBudget scored (budgetOf query)
  { entries := entries
    totalCandidates := total
    totalTokensUsed := tokensOf entries
    stagesApplied := applied ++ [.budgetEnforce]
    truncated := truncated }

def execute
    (p : RetrievalPipeline) (candidates : List MemoryEntry) :
    RetrievalResult :=
  let words := queryWords query
  let scored := candidates.map fun e =>
    ScoredEntry.new e (r.relevanceScore now e words)
  p.runStages r now query candidates.length p.stages [] scored

-- The Default Stages

def scoreOf (e : MemoryEntry) : ℚ :=
  r.relevanceScore now e (queryWords query)

/- The candidates that the filter lets through. -/
def passing
    (config : RetrievalPipelineConfig) (candidates : List MemoryEntry) :
    List MemoryEntry :=
  candidates.filter fun e =>
    r.matchesQuery now e query &&
      config.minScoreThreshold ≤ scoreOf r now query e

/- An entry with what the two first stages say of it. -/
def scoredOf (e : MemoryEntry) : ScoredEntry where
  entry := e
  score := scoreOf r now query e
  stageScores :=
    [("filter", scoreOf r now query e), ("rank", scoreOf r now query e)]

/- The entries by their scores, the best first. -/
def ranked (entries : List MemoryEntry) : List ScoredEntry :=
  (entries.map (scoredOf r now query)).mergeSort fun a b => b.score ≤ a.score

/- Those of different contents, before the budget. -/
def distinct
    (config : RetrievalPipelineConfig) (candidates : List MemoryEntry) :
    List ScoredEntry :=
  deduplicate r (ranked r now query
    ((passing r now query config candidates).take config.maxResults))

variable {r : Readings}
variable {now : ℚ}
variable {query : RetrievalQuery}
variable {config : RetrievalPipelineConfig}
variable {candidates : List MemoryEntry}

theorem execute_withConfig :
    (withConfig config).execute r now query candidates =
      { entries := (enforceBudget
          (distinct r now query config candidates)
          (budgetOf query)).1
        totalCandidates := candidates.length
        totalTokensUsed := tokensOf (enforceBudget
          (distinct r now query config candidates)
          (budgetOf query)).1
        stagesApplied :=
          [.filter, .rank, .deduplicate, .budgetEnforce]
        truncated := (enforceBudget
          (distinct r now query config candidates)
          (budgetOf query)).2 } := by
  have hFilter : rank r now query
      ((withConfig config).filter r now query
        (candidates.map fun e =>
          ScoredEntry.new e (r.relevanceScore now e (queryWords query)))) =
      ranked r now query
        ((passing r now query config candidates).take config.maxResults) := by
    unfold rank filter ranked
    rw [List.filter_map, ← List.map_take, List.map_map, List.map_map]
    rfl
  unfold execute
  dsimp only [withConfig, runStages]
  unfold distinct
  rw [← hFilter]
  rfl

-- Ranked And Told Apart

variable {entries : List MemoryEntry}
variable {s t : ScoredEntry}

theorem mem_ranked :
    s ∈ ranked r now query entries ↔
      ∃ e ∈ entries, scoredOf r now query e = s := by
  unfold ranked
  rw [List.mem_mergeSort, List.mem_map]

/- The better score comes first. -/
theorem ranks_iff (a b : ScoredEntry) :
    decide (b.score ≤ a.score) = true ↔
      OrderDual.toDual a.score ≤ OrderDual.toDual b.score :=
  decide_eq_true_iff

theorem ranked_sorted
    (hScores : (entries.map (scoreOf r now query)).Nodup) :
    (ranked r now query entries).Pairwise fun a b => b.score < a.score := by
  have hLe : (ranked r now query entries).Pairwise
      fun a b => OrderDual.toDual a.score ≤ OrderDual.toDual b.score :=
    pairwise_mergeSort ranks_iff _
  have hPerm : ((ranked r now query entries).map
      (·.score)).Perm (entries.map (scoreOf r now query)) := by
    have hSorted := (List.mergeSort_perm
      (entries.map (scoredOf r now query))
      fun a b => b.score ≤ a.score).map (·.score)
    rw [List.map_map] at hSorted
    exact hSorted
  have hNe := hPerm.nodup_iff.mpr hScores
  rw [List.Nodup, List.pairwise_map] at hNe
  refine (hLe.and hNe).imp ?_
  intro a b hBoth
  exact lt_of_le_of_ne hBoth.1 (Ne.symm hBoth.2)

/- Without equal scores, the order of the input is lost. -/
theorem ranked_eq_of_perm
    {others : List MemoryEntry}
    (hScores : (entries.map (scoreOf r now query)).Nodup)
    (hPerm : entries.Perm others) :
    ranked r now query entries = ranked r now query others := by
  refine mergeSort_eq_of_perm ranks_iff ?_ (hPerm.map _)
  intro a hA b hB hSame
  rcases List.mem_map.mp hA with ⟨e, hE, hEqA⟩
  rcases List.mem_map.mp hB with ⟨f, hF, hEqB⟩
  subst hEqA
  subst hEqB
  rw [List.inj_on_of_nodup_map hScores hE hF hSame]

-- The Budget

variable {tokenBudget total used : ℕ}
variable {kept rest left : List ScoredEntry}

theorem tokensOf_concat
    (kept : List ScoredEntry) (s : ScoredEntry) :
    tokensOf (kept ++ [s]) = tokensOf kept + s.estimatedTokens := by
  unfold tokensOf
  rw [List.foldl_append]
  rfl

/-
  What is kept is the start of the list, within the budget
  or one entry; the flag says whether something is left.
-/
structure KeptWithin
    (tokenBudget : ℕ) (kept rest : List ScoredEntry)
    (result : List ScoredEntry × Bool) (left : List ScoredEntry) :
    Prop where
  split : kept ++ rest = result.1 ++ left
  first : kept ++ rest ≠ [] → result.1 ≠ []
  flag : result.2 = true ↔ left ≠ []
  within : tokensOf result.1 ≤ tokenBudget ∨ result.1.length ≤ 1

theorem enforceFrom_spec
    (hTotal : kept.length + rest.length = total)
    (hUsed : tokensOf kept ≤ used)
    (hWithin : used ≤ tokenBudget ∨ kept.length ≤ 1) :
    ∃ left, KeptWithin tokenBudget kept rest
      (enforceFrom tokenBudget total used kept rest) left := by
  induction rest generalizing used kept with
  | nil =>
    rw [List.length_nil, Nat.add_zero] at hTotal
    refine ⟨[], ?_⟩
    rw [enforceFrom]
    constructor
    case split => rfl
    case first =>
      rw [List.append_nil]
      exact fun hSome => hSome
    case flag =>
      rw [hTotal]
      simp
    case within =>
      exact hWithin.imp_left fun hLe => hUsed.trans hLe
  | cons entry rest ih =>
    rw [enforceFrom]
    split
    · next hStop =>
        refine ⟨entry :: rest, ?_⟩
        constructor
        case split => rfl
        case first => exact fun _ => hStop.2
        case flag => simp
        case within =>
          exact hWithin.imp_left fun hLe => hUsed.trans hLe
    · next hOn =>
        have hNext : tokensOf (kept ++ [entry]) ≤
            used + max entry.estimatedTokens 1 := by
          rw [tokensOf_concat]
          have hMax := Nat.le_max_left entry.estimatedTokens 1
          omega
        have hFits : used + max entry.estimatedTokens 1 ≤
            tokenBudget ∨ (kept ++ [entry]).length ≤ 1 := by
          by_cases hNone : kept = []
          · right
            rw [hNone]
            exact Nat.le_refl 1
          · left
            by_contra hMore
            exact hOn ⟨Nat.lt_of_not_le hMore, hNone⟩
        have hCount : (kept ++ [entry]).length + rest.length =
            total := by
          rw [List.length_append, List.length_singleton,
            ← hTotal, List.length_cons]
          omega
        rcases ih hCount hNext hFits with ⟨left, hLeft⟩
        have hAssoc : kept ++ entry :: rest = kept ++ [entry] ++ rest := by
          rw [List.append_assoc]
          rfl
        refine ⟨left, ?_⟩
        constructor
        case split => exact hAssoc.trans hLeft.split
        case first =>
          rw [hAssoc]
          exact hLeft.first
        case flag => exact hLeft.flag
        case within => exact hLeft.within

theorem enforceBudget_spec
    (entries : List ScoredEntry) (tokenBudget : ℕ) :
    ∃ left, KeptWithin tokenBudget [] entries
      (enforceBudget entries tokenBudget) left :=
  enforceFrom_spec (Nat.zero_add _) (Nat.zero_le _) (.inl (Nat.zero_le _))

-- The Best Entries

/- Sound, sorted, of different contents and within bounds. -/
structure Sound
    (r : Readings) (now : ℚ) (query : RetrievalQuery)
    (config : RetrievalPipelineConfig)
    (candidates : List MemoryEntry) (result : RetrievalResult) :
    Prop where
  passing : ∀ s ∈ result.entries,
    s.entry ∈ passing r now query config candidates ∧
      s.score = scoreOf r now query s.entry
  contents : (result.entries.map (·.entry.content)).Nodup
  sorted : result.entries.Pairwise fun a b => b.score < a.score
  capped : result.entries.length ≤ config.maxResults
  within : result.totalTokensUsed ≤ budgetOf query ∨ result.entries.length = 1

/-
  What is left out repeats a better entry, or is below all
  entries; the flag says if some content is left out.
-/
structure Complete
    (r : Readings) (now : ℚ) (query : RetrievalQuery)
    (config : RetrievalPipelineConfig)
    (candidates : List MemoryEntry) (result : RetrievalResult) :
    Prop where
  best : ∀ e ∈ passing r now query config candidates,
    (∀ s ∈ result.entries, s.entry ≠ e) →
      (∃ s ∈ result.entries, s.entry.content = e.content ∧
        scoreOf r now query e < s.score) ∨
      ∀ s ∈ result.entries, scoreOf r now query e < s.score
  truncated : result.truncated = true ↔
    ∃ e ∈ passing r now query config candidates,
      ∀ s ∈ result.entries, s.entry.content ≠ e.content

variable (hScores :
  (candidates.map (scoreOf r now query)).Nodup)
variable (hFree : CollisionFree r.fingerprint
  (candidates.map (·.content)))

include hScores in
theorem passing_scores :
    ((passing r now query config candidates).map
      (scoreOf r now query)).Nodup :=
  hScores.sublist (List.filter_sublist.map _)

include hScores in
theorem distinct_sorted :
    (distinct r now query config candidates).Pairwise
      fun a b => b.score < a.score := by
  refine (ranked_sorted ?_).sublist (unseen_sublist _ _ _)
  exact (passing_scores hScores).sublist ((List.take_sublist _ _).map _)

theorem mem_distinct
    (hMem : s ∈ distinct r now query config candidates) :
    s.entry ∈ (passing r now query config candidates).take
        config.maxResults ∧
      s.score = scoreOf r now query s.entry := by
  have hRanked := (unseen_sublist
    (fun s : ScoredEntry => r.contentFingerprint s.entry) []
    _).subset hMem
  rcases mem_ranked.mp hRanked with ⟨e, hE, hEq⟩
  subst hEq
  exact ⟨hE, rfl⟩

theorem distinct_contents :
    ((distinct r now query config candidates).map
      (·.entry.content)).Nodup := by
  have hMarks := nodup_marks_unseen
    (fun s : ScoredEntry => r.contentFingerprint s.entry) []
    (ranked r now query
      ((passing r now query config candidates).take config.maxResults))
  have hMap : (distinct r now query config candidates).map
      (fun s => r.contentFingerprint s.entry) =
      ((distinct r now query config candidates).map
        (·.entry.content)).map r.fingerprint := by
    rw [List.map_map]
    rfl
  unfold distinct deduplicate at hMap ⊢
  rw [hMap] at hMarks
  exact hMarks.of_map _

theorem length_distinct_le :
    (distinct r now query config candidates).length ≤
      config.maxResults := by
  have hLe := (unseen_sublist
    (fun s : ScoredEntry => r.contentFingerprint s.entry) []
    (ranked r now query
      ((passing r now query config candidates).take
        config.maxResults))).length_le
  have hRanked : (ranked r now query
      ((passing r now query config candidates).take
        config.maxResults)).length ≤ config.maxResults := by
    unfold ranked
    rw [List.length_mergeSort, List.length_map]
    exact List.length_take_le _ _
  exact hLe.trans hRanked

include hScores hFree in
/- A taken candidate has its content's best among them. -/
theorem exists_distinct_ge
    {e : MemoryEntry}
    (hMem : e ∈ (passing r now query config candidates).take
      config.maxResults) :
    ∃ d ∈ distinct r now query config candidates,
      d.entry.content = e.content ∧ scoreOf r now query e ≤ d.score := by
  have hSorted := ranked_sorted
    ((passing_scores hScores).sublist
      ((List.take_sublist config.maxResults
        (passing r now query config candidates)).map _))
  have hIn : scoredOf r now query e ∈ ranked r now query
      ((passing r now query config candidates).take config.maxResults) :=
    mem_ranked.mpr ⟨e, hMem, rfl⟩
  have hCandidate : ∀ f ∈
      (passing r now query config candidates).take config.maxResults,
      f.content ∈ candidates.map (·.content) := by
    intro f hF
    exact List.mem_map_of_mem (List.mem_filter.mp (List.mem_of_mem_take hF)).1
  have hFound : r.contentFingerprint e ∈ [] ∨
      ∃ d ∈ distinct r now query config candidates,
        r.contentFingerprint d.entry = r.contentFingerprint e ∧
        scoreOf r now query e ≤ d.score :=
    exists_unseen_ge (r.contentFingerprint ·.entry) []
      (hSorted.imp fun hLess => le_of_lt hLess) hIn
  rcases hFound with hNone | ⟨d, hD, hMark, hLe⟩
  · cases hNone
  · refine ⟨d, hD, ?_, hLe⟩
    exact hFree _ (hCandidate _ (mem_distinct hD).1)
      _ (hCandidate _ hMem) hMark

include hScores in
/- Whatever the cap takes, the result is sound. -/
theorem sound_execute :
    Sound r now query config candidates
      ((withConfig config).execute r now query candidates) := by
  rcases enforceBudget_spec
      (distinct r now query config candidates)
      (budgetOf query) with
    ⟨left, hKept⟩
  have hSplit := hKept.split
  rw [List.nil_append] at hSplit
  have hSub : (enforceBudget
      (distinct r now query config candidates)
      (budgetOf query)).1.Sublist
        (distinct r now query config candidates) := by
    conv_rhs => rw [hSplit]
    exact List.sublist_append_left _ _
  rw [execute_withConfig]
  constructor
  case passing =>
    intro s hMem
    rcases mem_distinct (hSub.subset hMem) with ⟨hIn, hScore⟩
    exact ⟨List.mem_of_mem_take hIn, hScore⟩
  case contents => exact distinct_contents.sublist (hSub.map _)
  case sorted => exact (distinct_sorted hScores).sublist hSub
  case capped => exact hSub.length_le.trans length_distinct_le
  case within =>
    dsimp only
    rcases hKept.within with hFits | hShort
    · exact .inl hFits
    · rcases Nat.lt_or_eq_of_le hShort with hNone | hOne
      · left
        rw [List.length_eq_zero_iff.mp (Nat.lt_one_iff.mp hNone)]
        exact Nat.zero_le _
      · exact .inr hOne

include hScores hFree in
/- With all that pass taken, nothing better is left out. -/
theorem complete_execute
    (hFew : (passing r now query config candidates).length ≤
      config.maxResults) :
    Complete r now query config candidates
      ((withConfig config).execute r now query candidates) := by
  rcases enforceBudget_spec
      (distinct r now query config candidates)
      (budgetOf query) with
    ⟨left, hKept⟩
  have hSplit := hKept.split
  rw [List.nil_append] at hSplit
  have hSorted : (distinct r now query config
      candidates).Pairwise fun a b => b.score < a.score :=
    distinct_sorted hScores
  have hContents : ((distinct r now query config
      candidates).map (·.entry.content)).Nodup := distinct_contents
  rw [hSplit] at hSorted hContents
  have hBetter := (List.pairwise_append.mp hSorted).2.2
  rw [List.map_append, List.nodup_append] at hContents
  have hApart := hContents.2.2
  have hTake : (passing r now query config candidates).take
      config.maxResults = passing r now query config candidates :=
    List.take_of_length_le hFew
  -- The best entry of a content is kept, or left by the budget.
  have hDistinct : ∀ e ∈ passing r now query config candidates,
      ∃ d, (d ∈ (enforceBudget
          (distinct r now query config candidates)
          (budgetOf query)).1 ∨ d ∈ left) ∧
        d ∈ distinct r now query config candidates ∧
        d.entry.content = e.content ∧
        scoreOf r now query e ≤ d.score := by
    intro e hE
    rw [← hTake] at hE
    rcases exists_distinct_ge hScores hFree hE with ⟨d, hD, hContent, hLe⟩
    refine ⟨d, ?_, hD, hContent, hLe⟩
    have hEither := hD
    rw [hSplit] at hEither
    exact List.mem_append.mp hEither
  rw [execute_withConfig]
  constructor
  case best =>
    intro e hE hOut
    rcases hDistinct e hE with ⟨d, hHere | hLeft, hD, hContent, hLe⟩
    · left
      refine ⟨d, hHere, hContent, lt_of_le_of_ne hLe ?_⟩
      intro hSame
      rcases mem_distinct hD with ⟨hIn, hScore⟩
      refine hOut d hHere ?_
      exact List.inj_on_of_nodup_map (passing_scores hScores)
        (List.mem_of_mem_take hIn) hE
        (hScore.symm.trans hSame.symm)
    · right
      exact fun s hS => hLe.trans_lt (hBetter s hS d hLeft)
  case truncated =>
    dsimp only
    rw [hKept.flag]
    constructor
    · intro hSome
      rcases List.exists_mem_of_ne_nil left hSome with ⟨d, hLeft⟩
      have hD : d ∈ distinct r now query config candidates := by
        rw [hSplit]
        exact List.mem_append_right _ hLeft
      refine ⟨d.entry, List.mem_of_mem_take (mem_distinct hD).1, ?_⟩
      intro s hS
      exact hApart _ (List.mem_map_of_mem hS) _ (List.mem_map_of_mem hLeft)
    · intro hSome hNone
      rcases hSome with ⟨e, hE, hOut⟩
      rcases hDistinct e hE with ⟨d, hHere | hLeft, -, hContent, -⟩
      · exact hOut d hHere hContent
      · rw [hNone] at hLeft
        cases hLeft

variable {others : List MemoryEntry}

theorem passing_perm (hPerm : others.Perm candidates) :
    (passing r now query config others).Perm
      (passing r now query config candidates) :=
  hPerm.filter _

include hScores in
/- With all that pass taken, their order does not matter. -/
theorem execute_perm
    (hFew : (passing r now query config candidates).length ≤
      config.maxResults)
    (hPerm : others.Perm candidates) :
    (withConfig config).execute r now query others =
      (withConfig config).execute r now query candidates := by
  have hPassing : (passing r now query config others).Perm
      (passing r now query config candidates) := passing_perm hPerm
  have hDistinct : distinct r now query config others =
      distinct r now query config candidates := by
    have hRanked : ranked r now query
        (passing r now query config candidates) =
        ranked r now query (passing r now query config others) :=
      ranked_eq_of_perm (passing_scores hScores) hPassing.symm
    unfold distinct
    rw [List.take_of_length_le hFew,
      List.take_of_length_le (hPassing.length_eq.trans_le hFew), hRanked]
  rw [execute_withConfig, execute_withConfig, hDistinct, hPerm.length_eq]

include hScores hFree in
/- A best candidate that is taken is returned. -/
theorem exists_of_best_taken
    {b : MemoryEntry}
    (hTaken : b ∈ (passing r now query config candidates).take
      config.maxResults)
    (hBest : ∀ e ∈ passing r now query config candidates,
      scoreOf r now query e ≤ scoreOf r now query b) :
    ∃ s ∈ ((withConfig config).execute r now query
      candidates).entries, s.entry = b := by
  rcases exists_distinct_ge hScores hFree hTaken with ⟨d, hD, -, hLe⟩
  rcases mem_distinct hD with ⟨hIn, hScore⟩
  have hBelow := hBest _ (List.mem_of_mem_take hIn)
  have hEntry : d.entry = b := by
    apply List.inj_on_of_nodup_map (passing_scores hScores)
      (List.mem_of_mem_take hIn) (List.mem_of_mem_take hTaken)
    exact le_antisymm hBelow (hLe.trans_eq hScore)
  rcases enforceBudget_spec
      (distinct r now query config candidates)
      (budgetOf query) with
    ⟨left, hKept⟩
  have hSplit := hKept.split
  rw [List.nil_append] at hSplit
  have hSome : (enforceBudget
      (distinct r now query config candidates)
      (budgetOf query)).1 ≠ [] := by
    apply hKept.first
    rw [List.nil_append]
    exact List.ne_nil_of_mem hD
  have hSorted : (distinct r now query config
      candidates).Pairwise fun a b => b.score < a.score :=
    distinct_sorted hScores
  rw [execute_withConfig]
  dsimp only
  rcases List.exists_cons_of_ne_nil hSome with ⟨first, more, hFirst⟩
  rw [hFirst] at hSplit ⊢
  have hFirstIn : first ∈ distinct r now query config candidates := by
    rw [hSplit]
    exact List.mem_cons_self
  rcases mem_distinct hFirstIn with ⟨hFirstTaken, hFirstScore⟩
  have hFirstBelow := hBest _ (List.mem_of_mem_take hFirstTaken)
  rw [hSplit, List.cons_append] at hD hSorted
  rcases List.mem_cons.mp hD with hHere | hLater
  · exact ⟨first, List.mem_cons_self, hHere ▸ hEntry⟩
  · have hAbove := (List.pairwise_cons.mp hSorted).1 d hLater
    rw [hFirstScore] at hAbove
    exact absurd (hAbove.trans_le hFirstBelow) (not_lt_of_ge hLe)

include hScores in
/- The head of the ranking scores best. -/
theorem exists_best
    (hSome : passing r now query config candidates ≠ []) :
    ∃ b ∈ passing r now query config candidates,
      ∀ e ∈ passing r now query config candidates,
        scoreOf r now query e ≤ scoreOf r now query b := by
  have hRanked : ranked r now query
      (passing r now query config candidates) ≠ [] := by
    intro hNone
    have hLength := congrArg List.length hNone
    unfold ranked at hLength
    rw [List.length_mergeSort, List.length_map, List.length_nil] at hLength
    exact hSome (List.length_eq_zero_iff.mp hLength)
  rcases List.exists_cons_of_ne_nil hRanked with ⟨top, more, hTop⟩
  have hSorted : (ranked r now query
      (passing r now query config candidates)).Pairwise
        fun a b => b.score < a.score := ranked_sorted (passing_scores hScores)
  rw [hTop, List.pairwise_cons] at hSorted
  have hTopIn : top ∈ ranked r now query
      (passing r now query config candidates) := by
    rw [hTop]
    exact List.mem_cons_self
  rcases mem_ranked.mp hTopIn with ⟨b, hB, hEq⟩
  subst hEq
  refine ⟨b, hB, ?_⟩
  intro e hE
  have hIn : scoredOf r now query e ∈ ranked r now query
      (passing r now query config candidates) := mem_ranked.mpr ⟨e, hE, rfl⟩
  rw [hTop] at hIn
  rcases List.mem_cons.mp hIn with hHere | hLater
  · exact (congrArg ScoredEntry.score hHere).le
  · exact le_of_lt (hSorted.1 _ hLater)

include hScores hFree in
/- With one that passes not taken, the order matters. -/
theorem exists_perm_of_many
    (hSome : 0 < config.maxResults)
    (hMany : config.maxResults <
      (passing r now query config candidates).length) :
    ∃ first last : List MemoryEntry,
      first.Perm candidates ∧ last.Perm candidates ∧
      (withConfig config).execute r now query first ≠
        (withConfig config).execute r now query last := by
  have hPass : passing r now query config candidates ≠ [] := by
    intro hNone
    rw [hNone] at hMany
    cases hMany
  rcases exists_best hScores hPass with ⟨b, hB, hBest⟩
  -- It may come first of all candidates, or last.
  rcases List.append_of_mem (List.mem_filter.mp hB).1 with
    ⟨pre, post, hCandidates⟩
  have hPasses := (List.mem_filter.mp hB).2
  have hFirst : (b :: (pre ++ post)).Perm candidates := by
    rw [hCandidates]
    exact List.perm_middle.symm
  have hLast : (pre ++ post ++ [b]).Perm candidates :=
    (List.perm_append_singleton b (pre ++ post)).trans hFirst
  have hPassingFirst :
      passing r now query config (b :: (pre ++ post)) =
        b :: passing r now query config (pre ++ post) :=
    List.filter_cons_of_pos hPasses
  have hPassingLast :
      passing r now query config (pre ++ post ++ [b]) =
        passing r now query config (pre ++ post) ++ [b] := by
    unfold passing
    rw [List.filter_append]
    congr 1
    exact List.filter_cons_of_pos hPasses
  have hPassingPerm :
      (passing r now query config (b :: (pre ++ post))).Perm
        (passing r now query config candidates) := passing_perm hFirst
  have hLength := hPassingPerm.length_eq
  rw [hPassingFirst, List.length_cons] at hLength
  refine ⟨_, _, hFirst, hLast, ?_⟩
  intro hSame
  -- First of all it is returned.
  have hTaken : b ∈
      (passing r now query config (b :: (pre ++ post))).take
        config.maxResults := by
    rw [hPassingFirst, List.take_cons hSome]
    exact List.mem_cons_self
  have hScoresFirst : ((b :: (pre ++ post)).map
      (scoreOf r now query)).Nodup := (hFirst.map _).nodup_iff.mpr hScores
  have hFreeFirst : CollisionFree r.fingerprint
      ((b :: (pre ++ post)).map (·.content)) :=
    hFree.subset (hFirst.map _).subset
  rcases exists_of_best_taken hScoresFirst hFreeFirst hTaken
      (fun e hE => hBest e (hPassingPerm.subset hE)) with
    ⟨s, hS, hEntry⟩
  -- Last of all it is not.
  rw [hSame] at hS
  have hScoresLast : ((pre ++ post ++ [b]).map
      (scoreOf r now query)).Nodup := (hLast.map _).nodup_iff.mpr hScores
  have hShort : (passing r now query config
      (pre ++ post ++ [b])).take config.maxResults =
        (passing r now query config (pre ++ post)).take
          config.maxResults := by
    rw [hPassingLast]
    exact List.take_append_of_le_length (by omega)
  rw [execute_withConfig] at hS
  rcases enforceBudget_spec
      (distinct r now query config (pre ++ post ++ [b]))
      (budgetOf query) with
    ⟨left, hKept⟩
  have hSplit := hKept.split
  rw [List.nil_append] at hSplit
  have hIn : s ∈ distinct r now query config (pre ++ post ++ [b]) := by
    rw [hSplit]
    exact List.mem_append_left _ hS
  have hEarlier := (mem_distinct hIn).1
  rw [hShort, hEntry] at hEarlier
  have hApart : ((passing r now query config
      (pre ++ post ++ [b])).map (scoreOf r now query)).Nodup :=
    passing_scores hScoresLast
  rw [hPassingLast, List.map_append, List.nodup_append]
    at hApart
  exact hApart.2.2 _
    (List.mem_map_of_mem (List.mem_of_mem_take hEarlier)) _
    (List.mem_singleton_self _) rfl

-- Global And Order-Free

/- The best entries, whatever the order of the candidates. -/
structure Best
    (r : Readings) (now : ℚ) (query : RetrievalQuery)
    (config : RetrievalPipelineConfig) (candidates : List MemoryEntry) :
    Prop where
  sound : Sound r now query config candidates
    ((withConfig config).execute r now query candidates)
  complete : Complete r now query config candidates
    ((withConfig config).execute r now query candidates)
  orderFree : ∀ others, others.Perm candidates →
    (withConfig config).execute r now query others =
      (withConfig config).execute r now query candidates

theorem best_iff
    (r : Readings) (now : ℚ) (query : RetrievalQuery)
    (config : RetrievalPipelineConfig) (candidates : List MemoryEntry)
    (hScores : (candidates.map (scoreOf r now query)).Nodup)
    (hFree : CollisionFree r.fingerprint (candidates.map (·.content))) :
    Best r now query config candidates ↔
      (passing r now query config candidates).length ≤
        config.maxResults := by
  constructor
  · intro hBest
    by_contra hMany
    rw [Nat.not_le] at hMany
    rcases Nat.eq_zero_or_pos config.maxResults with
      hNone | hSome
    · -- Nothing is taken, and nothing is said to be left out.
      have hEmpty : distinct r now query config candidates = [] := by
        apply List.length_eq_zero_iff.mp
        have hLe : (distinct r now query config
            candidates).length ≤ config.maxResults := length_distinct_le
        omega
      have hTruncated := hBest.complete.truncated
      rw [execute_withConfig, hEmpty] at hTruncated
      rw [hNone] at hMany
      rcases List.exists_mem_of_length_pos hMany with ⟨e, hE⟩
      have hFlag := hTruncated.mpr ⟨e, hE, by
        intro s hS
        cases hS⟩
      cases hFlag
    · rcases exists_perm_of_many hScores hFree hSome hMany with
        ⟨first, last, hFirst, hLast, hNe⟩
      exact hNe ((hBest.orderFree first hFirst).trans
        (hBest.orderFree last hLast).symm)
  · intro hFew
    exact ⟨sound_execute hScores,
      complete_execute hScores hFree hFew,
      fun others hPerm => execute_perm hScores hFew hPerm⟩

/- Hashes by length, and a clock that stands still. -/
def plainReadings : Readings where
  lower := fun text => text
  exact := fun _ => 0
  fingerprint := fun text => UInt64.ofNat text.length

def memoryOf (id content : String) : MemoryEntry :=
  MemoryEntry.new id "s" "a" .semantic content 0

def teaQuery : RetrievalQuery where
  queryText := "tea"
  sessionId := none
  agentId := none
  memoryTypes := []
  limit := 20
  tags := []
  tokenBudget := 4000
  timeRangeSecs := none

def oneResult : RetrievalPipelineConfig where
  minScoreThreshold := 0
  maxResults := 1

/- The first does not answer the query, the second does. -/
def waterAndTea : List MemoryEntry :=
  [memoryOf "1" "water", memoryOf "2" "tea"]

theorem waterAndTea_scores :
    (waterAndTea.map (scoreOf plainReadings 0 teaQuery)).Nodup := by
  decide +kernel

theorem waterAndTea_free : CollisionFree
    plainReadings.fingerprint
    (waterAndTea.map (·.content)) := by
  unfold CollisionFree
  decide +kernel

/- With room for both, they are the best. -/
theorem best_of_two :
    Best plainReadings 0 teaQuery
      { oneResult with maxResults := 2 } waterAndTea :=
  (best_iff plainReadings 0 teaQuery
    { oneResult with maxResults := 2 } waterAndTea
    waterAndTea_scores waterAndTea_free).mpr (by decide +kernel)

/- With room for one, the first is taken for the best. -/
theorem cap_before_ranking :
    ¬ Best plainReadings 0 teaQuery oneResult waterAndTea ∧
      (((withConfig oneResult).execute plainReadings 0 teaQuery
        waterAndTea).entries.map (·.entry.content) = ["water"] ∧
      ((withConfig oneResult).execute plainReadings 0 teaQuery
        waterAndTea).truncated = false) := by
  constructor
  · intro hBest
    have hFew := (best_iff plainReadings 0 teaQuery oneResult
      waterAndTea waterAndTea_scores waterAndTea_free).mp hBest
    exact absurd hFew (by decide +kernel)
  · have hPassing : passing plainReadings 0 teaQuery oneResult
        waterAndTea = waterAndTea := by
      apply List.filter_eq_self.mpr
      decide +kernel
    have hDistinct : distinct plainReadings 0 teaQuery
        oneResult waterAndTea =
          [scoredOf plainReadings 0 teaQuery (memoryOf "1" "water")] := by
      have hTaken : waterAndTea.take oneResult.maxResults =
          [memoryOf "1" "water"] := rfl
      unfold distinct
      rw [hPassing, hTaken, ranked, List.map_singleton,
        List.mergeSort_singleton]
      rfl
    rw [execute_withConfig, hDistinct]
    exact ⟨rfl, rfl⟩

end RetrievalPipeline

end Memory
