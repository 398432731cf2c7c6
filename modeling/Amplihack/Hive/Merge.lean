import Mathlib.Algebra.Order.Ring.Rat
import Mathlib.Data.Prod.Lex
import Mathlib.Order.Bounds.Basic
import Amplihack.Base.FirstBy
import Amplihack.Hive.Shard

/-
  One ranked list from the ranked replies of the shards.
-/

-- The Merge

namespace Hive

open Base

variable {F : Type}

def tiebreak (f : Fact F) : String ×ₗ String ×ₗ String :=
  toLex (f.sourceAgent, toLex (f.factId, f.content))

/- What a place in a reply is worth. -/
def positionScore (posDecrement : ℚ) (rank : ℕ) : ℚ :=
  max (1 - rank * posDecrement) 0

/- What is held of a content once another fact has it. -/
def better
    (score : ℚ) (fact : Fact F) :
    Option (ℚ × Fact F) → ℚ × Fact F
| none => (score, fact)
| some (s, f) =>
  if s < score ∨ score = s ∧ tiebreak fact < tiebreak f then
    (score, fact)
  else (s, f)

def ranked (posDecrement : ℚ) (facts : List (Fact F)) :
    List (ℚ × Fact F) :=
  facts.zipIdx.map fun e => (positionScore posDecrement e.2, e.1)

def hold
    (contentHash : String → String)
    (best : Dict String (ℚ × Fact F)) (e : ℚ × Fact F) :
    Dict String (ℚ × Fact F) :=
  let key := contentHash e.2.content
  best.insert key (better e.1 e.2 (best.get? key))

/- The replies are read in the order of the agents' ids. -/
def bestByContent
    (contentHash : String → String)
    (resultsByAgent : List (String × List (Fact F))) (posDecrement : ℚ) :
    Dict String (ℚ × Fact F) :=
  let sorted := resultsByAgent.mergeSort fun a b => a.1 ≤ b.1
  sorted.foldl
    (fun best reply =>
      (ranked posDecrement reply.2).foldl (hold contentHash) best)
    .empty

def mergeOrder (a b : ℚ × Fact F) : Bool :=
  b.1 < a.1 || (a.1 == b.1 && tiebreak a.2 ≤ tiebreak b.2)

/- `intoValues` is the order in which the map gives them up. -/
def mergeScored
    (contentHash : String → String)
    (intoValues : Dict String (ℚ × Fact F) → List (ℚ × Fact F))
    (resultsByAgent : List (String × List (Fact F))) (posDecrement : ℚ) :
    List (ℚ × Fact F) :=
  (intoValues (bestByContent contentHash resultsByAgent
    posDecrement)).mergeSort mergeOrder

def mergeRankedShardResults
    (contentHash : String → String)
    (intoValues : Dict String (ℚ × Fact F) → List (ℚ × Fact F))
    (resultsByAgent : List (String × List (Fact F))) (limit : ℕ)
    (posDecrement : ℚ) :
    List (Fact F) :=
  ((mergeScored contentHash intoValues resultsByAgent
    posDecrement).take limit).map (·.2)

-- What Is Held Of A Content

/- Every fact of every reply, with what its place is worth. -/
def occurrences
    (resultsByAgent : List (String × List (Fact F))) (posDecrement : ℚ) :
    List (ℚ × Fact F) :=
  resultsByAgent.flatMap fun reply => ranked posDecrement reply.2

/- The map holds the best of what was seen for each hash. -/
structure Best
    (contentHash : String → String) (seen : List (ℚ × Fact F))
    (best : Dict String (ℚ × Fact F)) :
    Prop where
  sound : ∀ key e, best.get? key = some e →
    e ∈ seen ∧ contentHash e.2.content = key ∧
      ∀ d ∈ seen, contentHash d.2.content = key → d.1 ≤ e.1
  complete : ∀ e ∈ seen, (best.get? (contentHash e.2.content)).isSome

variable {contentHash : String → String}
variable {seen : List (ℚ × Fact F)}
variable {best : Dict String (ℚ × Fact F)}

theorem best_empty :
    Best contentHash ([] : List (ℚ × Fact F)) .empty where
  sound := by
    intro key e hGet
    rw [Dict.get?_empty] at hGet
    cases hGet
  complete := by
    intro e hE
    exact (List.not_mem_nil hE).elim

/- What comes is held, or what is held stays. -/
theorem better_cases
    (e : ℚ × Fact F) (held : Option (ℚ × Fact F)) :
    better e.1 e.2 held = e ∧ (∀ d ∈ held, d.1 ≤ e.1) ∨
      (∃ d, held = some d ∧ better e.1 e.2 held = d ∧ e.1 ≤ d.1) := by
  cases held with
  | none =>
    refine Or.inl ⟨rfl, ?_⟩
    intro d hD
    cases hD
  | some d =>
    by_cases hTake : d.1 < e.1 ∨ e.1 = d.1 ∧ tiebreak e.2 < tiebreak d.2
    · refine Or.inl ⟨if_pos hTake, ?_⟩
      intro c hC
      cases hC
      rcases hTake with hLess | hTie
      · exact hLess.le
      · exact hTie.1.ge
    · refine Or.inr ⟨d, rfl, if_neg hTake, ?_⟩
      exact not_lt.mp fun hLess => hTake (Or.inl hLess)

theorem Best.hold
    (hBest : Best contentHash seen best) (e : ℚ × Fact F) :
    Best contentHash (seen ++ [e])
      (hold contentHash best e) where
  sound := by
    intro key c hGet
    unfold Hive.hold at hGet
    dsimp only at hGet
    rw [Dict.get?_insert] at hGet
    split at hGet
    next hKey =>
      cases hGet
      rcases better_cases e
          (best.get? (contentHash e.2.content)) with
        ⟨hNew, hLess⟩ | ⟨d, hHeld, hOld, hLess⟩
      · rw [hNew]
        refine ⟨by simp, hKey.symm, ?_⟩
        intro d hD hHash
        rcases List.mem_append.mp hD with hSeen | hSelf
        · have hSome := hBest.complete d hSeen
          rw [hHash, hKey] at hSome
          obtain ⟨c, hC⟩ := Option.isSome_iff_exists.mp hSome
          have hMost := (hBest.sound _ c hC).2.2 d hSeen (hHash.trans hKey)
          exact hMost.trans (hLess c hC)
        · rw [List.mem_singleton.mp hSelf]
      · obtain ⟨hIn, hHash, hMost⟩ := hBest.sound _ d hHeld
        rw [hOld]
        refine ⟨List.mem_append_left _ hIn, hHash.trans hKey.symm, ?_⟩
        intro c hC hOther
        rcases List.mem_append.mp hC with hSeen | hSelf
        · exact hMost c hSeen (hOther.trans hKey)
        · rw [List.mem_singleton.mp hSelf]
          exact hLess
    next hKey =>
      obtain ⟨hIn, hHash, hMost⟩ := hBest.sound key c hGet
      refine ⟨List.mem_append_left _ hIn, hHash, ?_⟩
      intro d hD hOther
      rcases List.mem_append.mp hD with hSeen | hSelf
      · exact hMost d hSeen hOther
      · rw [List.mem_singleton.mp hSelf] at hOther
        exact absurd hOther.symm hKey
  complete := by
    intro c hC
    unfold Hive.hold
    dsimp only
    rw [Dict.get?_insert]
    split
    · rfl
    next hKey =>
      rcases List.mem_append.mp hC with hSeen | hSelf
      · exact hBest.complete c hSeen
      · rw [List.mem_singleton.mp hSelf] at hKey
        exact absurd rfl hKey

theorem Best.foldl_hold
    (hBest : Best contentHash seen best) (more : List (ℚ × Fact F)) :
    Best contentHash (seen ++ more)
      (more.foldl (Hive.hold contentHash) best) := by
  induction more generalizing seen best with
  | nil =>
    rw [List.append_nil]
    exact hBest
  | cons e more ih =>
    have hRest := ih (hBest.hold e)
    rw [List.append_assoc] at hRest
    exact hRest

/- Only what was seen counts, not in which order. -/
theorem Best.congr
    {others : List (ℚ × Fact F)} (hBest : Best contentHash seen best)
    (hSame : ∀ e, e ∈ seen ↔ e ∈ others) :
    Best contentHash others best where
  sound := by
    intro key e hGet
    obtain ⟨hIn, hHash, hMost⟩ := hBest.sound key e hGet
    refine ⟨(hSame e).mp hIn, hHash, ?_⟩
    intro d hD
    exact hMost d ((hSame d).mpr hD)
  complete := fun e hE => hBest.complete e ((hSame e).mpr hE)

variable {resultsByAgent : List (String × List (Fact F))}
variable {posDecrement : ℚ}

theorem bestByContent_eq_foldl :
    bestByContent contentHash resultsByAgent posDecrement =
      (occurrences
        (resultsByAgent.mergeSort fun a b => a.1 ≤ b.1)
        posDecrement).foldl (hold contentHash) .empty := by
  unfold bestByContent occurrences
  rw [List.foldl_flatMap]

theorem best_bestByContent :
    Best contentHash (occurrences resultsByAgent posDecrement)
      (bestByContent contentHash resultsByAgent posDecrement) := by
  rw [bestByContent_eq_foldl]
  apply (best_empty.foldl_hold _).congr
  intro e
  unfold occurrences
  rw [List.nil_append, List.mem_flatMap, List.mem_flatMap]
  simp only [List.mem_mergeSort]

-- The Order Of The Replies

def contents (resultsByAgent : List (String × List (Fact F))) :
    List String :=
  resultsByAgent.flatMap fun reply => reply.2.map Fact.content

/- The values of the map, in whatever order. -/
def ValuesOf
    (intoValues : Dict String (ℚ × Fact F) → List (ℚ × Fact F)) :
    Prop :=
  ∀ best, (intoValues best).Perm (best.entries.map Prod.snd)

/- What all the occurrences of a content are worth. -/
def scoresOf
    (resultsByAgent : List (String × List (Fact F)))
    (posDecrement : ℚ) (content : String) :
    Set ℚ :=
  {s | ∃ f, (s, f) ∈ occurrences resultsByAgent posDecrement ∧
    f.content = content}

def mergeKey (e : ℚ × Fact F) :
    ℚᵒᵈ ×ₗ String ×ₗ String ×ₗ String :=
  toLex (OrderDual.toDual e.1, tiebreak e.2)

theorem mergeOrder_iff (a b : ℚ × Fact F) :
    mergeOrder a b = true ↔ mergeKey a ≤ mergeKey b := by
  unfold mergeOrder mergeKey
  rw [Bool.or_eq_true, Bool.and_eq_true, decide_eq_true_iff,
    decide_eq_true_iff, beq_iff_eq, Prod.Lex.toLex_le_toLex,
    OrderDual.toDual_lt_toDual, OrderDual.toDual_inj]

theorem content_of_tiebreak
    {f g : Fact F} (hSame : tiebreak f = tiebreak g) :
    f.content = g.content := by
  have hPair := toLex_inj.mp hSame
  have hInner := toLex_inj.mp (Prod.ext_iff.mp hPair).2
  exact (Prod.ext_iff.mp hInner).2

theorem mem_contents
    {e : ℚ × Fact F} (hE : e ∈ occurrences resultsByAgent posDecrement) :
    e.2.content ∈ contents resultsByAgent := by
  obtain ⟨reply, hReply, hRanked⟩ := List.mem_flatMap.mp hE
  obtain ⟨⟨f, rank⟩, hF, rfl⟩ := List.mem_map.mp hRanked
  refine List.mem_flatMap.mpr ⟨reply, hReply, ?_⟩
  exact List.mem_map_of_mem (List.fst_mem_of_mem_zipIdx hF)

theorem exists_occurrence
    {content : String} (posDecrement : ℚ)
    (hContent : content ∈ contents resultsByAgent) :
    ∃ e ∈ occurrences resultsByAgent posDecrement, e.2.content = content := by
  obtain ⟨reply, hReply, hMap⟩ := List.mem_flatMap.mp hContent
  obtain ⟨f, hF, rfl⟩ := List.mem_map.mp hMap
  obtain ⟨rank, hRank, hGet⟩ := List.getElem_of_mem hF
  refine ⟨(positionScore posDecrement rank, f), ?_, rfl⟩
  refine List.mem_flatMap.mpr ⟨reply, hReply, ?_⟩
  refine List.mem_map.mpr ⟨(f, rank), ?_, rfl⟩
  rw [List.mk_mem_zipIdx_iff_getElem?, List.getElem?_eq_some_iff]
  exact ⟨hRank, hGet⟩

section Merged

variable {intoValues intoOthers :
  Dict String (ℚ × Fact F) → List (ℚ × Fact F)}

theorem mem_mergeScored
    (hValues : ValuesOf intoValues) {e : ℚ × Fact F} :
    e ∈ mergeScored contentHash intoValues resultsByAgent posDecrement ↔
      ∃ key, (bestByContent contentHash resultsByAgent
        posDecrement).get? key = some e := by
  unfold mergeScored
  rw [List.mem_mergeSort, (hValues _).mem_iff, List.mem_map]
  constructor
  · rintro ⟨⟨key, d⟩, hIn, rfl⟩
    exact ⟨key, Dict.get?_of_mem_entries hIn⟩
  · rintro ⟨key, hGet⟩
    exact ⟨(key, e), Dict.mem_entries_of_get? hGet, rfl⟩

/- One entry for each hash, so one for each content. -/
theorem nodup_mergeScored (hValues : ValuesOf intoValues) :
    ((mergeScored contentHash intoValues resultsByAgent
      posDecrement).map fun e => e.2.content).Nodup := by
  have hBest : Best contentHash
      (occurrences resultsByAgent posDecrement)
      (bestByContent contentHash resultsByAgent
        posDecrement) := best_bestByContent
  unfold mergeScored
  rw [((List.mergeSort_perm _ _).map _).nodup_iff,
    ((hValues _).map _).nodup_iff, List.map_map]
  apply List.Nodup.of_map contentHash
  have hKeys := (bestByContent contentHash resultsByAgent
    posDecrement).nodupKeys
  rw [List.map_map]
  convert hKeys using 1
  apply List.map_congr_left
  rintro ⟨key, e⟩ hIn
  exact (hBest.sound key e (Dict.get?_of_mem_entries hIn)).2.1

/- Neither the replies nor the map decide by their order. -/
theorem mergeScored_of_perm
    {others : List (String × List (Fact F))}
    (hIds : (resultsByAgent.map Prod.fst).Nodup)
    (hValues : ValuesOf intoValues) (hOthers : ValuesOf intoOthers)
    (hPerm : others.Perm resultsByAgent) :
    mergeScored contentHash intoOthers others posDecrement =
      mergeScored contentHash intoValues resultsByAgent
        posDecrement := by
  have hSorted :
      (others.mergeSort fun a b => a.1 ≤ b.1) =
        resultsByAgent.mergeSort fun a b => a.1 ≤ b.1 := by
    have hLe : ∀ a b : String × List (Fact F),
        decide (a.1 ≤ b.1) = true ↔ a.1 ≤ b.1 :=
      fun _ _ => decide_eq_true_iff
    symm
    apply mergeSort_eq_of_perm hLe _ hPerm.symm
    intro a hA b hB hSame
    exact List.inj_on_of_nodup_map hIds hA hB hSame
  have hMap : bestByContent contentHash others posDecrement =
      bestByContent contentHash resultsByAgent
        posDecrement := by
    unfold bestByContent
    rw [hSorted]
  unfold mergeScored
  rw [hMap]
  apply mergeSort_eq_of_perm mergeOrder_iff
  · intro a hA b hB hSame
    have hPair := toLex_inj.mp hSame
    have hContent := content_of_tiebreak (Prod.ext_iff.mp hPair).2
    have hNodup : ((mergeScored contentHash intoOthers
        resultsByAgent posDecrement).map fun e => e.2.content).Nodup :=
      nodup_mergeScored hOthers
    refine List.inj_on_of_nodup_map hNodup ?_ ?_ hContent
    · exact List.mem_mergeSort.mpr hA
    · exact List.mem_mergeSort.mpr hB
  · exact (hOthers _).trans (hValues _).symm

/- What is kept with a content is the best it was worth. -/
theorem isGreatest_of_mem
    (hValues : ValuesOf intoValues) {e : ℚ × Fact F}
    (hE : e ∈ mergeScored contentHash intoValues resultsByAgent
      posDecrement) :
    IsGreatest (scoresOf resultsByAgent posDecrement e.2.content) e.1 := by
  obtain ⟨key, hGet⟩ := (mem_mergeScored hValues).mp hE
  obtain ⟨hIn, hHash, hMost⟩ := best_bestByContent.sound key e hGet
  constructor
  · exact ⟨e.2, hIn, rfl⟩
  · rintro s ⟨f, hF, hContent⟩
    apply hMost (s, f) hF
    dsimp only
    rw [hContent, hHash]

theorem exists_mem_mergeScored
    (hFree : CollisionFree contentHash (contents resultsByAgent))
    (hValues : ValuesOf intoValues) {content : String}
    (hContent : content ∈ contents resultsByAgent) :
    ∃ e ∈ mergeScored contentHash intoValues resultsByAgent
        posDecrement, e.2.content = content := by
  obtain ⟨d, hD, rfl⟩ := exists_occurrence posDecrement hContent
  have hBest : Best contentHash
      (occurrences resultsByAgent posDecrement)
      (bestByContent contentHash resultsByAgent
        posDecrement) := best_bestByContent
  obtain ⟨e, hGet⟩ :=
    Option.isSome_iff_exists.mp (hBest.complete d hD)
  obtain ⟨hIn, hHash, -⟩ := hBest.sound _ e hGet
  refine ⟨e, (mem_mergeScored hValues).mpr ⟨_, hGet⟩, ?_⟩
  exact hFree _ (mem_contents hIn) _ (mem_contents hD) hHash

end Merged

/-
  The merged list is the same for every order of the replies
  and of the map. It has each content at most once, the best
  first, and a content counts with the best of its places.
-/
theorem mergeRankedShardResults_of_perm
    {contentHash : String → String}
    {intoValues : Dict String (ℚ × Fact F) → List (ℚ × Fact F)}
    {resultsByAgent : List (String × List (Fact F))} (limit : ℕ)
    (posDecrement : ℚ) (hIds : (resultsByAgent.map Prod.fst).Nodup)
    (hFree : CollisionFree contentHash (contents resultsByAgent))
    (hValues : ValuesOf intoValues) :
    let scored := mergeScored contentHash intoValues
      resultsByAgent posDecrement
    let merged := mergeRankedShardResults contentHash intoValues
      resultsByAgent limit posDecrement
    (∀ intoOthers others, ValuesOf intoOthers →
      others.Perm resultsByAgent →
        mergeRankedShardResults contentHash intoOthers others
          limit posDecrement = merged) ∧
    (merged.map Fact.content).Nodup ∧
    merged.length ≤ limit ∧
    merged = (scored.take limit).map (·.2) ∧
    (scored.Pairwise fun d e => e.1 ≤ d.1) ∧
    (∀ e ∈ scored, IsGreatest
      (scoresOf resultsByAgent posDecrement e.2.content) e.1) ∧
    ∀ content ∈ contents resultsByAgent,
      ∃ e ∈ scored, e.2.content = content := by
  intro scored merged
  refine ⟨?_, ?_, ?_, rfl, ?_, ?_, ?_⟩
  · intro intoOthers others hOthers hPerm
    unfold mergeRankedShardResults
    rw [mergeScored_of_perm hIds hValues hOthers hPerm]
    rfl
  · have hNodup : (scored.map fun e => e.2.content).Nodup :=
      nodup_mergeScored hValues
    change (((scored.take limit).map (·.2)).map Fact.content).Nodup
    rw [List.map_map]
    exact hNodup.sublist ((List.take_sublist limit scored).map _)
  · change ((scored.take limit).map (·.2)).length ≤ limit
    rw [List.length_map, List.length_take]
    exact min_le_left _ _
  · have hSorted := pairwise_mergeSort mergeOrder_iff
      (intoValues (bestByContent contentHash resultsByAgent posDecrement))
    refine hSorted.imp ?_
    intro d e hKeys
    rcases Prod.Lex.toLex_le_toLex.mp hKeys with hLess | hTie
    · exact (OrderDual.toDual_lt_toDual.mp hLess).le
    · exact (OrderDual.toDual_inj.mp hTie.1).ge
  · intro e hE
    exact isGreatest_of_mem hValues hE
  · intro content hContent
    exact exists_mem_mergeScored hFree hValues hContent

-- A Sample Merge

def sampleFact (factId : String) : Fact ℕ where
  factId := factId
  content := "tea"
  concept := ""
  confidence := 1
  sourceAgent := "a"
  tags := []
  createdAt := 0
  ringPosition := 0

/- The same content from two agents. -/
def sampleReplies : List (String × List (Fact ℕ)) :=
  [("b", [sampleFact "f2"]), ("a", [sampleFact "f1"])]

theorem mergeRankedShardResults_of_two :
    (mergeRankedShardResults id (fun d => d.entries.map (·.2))
      sampleReplies 5 1).length ≤ 5 := by
  have hFree : CollisionFree id (contents sampleReplies) :=
    fun _ _ _ _ hSame => hSame
  have hValues : ValuesOf
      fun d : Dict String (ℚ × Fact ℕ) =>
        d.entries.map Prod.snd :=
    fun _ => List.Perm.refl _
  have hMerged := mergeRankedShardResults_of_perm 5 1
    (by decide) hFree hValues
  exact hMerged.2.2.1

end Hive
