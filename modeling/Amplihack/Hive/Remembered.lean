import Amplihack.Hive.Shard

/-
  When a shard still has every content it took in.
-/

-- What Is Promised

namespace Hive

open Base

variable {F : Type}

namespace ShardStore

/- What `store` returns. -/
def accepts (s : ShardStore F) (fact : Fact F) : Bool :=
  !(s.contentIndex.get? (hashKey fact.content)).isSome

def storeAll (calls : List (Fact F)) : ShardStore F :=
  calls.foldl store new

/-
  Only a content that is there is refused, what was taken in
  stays, and the index leads to a fact with the content.
-/
structure Remembers (calls : List (Fact F)) : Prop where
  refuses : ∀ before fact later,
    calls = before ++ fact :: later →
      (storeAll before).accepts fact = false →
        (storeAll before).has fact.content
  kept : ∀ before fact between later,
    calls = (before ++ fact :: between) ++ later →
      (storeAll before).accepts fact = true →
        (storeAll (before ++ fact :: between)).has fact.content
  indexed : ∀ before later, calls = before ++ later →
    ∀ hash id, (storeAll before).contentIndex.get? hash =
      some id →
        ∃ fact, (storeAll before).facts.get? id = some fact ∧
          hashKey fact.content = hash

end ShardStore

-- The First Fact Of Each Content

def keep (kept : List (Fact F)) (fact : Fact F) :
    List (Fact F) :=
  if kept.any (·.content == fact.content) then kept
  else kept ++ [fact]

def firsts (calls : List (Fact F)) : List (Fact F) :=
  calls.foldl keep []

theorem firsts_append_singleton
    (calls : List (Fact F)) (fact : Fact F) :
    firsts (calls ++ [fact]) = keep (firsts calls) fact :=
  List.foldl_append

theorem any_content_iff
    {kept : List (Fact F)} {content : String} :
    kept.any (·.content == content) = true ↔
      content ∈ kept.map Fact.content := by
  rw [List.any_eq_true, List.mem_map]
  simp only [beq_iff_eq]

theorem mem_content_keep
    (kept : List (Fact F)) (fact : Fact F) {content : String} :
    content ∈ (keep kept fact).map Fact.content ↔
      content ∈ kept.map Fact.content ∨ content = fact.content := by
  unfold keep
  split
  next hThere =>
    rw [any_content_iff] at hThere
    constructor
    · exact Or.inl
    · rintro (hIn | rfl)
      · exact hIn
      · exact hThere
  next => simp

theorem mem_content_firsts
    (calls : List (Fact F)) {content : String} :
    content ∈ (firsts calls).map Fact.content ↔
      content ∈ calls.map Fact.content := by
  induction calls using List.reverseRecOn with
  | nil => rfl
  | append_singleton calls fact ih =>
    rw [firsts_append_singleton, mem_content_keep, ih,
      List.map_append, List.mem_append]
    simp

theorem nodup_content_firsts (calls : List (Fact F)) :
    ((firsts calls).map Fact.content).Nodup := by
  induction calls using List.reverseRecOn with
  | nil => exact List.nodup_nil
  | append_singleton calls fact ih =>
    rw [firsts_append_singleton]
    unfold keep
    split
    · exact ih
    next hNew =>
      rw [any_content_iff] at hNew
      rw [List.map_append, List.nodup_append]
      refine ⟨ih, List.nodup_singleton _, ?_⟩
      rintro c hC d hD rfl
      rw [List.map_singleton, List.mem_singleton] at hD
      rw [hD] at hC
      exact hNew hC

theorem prefix_firsts_append (calls more : List (Fact F)) :
    firsts calls <+: firsts (calls ++ more) := by
  induction more using List.reverseRecOn with
  | nil => rw [List.append_nil]
  | append_singleton more fact ih =>
    rw [← List.append_assoc, firsts_append_singleton]
    apply ih.trans
    unfold keep
    split
    · exact List.prefix_rfl
    · exact List.prefix_append _ _

/- It was called when its content had not been seen. -/
theorem split_of_mem_firsts
    {calls : List (Fact F)} {fact : Fact F} (hFirst : fact ∈ firsts calls) :
    ∃ before later, calls = before ++ fact :: later ∧
      fact.content ∉ before.map Fact.content := by
  induction calls using List.reverseRecOn with
  | nil => exact (List.not_mem_nil hFirst).elim
  | append_singleton calls last ih =>
    rw [firsts_append_singleton] at hFirst
    have hCases : fact ∈ firsts calls ∨
        fact.content ∉ calls.map Fact.content ∧ fact = last := by
      unfold keep at hFirst
      split at hFirst
      · exact Or.inl hFirst
      next hNew =>
        rw [any_content_iff, mem_content_firsts] at hNew
        rcases List.mem_append.mp hFirst with hIn | hLast
        · exact Or.inl hIn
        · rw [List.mem_singleton] at hLast
          subst hLast
          exact Or.inr ⟨hNew, rfl⟩
    rcases hCases with hIn | ⟨hNew, rfl⟩
    · obtain ⟨before, later, rfl, hUnseen⟩ := ih hIn
      exact ⟨before, later ++ [last], by simp, hUnseen⟩
    · exact ⟨calls, [], rfl, hNew⟩

theorem CollisionFree.of_split
    {calls before later : List (Fact F)} {fact : Fact F}
    (hFree : CollisionFree hashKey (calls.map Fact.content))
    (hCalls : calls = before ++ fact :: later) :
    CollisionFree hashKey
      (fact.content :: (firsts before).map Fact.content) := by
  apply hFree.subset
  intro c hC
  rw [List.mem_cons, mem_content_firsts] at hC
  rw [hCalls, List.map_append, List.mem_append]
  rcases hC with rfl | hIn
  · exact Or.inr List.mem_cons_self
  · exact Or.inl hIn

-- What A Shard Holds

namespace ShardStore

/- By id the last that was kept, by hash the first. -/
structure Holds (kept : List (Fact F)) (s : ShardStore F) :
    Prop where
  facts : ∀ id, s.facts.get? id = kept.reverse.find? (·.factId == id)
  index : ∀ hash, s.contentIndex.get? hash =
    (kept.find? (hashKey ·.content == hash)).map Fact.factId

variable {s : ShardStore F}
variable {kept : List (Fact F)}

theorem accepts_iff
    {fact : Fact F} (hHolds : s.Holds kept)
    (hFree : CollisionFree hashKey (fact.content :: kept.map Fact.content)) :
    s.accepts fact = true ↔ fact.content ∉ kept.map Fact.content := by
  unfold accepts
  rw [hHolds.index, Option.isSome_map, Bool.not_eq_true',
    Bool.eq_false_iff, ne_eq, List.find?_isSome, List.mem_map]
  constructor
  · rintro hNone ⟨f, hF, hSame⟩
    exact hNone ⟨f, hF, by rw [hSame, beq_self_eq_true]⟩
  · rintro hNew ⟨f, hF, hHash⟩
    rw [beq_iff_eq] at hHash
    refine hNew ⟨f, hF, ?_⟩
    exact hFree _ (List.mem_cons_of_mem _
      (List.mem_map_of_mem hF)) _ List.mem_cons_self hHash

theorem Holds.store
    {fact : Fact F} (hHolds : s.Holds kept)
    (hFree : CollisionFree hashKey (fact.content :: kept.map Fact.content)) :
    (s.store fact).Holds (keep kept fact) := by
  have hAccepts := accepts_iff hHolds hFree
  unfold accepts at hAccepts
  unfold ShardStore.store keep
  by_cases hThere : fact.content ∈ kept.map Fact.content
  · rw [if_pos (any_content_iff.mpr hThere), if_pos]
    · exact hHolds
    · by_contra hNone
      rw [Bool.not_eq_true] at hNone
      exact hAccepts.mp (by rw [hNone]; rfl) hThere
  · have hNone : s.contentIndex.get? (hashKey fact.content) =
        none := by
      have hNot := hAccepts.mpr hThere
      rw [Bool.not_eq_true', Option.isSome_eq_false_iff,
        Option.isNone_iff_eq_none] at hNot
      exact hNot
    rw [if_neg (by rw [any_content_iff]; exact hThere),
      if_neg (by rw [hNone]; exact Bool.false_ne_true)]
    have hFind := hHolds.index (hashKey fact.content)
    rw [hNone] at hFind
    have hUnseen := Option.map_eq_none_iff.mp hFind.symm
    constructor
    · intro id
      dsimp only
      rw [Dict.get?_insert, hHolds.facts, List.reverse_append,
        List.reverse_singleton, List.singleton_append, List.find?_cons]
      by_cases hSelf : id = fact.factId
      · rw [if_pos hSelf, hSelf, beq_self_eq_true]
      · rw [if_neg hSelf, beq_false_of_ne (Ne.symm hSelf)]
    · intro hash
      dsimp only
      rw [Dict.get?_insert, hHolds.index, List.find?_append]
      by_cases hSelf : hash = hashKey fact.content
      · rw [if_pos hSelf, hSelf, hUnseen, Option.none_or]
        simp
      · rw [if_neg hSelf]
        have hOther : [fact].find? (hashKey ·.content == hash) = none := by
          simp [Ne.symm hSelf]
        rw [hOther, Option.or_none]

theorem holds_storeAll
    {calls : List (Fact F)}
    (hFree : CollisionFree hashKey (calls.map Fact.content)) :
    (storeAll calls).Holds (firsts calls) := by
  induction calls using List.reverseRecOn with
  | nil => exact ⟨fun _ => rfl, fun _ => rfl⟩
  | append_singleton calls fact ih =>
    have hBefore := ih (hFree.subset (by simp))
    have hAll := hBefore.store (hFree.of_split rfl)
    rw [firsts_append_singleton]
    unfold storeAll
    rw [List.foldl_append]
    exact hAll

theorem has_iff
    {content : String} (hHolds : s.Holds kept) :
    s.has content ↔ ∃ fact,
      kept.reverse.find? (·.factId == fact.factId) =
        some fact ∧ fact.content = content := by
  unfold has
  simp only [hHolds.facts]
  constructor
  · rintro ⟨id, fact, hFind, hContent⟩
    have hId := List.find?_some hFind
    rw [beq_iff_eq] at hId
    rw [← hId] at hFind
    exact ⟨fact, hFind, hContent⟩
  · rintro ⟨fact, hFind, hContent⟩
    exact ⟨_, fact, hFind, hContent⟩

theorem find?_of_nodup_ids
    {fact : Fact F} (hIds : (kept.map Fact.factId).Nodup)
    (hKept : fact ∈ kept) :
    kept.reverse.find? (·.factId == fact.factId) = some fact := by
  have hSome : (kept.reverse.find? (·.factId == fact.factId)).isSome := by
    rw [List.find?_isSome]
    exact ⟨fact, List.mem_reverse.mpr hKept, beq_self_eq_true _⟩
  obtain ⟨g, hG⟩ := Option.isSome_iff_exists.mp hSome
  have hIn := List.mem_reverse.mp (List.mem_of_find?_eq_some hG)
  have hId := List.find?_some hG
  rw [beq_iff_eq] at hId
  rw [hG, List.inj_on_of_nodup_map hIds hIn hKept hId]

-- Ids That Are Not Used Again

variable {calls : List (Fact F)}

theorem remembers_of_nodup_ids
    (hFree : CollisionFree hashKey (calls.map Fact.content))
    (hIds : ((firsts calls).map Fact.factId).Nodup) :
    Remembers calls := by
  have hPrefix : ∀ before later, calls = before ++ later →
      (storeAll before).Holds (firsts before) ∧
        ((firsts before).map Fact.factId).Nodup := by
    rintro before later rfl
    constructor
    · exact holds_storeAll (hFree.subset (by simp))
    · exact hIds.sublist ((prefix_firsts_append before later).sublist.map _)
  have hHas : ∀ before later, calls = before ++ later →
      ∀ content ∈ before.map Fact.content, (storeAll before).has content := by
    intro before later hCalls content hContent
    obtain ⟨hHolds, hNodup⟩ := hPrefix before later hCalls
    rw [← mem_content_firsts] at hContent
    obtain ⟨f, hF, rfl⟩ := List.mem_map.mp hContent
    exact (has_iff hHolds).mpr ⟨f, find?_of_nodup_ids hNodup hF, rfl⟩
  constructor
  case refuses =>
    intro before fact later hCalls hRefused
    apply hHas before _ hCalls
    obtain ⟨hHolds, -⟩ := hPrefix before _ hCalls
    by_contra hNew
    have hTaken := (accepts_iff hHolds
      (hFree.of_split hCalls)).mpr (by
        rw [mem_content_firsts]
        exact hNew)
    rw [hRefused] at hTaken
    cases hTaken
  case kept =>
    intro before fact between later hCalls _
    apply hHas _ later hCalls
    rw [List.map_append, List.mem_append]
    exact Or.inr List.mem_cons_self
  case indexed =>
    intro before later hCalls hash id hGet
    obtain ⟨hHolds, hNodup⟩ := hPrefix before later hCalls
    rw [hHolds.index] at hGet
    obtain ⟨f, hFind, rfl⟩ := Option.map_eq_some_iff.mp hGet
    refine ⟨f, ?_, ?_⟩
    · rw [hHolds.facts]
      exact find?_of_nodup_ids hNodup (List.mem_of_find?_eq_some hFind)
    · have hHash := List.find?_some hFind
      rw [beq_iff_eq] at hHash
      exact hHash

theorem nodup_ids_of_remembers
    (hFree : CollisionFree hashKey (calls.map Fact.content))
    (hRemembers : Remembers calls) :
    ((firsts calls).map Fact.factId).Nodup := by
  have hHolds := holds_storeAll hFree
  have hContents := nodup_content_firsts calls
  -- what was taken in is found under its own id
  have hFind : ∀ f ∈ firsts calls,
      (firsts calls).reverse.find? (·.factId == f.factId) = some f := by
    intro f hF
    obtain ⟨before, later, hCalls, hNew⟩ :=
      split_of_mem_firsts hF
    have hTaken : (storeAll before).accepts f = true := by
      have hEarlier : CollisionFree hashKey (before.map Fact.content) := by
        apply hFree.subset
        rw [hCalls]
        simp
      rw [accepts_iff (holds_storeAll hEarlier)
        (hFree.of_split hCalls), mem_content_firsts]
      exact hNew
    have hHas := hRemembers.kept before f later []
      (by rw [hCalls, List.append_nil]) hTaken
    rw [← hCalls, has_iff hHolds] at hHas
    obtain ⟨g, hG, hSame⟩ := hHas
    have hIn := List.mem_reverse.mp (List.mem_of_find?_eq_some hG)
    rw [List.inj_on_of_nodup_map hContents hIn hF hSame] at hG
    exact hG
  apply List.Nodup.map_on
  · intro f hF g hG hSame
    have hLeft := hFind f hF
    rw [hSame, hFind g hG] at hLeft
    exact (Option.some.inj hLeft).symm
  · exact List.Nodup.of_map _ hContents

/-
  A shard forgets nothing if and only if the facts that come
  first with their contents have different ids.
-/
theorem remembers_iff_nodup_ids
    {calls : List (Fact F)}
    (hFree : CollisionFree hashKey (calls.map Fact.content)) :
    Remembers calls ↔ ((firsts calls).map Fact.factId).Nodup :=
  ⟨nodup_ids_of_remembers hFree, remembers_of_nodup_ids hFree⟩

-- An Id That Is Used Again

def sample (factId content : String) : Fact ℕ where
  factId := factId
  content := content
  concept := ""
  confidence := 1
  sourceAgent := ""
  tags := []
  createdAt := 0
  ringPosition := 0

theorem collisionFree_sample (left right : String) :
    CollisionFree hashKey
      ([sample left "tea", sample right "milk"].map Fact.content) := by
  change CollisionFree hashKey ["tea", "milk"]
  unfold CollisionFree
  decide +kernel

theorem remembers_of_two_ids :
    Remembers [sample "f1" "tea", sample "f2" "milk"] :=
  (remembers_iff_nodup_ids (collisionFree_sample _ _)).mpr (by decide +kernel)

/- The second fact takes the place of the first. -/
theorem content_under_a_reused_id_is_lost :
    ¬ ∀ calls : List (Fact ℕ),
      CollisionFree hashKey (calls.map Fact.content) → Remembers calls := by
  intro hAll
  have hRemembers :=
    hAll [sample "f1" "tea", sample "f1" "milk"] (collisionFree_sample _ _)
  have hIds := nodup_ids_of_remembers (collisionFree_sample _ _) hRemembers
  exact absurd hIds (by decide +kernel)

end ShardStore

end Hive
