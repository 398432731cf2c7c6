import Amplihack.Usage.Aggregate
import Mathlib.Data.Finset.Card
import Mathlib.Order.Bounds.Basic

/-
  What the copies of a response come to, whatever their order
  and however often each is seen.
-/

-- What a set of copies shows

namespace Usage

open Base

variable {m : Manifest}

namespace Identified

/- The native sessions that the copies name. -/
def natives (copies : List (Identified m)) : Finset String :=
  (copies.filterMap nativeSession).toFinset

/- The models that the copies name. -/
def models (copies : List (Identified m)) : Finset String :=
  (copies.map model).toFinset.erase unknown

/- The componentwise maximum of the counters seen. -/
def highest (copies : List (Identified m)) : Option Tokens :=
  copies.foldl (fun t c => joinTokens t c.tokens) none

/-
  The owner and its native session: unknown, agreed upon, or
  in conflict.
-/
inductive OwnerOf
    (own : String → Owner m) (named : Finset String) (x : Identified m) :
    Prop
where
| unknown
    (hNamed : named = ∅)
    (hNative : x.nativeSession = none)
    (hClear : x.ambiguousOwner = false)
    (hOwner : x.owner = none)
| agreed (id : String)
    (hNamed : named = {id})
    (hNative : x.nativeSession = some id)
    (hClear : x.ambiguousOwner = false)
    (hOwner : x.owner = own id)
| conflict (id : String)
    (hNamed : 1 < named.card)
    (hId : id ∈ named)
    (hNative : x.nativeSession = some id)
    (hAmbiguous : x.ambiguousOwner = true)
    (hOwner : x.owner = none)

inductive ModelOf
    (named : Finset String) (x : Identified m) :
    Prop
where
| unknown
    (hNamed : named = ∅)
    (hModel : x.model = Usage.unknown)
    (hClear : x.ambiguousModel = false)
| agreed
    (hNamed : named = {x.model})
    (hKnown : x.model ≠ Usage.unknown)
    (hClear : x.ambiguousModel = false)
| conflict
    (hNamed : 1 < named.card)
    (hModel : x.model = Usage.unknown)
    (hAmbiguous : x.ambiguousModel = true)

/- The record of a response, given its copies. -/
structure MergedFrom
    (own : String → Owner m) (copies : List (Identified m))
    (x : Identified m) :
    Prop where
  owner : OwnerOf own (natives copies) x
  model : ModelOf (models copies) x
  incomplete : x.incomplete = true ↔
    (∃ c ∈ copies, c.incomplete = true) ∨
      1 < (natives copies).card ∨ 1 < (models copies).card
  tokens : x.tokens = highest copies

/- A copy as it is read, before anything is merged. -/
structure Fresh (own : String → Owner m) (c : Identified m) :
    Prop where
  owner : c.owner = c.nativeSession.bind own
  clearOwner : c.ambiguousOwner = false
  clearModel : c.ambiguousModel = false

variable {own : String → Owner m}
variable {copies copies' : List (Identified m)}
variable {x y c : Identified m}

-- One more copy

theorem natives_append :
    natives (copies ++ [c]) =
      c.nativeSession.elim (natives copies)
        (insert · (natives copies)) := by
  unfold natives
  rw [List.filterMap_append, List.toFinset_append]
  cases hNative : c.nativeSession with
  | none => simp [hNative]
  | some id =>
    rw [Finset.union_comm]
    simp [hNative]

theorem models_append :
    models (copies ++ [c]) =
      if c.model = unknown then models copies
      else insert c.model (models copies) := by
  unfold models
  rw [List.map_append, List.toFinset_append]
  ext k
  by_cases hKnown : c.model = unknown
  · simp only [hKnown, if_true, List.map_cons, List.map_nil,
      List.toFinset_cons, List.toFinset_nil, Finset.mem_erase,
      Finset.mem_union, Finset.mem_insert, Finset.notMem_empty, or_false]
    tauto
  · simp only [hKnown, if_false, List.map_cons, List.map_nil,
      List.toFinset_cons, List.toFinset_nil, Finset.mem_erase,
      Finset.mem_union, Finset.mem_insert, Finset.notMem_empty, or_false]
    constructor
    · tauto
    · rintro (rfl | hOld)
      · exact ⟨hKnown, .inr rfl⟩
      · exact ⟨hOld.1, .inl hOld.2⟩

/- Two different names make a conflict. -/
theorem one_lt_card_insert
    {s : Finset String} {a b : String} (hMem : a ∈ s) (hOther : b ≠ a) :
    1 < (insert b s).card :=
  Finset.one_lt_card.2
    ⟨a, Finset.mem_insert_of_mem hMem, b,
      Finset.mem_insert_self b s, hOther.symm⟩

/- The owner once one more copy has been read. -/
theorem ownerOf_claimOwner
    (hOwner : OwnerOf own (natives copies) x) (hFresh : Fresh own c) :
    OwnerOf own (natives (copies ++ [c])) (x.claimOwner c) := by
  rw [natives_append]
  have hNew := hFresh.owner
  cases hNative : c.nativeSession with
  | none =>
    rw [hNative] at hNew
    have hNo : ¬ x.ownershipConflict c := by simp [ownershipConflict, hNative]
    unfold claimOwner
    rw [if_neg hNo]
    cases hOwner with
    | unknown hNamed hOld hClear hOwn =>
      rw [if_pos (by simp [hClear, hOld])]
      exact .unknown hNamed hNative hClear hNew
    | agreed id hNamed hOld hClear hOwn =>
      rw [if_neg (by simp [hOld])]
      exact .agreed id hNamed hOld hClear hOwn
    | conflict id hNamed hId hOld hAmbiguous hOwn =>
      rw [if_neg (by simp [hOld])]
      exact .conflict id hNamed hId hOld hAmbiguous hOwn
  | some new =>
    rw [hNative] at hNew
    change OwnerOf own (insert new (natives copies)) _
    unfold claimOwner
    cases hOwner with
    | unknown hNamed hOld hClear hOwn =>
      have hNo : ¬ x.ownershipConflict c := by simp [ownershipConflict, hOld]
      rw [if_neg hNo, if_pos (by simp [hClear, hOld]), hNamed]
      exact .agreed new rfl hNative hClear hNew
    | agreed id hNamed hOld hClear hOwn =>
      by_cases hSame : new = id
      · have hNo : ¬ x.ownershipConflict c := by
          simp [ownershipConflict, hOld, hNative, hSame]
        rw [if_neg hNo, if_neg (by simp [hOld]), hNamed,
          Finset.insert_eq_of_mem (by simp [hSame])]
        exact .agreed id rfl hOld hClear hOwn
      · have hYes : x.ownershipConflict c := by
          simp [ownershipConflict, hOld, hNative, Ne.symm hSame]
        rw [if_pos hYes, hNamed]
        exact .conflict id
          (one_lt_card_insert (by simp) hSame)
          (by simp) hOld rfl rfl
    | conflict id hNamed hId hOld hAmbiguous hOwn =>
      have hMore : 1 < (insert new (natives copies)).card :=
        hNamed.trans_le (Finset.card_le_card (Finset.subset_insert _ _))
      have hIdAt : id ∈ insert new (natives copies) :=
        Finset.mem_insert_of_mem hId
      split
      next => exact .conflict id hMore hIdAt hOld rfl rfl
      next =>
        rw [if_neg (by simp [hOld])]
        exact .conflict id hMore hIdAt hOld hAmbiguous hOwn

/- Natives are in conflict when they first are or before. -/
theorem one_lt_card_natives
    (hOwner : OwnerOf own (natives copies) x) :
    1 < (natives (copies ++ [c])).card ↔
      1 < (natives copies).card ∨ x.ownershipConflict c = true := by
  rw [natives_append]
  cases hNative : c.nativeSession with
  | none => simp [ownershipConflict, hNative]
  | some new =>
    change 1 < (insert new (natives copies)).card ↔ _
    cases hOwner with
    | unknown hNamed hOld hClear hOwn =>
      simp [hNamed, ownershipConflict, hOld]
    | agreed id hNamed hOld hClear hOwn =>
      by_cases hSame : new = id
      · simp [hNamed, ownershipConflict, hOld, hNative, hSame]
      · have hMore :=
          one_lt_card_insert (s := {id}) (by simp) hSame
        simp [hNamed, ownershipConflict, hOld, hNative, Ne.symm hSame, hMore]
    | conflict id hNamed hId hOld hAmbiguous hOwn =>
      have hMore : 1 < (insert new (natives copies)).card :=
        hNamed.trans_le (Finset.card_le_card (Finset.subset_insert _ _))
      simp [hNamed, hMore]

/- The model once one more copy has been read. -/
theorem modelOf_claimModel
    (hModel : ModelOf (models copies) x) :
    ModelOf (models (copies ++ [c])) (x.claimModel c) := by
  rw [models_append]
  unfold claimModel
  by_cases hKnown : c.model = unknown
  · have hNo : ¬ x.modelConflict c := by
      simp [modelConflict, hKnown]
    rw [if_pos hKnown, if_neg hNo]
    cases hModel with
    | unknown hNamed hOld hClear =>
      rw [if_pos (by simp [hOld, hClear])]
      exact .unknown hNamed hKnown hClear
    | agreed hNamed hOld hClear =>
      rw [if_neg (by simp [hOld])]
      exact .agreed hNamed hOld hClear
    | conflict hNamed hOld hAmbiguous =>
      rw [if_neg (by simp [hAmbiguous])]
      exact .conflict hNamed hOld hAmbiguous
  · rw [if_neg hKnown]
    cases hModel with
    | unknown hNamed hOld hClear =>
      have hNo : ¬ x.modelConflict c := by simp [modelConflict, hOld]
      rw [if_neg hNo, if_pos (by simp [hOld, hClear]), hNamed]
      exact .agreed rfl hKnown hClear
    | agreed hNamed hOld hClear =>
      by_cases hSame : c.model = x.model
      · have hNo : ¬ x.modelConflict c := by
          simp [modelConflict, hSame]
        rw [if_neg hNo, if_neg (by simp [hOld]), hNamed,
          Finset.insert_eq_of_mem (by simp [hSame])]
        exact .agreed rfl hOld hClear
      · have hYes : x.modelConflict c := by
          simp [modelConflict, hOld, hKnown, Ne.symm hSame]
        rw [if_pos hYes, hNamed]
        exact .conflict (one_lt_card_insert (by simp) hSame)
          rfl rfl
    | conflict hNamed hOld hAmbiguous =>
      have hMore : 1 < (insert c.model (models copies)).card :=
        hNamed.trans_le (Finset.card_le_card (Finset.subset_insert _ _))
      have hNo : ¬ x.modelConflict c := by simp [modelConflict, hOld]
      rw [if_neg hNo, if_neg (by simp [hAmbiguous])]
      exact .conflict hMore hOld hAmbiguous

theorem one_lt_card_models
    (hModel : ModelOf (models copies) x) :
    1 < (models (copies ++ [c])).card ↔
      1 < (models copies).card ∨ x.modelConflict c = true := by
  rw [models_append]
  by_cases hKnown : c.model = unknown
  · simp [modelConflict, hKnown]
  · rw [if_neg hKnown]
    cases hModel with
    | unknown hNamed hOld hClear => simp [hNamed, modelConflict, hOld]
    | agreed hNamed hOld hClear =>
      by_cases hSame : c.model = x.model
      · simp [hNamed, modelConflict, hSame]
      · have hMore :=
          one_lt_card_insert (s := {x.model}) (by simp) hSame
        rw [hNamed]
        simp [modelConflict, hOld, hKnown, Ne.symm hSame, hMore]
    | conflict hNamed hOld hAmbiguous =>
      have hMore : 1 < (insert c.model (models copies)).card :=
        hNamed.trans_le (Finset.card_le_card (Finset.subset_insert _ _))
      simp [hNamed, hMore]

-- All the copies

variable {named : Finset String}

theorem OwnerOf.congr
    (hOf : OwnerOf own named x) (hNative : y.nativeSession = x.nativeSession)
    (hAmbiguous : y.ambiguousOwner = x.ambiguousOwner)
    (hOwner : y.owner = x.owner) :
    OwnerOf own named y := by
  cases hOf with
  | unknown hNamed hOld hClear hOwn =>
    exact .unknown hNamed (hNative.trans hOld)
      (hAmbiguous.trans hClear) (hOwner.trans hOwn)
  | agreed id hNamed hOld hClear hOwn =>
    exact .agreed id hNamed (hNative.trans hOld)
      (hAmbiguous.trans hClear) (hOwner.trans hOwn)
  | conflict id hNamed hId hOld hYes hOwn =>
    exact .conflict id hNamed hId (hNative.trans hOld)
      (hAmbiguous.trans hYes) (hOwner.trans hOwn)

theorem ModelOf.congr
    (hOf : ModelOf named x) (hModel : y.model = x.model)
    (hAmbiguous : y.ambiguousModel = x.ambiguousModel) :
    ModelOf named y := by
  cases hOf with
  | unknown hNamed hOld hClear =>
    exact .unknown hNamed (hModel.trans hOld) (hAmbiguous.trans hClear)
  | agreed hNamed hOld hClear =>
    rw [← hModel] at hNamed hOld
    exact .agreed hNamed hOld (hAmbiguous.trans hClear)
  | conflict hNamed hOld hYes =>
    exact .conflict hNamed (hModel.trans hOld) (hAmbiguous.trans hYes)

/- Claims of the owner leave the model, and the other way. -/
theorem claimOwner_model (x c : Identified m) :
    (x.claimOwner c).model = x.model ∧
      (x.claimOwner c).ambiguousModel = x.ambiguousModel := by
  unfold claimOwner
  split
  · exact ⟨rfl, rfl⟩
  · split <;> exact ⟨rfl, rfl⟩

theorem claimModel_owner (x c : Identified m) :
    (x.claimModel c).nativeSession = x.nativeSession ∧
      (x.claimModel c).ambiguousOwner = x.ambiguousOwner ∧
      (x.claimModel c).owner = x.owner := by
  unfold claimModel
  split
  · exact ⟨rfl, rfl, rfl⟩
  · split <;> exact ⟨rfl, rfl, rfl⟩

theorem highest_append :
    highest (copies ++ [c]) = joinTokens (highest copies) c.tokens := by
  unfold highest
  rw [List.foldl_append]
  rfl

theorem mergedFrom_merge
    (hMerged : MergedFrom own copies x) (hFresh : Fresh own c) :
    MergedFrom own (copies ++ [c]) (x.merge c) where
  owner := by
    have hClaim := ownerOf_claimOwner hMerged.owner hFresh
    rcases claimModel_owner (x.claimOwner c) c with
      ⟨hNative, hAmbiguous, hOwner⟩
    exact hClaim.congr hNative hAmbiguous hOwner
  model := by
    rcases claimOwner_model x c with ⟨hModel, hAmbiguous⟩
    have hClaim := modelOf_claimModel (c := c)
      (hMerged.model.congr hModel hAmbiguous)
    exact hClaim.congr rfl rfl
  incomplete := by
    change (x.incomplete || x.conflict c || c.incomplete) = true ↔ _
    rw [one_lt_card_natives hMerged.owner, one_lt_card_models hMerged.model]
    simp only [Bool.or_eq_true, hMerged.incomplete, conflict, List.mem_append,
      List.mem_singleton, or_and_right, exists_or, exists_eq_left]
    generalize (∃ d ∈ copies, d.incomplete = true) = p
    tauto
  tokens := by
    rw [highest_append]
    exact congrArg (joinTokens · c.tokens) hMerged.tokens

/- The first copy as it is, and each later one merged in. -/
def mergeAll (copies : List (Identified m)) :
    Option (Identified m) :=
  copies.foldl
    (fun old c =>
      match old with
      | none => some c
      | some old => some (old.merge c))
    none

theorem mergeAll_append :
    mergeAll (copies ++ [c]) =
      some ((mergeAll copies).elim c fun old => old.merge c) := by
  unfold mergeAll
  rw [List.foldl_append]
  cases copies.foldl _ none <;> rfl

theorem mergedFrom_singleton (hFresh : Fresh own c) :
    MergedFrom own [c] c := by
  have hOwner := hFresh.owner
  have hNatives : natives ([] ++ [c]) = _ := natives_append
  have hModels : models ([] ++ [c]) = _ := models_append
  simp only [List.nil_append] at hNatives hModels
  exact
    { owner := by
        cases hNative : c.nativeSession with
        | none =>
          rw [hNative] at hOwner
          rw [hNatives, hNative]
          exact .unknown rfl hNative hFresh.clearOwner hOwner
        | some id =>
          rw [hNative] at hOwner
          rw [hNatives, hNative]
          exact .agreed id rfl hNative hFresh.clearOwner hOwner
      model := by
        rw [hModels]
        split
        next hKnown =>
          exact .unknown rfl hKnown hFresh.clearModel
        next hKnown =>
          exact .agreed rfl hKnown hFresh.clearModel
      incomplete := by
        have hFew : ¬ 1 < (natives [c]).card := by
          rw [hNatives]
          cases c.nativeSession <;> simp [natives]
        have hFewer : ¬ 1 < (models [c]).card := by
          rw [hModels]
          split <;> simp [models]
        simp [hFew, hFewer]
      tokens := by
        unfold highest
        cases hTokens : c.tokens with
        | none => simp [hTokens, joinTokens]
        | some t =>
          have hBot : (0 : Tokens) ⊔ t = t := bot_sup_eq t
          simp [hTokens, joinTokens, hBot] }

theorem mergedFrom_of_mergeAll
    (hFresh : ∀ c ∈ copies, Fresh own c) (hAll : mergeAll copies = some x) :
    MergedFrom own copies x := by
  induction copies using List.reverseRecOn generalizing x with
  | nil => cases hAll
  | append_singleton rest c ih =>
    have hLast := hFresh c (by simp)
    rw [mergeAll_append] at hAll
    cases hRest : mergeAll rest with
    | none =>
      have hNil : rest = [] := by
        rcases List.eq_nil_or_concat rest with
          hNil | ⟨init, d, rfl⟩
        · exact hNil
        · rw [List.concat_eq_append, mergeAll_append] at hRest
          cases hRest
      rw [hRest] at hAll
      cases hAll
      rw [hNil]
      exact mergedFrom_singleton hLast
    | some old =>
      rw [hRest] at hAll
      cases hAll
      apply mergedFrom_merge ?_ hLast
      apply ih _ hRest
      intro d hMem
      exact hFresh d (List.mem_append_left _ hMem)

-- The numbers of a response

/- What the books take from the record of a response. -/
structure Number (m : Manifest) where
  owner : Owner m
  model : String
  incomplete : Bool
  tokens : Option Tokens

def number (x : Identified m) : Number m where
  owner := x.owner
  model := x.model
  incomplete := x.incomplete
  tokens := x.tokens

/- What a copy says, wherever it was found. -/
def content (c : Identified m) :
    Option String × String × Bool × Option Tokens :=
  (c.nativeSession, c.model, c.incomplete, c.tokens)

/- The same contents, in any order and any number of times. -/
def SameCopies (copies copies' : List (Identified m)) : Prop :=
  ∀ k, (∃ c ∈ copies, c.content = k) ↔ ∃ c ∈ copies', c.content = k

theorem SameCopies.exists_iff
    (hSame : SameCopies copies copies')
    (P : Option String × String × Bool × Option Tokens → Prop) :
    (∃ c ∈ copies, P c.content) ↔ ∃ c ∈ copies', P c.content := by
  constructor
  · rintro ⟨c, hMem, hP⟩
    rcases (hSame c.content).1 ⟨c, hMem, rfl⟩ with ⟨d, hOther, hContent⟩
    exact ⟨d, hOther, hContent ▸ hP⟩
  · rintro ⟨c, hMem, hP⟩
    rcases (hSame c.content).2 ⟨c, hMem, rfl⟩ with ⟨d, hOther, hContent⟩
    exact ⟨d, hOther, hContent ▸ hP⟩

theorem mem_natives {id : String} :
    id ∈ natives copies ↔ ∃ c ∈ copies, c.content.1 = some id := by
  simp [natives, content]

theorem mem_models {k : String} :
    k ∈ models copies ↔ ∃ c ∈ copies, c.content.2.1 = k ∧ k ≠ unknown := by
  simp only [models, Finset.mem_erase, List.mem_toFinset,
    List.mem_map, content]
  constructor
  · rintro ⟨hKnown, c, hMem, hModel⟩
    exact ⟨c, hMem, hModel, hKnown⟩
  · rintro ⟨c, hMem, hModel, hKnown⟩
    exact ⟨hKnown, c, hMem, hModel⟩

/- Every counter that a copy shows. -/
def shown (copies : List (Identified m)) : Set Tokens :=
  fun t => ∃ c ∈ copies, c.content.2.2.2 = some t

/- The maximum is the join of the counters shown, if any. -/
theorem highest_spec (copies : List (Identified m)) :
    (highest copies = none ∧ ∀ t, ¬ shown copies t) ∨
      ∃ t, highest copies = some t ∧ (∃ s, shown copies s) ∧
        IsLUB (shown copies) t := by
  induction copies using List.reverseRecOn with
  | nil =>
    left
    refine ⟨rfl, ?_⟩
    rintro t ⟨c, hMem, -⟩
    cases hMem
  | append_singleton rest c ih =>
    have hShown : ∀ t, shown (rest ++ [c]) t ↔
        shown rest t ∨ c.tokens = some t := by
      intro t
      simp only [shown, List.mem_append, List.mem_singleton,
        or_and_right, exists_or, exists_eq_left]
      rfl
    rw [highest_append]
    cases hTokens : c.tokens with
    | none =>
      have hSame : shown (rest ++ [c]) = shown rest := by
        funext t
        rw [hShown, hTokens]
        simp
      rw [hSame]
      exact ih
    | some s =>
      right
      refine ⟨_, rfl, ⟨s, (hShown s).2 (.inr hTokens)⟩, ?_⟩
      have hInsert : shown (rest ++ [c]) = insert s (shown rest) := by
        funext t
        rw [hShown, hTokens]
        apply propext
        constructor
        · rintro (hOld | hNew)
          · exact .inr hOld
          · exact .inl (Option.some.inj hNew).symm
        · rintro (rfl | hOld)
          · exact .inr rfl
          · exact .inl hOld
      rw [hInsert]
      rcases ih with ⟨hNone, hEmpty⟩ | ⟨t, hSome, -, hLub⟩
      · rw [hNone]
        have hNo : shown rest = ∅ := Set.eq_empty_iff_forall_notMem.2 hEmpty
        have hBot : (0 : Tokens) ⊔ s = s := bot_sup_eq s
        rw [hNo, Option.getD_none, hBot]
        simp
      · rw [hSome, Option.getD_some, sup_comm]
        exact hLub.insert s

theorem highest_eq_of_sameCopies
    (hSame : SameCopies copies copies') :
    highest copies = highest copies' := by
  have hShown : shown copies = shown copies' := by
    funext t
    exact propext (hSame.exists_iff fun k => k.2.2.2 = some t)
  have hLeft := highest_spec copies
  have hRight := highest_spec copies'
  rw [hShown] at hLeft
  rcases hLeft with ⟨hNone, hEmpty⟩ | ⟨t, hSome, ⟨s, hs⟩, hLub⟩
  · rcases hRight with ⟨hNone', -⟩ | ⟨-, -, ⟨s, hs⟩, -⟩
    · rw [hNone, hNone']
    · exact absurd hs (hEmpty s)
  · rcases hRight with ⟨-, hEmpty⟩ | ⟨t', hSome', -, hLub'⟩
    · exact absurd hs (hEmpty s)
    · rw [hSome, hSome', hLub.unique hLub']

theorem OwnerOf.owner_eq
    (hx : OwnerOf own named x) (hy : OwnerOf own named y) :
    x.owner = y.owner := by
  cases hx with
  | unknown hNamed _ _ hOwn =>
    subst hNamed
    cases hy with
    | unknown _ _ _ hOwn' => rw [hOwn, hOwn']
    | agreed id hNamed' => simp at hNamed'
    | conflict id hNamed' => simp at hNamed'
  | agreed id hNamed _ _ hOwn =>
    subst hNamed
    cases hy with
    | unknown hNamed' => simp at hNamed'
    | agreed id' hNamed' _ _ hOwn' =>
      rw [hOwn, hOwn', Finset.singleton_inj.1 hNamed']
    | conflict id' hNamed' => simp at hNamed'
  | conflict id hNamed _ _ _ hOwn =>
    cases hy with
    | unknown _ _ _ hOwn' => rw [hOwn, hOwn']
    | agreed id' hNamed' =>
      subst hNamed'
      simp at hNamed
    | conflict id' _ _ _ _ hOwn' => rw [hOwn, hOwn']

theorem ModelOf.model_eq
    (hx : ModelOf named x) (hy : ModelOf named y) :
    x.model = y.model := by
  cases hx with
  | unknown hNamed hModel =>
    subst hNamed
    cases hy with
    | unknown _ hModel' => rw [hModel, hModel']
    | agreed hNamed' => simp at hNamed'
    | conflict hNamed' => simp at hNamed'
  | agreed hNamed =>
    subst hNamed
    cases hy with
    | unknown hNamed' => simp at hNamed'
    | agreed hNamed' => exact Finset.singleton_inj.1 hNamed'
    | conflict hNamed' => simp at hNamed'
  | conflict hNamed hModel =>
    cases hy with
    | unknown _ hModel' => rw [hModel, hModel']
    | agreed hNamed' =>
      rw [hNamed'] at hNamed
      simp at hNamed
    | conflict _ hModel' => rw [hModel, hModel']

theorem natives_eq_of_sameCopies
    (hSame : SameCopies copies copies') :
    natives copies = natives copies' := by
  ext id
  rw [mem_natives, mem_natives]
  exact hSame.exists_iff fun k => k.1 = some id

theorem models_eq_of_sameCopies
    (hSame : SameCopies copies copies') :
    models copies = models copies' := by
  ext k
  rw [mem_models, mem_models]
  exact hSame.exists_iff fun c => c.2.1 = k ∧ k ≠ unknown

/- Nothing but the contents of the copies counts. -/
theorem number_eq
    (hSame : SameCopies copies copies') (hx : MergedFrom own copies x)
    (hy : MergedFrom own copies' y) :
    x.number = y.number := by
  have hNatives := natives_eq_of_sameCopies hSame
  have hModels := models_eq_of_sameCopies hSame
  have hIncomplete : x.incomplete = y.incomplete := by
    rw [Bool.eq_iff_iff, hx.incomplete, hy.incomplete, hNatives, hModels]
    have hSome := hSame.exists_iff fun k => k.2.2.1 = true
    exact or_congr_left hSome
  have hOwner := hx.owner.owner_eq (hNatives ▸ hy.owner)
  have hModel := hx.model.model_eq (hModels ▸ hy.model)
  have hTokens : x.tokens = y.tokens := by
    rw [hx.tokens, hy.tokens]
    exact highest_eq_of_sameCopies hSame
  unfold number
  rw [hOwner, hModel, hIncomplete, hTokens]

end Identified

end Usage
