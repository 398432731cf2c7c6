import Amplihack.Hive.Query

/-
  When a query gets the best facts of all shards.
-/

-- Routers That Can Be Reached

namespace Hive

open Base

variable {F : Type}
variable {toLowercase : String → String}

namespace ShardStore

/- Every fact is indexed, and none has the hash of another. -/
structure Indexed (s : ShardStore F) : Prop where
  listed : ∀ id f, s.facts.get? id = some f →
    (s.contentIndex.get? (hashKey f.content)).isSome
  apart : ∀ id other f g, s.facts.get? id = some f →
    s.facts.get? other = some g →
      hashKey f.content = hashKey g.content → id = other

theorem indexed_new : (new : ShardStore F).Indexed where
  listed := by
    intro id f hGet
    cases hGet
  apart := by
    intro id other f g hGet
    cases hGet

theorem Indexed.store
    {s : ShardStore F} (hIndexed : s.Indexed) (fact : Fact F) :
    (s.store fact).Indexed := by
  unfold ShardStore.store
  split
  · exact hIndexed
  next hNew =>
    have hOther : ∀ id f, s.facts.get? id = some f →
        hashKey f.content ≠ hashKey fact.content := by
      intro id f hGet hSame
      apply hNew
      rw [← hSame]
      exact hIndexed.listed id f hGet
    constructor
    case listed =>
      intro id f hGet
      dsimp only at hGet ⊢
      rw [Dict.get?_insert] at hGet ⊢
      split
      · rfl
      next hHash =>
        split at hGet
        next =>
          cases hGet
          exact absurd rfl hHash
        next => exact hIndexed.listed id f hGet
    case apart =>
      intro id other f g hF hG hSame
      dsimp only at hF hG
      rw [Dict.get?_insert] at hF hG
      split at hF
      next hId =>
        cases hF
        split at hG
        next hOther => rw [hId, hOther]
        next => exact absurd hSame.symm (hOther other g hG)
      next =>
        split at hG
        next =>
          cases hG
          exact absurd hSame (hOther id f hF)
        next => exact hIndexed.apart id other f g hF hG hSame

end ShardStore

namespace Router

/- `addAgent` also gives its caller the shard to store into. -/
inductive Reachable (toLowercase : String → String) :
    Router F → Prop
| new (replicationFactor : ℕ) :
    Reachable toLowercase (.new replicationFactor)
| addAgent {r : Router F} (agentId : String) :
    Reachable toLowercase r → Reachable toLowercase (r.addAgent agentId)
| removeAgent {r : Router F} (agentId : String) :
    Reachable toLowercase r → Reachable toLowercase (r.removeAgent agentId).1
| storeFact {r q : Router F} (fact : Fact F) :
    Reachable toLowercase r →
      r.storeFact toLowercase fact = some q → Reachable toLowercase q
| store {r : Router F} (agentId : String) (fact : Fact F) :
    Reachable toLowercase r →
      Reachable toLowercase { r with shards := storeOn fact r.shards agentId }

/- The agents of the ring have shards, and no one else does. -/
structure Held (r : Router F) : Prop where
  present : ∀ a, (r.shards.get? a).isSome =
    (r.ring.agentPositions.get? a).isSome
  indexed : ∀ a s, r.shards.get? a = some s → s.Indexed

variable {r : Router F}

theorem Held.storeOn
    (hHeld : r.Held) (fact : Fact F) (owner : String) :
    ({ r with shards := storeOn fact r.shards owner } : Router F).Held := by
  unfold Router.storeOn
  cases hShard : r.shards.get? owner with
  | none => exact hHeld
  | some shard =>
    constructor
    case present =>
      intro a
      rw [← hHeld.present]
      dsimp only
      rw [OrderedMap.get?_upsert]
      split
      next hSelf =>
        rw [hSelf, hShard]
        rfl
      next => rfl
    case indexed =>
      intro a s hGet
      dsimp only at hGet
      rw [OrderedMap.get?_upsert] at hGet
      split at hGet
      next =>
        cases hGet
        exact (hHeld.indexed owner shard hShard).store fact
      next => exact hHeld.indexed a s hGet

theorem Held.foldl_storeOn
    (hHeld : r.Held) (fact : Fact F) (owners : List String) :
    ({ r with
      shards := owners.foldl (Router.storeOn fact) r.shards } :
      Router F).Held := by
  induction owners generalizing r with
  | nil => exact hHeld
  | cons owner owners ih => exact ih (hHeld.storeOn fact owner)

theorem Held.addAgent
    (hHeld : r.Held) (agentId : String) :
    (r.addAgent agentId).Held where
  present := by
    intro a
    change ((r.shards.upsert agentId (·.getD .new)).get? a).isSome = _
    rw [OrderedMap.get?_upsert, Bool.eq_iff_iff]
    change _ ↔ ((r.ring.addAgent agentId).agentPositions.get? a).isSome
    rw [Ring.isSome_addAgent, ← hHeld.present]
    split
    next hSelf => simp [hSelf]
    next hOther => simp [hOther]
  indexed := by
    intro a s hGet
    change (r.shards.upsert agentId (·.getD .new)).get? a = some s at hGet
    rw [OrderedMap.get?_upsert] at hGet
    split at hGet
    next =>
      rw [← Option.some.inj hGet]
      cases hShard : r.shards.get? agentId with
      | none => exact ShardStore.indexed_new
      | some shard => exact hHeld.indexed _ shard hShard
    next => exact hHeld.indexed a s hGet

theorem Held.removeAgent
    (hHeld : r.Held) (agentId : String) :
    (r.removeAgent agentId).1.Held where
  present := by
    intro a
    change ((r.shards.restrict (· != agentId)).get? a).isSome = _
    rw [OrderedMap.get?_restrict, Bool.eq_iff_iff]
    change _ ↔ ((r.ring.removeAgent agentId).agentPositions.get? a).isSome
    rw [Ring.isSome_removeAgent, ← hHeld.present]
    by_cases hSelf : a = agentId
    · simp [hSelf]
    · simp [hSelf]
  indexed := by
    intro a s hGet
    change (r.shards.restrict (· != agentId)).get? a = some s
      at hGet
    rw [OrderedMap.get?_restrict] at hGet
    split at hGet
    · exact hHeld.indexed a s hGet
    · cases hGet

theorem held_of_reachable
    (hReachable : Reachable toLowercase r) :
    r.Held := by
  induction hReachable with
  | new =>
    constructor
    case present => exact fun _ => rfl
    case indexed =>
      intro a s hGet
      cases hGet
  | addAgent agentId _ ih => exact ih.addAgent agentId
  | removeAgent agentId _ ih => exact ih.removeAgent agentId
  | storeFact fact _ hStore ih =>
    unfold storeFact at hStore
    obtain ⟨key, _, rfl⟩ := Option.map_eq_some_iff.mp hStore
    exact ih.foldl_storeOn _ _
  | store agentId fact _ ih => exact ih.storeOn fact agentId

-- What Is Promised Of A Query

/- The agents of the ring, in whatever order. -/
def AgentOrder (r : Router Float) (agentIds : List String) :
    Prop :=
  agentIds.Perm (r.ring.agentPositions.entries.map Prod.fst)

def AllTargeted (r : Router Float) (queryFanout : ℕ) : Prop :=
  ∀ agentIds, r.AgentOrder agentIds →
    ∀ a ∈ agentIds, a ∈ r.selectQueryTargets queryFanout agentIds

/- Some shard has the fact, and it is one for the query. -/
def Matches
    (toLowercase : String → String) (r : Router Float)
    (queryText : String) (f : Fact Float) :
    Prop :=
  ∃ a s id, r.shards.get? a = some s ∧
    s.facts.get? id = some f ∧
      ShardStore.isMatch toLowercase queryText f = true

def matchingContents
    (toLowercase : String → String) (r : Router Float) (queryText : String) :
    List String :=
  (r.shards.entries.flatMap fun e =>
    (e.2.facts.entries.map Prod.snd).filter
      (ShardStore.isMatch toLowercase queryText)).map Fact.content

/- `g` does not score higher than `f`. -/
def NoBetter
    (toLowercase : String → String) (queryText : String) (g f : Fact Float) :
    Prop :=
  ¬ scoreFor toLowercase queryText f < scoreFor toLowercase queryText g

/-
  What a query answers when it visits the agents in an order:
  matching facts of different contents, the best first, as
  many as there are, and none is outscored by one left out.
  Contents that only one of two orders gives score alike.
-/
structure Answers
    (toLowercase : String → String) (r : Router Float)
    (queryText : String) (limit : ℕ)
    (result : List String → List (Fact Float)) :
    Prop where
  matching : ∀ agentIds, r.AgentOrder agentIds →
    ∀ f ∈ result agentIds, r.Matches toLowercase queryText f
  distinct : ∀ agentIds, r.AgentOrder agentIds →
    ((result agentIds).map Fact.content).Nodup
  sorted : ∀ agentIds, r.AgentOrder agentIds →
    (result agentIds).Pairwise fun f g =>
      NoBetter toLowercase queryText g f
  length : ∀ agentIds, r.AgentOrder agentIds →
    (result agentIds).length = min limit
      (r.matchingContents toLowercase queryText).toFinset.card
  best : ∀ agentIds, r.AgentOrder agentIds →
    ∀ f ∈ result agentIds, ∀ g,
      r.Matches toLowercase queryText g →
        g.content ∉ (result agentIds).map Fact.content →
          NoBetter toLowercase queryText g f
  alike : ∀ agentIds others, r.AgentOrder agentIds →
    r.AgentOrder others →
      ∀ f ∈ result agentIds, f.content ∉ (result others).map Fact.content →
      ∀ g ∈ result others,
        g.content ∉ (result agentIds).map Fact.content →
          NoBetter toLowercase queryText f g ∧
            NoBetter toLowercase queryText g f

/-
  What a shard does not have among its best, another does not
  have any better; and the hashes tell the contents apart, or
  there are enough of them.
-/
structure Even
    (toLowercase : String → String)
    (values : ShardStore Float → List (Fact Float))
    (r : Router Float) (queryText : String) (limit : ℕ) :
    Prop where
  shards : ∀ a b s t, r.shards.get? a = some s →
    r.shards.get? b = some t → a ≠ b →
      ∀ f ∈ s.best toLowercase values queryText limit,
        ∀ g ∈ t.matching toLowercase values queryText,
          g.content ∉ (s.best toLowercase values queryText
            limit).map Fact.content → NoBetter toLowercase queryText g f
  hashes :
    CollisionFree hashKey
        (r.matchingContents toLowercase queryText) ∨
      limit ≤ ((r.matchingContents toLowercase queryText).map
        hashKey).toFinset.card

-- The Shards As Collections

section Collections

variable {toLowercase : String → String}
variable {values : ShardStore Float → List (Fact Float)}
variable {r : Router Float}
variable {queryFanout limit : ℕ}
variable {queryText : String}
variable {agentIds : List String}
variable {f g : Fact Float}

def scoreKey
    (toLowercase : String → String) (queryText : String) (f : Fact Float) :
    ℤ ×ₗ ℤ ×ₗ ℤ :=
  Binary64.numberKey (scoreFor toLowercase queryText f)

theorem noBetter_iff
    (hF : ShardStore.isMatch toLowercase queryText f = true)
    (hG : ShardStore.isMatch toLowercase queryText g = true) :
    NoBetter toLowercase queryText g f ↔
      scoreKey toLowercase queryText g ≤
        scoreKey toLowercase queryText f := by
  unfold ShardStore.isMatch at hF hG
  rw [Bool.and_eq_true, decide_eq_true_iff] at hF hG
  unfold NoBetter scoreKey
  rw [Binary64.lt_iff_orderKey, Binary64.orderKey_of_lt hF.2,
    Binary64.orderKey_of_lt hG.2]
  simp

def shardMatching
    (toLowercase : String → String)
    (values : ShardStore Float → List (Fact Float))
    (r : Router Float) (queryText : String) (a : String) :
    List (Fact Float) :=
  match r.shards.get? a with
  | some s => s.matching toLowercase values queryText
  | none => []

def shardBest
    (toLowercase : String → String)
    (values : ShardStore Float → List (Fact Float))
    (r : Router Float) (queryText : String) (limit : ℕ) (a : String) :
    List (Fact Float) :=
  match r.shards.get? a with
  | some s => s.best toLowercase values queryText limit
  | none => []

theorem best_eq_take (s : ShardStore Float) :
    s.best toLowercase values queryText limit =
      ((s.matching toLowercase values queryText).mergeSort
        fun f g => decide (scoreKey toLowercase queryText g ≤
          scoreKey toLowercase queryText f)).take limit := by
  unfold ShardStore.best
  congr 1
  have hSame := List.map_mergeSort
    (f := fun f : Fact Float => f)
    (l := s.matching toLowercase values queryText)
    (r := fun f g => !decide
      (scoreFor toLowercase queryText f < scoreFor toLowercase queryText g))
    (s := fun f g => decide (scoreKey toLowercase queryText g ≤
      scoreKey toLowercase queryText f)) (by
    intro f hF g hG
    have hIff := noBetter_iff (List.mem_filter.mp hF).2
      (List.mem_filter.mp hG).2
    rw [Bool.eq_iff_iff, Bool.not_eq_true',
      decide_eq_false_iff_not, decide_eq_true_iff]
    exact hIff)
  rw [List.map_id', List.map_id'] at hSame
  exact hSame

theorem isMatch_of_mem
    {a : String} (hF : f ∈ shardMatching toLowercase values r queryText a) :
    ShardStore.isMatch toLowercase queryText f = true := by
  unfold shardMatching at hF
  split at hF
  · exact (List.mem_filter.mp hF).2
  · exact (List.not_mem_nil hF).elim

theorem mem_shardMatching
    (hValues : FactsOf values) {a : String} :
    f ∈ shardMatching toLowercase values r queryText a ↔
      ∃ s id, r.shards.get? a = some s ∧
        s.facts.get? id = some f ∧
          ShardStore.isMatch toLowercase queryText f = true := by
  unfold shardMatching
  split
  next s hShard =>
    unfold ShardStore.matching
    rw [List.mem_filter, (hValues s).mem_iff, List.mem_map]
    constructor
    · rintro ⟨⟨⟨id, g⟩, hIn, rfl⟩, hMatch⟩
      exact ⟨s, id, hShard, Dict.get?_of_mem_entries hIn, hMatch⟩
    · rintro ⟨t, id, hOther, hGet, hMatch⟩
      rw [hShard] at hOther
      cases hOther
      exact ⟨⟨(id, f), Dict.mem_entries_of_get? hGet, rfl⟩, hMatch⟩
  next hNone =>
    constructor
    · intro hIn
      exact (List.not_mem_nil hIn).elim
    · rintro ⟨s, id, hShard, -⟩
      rw [hNone] at hShard
      cases hShard

theorem nodup_hashes
    (hHeld : r.Held) (hValues : FactsOf values) (a : String) :
    ((shardMatching toLowercase values r queryText a).map
      fun f => hashKey f.content).Nodup := by
  unfold shardMatching
  split
  next s hShard =>
    have hApart := (hHeld.indexed a s hShard).apart
    have hAll : ((values s).map fun f => hashKey f.content).Nodup := by
      rw [((hValues s).map _).nodup_iff, List.map_map]
      apply List.Nodup.map_on
      · rintro ⟨id, f⟩ hF ⟨other, g⟩ hG hSame
        have hId := hApart id other f g
          (Dict.get?_of_mem_entries hF)
          (Dict.get?_of_mem_entries hG) hSame
        subst hId
        rw [s.facts.eq_of_mem_of_mem hF hG]
      · exact List.Nodup.of_map _ s.facts.nodupKeys
    exact hAll.sublist (List.filter_sublist.map _)
  next => exact List.nodup_nil

theorem tops_shards
    (hHeld : r.Held) (hValues : FactsOf values) :
    Tops (fun f : Fact Float => hashKey f.content)
      (scoreKey toLowercase queryText) limit
      (shardMatching toLowercase values r queryText)
      (shardBest toLowercase values r queryText limit) := by
  have hNodup : ∀ a,
      ((shardMatching toLowercase values r queryText a).map
        fun f => hashKey f.content).Nodup := nodup_hashes hHeld hValues
  have hLe : ∀ x y : Fact Float,
      decide (scoreKey toLowercase queryText y ≤
        scoreKey toLowercase queryText x) = true ↔
      scoreKey toLowercase queryText y ≤ scoreKey toLowercase queryText x :=
    fun _ _ => decide_eq_true_iff
  convert Tops.take_mergeSort hLe limit hNodup using 1
  funext a
  unfold shardBest shardMatching
  split
  · exact best_eq_take _
  · simp

theorem select_eq
    (hTargeted : r.AllTargeted queryFanout) (hOrder : r.AgentOrder agentIds) :
    r.selectQueryTargets queryFanout agentIds = agentIds := by
  have hAll := hTargeted agentIds hOrder
  have hNodup : agentIds.Nodup :=
    hOrder.nodup_iff.mpr r.ring.agentPositions.nodupKeys
  have hSublist : (r.selectQueryTargets queryFanout
      agentIds).Sublist agentIds := by
    unfold selectQueryTargets
    dsimp only
    split
    · exact List.Sublist.refl _
    · exact (List.take_sublist _ _).trans List.filter_sublist
  exact hSublist.eq_of_length_le
    (List.subperm_of_subset hNodup hAll).length_le

theorem query_eq_merged
    (hTargeted : r.AllTargeted queryFanout) (hOrder : r.AgentOrder agentIds) :
    r.query toLowercase values queryFanout agentIds queryText limit =
      merged (fun f : Fact Float => hashKey f.content) limit
        (shardBest toLowercase values r queryText limit)
        agentIds := by
  unfold query merged
  dsimp only
  rw [select_eq hTargeted hOrder]
  congr 2
  apply List.flatMap_congr
  intro a _
  unfold shardBest
  cases r.shards.get? a with
  | some s => exact ShardStore.search_eq_best
  | none => rfl

theorem mem_agentOrder
    (hHeld : r.Held) (hOrder : r.AgentOrder agentIds) {a : String} :
    a ∈ agentIds ↔ (r.shards.get? a).isSome := by
  rw [hOrder.mem_iff, hHeld.present, List.mem_map, Option.isSome_iff_exists]
  constructor
  · rintro ⟨⟨b, given⟩, hIn, rfl⟩
    exact ⟨given, OrderedMap.get?_of_mem_entries hIn⟩
  · rintro ⟨given, hGet⟩
    exact ⟨(a, given), OrderedMap.mem_entries_of_get? hGet, rfl⟩

theorem matches_iff
    (hHeld : r.Held) (hValues : FactsOf values)
    (hOrder : r.AgentOrder agentIds) :
    r.Matches toLowercase queryText f ↔ ∃ a ∈ agentIds,
      f ∈ shardMatching toLowercase values r queryText a := by
  constructor
  · rintro ⟨a, s, id, hShard, hGet, hMatch⟩
    refine ⟨a, ?_, ?_⟩
    · rw [mem_agentOrder hHeld hOrder, hShard]
      rfl
    · exact (mem_shardMatching hValues).mpr ⟨s, id, hShard, hGet, hMatch⟩
  · rintro ⟨a, -, hIn⟩
    obtain ⟨s, id, hGet⟩ := (mem_shardMatching hValues).mp hIn
    exact ⟨a, s, id, hGet⟩

theorem mem_matchingContents {content : String} :
    content ∈ r.matchingContents toLowercase queryText ↔
      ∃ f, r.Matches toLowercase queryText f ∧ f.content = content := by
  unfold matchingContents Matches
  simp only [List.mem_map, List.mem_flatMap, List.mem_filter]
  constructor
  · rintro ⟨f, ⟨⟨a, s⟩, hShard, ⟨⟨id, g⟩, hGet, rfl⟩, hMatch⟩, hContent⟩
    exact ⟨g, ⟨a, s, id, OrderedMap.get?_of_mem_entries hShard,
      Dict.get?_of_mem_entries hGet, hMatch⟩, hContent⟩
  · rintro ⟨f, ⟨a, s, id, hShard, hGet, hMatch⟩, hContent⟩
    exact ⟨f, ⟨(a, s), OrderedMap.mem_entries_of_get? hShard,
      ⟨(id, f), Dict.mem_entries_of_get? hGet, rfl⟩, hMatch⟩,
      hContent⟩

/- As many as there are hashes of matching contents. -/
theorem length_query
    (hHeld : r.Held) (hValues : FactsOf values)
    (hTargeted : r.AllTargeted queryFanout) (hOrder : r.AgentOrder agentIds) :
    (r.query toLowercase values queryFanout agentIds queryText
      limit).length =
      min limit ((r.matchingContents toLowercase queryText).map
        hashKey).toFinset.card := by
  rw [query_eq_merged hTargeted hOrder,
    (tops_shards hHeld hValues).length_merged]
  congr 2
  ext hash
  rw [List.mem_toFinset, List.mem_toFinset, List.mem_map, List.mem_map]
  constructor
  · rintro ⟨f, hF, rfl⟩
    have hMatches := (matches_iff hHeld hValues hOrder).mpr
      (List.mem_flatMap.mp hF)
    exact ⟨f.content, mem_matchingContents.mpr ⟨f, hMatches, rfl⟩, rfl⟩
  · rintro ⟨content, hContent, rfl⟩
    obtain ⟨f, hMatches, rfl⟩ := mem_matchingContents.mp hContent
    have hIn := (matches_iff hHeld hValues hOrder).mp hMatches
    exact ⟨f, List.mem_flatMap.mpr hIn, rfl⟩

/- Fewer hashes than contents, and fewer than are asked for. -/
theorem min_card_iff (contents : List String) (limit : ℕ) :
    min limit (contents.map hashKey).toFinset.card =
        min limit contents.toFinset.card ↔
      CollisionFree hashKey contents ∨
        limit ≤ (contents.map hashKey).toFinset.card := by
  have hImage : (contents.map hashKey).toFinset =
      contents.toFinset.image hashKey := by
    ext hash
    simp
  have hLe : (contents.map hashKey).toFinset.card ≤
      contents.toFinset.card := by
    rw [hImage]
    exact Finset.card_image_le
  have hFree : CollisionFree hashKey contents ↔
      (contents.map hashKey).toFinset.card =
        contents.toFinset.card := by
    rw [hImage, Finset.card_image_iff]
    constructor
    · intro hApart c hC d hD hSame
      exact hApart c (List.mem_toFinset.mp hC) d
        (List.mem_toFinset.mp hD) hSame
    · intro hInj c hC d hD hSame
      exact hInj (List.mem_toFinset.mpr hC) (List.mem_toFinset.mpr hD) hSame
  rw [hFree]
  omega

-- Shards That Make A Query Right

theorem isMatch_of_matches
    (hMatches : r.Matches toLowercase queryText f) :
    ShardStore.isMatch toLowercase queryText f = true := by
  obtain ⟨_, _, _, _, _, hMatch⟩ := hMatches
  exact hMatch

theorem matches_of_mem_merged
    (hHeld : r.Held) (hValues : FactsOf values)
    (hOrder : r.AgentOrder agentIds)
    (hF : f ∈ merged (fun f : Fact Float => hashKey f.content)
      limit (shardBest toLowercase values r queryText limit) agentIds) :
    r.Matches toLowercase queryText f := by
  obtain ⟨a, hA, hBest⟩ := Tops.exists_of_mem_merged hF
  exact (matches_iff hHeld hValues hOrder).mpr
    ⟨a, hA, (tops_shards hHeld hValues).subset a hBest⟩

theorem content_hash (f g : Fact Float)
    (hSame : f.content = g.content) :
    hashKey f.content = hashKey g.content := by
  rw [hSame]

theorem dominates_of_even
    (hEven : r.Even toLowercase values queryText limit)
    {a b : String} (hOther : a ≠ b) :
    Dominates Fact.content (scoreKey toLowercase queryText)
      (shardMatching toLowercase values r queryText)
      (shardBest toLowercase values r queryText limit) a b := by
  intro f hF g hG hOut
  have hMatchG := isMatch_of_mem hG
  unfold shardBest at hF hOut
  unfold shardMatching at hG
  cases hT : r.shards.get? b with
  | none =>
    rw [hT] at hG
    exact (List.not_mem_nil hG).elim
  | some t =>
    rw [hT] at hG
    cases hS : r.shards.get? a with
    | none =>
      rw [hS] at hF
      exact (List.not_mem_nil hF).elim
    | some s =>
      rw [hS] at hF hOut
      have hMatchF := (List.mem_filter.mp
        (List.mem_mergeSort.mp (List.mem_of_mem_take hF))).2
      rw [← noBetter_iff hMatchF hMatchG]
      exact hEven.shards a b s t hS hT hOther f hF g hG hOut

theorem best_of_even
    (hHeld : r.Held) (hValues : FactsOf values)
    (hTargeted : r.AllTargeted queryFanout)
    (hEven : r.Even toLowercase values queryText limit)
    (hOrder : r.AgentOrder agentIds)
    (hF : f ∈ r.query toLowercase values queryFanout agentIds queryText limit)
    (hG : r.Matches toLowercase queryText g)
    (hOut : g.content ∉ (r.query toLowercase values queryFanout
      agentIds queryText limit).map Fact.content) :
    NoBetter toLowercase queryText g f := by
  rw [query_eq_merged hTargeted hOrder] at hF hOut
  have hMatchF := isMatch_of_matches
    (matches_of_mem_merged hHeld hValues hOrder hF)
  rw [noBetter_iff hMatchF (isMatch_of_matches hG)]
  obtain ⟨b, hB, hIn⟩ := (matches_iff hHeld hValues hOrder).mp hG
  refine (tops_shards hHeld hValues).le_of_left_out content_hash
    ?_ hB hF hIn hOut
  intro a _ c _ hOther
  exact dominates_of_even hEven hOther

theorem answers_of_even
    (hHeld : r.Held) (hValues : FactsOf values)
    (hTargeted : r.AllTargeted queryFanout)
    (hEven : r.Even toLowercase values queryText limit) :
    Answers toLowercase r queryText limit fun agentIds =>
      r.query toLowercase values queryFanout agentIds queryText
        limit := by
  constructor
  case matching =>
    intro agentIds hOrder f hF
    rw [query_eq_merged hTargeted hOrder] at hF
    exact matches_of_mem_merged hHeld hValues hOrder hF
  case distinct =>
    intro agentIds hOrder
    rw [query_eq_merged hTargeted hOrder]
    apply List.Nodup.of_map hashKey
    rw [List.map_map]
    exact Tops.nodup_merged
  case sorted =>
    intro agentIds hOrder
    rw [query_eq_merged hTargeted hOrder]
    have hNodup : agentIds.Nodup :=
      hOrder.nodup_iff.mpr r.ring.agentPositions.nodupKeys
    have hSorted := (tops_shards hHeld hValues).pairwise_merged
      content_hash hNodup
      (fun a _ b _ hOther => dominates_of_even hEven hOther)
    refine List.Pairwise.imp_of_mem ?_ hSorted
    intro f g hF hG hLe
    rw [noBetter_iff]
    · exact hLe
    · exact isMatch_of_matches (matches_of_mem_merged hHeld hValues hOrder hF)
    · exact isMatch_of_matches (matches_of_mem_merged hHeld hValues hOrder hG)
  case length =>
    intro agentIds hOrder
    rw [length_query hHeld hValues hTargeted hOrder]
    exact (min_card_iff _ limit).mpr hEven.hashes
  case best =>
    intro agentIds hOrder f hF g hG hOut
    exact best_of_even hHeld hValues hTargeted hEven hOrder hF hG hOut
  case alike =>
    intro agentIds others hOrder hOthers f hF hOutF g hG hOutG
    constructor
    · refine best_of_even hHeld hValues hTargeted hEven hOthers hG ?_ hOutF
      rw [query_eq_merged hTargeted hOrder] at hF
      exact matches_of_mem_merged hHeld hValues hOrder hF
    · refine best_of_even hHeld hValues hTargeted hEven hOrder hF ?_ hOutG
      rw [query_eq_merged hTargeted hOthers] at hG
      exact matches_of_mem_merged hHeld hValues hOthers hG

/- Any two agents come first in some order. -/
theorem exists_order_of_two
    (hHeld : r.Held) {a b : String} (hA : (r.shards.get? a).isSome)
    (hB : (r.shards.get? b).isSome) (hOther : a ≠ b) :
    ∃ rest, r.AgentOrder (a :: b :: rest) := by
  have hAll : r.AgentOrder (r.ring.agentPositions.entries.map Prod.fst) :=
    List.Perm.refl _
  have hInA := (mem_agentOrder hHeld hAll).mpr hA
  have hInB := (mem_agentOrder hHeld hAll).mpr hB
  have hErased : b ∈ (r.ring.agentPositions.entries.map Prod.fst).erase a :=
    (List.mem_erase_of_ne (Ne.symm hOther)).mpr hInB
  refine ⟨((r.ring.agentPositions.entries.map Prod.fst).erase a).erase b, ?_⟩
  unfold AgentOrder
  exact ((List.perm_cons_erase hErased).symm.cons a).trans
    (List.perm_cons_erase hInA).symm

theorem even_of_answers
    (hHeld : r.Held) (hValues : FactsOf values)
    (hTargeted : r.AllTargeted queryFanout)
    (hAnswers : Answers toLowercase r queryText limit
      fun agentIds => r.query toLowercase values queryFanout
        agentIds queryText limit) :
    r.Even toLowercase values queryText limit := by
  constructor
  case shards =>
    intro a b s t hS hT hOther f hF g hG hOut
    obtain ⟨rest, hOrder⟩ := exists_order_of_two hHeld
      (by rw [hS]; rfl) (by rw [hT]; rfl) hOther
    have hSorted := hAnswers.sorted _ hOrder
    have hBest := hAnswers.best _ hOrder
    rw [query_eq_merged hTargeted hOrder] at hSorted hBest
    have hMerged : ∀ f ∈ merged
        (fun f : Fact Float => hashKey f.content) limit
        (shardBest toLowercase values r queryText limit)
        (a :: b :: rest), ShardStore.isMatch toLowercase queryText f = true :=
      fun f hF => isMatch_of_matches
        (matches_of_mem_merged hHeld hValues hOrder hF)
    have hDominates := Tops.dominates_of_first_two
      (tops_shards hHeld hValues) content_hash
      (hSorted.imp_of_mem fun hF hG hNo =>
        (noBetter_iff (hMerged _ hF) (hMerged _ hG)).mp hNo)
      (fun f hF g hG hOut => by
        have hMatches := (matches_iff hHeld hValues hOrder).mpr
          ⟨b, List.mem_cons_of_mem _ List.mem_cons_self, hG⟩
        rw [← noBetter_iff (hMerged f hF) (isMatch_of_matches hMatches)]
        exact hBest f hF g hMatches hOut)
    have hMatchF := (List.mem_filter.mp (List.mem_mergeSort.mp
      (List.mem_of_mem_take hF))).2
    have hMatchG := (List.mem_filter.mp hG).2
    rw [noBetter_iff hMatchF hMatchG]
    apply hDominates
    · unfold shardBest
      rw [hS]
      exact hF
    · unfold shardMatching
      rw [hT]
      exact hG
    · unfold shardBest
      rw [hS]
      exact hOut
  case hashes =>
    rw [← min_card_iff, ← length_query hHeld hValues hTargeted
      (List.Perm.refl _)]
    exact hAnswers.length _ (List.Perm.refl _)

end Collections

theorem allTargeted_of_le
    {r : Router Float} {queryFanout : ℕ}
    (hFew : r.ring.agentPositions.entries.length ≤ queryFanout * 3) :
    r.AllTargeted queryFanout := by
  intro agentIds hOrder a hA
  unfold selectQueryTargets
  dsimp only
  split
  · exact hA
  next hLocal =>
    rw [List.filter_sublist.eq_of_length_le
      (Nat.le_of_not_lt hLocal), List.take_of_length_le]
    · exact hA
    · rw [hOrder.length_eq, List.length_map]
      exact hFew

def sampleText (factId content : String) : Fact Float where
  factId := factId
  content := content
  concept := ""
  confidence := 0.8
  sourceAgent := ""
  tags := []
  createdAt := 0
  ringPosition := 0

def sampleAgents : Router Float :=
  ((new 1).addAgent "a").addAgent "b"

def sampleStored (first second : Fact Float) : Router Float :=
  { sampleAgents with
    shards := storeOn second
      (storeOn first sampleAgents.shards "a") "b" }

theorem reachable_sample (first second : Fact Float) :
    Reachable id (sampleStored first second) :=
  Reachable.store "b" second (Reachable.store "a" first
    (Reachable.addAgent "b" (Reachable.addAgent "a" (Reachable.new 1))))

theorem allTargeted_sample (first second : Fact Float) :
    (sampleStored first second).AllTargeted 5 := by
  apply allTargeted_of_le
  change 2 ≤ 5 * 3
  decide

def sampleValues (s : ShardStore Float) : List (Fact Float) :=
  s.facts.entries.map Prod.snd

theorem factsOf_sample : FactsOf sampleValues :=
  fun _ => List.Perm.refl _

theorem shards_sample (first second : Fact Float) :
    (sampleStored first second).shards.get? "a" =
        some (ShardStore.new.store first) ∧
      (sampleStored first second).shards.get? "b" =
        some (ShardStore.new.store second) :=
  ⟨rfl, rfl⟩

theorem matching_sample
    {queryText : String} {fact : Fact Float}
    (hMatch : ShardStore.isMatch id queryText fact = true) :
    (ShardStore.new.store fact).matching id sampleValues
      queryText = [fact] := by
  change [fact].filter (ShardStore.isMatch id queryText) = _
  rw [List.filter_cons_of_pos hMatch]
  rfl

theorem best_sample
    {queryText : String} {fact : Fact Float}
    (hMatch : ShardStore.isMatch id queryText fact = true) :
    (ShardStore.new.store fact).best id sampleValues queryText
      5 = [fact] := by
  unfold ShardStore.best
  rw [matching_sample hMatch, List.mergeSort_singleton]
  rfl

theorem isMatch_tea :
    ShardStore.isMatch id "tea milk" (sampleText "f1" "tea") =
      true := by
  decide +kernel

end Router

end Hive
