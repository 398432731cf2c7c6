import Amplihack.Base.Dict
import Amplihack.Hive.Routing

/-
  The facts of an agent, and the shards of all of them.
-/

-- Shards

namespace Hive

open Base

/- `F` is that of confidences. -/
structure Fact (F : Type) where
  factId : String
  content : String
  concept : String
  confidence : F
  sourceAgent : String
  tags : List String
  createdAt : ℤ
  ringPosition : ℕ

/- Facts by id, and ids by the hash of the content. -/
structure ShardStore (F : Type) where
  facts : Dict String (Fact F)
  contentIndex : Dict ℕ String

variable {F : Type}

namespace ShardStore

def new : ShardStore F where
  facts := .empty
  contentIndex := .empty

/- A fact whose hash is in the index is not stored. -/
def store (s : ShardStore F) (fact : Fact F) : ShardStore F :=
  if (s.contentIndex.get? (hashKey fact.content)).isSome then s
  else
    { facts := s.facts.insert fact.factId fact
      contentIndex :=
        s.contentIndex.insert (hashKey fact.content) fact.factId }

def has (s : ShardStore F) (content : String) : Prop :=
  ∃ id fact, s.facts.get? id = some fact ∧ fact.content = content

end ShardStore

-- The Router

structure Router (F : Type) where
  ring : Ring
  shards : OrderedMap String (ShardStore F)

namespace Router

def new (replicationFactor : ℕ) : Router F where
  ring := .new replicationFactor
  shards := .empty

def addAgent (r : Router F) (agentId : String) : Router F where
  ring := r.ring.addAgent agentId
  shards := r.shards.upsert agentId (·.getD .new)

/- The facts of the agent are left without a shard. -/
def removeAgent (r : Router F) (agentId : String) :
    Router F × List (Fact F) :=
  ({ ring := r.ring.removeAgent agentId
     shards := r.shards.restrict (· != agentId) },
    ((r.shards.get? agentId).map fun s =>
      s.facts.entries.map Prod.snd).getD [])

def storeOn
    (fact : Fact F) (shards : OrderedMap String (ShardStore F))
    (owner : String) :
    OrderedMap String (ShardStore F) :=
  match shards.get? owner with
  | none => shards
  | some shard => shards.upsert owner fun _ => shard.store fact

/- On all owners of its key; none when there is no key. -/
def storeFact
    (toLowercase : String → String) (r : Router F) (fact : Fact F) :
    Option (Router F) :=
  (contentKey toLowercase fact.content).map fun key =>
    { r with
      shards := (r.ring.getAgents key).foldl
        (storeOn { fact with ringPosition := hashKey key })
        r.shards }

def has (r : Router F) (agentId content : String) : Prop :=
  ∃ s, r.shards.get? agentId = some s ∧ s.has content

end Router

-- Shards That Hold What They Index

/- Ids and hashes are those of one content each. -/
def Consistent (known : List (String × String)) : Prop :=
  ∀ e ∈ known, ∀ d ∈ known, e.1 = d.1 ∨ hashKey e.2 = hashKey d.2 → e.2 = d.2

namespace ShardStore

variable {s : ShardStore F}
variable {known : List (String × String)}
variable {toLowercase : String → String}

structure Good
    (toLowercase : String → String)
    (known : List (String × String)) (s : ShardStore F) :
    Prop where
  ids : ∀ id fact, s.facts.get? id = some fact → fact.factId = id
  known : ∀ id fact, s.facts.get? id = some fact →
    (id, fact.content) ∈ known ∧ (contentKey toLowercase fact.content).isSome
  found : ∀ hash id, s.contentIndex.get? hash = some id →
    ∃ fact, s.facts.get? id = some fact ∧ hashKey fact.content = hash
  indexed : ∀ id fact, s.facts.get? id = some fact →
    (s.contentIndex.get? (hashKey fact.content)).isSome

theorem good_new : (new : ShardStore F).Good toLowercase known where
  ids := by
    intro id fact hGet
    rw [show (new : ShardStore F).facts = .empty from rfl,
      Dict.get?_empty] at hGet
    cases hGet
  known := by
    intro id fact hGet
    rw [show (new : ShardStore F).facts = .empty from rfl,
      Dict.get?_empty] at hGet
    cases hGet
  found := by
    intro hash id hGet
    rw [show (new : ShardStore F).contentIndex = .empty from rfl,
      Dict.get?_empty] at hGet
    cases hGet
  indexed := by
    intro id fact hGet
    rw [show (new : ShardStore F).facts = .empty from rfl,
      Dict.get?_empty] at hGet
    cases hGet

variable {fact : Fact F}

/- A known fact is there afterwards, and so is what was. -/
theorem store_spec
    (hGood : s.Good toLowercase known) (hConsistent : Consistent known)
    (hKnown : (fact.factId, fact.content) ∈ known)
    (hKey : (contentKey toLowercase fact.content).isSome) :
    (s.store fact).Good toLowercase known ∧
      (s.store fact).has fact.content ∧
        ∀ c, s.has c → (s.store fact).has c := by
  unfold store
  split
  next hThere =>
    refine ⟨hGood, ?_, fun c hC => hC⟩
    obtain ⟨id, hId⟩ := Option.isSome_iff_exists.mp hThere
    obtain ⟨g, hG, hHash⟩ := hGood.found _ id hId
    refine ⟨id, g, hG, ?_⟩
    exact hConsistent _ (hGood.known id g hG).1 _ hKnown (Or.inr hHash)
  next hAbsent =>
    -- nothing of the id is overwritten
    have hFree : s.facts.get? fact.factId = none := by
      rw [Option.eq_none_iff_forall_not_mem]
      intro g hG
      have hSame := hConsistent _ (hGood.known _ g hG).1 _ hKnown (Or.inl rfl)
      have hIndexed := hGood.indexed _ g hG
      dsimp only at hSame
      rw [hSame] at hIndexed
      exact hAbsent hIndexed
    refine ⟨?_, ?_, ?_⟩
    · constructor
      case ids =>
        intro id g hG
        dsimp only at hG
        rw [Dict.get?_insert] at hG
        split at hG
        next hSelf =>
          cases hG
          exact hSelf.symm
        next => exact hGood.ids id g hG
      case known =>
        intro id g hG
        dsimp only at hG
        rw [Dict.get?_insert] at hG
        split at hG
        next hSelf =>
          cases hG
          rw [hSelf]
          exact ⟨hKnown, hKey⟩
        next => exact hGood.known id g hG
      case found =>
        intro hash id hGet
        dsimp only at hGet ⊢
        rw [Dict.get?_insert] at hGet
        split at hGet
        next hSelf =>
          cases hGet
          refine ⟨fact, ?_, hSelf.symm⟩
          rw [Dict.get?_insert, if_pos rfl]
        next =>
          obtain ⟨g, hG, hHash⟩ := hGood.found hash id hGet
          refine ⟨g, ?_, hHash⟩
          rw [Dict.get?_insert, if_neg]
          · exact hG
          · rintro rfl
            rw [hFree] at hG
            cases hG
      case indexed =>
        intro id g hG
        dsimp only at hG ⊢
        rw [Dict.get?_insert] at hG ⊢
        split
        · rfl
        next hOther =>
          split at hG
          next =>
            cases hG
            exact absurd rfl hOther
          next => exact hGood.indexed id g hG
    · refine ⟨fact.factId, fact, ?_, rfl⟩
      dsimp only
      rw [Dict.get?_insert, if_pos rfl]
    · rintro c ⟨id, g, hG, hContent⟩
      refine ⟨id, g, ?_, hContent⟩
      dsimp only
      rw [Dict.get?_insert, if_neg]
      · exact hG
      · rintro rfl
        rw [hFree] at hG
        cases hG

end ShardStore

-- Routers That Only Gain Facts

namespace Router

variable {r q : Router F}
variable {known : List (String × String)}
variable {toLowercase : String → String}

def Good
    (toLowercase : String → String)
    (known : List (String × String)) (r : Router F) :
    Prop :=
  ∀ a s, r.shards.get? a = some s → s.Good toLowercase known

/- The same agents, with what they had and perhaps more. -/
structure Extends (r q : Router F) : Prop where
  ring : q.ring = r.ring
  present : ∀ a, (q.shards.get? a).isSome = (r.shards.get? a).isSome
  kept : ∀ a c, r.has a c → q.has a c

theorem Extends.refl (r : Router F) : Extends r r where
  ring := rfl
  present := fun _ => rfl
  kept := fun _ _ hHas => hHas

theorem Extends.trans
    {p : Router F} (hLeft : Extends r q) (hRight : Extends q p) :
    Extends r p where
  ring := hRight.ring.trans hLeft.ring
  present := fun a =>
    (hRight.present a).trans (hLeft.present a)
  kept := fun a c hHas => hRight.kept a c (hLeft.kept a c hHas)

theorem storeOn_extends
    {fact : Fact F} (hGood : r.Good toLowercase known)
    (hConsistent : Consistent known)
    (hKnown : (fact.factId, fact.content) ∈ known)
    (hKey : (contentKey toLowercase fact.content).isSome) (owner : String) :
    let after : Router F :=
      { r with shards := storeOn fact r.shards owner }
    Extends r after ∧ after.Good toLowercase known ∧
      ((r.shards.get? owner).isSome → after.has owner fact.content) := by
  intro after
  cases hShard : r.shards.get? owner with
  | none =>
    have hSame : after = r := by
      change ({ r with shards := storeOn fact r.shards owner } : Router F) = r
      unfold storeOn
      rw [hShard]
    rw [hSame]
    exact ⟨Extends.refl r, hGood, fun hSome => by cases hSome⟩
  | some shard =>
    have hSpec := ShardStore.store_spec (hGood owner shard hShard)
      hConsistent hKnown hKey
    have hGet : ∀ a, after.shards.get? a =
        if a = owner then some (shard.store fact)
        else r.shards.get? a := by
      intro a
      change (storeOn fact r.shards owner).get? a = _
      unfold storeOn
      rw [hShard]
      dsimp only
      rw [OrderedMap.get?_upsert]
    refine ⟨⟨rfl, ?_, ?_⟩, ?_, ?_⟩
    · intro a
      rw [hGet]
      split
      next hSelf =>
        rw [hSelf, hShard]
        rfl
      next => rfl
    · rintro a c ⟨s, hS, hHas⟩
      by_cases hSelf : a = owner
      · refine ⟨shard.store fact, ?_, ?_⟩
        · rw [hGet, if_pos hSelf]
        · rw [hSelf, hShard] at hS
          cases hS
          exact hSpec.2.2 c hHas
      · exact ⟨s, by rw [hGet, if_neg hSelf]; exact hS, hHas⟩
    · intro a s hS
      rw [hGet] at hS
      split at hS
      · cases hS
        exact hSpec.1
      · exact hGood a s hS
    · intro _
      refine ⟨shard.store fact, ?_, hSpec.2.1⟩
      rw [hGet, if_pos rfl]

theorem foldl_storeOn_extends
    (fact : Fact F) (hGood : r.Good toLowercase known)
    (hConsistent : Consistent known)
    (hKnown : (fact.factId, fact.content) ∈ known)
    (hKey : (contentKey toLowercase fact.content).isSome)
    (owners : List String) :
    let after : Router F :=
      { r with shards := owners.foldl (storeOn fact) r.shards }
    Extends r after ∧ after.Good toLowercase known ∧
      ∀ owner ∈ owners, (r.shards.get? owner).isSome →
        after.has owner fact.content := by
  induction owners generalizing r with
  | nil =>
    exact ⟨Extends.refl r, hGood, fun _ hMem => (List.not_mem_nil hMem).elim⟩
  | cons owner owners ih =>
    intro after
    obtain ⟨hFirst, hGoodNext, hHas⟩ := storeOn_extends hGood
      hConsistent hKnown hKey owner
    obtain ⟨hRest, hGoodEnd, hOthers⟩ := ih hGoodNext
    refine ⟨hFirst.trans hRest, hGoodEnd, ?_⟩
    intro other hMem hSome
    rcases List.mem_cons.mp hMem with hSelf | hLater
    · rw [hSelf] at hSome ⊢
      exact hRest.kept owner _ (hHas hSome)
    · apply hOthers other hLater
      rw [hFirst.present]
      exact hSome

/- A known fact is stored on the owners of its key. -/
theorem storeFact_extends
    {fact : Fact F} (hGood : r.Good toLowercase known)
    (hConsistent : Consistent known)
    (hKnown : (fact.factId, fact.content) ∈ known)
    (hKey : (contentKey toLowercase fact.content).isSome) :
    ∃ q, r.storeFact toLowercase fact = some q ∧ Extends r q ∧
      q.Good toLowercase known ∧
        ∀ key, contentKey toLowercase fact.content = some key →
          ∀ owner ∈ r.ring.getAgents key,
            (r.shards.get? owner).isSome → q.has owner fact.content := by
  obtain ⟨key, hSome⟩ := Option.isSome_iff_exists.mp hKey
  obtain ⟨hExtends, hGoodNext, hHas⟩ := foldl_storeOn_extends
    { fact with ringPosition := hashKey key }
    hGood hConsistent hKnown hKey (r.ring.getAgents key)
  refine ⟨_, ?_, hExtends, hGoodNext, ?_⟩
  · unfold storeFact
    rw [hSome]
    rfl
  · intro other hOther
    rw [hSome] at hOther
    cases hOther
    exact hHas

end Router

end Hive
