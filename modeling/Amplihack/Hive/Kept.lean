import Amplihack.Hive.Graph

/-
  Where hashes do not collide and keys exist, no promoted
  content is lost.
-/

-- What Is Promised

namespace Hive

open Base

namespace HiveGraph

variable {F : Type}
variable {cfg : Settings F}
variable {w v u : HiveGraph cfg}

/-
  Promoted contents are on some agent's shard and found under
  the id of a copy, and an agent's contents move to the owners
  of their keys when it leaves.
-/
structure Kept (w : HiveGraph cfg) : Prop where
  stored : ∀ c ∈ w.promoted, ∃ a s id fact, w.Registered a ∧
    w.router.shards.get? a = some s ∧
      s.facts.get? id = some fact ∧ fact.content = c ∧
        ∀ order : List String, (∀ b, b ∈ order ↔
          (w.router.ring.agentPositions.get? b).isSome) →
            ∃ found, w.getFact order id = some found ∧ found.content = c
  moved : ∀ agentId shuffle,
    Possible w (.unregister agentId shuffle) →
      ∀ c, w.router.has agentId c →
        ∃ key, contentKey cfg.toLowercase c = some key ∧
          ∀ owner ∈ (w.unregisterAgent agentId
              shuffle).router.ring.getAgents key,
            (w.unregisterAgent agentId shuffle).router.has owner c

/-
  A new agent's positions are free, and a promoted content has
  a key and a hash that no other content has.
-/
def Sound (w : HiveGraph cfg) : Action F → Prop
| .register agentId _ _ => w.router.ring.Apart agentId
| .promote _ fact =>
  (contentKey cfg.toLowercase fact.content).isSome ∧
    ∀ e ∈ w.known, hashKey e.2 = hashKey fact.content → e.2 = fact.content
| _ => True

def Allowed (w : HiveGraph cfg) (action : Action F) : Prop :=
  Possible w action ∧ Sound w action

-- Gains

/- The shards gain facts; the filters may change. -/
structure Gains (w v : HiveGraph cfg) : Prop where
  alive : w.poisoned = false → v.poisoned = false
  agents : v.agents = w.agents
  known : v.known = w.known
  promoted : v.promoted = w.promoted
  extends' : w.router.Extends v.router
  good : w.router.Good cfg.toLowercase w.known →
    v.router.Good cfg.toLowercase v.known

theorem Gains.refl (w : HiveGraph cfg) : Gains w w where
  alive := fun hAlive => hAlive
  agents := rfl
  known := rfl
  promoted := rfl
  extends' := Router.Extends.refl w.router
  good := fun hGood => hGood

theorem Gains.trans
    (hLeft : Gains w v) (hRight : Gains v u) :
    Gains w u where
  alive := fun hAlive => hRight.alive (hLeft.alive hAlive)
  agents := hRight.agents.trans hLeft.agents
  known := hRight.known.trans hLeft.known
  promoted := hRight.promoted.trans hLeft.promoted
  extends' := hLeft.extends'.trans hRight.extends'
  good := fun hGood => hRight.good (hLeft.good hGood)

structure Inv (w : HiveGraph cfg) : Prop where
  alive : w.poisoned = false
  placed : w.router.ring.Placed
  shards : ∀ a, (w.router.shards.get? a).isSome ↔
    (w.router.ring.agentPositions.get? a).isSome
  agents : ∀ a, w.Registered a ↔ (w.router.ring.agentPositions.get? a).isSome
  good : w.router.Good cfg.toLowercase w.known
  consistent : Consistent w.known
  kept : ∀ c ∈ w.promoted, ∃ a, w.router.has a c

theorem Gains.inv
    (hGains : Gains w v) (hInv : Inv w) :
    Inv v where
  alive := hGains.alive hInv.alive
  placed := by
    rw [hGains.extends'.ring]
    exact hInv.placed
  shards := by
    intro a
    rw [hGains.extends'.ring, hGains.extends'.present]
    exact hInv.shards a
  agents := by
    intro a
    unfold Registered
    rw [hGains.extends'.ring, hGains.agents]
    exact hInv.agents a
  good := hGains.good hInv.good
  consistent := by
    rw [hGains.known]
    exact hInv.consistent
  kept := by
    intro c hC
    rw [hGains.promoted] at hC
    obtain ⟨a, hA⟩ := hInv.kept c hC
    exact ⟨a, hGains.extends'.kept a c hA⟩

/- A known content is stored on the owners of its key. -/
theorem store_gains
    (fact : Fact F) (hAlive : w.poisoned = false)
    (hGood : w.router.Good cfg.toLowercase w.known)
    (hConsistent : Consistent w.known)
    (hKnown : (fact.factId, fact.content) ∈ w.known)
    (hKey : (contentKey cfg.toLowercase fact.content).isSome) :
    Gains w (w.store fact) ∧ (w.store fact).poisoned = false ∧
      ∀ key, contentKey cfg.toLowercase fact.content = some key →
        ∀ owner ∈ w.router.ring.getAgents key,
          (w.router.shards.get? owner).isSome →
            (w.store fact).router.has owner fact.content := by
  obtain ⟨q, hStore, hExtends, hNext, hOwners⟩ :=
    Router.storeFact_extends hGood hConsistent hKnown hKey
  have hSame : w.store fact = { w with router := q } := by
    unfold store
    rw [hAlive, hStore]
    rfl
  rw [hSame]
  exact
    ⟨{ alive := fun _ => hAlive
       agents := rfl
       known := rfl
       promoted := rfl
       extends' := hExtends
       good := fun _ => hNext },
      hAlive, hOwners⟩

/- Facts that are known, as those of a shard are. -/
def Storable (w : HiveGraph cfg) (fact : Fact F) : Prop :=
  (fact.factId, fact.content) ∈ w.known ∧
    (contentKey cfg.toLowercase fact.content).isSome

variable {a id : String} {s : ShardStore F} {fact : Fact F}

theorem storable_of_get?
    (hGood : w.router.Good cfg.toLowercase w.known)
    (hShard : w.router.shards.get? a = some s)
    (hFact : s.facts.get? id = some fact) :
    w.Storable fact := by
  have hOwn := hGood a s hShard
  have hKnown := hOwn.known id fact hFact
  unfold Storable
  rw [hOwn.ids id fact hFact]
  exact hKnown

theorem foldl_store_gains
    {facts : List (Fact F)} (hAlive : w.poisoned = false)
    (hGood : w.router.Good cfg.toLowercase w.known)
    (hConsistent : Consistent w.known)
    (hFacts : ∀ fact ∈ facts, w.Storable fact) :
    Gains w (facts.foldl store w) ∧
      ∀ fact ∈ facts, ∀ key,
        contentKey cfg.toLowercase fact.content = some key →
          ∀ owner ∈ w.router.ring.getAgents key,
            (w.router.shards.get? owner).isSome →
              (facts.foldl store w).router.has owner
                fact.content := by
  induction facts generalizing w with
  | nil => exact ⟨Gains.refl w, fun _ hMem => (List.not_mem_nil hMem).elim⟩
  | cons fact facts ih =>
    have hFact := hFacts fact List.mem_cons_self
    obtain ⟨hFirst, hStill, hOwners⟩ := store_gains fact hAlive
      hGood hConsistent hFact.1 hFact.2
    obtain ⟨hRest, hOthers⟩ := ih (w := w.store fact) hStill
      (hFirst.good hGood)
      (by rw [hFirst.known]; exact hConsistent)
      (by
        intro other hMem
        unfold Storable
        rw [hFirst.known]
        exact hFacts other (List.mem_cons_of_mem _ hMem))
    refine ⟨hFirst.trans hRest, ?_⟩
    intro other hMem key hKey owner hOwner hShard
    rcases List.mem_cons.mp hMem with hSelf | hLater
    · rw [hSelf] at hKey ⊢
      exact hRest.extends'.kept owner _ (hOwners key hKey owner hOwner hShard)
    · refine hOthers other hLater key hKey owner ?_ ?_
      · rw [hFirst.extends'.ring]
        exact hOwner
      · rw [hFirst.extends'.present]
        exact hShard

-- Gossip

theorem pullFact_gains
    (agentId peerId : String) (hInv : Inv w) (hFact : w.Storable fact) :
    Gains w (pullFact agentId peerId w fact) := by
  obtain ⟨hGains, hStill, -⟩ := store_gains
    (discounted peerId fact cfg) hInv.alive hInv.good
    hInv.consistent hFact.1 hFact.2
  unfold pullFact
  dsimp only
  rw [if_neg (by rw [hStill]; exact Bool.false_ne_true)]
  exact
    { alive := hGains.alive
      agents := hGains.agents
      known := hGains.known
      promoted := hGains.promoted
      extends' := hGains.extends'
      good := hGains.good }

theorem pullMissingFacts_gains
    (shuffle : List String → List String)
    (agentId peerId : String) (hInv : Inv w) :
    Gains w (pullMissingFacts shuffle agentId w peerId) := by
  unfold pullMissingFacts
  split
  next bloom shard hAlive hBloom hShard =>
    have hFacts : ∀ fact ∈ (bloom.missingFrom
        (shuffle shard.facts.keys)).filterMap shard.facts.get?,
        w.Storable fact := by
      intro fact hMem
      obtain ⟨id, -, hFact⟩ := List.mem_filterMap.mp hMem
      exact storable_of_get? hInv.good hShard hFact
    generalize (bloom.missingFrom
      (shuffle shard.facts.keys)).filterMap shard.facts.get? = facts at hFacts
    clear hAlive hBloom hShard
    induction facts generalizing w with
    | nil => exact Gains.refl w
    | cons fact facts ih =>
      have hFirst := pullFact_gains agentId peerId hInv
        (hFacts fact List.mem_cons_self)
      refine hFirst.trans (ih (hFirst.inv hInv) ?_)
      intro other hMem
      unfold Storable
      rw [hFirst.known]
      exact hFacts other (List.mem_cons_of_mem _ hMem)
  next => exact Gains.refl w

/- Steps that only gain facts, one after the other. -/
theorem foldl_gains
    {α : Type} {f : HiveGraph cfg → α → HiveGraph cfg}
    (hStep : ∀ v a, Inv v → Gains v (f v a)) (items : List α) (hInv : Inv w) :
    Gains w (items.foldl f w) := by
  induction items generalizing w with
  | nil => exact Gains.refl w
  | cons a items ih =>
    have hFirst := hStep w a hInv
    exact hFirst.trans (ih (hFirst.inv hInv))

theorem runGossipRound_gains
    (agentIds : List String)
    (shuffle : List String → List String) (hInv : Inv w) :
    Gains w (w.runGossipRound agentIds shuffle) := by
  unfold runGossipRound
  split
  · refine foldl_gains ?_ agentIds hInv
    intro v agentId hV
    refine foldl_gains ?_ _ hV
    intro u peerId hU
    exact pullMissingFacts_gains shuffle agentId peerId hU
  · exact Gains.refl w

-- Agents

theorem new_inv : Inv (new : HiveGraph cfg) where
  alive := rfl
  placed := Ring.placed_new _
  shards := fun _ => Iff.rfl
  agents := fun _ => Iff.rfl
  good := by
    intro a s hShard
    change OrderedMap.empty.get? a = _ at hShard
    rw [OrderedMap.get?_empty] at hShard
    cases hShard
  consistent := fun _ hMem => (List.not_mem_nil hMem).elim
  kept := fun _ hMem => (List.not_mem_nil hMem).elim

variable {agentId : String}

theorem registerAgent_inv
    (hInv : Inv w) (hApart : w.router.ring.Apart agentId)
    (domain : String) (trust : F) :
    Inv (w.registerAgent agentId domain trust) := by
  have hRouter : (w.registerAgent agentId domain trust).router =
      w.router.addAgent agentId := by
    unfold registerAgent
    rw [hInv.alive]
    rfl
  have hShards : ∀ a, (w.router.addAgent agentId).shards.get? a =
      if a = agentId then
        some ((w.router.shards.get? agentId).getD .new)
      else w.router.shards.get? a := by
    intro a
    exact OrderedMap.get?_upsert _
  constructor
  case alive => exact hInv.alive
  case placed =>
    rw [hRouter]
    exact Ring.placed_addAgent hInv.placed hApart
  case shards =>
    intro a
    rw [hRouter, hShards]
    change _ ↔ ((w.router.ring.addAgent agentId).agentPositions.get? a).isSome
    rw [Ring.isSome_addAgent, ← hInv.shards]
    split
    next hSelf => simp [hSelf]
    next hOther => simp [hOther]
  case agents =>
    intro a
    rw [hRouter]
    change ((w.agents.upsert agentId _).get? a).isSome ↔
      ((w.router.ring.addAgent agentId).agentPositions.get? a).isSome
    rw [Ring.isSome_addAgent, ← hInv.agents, OrderedMap.get?_upsert]
    split
    next hSelf => simp [hSelf]
    next hOther => simp [hOther, Registered]
  case good =>
    rw [hRouter]
    intro a s hShard
    rw [hShards] at hShard
    split at hShard
    next hSelf =>
      cases hShard
      cases hOld : w.router.shards.get? agentId with
      | none => exact ShardStore.good_new
      | some shard => exact hInv.good agentId shard hOld
    next => exact hInv.good a s hShard
  case consistent => exact hInv.consistent
  case kept =>
    intro c hC
    obtain ⟨a, s, hShard, hHas⟩ := hInv.kept c hC
    refine ⟨a, s, ?_, hHas⟩
    rw [hRouter, hShards]
    split
    next hSelf =>
      rw [hSelf] at hShard
      rw [hShard]
      rfl
    next => exact hShard

/- The graph without an agent, before its facts are moved. -/
def without (w : HiveGraph cfg) (agentId : String) :
    HiveGraph cfg :=
  { w with
    router := (w.router.removeAgent agentId).1
    agents := w.agents.restrict (· != agentId)
    blooms := w.blooms.restrict (· != agentId) }

theorem unregisterAgent_eq
    (hAlive : w.poisoned = false) (agentId : String)
    (shuffle : List (Fact F) → List (Fact F)) :
    w.unregisterAgent agentId shuffle =
      (shuffle (w.router.removeAgent agentId).2).foldl store
        (w.without agentId) := by
  unfold unregisterAgent without
  rw [hAlive]
  rfl

theorem get?_without (agentId a : String) :
    (w.without agentId).router.shards.get? a =
      if a = agentId then none else w.router.shards.get? a := by
  change (w.router.shards.restrict (· != agentId)).get? a = _
  rw [OrderedMap.get?_restrict]
  by_cases hSelf : a = agentId
  · simp [hSelf]
  · simp [hSelf]

theorem isSome_without (agentId a : String) :
    ((w.without agentId).router.ring.agentPositions.get? a).isSome ↔
      a ≠ agentId ∧ (w.router.ring.agentPositions.get? a).isSome :=
  Ring.isSome_removeAgent agentId a

/- Only contents of the agent itself may be missing. -/
theorem without_good
    (hInv : Inv w) (agentId : String) :
    (w.without agentId).router.Good cfg.toLowercase w.known := by
  intro a s hShard
  rw [get?_without] at hShard
  split at hShard
  · cases hShard
  · exact hInv.good a s hShard

theorem mem_orphans {agentId c : String} :
    w.router.has agentId c ↔
      ∃ fact ∈ (w.router.removeAgent agentId).2, fact.content = c := by
  unfold Router.has Router.removeAgent ShardStore.has
  dsimp only
  cases w.router.shards.get? agentId with
  | none => simp
  | some shard =>
    constructor
    · rintro ⟨s, hS, id, fact, hFact, hContent⟩
      cases hS
      refine ⟨fact, List.mem_map.mpr ⟨(id, fact), ?_, rfl⟩, hContent⟩
      exact Dict.mem_entries_of_get? hFact
    · rintro ⟨fact, hMem, hContent⟩
      obtain ⟨⟨id, g⟩, hEntry, rfl⟩ := List.mem_map.mp hMem
      exact ⟨shard, rfl, id, g, Dict.get?_of_mem_entries hEntry, hContent⟩

theorem storable_orphan
    (hInv : Inv w) (hMem : fact ∈ (w.router.removeAgent agentId).2) :
    w.Storable fact := by
  unfold Router.removeAgent at hMem
  dsimp only at hMem
  cases hShard : w.router.shards.get? agentId with
  | none =>
    rw [hShard] at hMem
    exact (List.not_mem_nil hMem).elim
  | some shard =>
    rw [hShard] at hMem
    obtain ⟨⟨id, g⟩, hEntry, rfl⟩ := List.mem_map.mp hMem
    exact storable_of_get? hInv.good hShard (Dict.get?_of_mem_entries hEntry)

variable {shuffle : List (Fact F) → List (Fact F)}

/- The contents of an agent that leaves are on all owners. -/
theorem unregisterAgent_spec
    (hInv : Inv w) (hShuffle : ∀ l, (shuffle l).Perm l) :
    Gains (w.without agentId)
        (w.unregisterAgent agentId shuffle) ∧
      ∀ c, w.router.has agentId c →
        ∃ key, contentKey cfg.toLowercase c = some key ∧
          ∀ owner ∈ (w.without agentId).router.ring.getAgents key,
            (w.unregisterAgent agentId shuffle).router.has owner c := by
  have hPlaced : (w.without agentId).router.ring.Placed :=
    Ring.placed_removeAgent agentId hInv.placed
  have hFacts : ∀ fact ∈ shuffle (w.router.removeAgent agentId).2,
      (w.without agentId).Storable fact := by
    intro fact hMem
    rw [(hShuffle _).mem_iff] at hMem
    change w.Storable fact
    exact storable_orphan hInv hMem
  obtain ⟨hGains, hOwners⟩ := foldl_store_gains
    (w := w.without agentId) hInv.alive
    (without_good hInv agentId) hInv.consistent hFacts
  rw [unregisterAgent_eq hInv.alive]
  refine ⟨hGains, ?_⟩
  intro c hC
  obtain ⟨fact, hMem, rfl⟩ := mem_orphans.mp hC
  obtain ⟨key, hKey⟩ := Option.isSome_iff_exists.mp
    (storable_orphan hInv hMem).2
  refine ⟨key, hKey, ?_⟩
  intro owner hOwner
  have hListed := Ring.mem_getAgents hPlaced hOwner
  rw [isSome_without, ← hInv.shards] at hListed
  refine hOwners fact ((hShuffle _).mem_iff.mpr hMem) key hKey owner hOwner ?_
  rw [get?_without, if_neg hListed.1]
  exact hListed.2

theorem unregisterAgent_inv
    (hInv : Inv w) (hPossible : Possible w (.unregister agentId shuffle)) :
    Inv (w.unregisterAgent agentId shuffle) := by
  obtain ⟨hShuffle, hLeft⟩ := hPossible
  obtain ⟨hGains, hMoved⟩ := unregisterAgent_spec hInv hShuffle
  have hPlaced : (w.without agentId).router.ring.Placed :=
    Ring.placed_removeAgent agentId hInv.placed
  constructor
  case alive => exact hGains.alive hInv.alive
  case placed =>
    rw [hGains.extends'.ring]
    exact hPlaced
  case shards =>
    intro a
    rw [hGains.extends'.ring, hGains.extends'.present,
      isSome_without, get?_without, ← hInv.shards]
    split
    next hSelf => simp [hSelf]
    next hOther => simp [hOther]
  case agents =>
    intro a
    unfold Registered
    rw [hGains.extends'.ring, hGains.agents, isSome_without, ← hInv.agents]
    change ((w.agents.restrict (· != agentId)).get? a).isSome ↔ _
    rw [OrderedMap.get?_restrict]
    by_cases hSelf : a = agentId
    · simp [hSelf]
    · simp [hSelf, Registered]
  case good =>
    apply hGains.good
    exact without_good hInv agentId
  case consistent =>
    rw [hGains.known]
    exact hInv.consistent
  case kept =>
    intro c hC
    rw [hGains.promoted] at hC
    obtain ⟨a, s, hShard, hHas⟩ := hInv.kept c hC
    by_cases hSelf : a = agentId
    · rw [hSelf] at hShard
      have hRegistered : w.Registered agentId := by
        rw [hInv.agents, ← hInv.shards, hShard]
        rfl
      obtain ⟨b, hNe, hB⟩ := hLeft hRegistered
      rw [hInv.agents] at hB
      obtain ⟨key, -, hOwners⟩ := hMoved c ⟨s, hShard, hHas⟩
      have hSome := Ring.getAgents_ne_nil hPlaced
        ((isSome_without agentId b).mpr ⟨hNe, hB⟩) key
      obtain ⟨owner, hOwner⟩ := List.exists_mem_of_ne_nil _ hSome
      exact ⟨owner, hOwners owner hOwner⟩
    · refine ⟨a, hGains.extends'.kept a c ⟨s, ?_, hHas⟩⟩
      rw [get?_without, if_neg hSelf]
      exact hShard

-- Promotion

variable {known : List (String × String)}

theorem ShardGood.mono
    (entry : String × String) (hGood : s.Good cfg.toLowercase known) :
    s.Good cfg.toLowercase (entry :: known) where
  ids := hGood.ids
  known := fun id fact hFact =>
    ⟨List.mem_cons_of_mem _ (hGood.known id fact hFact).1,
      (hGood.known id fact hFact).2⟩
  found := hGood.found
  indexed := hGood.indexed

theorem consistent_cons
    {entry : String × String} (hConsistent : Consistent known)
    (hIds : ∀ e ∈ known, e.1 = entry.1 → e.2 = entry.2)
    (hHashes : ∀ e ∈ known, hashKey e.2 = hashKey entry.2 → e.2 = entry.2) :
    Consistent (entry :: known) := by
  intro e hE d hD hSame
  rcases List.mem_cons.mp hE with rfl | hOld
  · rcases List.mem_cons.mp hD with rfl | hOther
    · rfl
    · rcases hSame with hId | hHash
      · exact (hIds d hOther hId.symm).symm
      · exact (hHashes d hOther hHash.symm).symm
  · rcases List.mem_cons.mp hD with rfl | hOther
    · rcases hSame with hId | hHash
      · exact hIds e hOld hId
      · exact hHashes e hOld hHash
    · exact hConsistent e hOld d hOther hSame

theorem isSome_countFact
    (agents : OrderedMap String (HiveAgent F)) (agentId a : String) :
    ((countFact agents agentId).get? a).isSome = (agents.get? a).isSome := by
  unfold countFact
  split
  · rfl
  next agent hAgent =>
    rw [OrderedMap.get?_upsert]
    split
    next hSelf =>
      rw [hSelf, hAgent]
      rfl
    next => rfl

/- Some agent is listed when the list is not empty. -/
theorem exists_registered
    (hAgents : w.agents.entries.isEmpty = false) :
    ∃ a, w.Registered a := by
  cases hEntries : w.agents.entries with
  | nil =>
    rw [hEntries] at hAgents
    cases hAgents
  | cons entry rest =>
    refine ⟨entry.1, ?_⟩
    unfold Registered
    rw [OrderedMap.get?_of_mem_entries (k := entry.1) (v := entry.2)]
    · rfl
    · rw [hEntries]
      exact List.mem_cons_self

theorem promoteFact_inv
    (hInv : Inv w) (hAllowed : Allowed w (.promote agentId fact)) :
    Inv (w.promoteFact agentId fact) := by
  obtain ⟨hIds, hKey, hHashes⟩ := hAllowed
  have hConsistent : Consistent ((fact.factId, fact.content) :: w.known) :=
    consistent_cons hInv.consistent hIds hHashes
  have hGood : w.router.Good cfg.toLowercase
      ((fact.factId, fact.content) :: w.known) :=
    fun a s hShard => ShardGood.mono _ (hInv.good a s hShard)
  obtain ⟨q, hStore, hExtends, hNext, hOwners⟩ :=
    Router.storeFact_extends hGood hConsistent List.mem_cons_self hKey
  have hSame : w.store fact = { w with router := q } := by
    unfold store
    rw [hInv.alive, hStore]
    rfl
  unfold promoteFact
  rw [hSame]
  dsimp only
  rw [hInv.alive, if_neg (by decide)]
  constructor
  case alive => rfl
  case placed =>
    change q.ring.Placed
    rw [hExtends.ring]
    exact hInv.placed
  case shards =>
    intro a
    change (q.shards.get? a).isSome ↔ (q.ring.agentPositions.get? a).isSome
    rw [hExtends.ring, hExtends.present]
    exact hInv.shards a
  case agents =>
    intro a
    change ((countFact w.agents agentId).get? a).isSome ↔
      (q.ring.agentPositions.get? a).isSome
    rw [isSome_countFact, hExtends.ring]
    exact hInv.agents a
  case good => exact hNext
  case consistent => exact hConsistent
  case kept =>
    intro c hC
    change c ∈ (if w.agents.entries.isEmpty then w.promoted
      else fact.content :: w.promoted) at hC
    change ∃ a, q.has a c
    have hOld : c ∈ w.promoted → ∃ a, q.has a c := by
      intro hPromoted
      obtain ⟨a, hA⟩ := hInv.kept c hPromoted
      exact ⟨a, hExtends.kept a c hA⟩
    cases hAgents : w.agents.entries.isEmpty with
    | true =>
      rw [hAgents] at hC
      exact hOld hC
    | false =>
      rw [hAgents] at hC
      rcases List.mem_cons.mp hC with rfl | hPromoted
      · obtain ⟨a, hA⟩ := exists_registered hAgents
        rw [hInv.agents] at hA
        obtain ⟨key, hSome⟩ := Option.isSome_iff_exists.mp hKey
        obtain ⟨owner, hOwner⟩ := List.exists_mem_of_ne_nil _
          (Ring.getAgents_ne_nil hInv.placed hA key)
        have hListed := Ring.mem_getAgents hInv.placed hOwner
        rw [← hInv.shards] at hListed
        exact ⟨owner, hOwners key hSome owner hOwner hListed⟩
      · exact hOld hPromoted

-- Histories That Lose Nothing

theorem step_inv
    {action : Action F} (hInv : Inv w) (hAllowed : Allowed w action) :
    Inv (w.step action) := by
  cases action with
  | register agentId domain trust =>
    exact registerAgent_inv hInv hAllowed.2 domain trust
  | unregister agentId shuffle => exact unregisterAgent_inv hInv hAllowed.1
  | promote agentId fact => exact promoteFact_inv hInv hAllowed
  | gossip agentIds shuffle =>
    exact (runGossipRound_gains agentIds shuffle hInv).inv hInv

/- A copy found under an id has the content of the id. -/
theorem getFact_of_stored
    {order : List String} (hInv : Inv w)
    (hShard : w.router.shards.get? a = some s)
    (hFact : s.facts.get? id = some fact) (hOrder : a ∈ order) :
    ∃ found, w.getFact order id = some found ∧
      found.content = fact.content := by
  unfold getFact
  rw [hInv.alive]
  change ∃ found, order.findSome? _ = some found ∧ _
  cases hFound : order.findSome? fun agentId =>
      (w.router.shards.get? agentId).bind (·.facts.get? id) with
  | none =>
    rw [List.findSome?_eq_none_iff] at hFound
    have hNone := hFound a hOrder
    rw [hShard] at hNone
    change s.facts.get? id = none at hNone
    rw [hFact] at hNone
    cases hNone
  | some found =>
    obtain ⟨b, -, hB⟩ := List.exists_of_findSome?_eq_some hFound
    obtain ⟨other, hOther, hGet⟩ := Option.bind_eq_some_iff.mp hB
    refine ⟨found, rfl, ?_⟩
    have hTheirs := ((hInv.good b other hOther).known id found hGet).1
    have hOurs := ((hInv.good a s hShard).known id fact hFact).1
    exact hInv.consistent _ hTheirs _ hOurs (Or.inl rfl)

theorem Inv.kept_of
    (hInv : Inv w) :
    Kept w where
  stored := by
    intro c hC
    obtain ⟨a, s, hShard, id, fact, hFact, hContent⟩ :=
      hInv.kept c hC
    have hListed : (w.router.ring.agentPositions.get? a).isSome := by
      rw [← hInv.shards, hShard]
      rfl
    refine ⟨a, s, id, fact, (hInv.agents a).mpr hListed, hShard,
      hFact, hContent, ?_⟩
    intro order hOrder
    rw [← hContent]
    exact getFact_of_stored hInv hShard hFact ((hOrder a).mpr hListed)
  moved := by
    intro agentId shuffle hPossible c hC
    obtain ⟨hGains, hMoved⟩ := unregisterAgent_spec hInv hPossible.1
    rw [hGains.extends'.ring]
    exact hMoved c hC

/-
  Nothing is lost in a run whose new agents have free places
  and whose contents have keys and hashes of their own.
-/
theorem kept_of_sound
    (hReaches : Reaches step Allowed new w) :
    Kept w := by
  refine Inv.kept_of (hReaches.invariant Inv ?_ new_inv)
  intro v action hInv hAllowed
  exact step_inv hInv hAllowed

def plainSettings : Settings ℕ where
  toLowercase := fun text => text
  discount := fun confidence => confidence * 9 / 10
  bloomPositions := fun _ => [0]
  replication := 3
  enableGossip := true

def plainFact (factId content : String) : Fact ℕ where
  factId := factId
  content := content
  concept := ""
  confidence := 9
  sourceAgent := "a"
  tags := []
  createdAt := 0
  ringPosition := 0

def oneAgent : HiveGraph plainSettings :=
  step new (.register "a" "films" 1)

def oneFact : HiveGraph plainSettings :=
  step oneAgent (.promote "a" (plainFact "f1" "costarring"))

theorem kept_of_one_fact : Kept oneFact := by
  have hNew : Reaches step Allowed
      (new : HiveGraph plainSettings) new := Reaches.refl new
  have hFirst : Reaches step Allowed new oneAgent :=
    hNew.tail (.register "a" "films" 1)
      ⟨trivial, fun _ hSome => by cases hSome⟩
  refine kept_of_sound (hFirst.tail
    (.promote "a" (plainFact "f1" "costarring")) ⟨?_, ?_, ?_⟩)
  · exact fun _ hMem => (List.not_mem_nil hMem).elim
  · decide +kernel
  · exact fun _ hMem => (List.not_mem_nil hMem).elim

def twoFacts : HiveGraph plainSettings :=
  step oneFact (.promote "a" (plainFact "f2" "liquid"))

/- The two contents share a hash, and the second is not stored. -/
theorem second_content_is_lost :
    ¬∀ w : HiveGraph plainSettings, Reaches step Possible new w → Kept w := by
  intro hAll
  have hRun : (∀ e ∈ oneFact.known, e.1 = "f2" →
        e.2 = "liquid") ∧
      "liquid" ∈ twoFacts.promoted ∧
        ∀ e ∈ twoFacts.router.shards.entries,
          ∀ d ∈ e.2.facts.entries, d.2.content ≠ "liquid" := by decide +kernel
  obtain ⟨hIds, hPromoted, hLost⟩ := hRun
  have hNew : Reaches step Possible
      (new : HiveGraph plainSettings) new := Reaches.refl new
  have hFirst : Reaches step Possible new oneAgent :=
    hNew.tail (.register "a" "films" 1) trivial
  have hSecond : Reaches step Possible new oneFact :=
    hFirst.tail (.promote "a" (plainFact "f1" "costarring"))
      fun _ hMem => (List.not_mem_nil hMem).elim
  have hThird : Reaches step Possible new twoFacts :=
    hSecond.tail (.promote "a" (plainFact "f2" "liquid")) hIds
  obtain ⟨a, s, id, fact, -, hShard, hFact, hContent, -⟩ :=
    (hAll twoFacts hThird).stored "liquid" hPromoted
  exact hLost (a, s) (OrderedMap.mem_entries_of_get? hShard)
    (id, fact) (Dict.mem_entries_of_get? hFact) hContent

end HiveGraph

end Hive
