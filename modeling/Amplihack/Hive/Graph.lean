import Amplihack.Base.Gossip
import Amplihack.Base.Runs
import Amplihack.Hive.Shard

/-
  The knowledge graph of a hive: agents that come and go, and
  facts that are promoted, moved and gossiped.
-/

-- The Graph

namespace Hive

open Base

/- `discount` is that of the confidence of a peer's fact. -/
structure Settings (F : Type) where
  toLowercase : String → String
  discount : F → F
  bloomPositions : String → List ℕ
  replication : ℕ
  enableGossip : Bool

structure HiveAgent (F : Type) where
  domain : String
  trust : F
  factCount : ℕ
  status : String

/-
  A panic with the router locked leaves it poisoned. What was
  promoted is kept for reference: all ids with their contents,
  and the contents of the times with an agent.
-/
structure HiveGraph {F : Type} (cfg : Settings F) where
  router : Router F
  poisoned : Bool
  agents : OrderedMap String (HiveAgent F)
  blooms : OrderedMap String (Bloom cfg.bloomPositions)
  totalPromotes : ℕ
  known : List (String × String)
  promoted : List String

namespace HiveGraph

variable {F : Type}
variable {cfg : Settings F}

def new : HiveGraph cfg where
  router := .new cfg.replication
  poisoned := false
  agents := .empty
  blooms := .empty
  totalPromotes := 0
  known := []
  promoted := []

/- Nothing is stored once the router is poisoned. -/
def store (w : HiveGraph cfg) (fact : Fact F) : HiveGraph cfg :=
  if w.poisoned then w
  else
    match w.router.storeFact cfg.toLowercase fact with
    | none => { w with poisoned := true }
    | some router => { w with router := router }

def registerAgent
    (w : HiveGraph cfg) (agentId domain : String) (trust : F) :
    HiveGraph cfg :=
  { w with
    router :=
      if w.poisoned then w.router else w.router.addAgent agentId
    agents := w.agents.upsert agentId fun _ =>
      { domain := domain
        trust := trust
        factCount := 0
        status := "active" }
    blooms := w.blooms.upsert agentId fun _ => .empty }

/- The facts of the agent are stored anew, in any order. -/
def unregisterAgent
    (w : HiveGraph cfg) (agentId : String)
    (shuffle : List (Fact F) → List (Fact F)) :
    HiveGraph cfg :=
  let removed :=
    if w.poisoned then (w.router, [])
    else w.router.removeAgent agentId
  (shuffle removed.2).foldl store
    { w with
      router := removed.1
      agents := w.agents.restrict (· != agentId)
      blooms := w.blooms.restrict (· != agentId) }

def addToBloom
    (blooms : OrderedMap String (Bloom cfg.bloomPositions))
    (agentId factId : String) :
    OrderedMap String (Bloom cfg.bloomPositions) :=
  match blooms.get? agentId with
  | none => blooms
  | some bloom => blooms.upsert agentId fun _ => bloom.add factId

def countFact
    (agents : OrderedMap String (HiveAgent F)) (agentId : String) :
    OrderedMap String (HiveAgent F) :=
  match agents.get? agentId with
  | none => agents
  | some agent =>
    agents.upsert agentId fun _ =>
      { agent with factCount := agent.factCount + 1 }

/- A panic leaves only the poisoned router. -/
def promoteFact
    (w : HiveGraph cfg) (agentId : String) (fact : Fact F) :
    HiveGraph cfg :=
  let stored := w.store fact
  if stored.poisoned && !w.poisoned then stored
  else
    { stored with
      blooms := addToBloom stored.blooms agentId fact.factId
      agents := countFact stored.agents agentId
      totalPromotes := stored.totalPromotes + 1
      known := (fact.factId, fact.content) :: stored.known
      promoted :=
        if stored.agents.entries.isEmpty then stored.promoted
        else fact.content :: stored.promoted }

/- The first copy, in the order the agents are listed. -/
def getFact
    (w : HiveGraph cfg) (order : List String) (factId : String) :
    Option (Fact F) :=
  if w.poisoned then none
  else
    order.findSome? fun agentId =>
      (w.router.shards.get? agentId).bind (·.facts.get? factId)

-- Gossip

def selectGossipPeers
    (agentId : String) (all : List String) (fanout : ℕ) :
    List String :=
  let peers := all.filter (· != agentId)
  if peers.length ≤ fanout then peers
  else
    (List.range fanout).filterMap fun i =>
      peers[(hashKey agentId + i) % peers.length]?

/- A peer's fact, for less and with its way here. -/
def discounted (peerId : String) (fact : Fact F)
    (cfg : Settings F) :
    Fact F :=
  { fact with
    confidence := cfg.discount fact.confidence
    tags := fact.tags ++ ["gossip_from:" ++ peerId] }

def pullFact
    (agentId peerId : String) (w : HiveGraph cfg) (fact : Fact F) :
    HiveGraph cfg :=
  let stored := w.store (discounted peerId fact cfg)
  if stored.poisoned then stored
  else
    { stored with
      blooms := addToBloom stored.blooms agentId fact.factId }

/- The peer's ids come in any order. -/
def pullMissingFacts
    (shuffle : List String → List String) (agentId : String)
    (w : HiveGraph cfg) (peerId : String) :
    HiveGraph cfg :=
  match w.poisoned, w.blooms.get? agentId,
    w.router.shards.get? peerId with
  | false, some bloom, some shard =>
    ((bloom.missingFrom (shuffle shard.facts.keys)).filterMap
      shard.facts.get?).foldl (pullFact agentId peerId) w
  | _, _, _ => w

/- The agents come in any order, too. -/
def runGossipRound
    (w : HiveGraph cfg) (agentIds : List String)
    (shuffle : List String → List String) :
    HiveGraph cfg :=
  if cfg.enableGossip then
    agentIds.foldl
      (fun w agentId =>
        (selectGossipPeers agentId agentIds 2).foldl
          (pullMissingFacts shuffle agentId) w)
      w
  else w

-- Histories

inductive Action (F : Type) where
| register (agentId domain : String) (trust : F)
| unregister (agentId : String)
    (shuffle : List (Fact F) → List (Fact F))
| promote (agentId : String) (fact : Fact F)
| gossip (agentIds : List String)
    (shuffle : List String → List String)

def step (w : HiveGraph cfg) : Action F → HiveGraph cfg
| .register agentId domain trust =>
  w.registerAgent agentId domain trust
| .unregister agentId shuffle =>
  w.unregisterAgent agentId shuffle
| .promote agentId fact => w.promoteFact agentId fact
| .gossip agentIds shuffle => w.runGossipRound agentIds shuffle

def Registered (w : HiveGraph cfg) (agentId : String) : Prop :=
  (w.agents.get? agentId).isSome

/-
  Maps are read in some order, an agent is left, and an id
  goes with one content.
-/
def Possible (w : HiveGraph cfg) : Action F → Prop
| .register .. => True
| .unregister agentId shuffle =>
  (∀ l, (shuffle l).Perm l) ∧
    (w.Registered agentId → ∃ b, b ≠ agentId ∧ w.Registered b)
| .promote _ fact =>
  ∀ e ∈ w.known, e.1 = fact.factId → e.2 = fact.content
| .gossip agentIds shuffle =>
  agentIds.Perm (w.agents.entries.map Prod.fst) ∧ ∀ l, (shuffle l).Perm l

end HiveGraph

end Hive
