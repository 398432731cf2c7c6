import Amplihack.Hive.Answers
import Amplihack.Hive.Graph
import Amplihack.Hive.Merge

/-
  Trees of graphs, and facts that are retracted from them.
-/

-- Trees Of Graphs

namespace Hive

open Base

structure Node where
  cfg : Settings Float
  hiveId : String
  queryFanout : ℕ
  broadcastThreshold : Float
  graph : HiveGraph cfg

/- A graph owns its parent as well as its children. -/
inductive HiveTree where
| node (n : Node) (parent : Option HiveTree)
    (children : List HiveTree)

def escalated (hiveId : String) (fact : Fact Float) :
    Fact Float :=
  { fact with tags := fact.tags ++ ["escalation:" ++ hiveId] }

namespace HiveTree

def root : HiveTree → Node
| .node n _ _ => n

/-
  A fact of enough confidence goes to the parent too, unless
  storing it here has panicked.
-/
def promoteFact (agentId : String) (fact : Fact Float) :
    HiveTree → HiveTree
| .node n parent children =>
  let stored := n.graph.promoteFact agentId fact
  let above :=
    match parent with
    | none => none
    | some p =>
      if stored.poisoned && !n.graph.poisoned then some p
      else if n.broadcastThreshold ≤ fact.confidence then
        some (p.promoteFact fact.sourceAgent (escalated n.hiveId fact))
      else some p
  .node { n with graph := stored } above children

/- Registering, leaving and gossip concern one graph alone. -/
def act (t : HiveTree) : HiveGraph.Action Float → HiveTree
| .promote agentId fact => t.promoteFact agentId fact
| action =>
  match t with
  | .node n parent children =>
    .node { n with graph := n.graph.step action } parent children

end HiveTree

-- Retracting And Reading

/-
  The orders in which maps are read, and the hash of a
  content.
-/
structure Orders where
  agentIds : Router Float → List String
  values : ShardStore Float → List (Fact Float)
  intoValues : Dict String (ℚ × Fact Float) → List (ℚ × Fact Float)
  contentHash : String → String

def Orders.ListsAgents (o : Orders) : Prop :=
  ∀ r : Router Float, r.AgentOrder (o.agentIds r)

def positionScoreDecrement : ℚ := 1 / 20

namespace Node

/- The agents in the ring; their order decides nothing here. -/
def allAgents (n : Node) : List String :=
  n.graph.router.ring.agentPositions.entries.map Prod.fst

def copyOn (n : Node) (factId agentId : String) :
    Option (Fact Float) :=
  (n.graph.router.shards.get? agentId).bind (·.facts.get? factId)

/- A copy is looked for, and nothing is changed. -/
def retractFact (n : Node) (factId : String) : Bool :=
  !n.graph.poisoned &&
    n.allAgents.any fun agentId => (n.copyOn factId agentId).isSome

def queryShard
    (o : Orders) (n : Node) (query : String) (limit : ℕ) (agentId : String) :
    List (Fact Float) :=
  match n.graph.router.shards.get? agentId with
  | some s => s.search n.cfg.toLowercase o.values query limit
  | none => []

def queryFacts
    (o : Orders) (n : Node) (query : String) (limit : ℕ) :
    List (Fact Float) :=
  if n.graph.poisoned then []
  else
    let targets := n.graph.router.selectQueryTargets
      n.queryFanout (o.agentIds n.graph.router)
    let resultsByAgent := targets.filterMap fun agentId =>
      let facts := n.queryShard o query limit agentId
      if facts.isEmpty then none else some (agentId, facts)
    mergeRankedShardResults o.contentHash o.intoValues
      resultsByAgent limit positionScoreDecrement

end Node

mutual

/- With the ids of the graphs that have been asked. -/
def queryFederated
    (o : Orders) (query : String) (limit : ℕ) (visited : List String) :
    HiveTree → List (Fact Float) × List String
| .node n _ children =>
  if visited.contains n.hiveId then ([], visited)
  else
    let below :=
      queryChildren o query limit (n.hiveId :: visited) children
    ((unseen (·.content) []
      (n.queryFacts o query limit ++ below.1)).take limit,
      below.2)

def queryChildren
    (o : Orders) (query : String) (limit : ℕ) (visited : List String) :
    List HiveTree → List (Fact Float) × List String
| [] => ([], visited)
| child :: rest =>
  let first := queryFederated o query limit visited child
  let others := queryChildren o query limit first.2 rest
  (first.1 ++ others.1, others.2)

end

-- Histories

/- A way from a graph to one it owns. -/
inductive Turn where
| parent
| child (i : ℕ)

namespace HiveTree

def get? : List Turn → HiveTree → Option HiveTree
| [], t => some t
| .parent :: rest, .node _ parent _ => parent.bind (get? rest)
| .child i :: rest, .node _ _ children =>
  children[i]?.bind (get? rest)

def update (f : HiveTree → HiveTree) :
    List Turn → HiveTree → HiveTree
| [], t => f t
| .parent :: rest, .node n parent children =>
  .node n (parent.map (update f rest)) children
| .child i :: rest, .node n parent children =>
  .node n parent (children.modify i (update f rest))

end HiveTree

/- What is done to the graph at a place of the tree. -/
inductive TreeStep where
| act (place : List Turn) (action : HiveGraph.Action Float)
| retract (place : List Turn) (factId : String)

def TreeStep.Promotes (factId : String) : TreeStep → Prop
| .act _ (.promote _ fact) => fact.factId = factId
| _ => False

def HiveTree.step (t : HiveTree) : TreeStep → HiveTree
| .act place action => t.update (·.act action) place
| .retract _ _ => t

/-
  What retracting promises of a graph: no lookup and no query
  of its shards finds the fact. What its children answer is
  theirs.
-/
structure Gone (factId : String) (t : HiveTree) : Prop where
  lookedUp : ∀ order, order.Perm t.root.allAgents →
    t.root.graph.getFact order factId = none
  asked : ∀ o : Orders, o.ListsAgents → ∀ query limit,
    ∀ f ∈ t.root.queryFacts o query limit, f.factId ≠ factId
  federated : ∀ o : Orders, o.ListsAgents →
    ∀ query limit visited n parent children,
      t = .node n parent children →
        ∀ f ∈ (queryFederated o query limit visited t).1,
          f.factId = factId →
            f ∈ (queryChildren o query limit
              (n.hiveId :: visited) children).1

/-
  After a retraction that says it has worked, the fact is
  gone from the graph until it is promoted again.
-/
def StaysRetracted (t : HiveTree) (history : List TreeStep) :
    Prop :=
  ∀ before place factId later after,
    history = before ++ .retract place factId :: later ++ after →
      (∀ graph, (before.foldl HiveTree.step t).get? place =
        some graph → graph.root.retractFact factId = true →
      (∀ s ∈ later, ¬ s.Promotes factId) →
        ∀ graph',
          (later.foldl HiveTree.step
            (before.foldl HiveTree.step t)).get? place = some graph' →
            Gone factId graph')

/- An agent of the ring has the fact on its shard. -/
def Node.Holds (n : Node) (factId : String) : Prop :=
  n.graph.poisoned = false ∧
    ∃ agentId ∈ n.allAgents, ∃ f, n.copyOn factId agentId = some f

/- A fact is only retracted where no shard has it. -/
def NothingToRetract
    (t : HiveTree) (history : List TreeStep) :
    Prop :=
  ∀ before place factId after,
    history = before ++ .retract place factId :: after →
      ∀ graph, (before.foldl HiveTree.step t).get? place =
        some graph → ¬ graph.root.Holds factId

theorem Node.retractFact_iff
    (n : Node) (factId : String) :
    n.retractFact factId = true ↔ n.Holds factId := by
  unfold Node.retractFact Node.Holds
  rw [Bool.and_eq_true, List.any_eq_true]
  simp only [Bool.not_eq_true', Option.isSome_iff_exists]

/- What a shard has is looked up. -/
theorem Node.Holds.getFact_ne_none
    {n : Node} {factId : String} (hHolds : n.Holds factId) :
    n.graph.getFact n.allAgents factId ≠ none := by
  rcases hHolds with ⟨hSound, agentId, hMem, f, hCopy⟩
  unfold HiveGraph.getFact
  rw [hSound]
  intro hNone
  have hAbsent := List.findSome?_eq_none_iff.mp hNone agentId hMem
  unfold Node.copyOn at hCopy
  rw [hCopy] at hAbsent
  cases hAbsent

/-
  Retracting keeps its promise in the histories in which it
  has nothing to do, and in no others.
-/
theorem staysRetracted_iff
    (t : HiveTree) (history : List TreeStep) :
    StaysRetracted t history ↔ NothingToRetract t history := by
  constructor
  · intro hStays before place factId after hHistory graph hGraph hHolds
    have hGone := hStays before place factId [] after
      (by simpa using hHistory) graph hGraph
      ((graph.root.retractFact_iff factId).mpr hHolds)
      (fun s hMem => (List.not_mem_nil hMem).elim)
      graph hGraph
    exact hHolds.getFact_ne_none
      (hGone.lookedUp graph.root.allAgents (List.Perm.refl _))
  · intro hNothing before place factId later after hHistory
      graph hGraph hRetracted
    exact absurd ((graph.root.retractFact_iff factId).mp hRetracted)
      (hNothing before place factId (later ++ after)
        (by simpa using hHistory) graph hGraph)

def emptyTree : HiveTree :=
  .node
    { cfg :=
        { toLowercase := fun text => text
          discount := fun confidence => confidence * 0.9
          bloomPositions := fun _ => [0]
          replication := 3
          enableGossip := true }
      hiveId := "h"
      queryFanout := 5
      broadcastThreshold := 0.9
      graph := .new }
    none []

def retractedOnce : List TreeStep :=
  [.act [] (.register "a" "films" 1.0),
    .act [] (.promote "a"
      { factId := "f1"
        content := "costarring"
        concept := ""
        confidence := 0.8
        sourceAgent := "a"
        tags := []
        createdAt := 0
        ringPosition := 0 }),
    .retract [] "f1"]

/- The only fact is retracted, and is found as before. -/
theorem retracted_fact_is_found :
    ¬ StaysRetracted emptyTree retractedOnce := by
  intro hStays
  have hFound :
      (((retractedOnce.take 2).foldl HiveTree.step
        emptyTree).root.retractFact "f1") = true := by decide +kernel
  have hGone := hStays (retractedOnce.take 2) [] "f1" [] []
    rfl _ rfl hFound
    (fun s hMem => (List.not_mem_nil hMem).elim) _ rfl
  have hHolds := (Node.retractFact_iff _ "f1").mp hFound
  exact hHolds.getFact_ne_none (hGone.lookedUp _ (List.Perm.refl _))

end Hive
