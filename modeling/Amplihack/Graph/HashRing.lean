import Amplihack.Base.OrderedMap

/-
  The consistent hash ring.
-/

-- The Ring

namespace Graph

open Base

/- The agents by position, and in the order they came. -/
structure HashRing where
  ring : OrderedMap ℕ String
  virtualNodes : ℕ
  agents : List String

namespace HashRing

/- Sixty-four virtual nodes for each agent. -/
def default : HashRing where
  ring := .empty
  virtualNodes := 64
  agents := []

variable (hashKey : String → ℕ)

def vnodeKey (agentId : String) (i : ℕ) : String :=
  agentId ++ ":vnode:" ++ toString i

def addAgent (r : HashRing) (agentId : String) : HashRing :=
  if r.agents.contains agentId then r
  else
    { r with
      ring := (List.range r.virtualNodes).foldl
        (fun ring i => ring.upsert
          (hashKey (vnodeKey agentId i)) fun _ => agentId)
        r.ring
      agents := r.agents ++ [agentId] }

def removeAgent (r : HashRing) (agentId : String) : HashRing :=
  { r with
    ring :=
      { entries := r.ring.entries.filter (·.2 != agentId)
        sorted := r.ring.sorted.sublist
          (List.filter_sublist.map Prod.fst) }
    agents := r.agents.filter (· != agentId) }

/- The first `n` distinct agents on the way; one at least. -/
def takeDistinct (n : ℕ) :
    List String → List String → List String
| [], result => result
| agent :: rest, result =>
  if result.contains agent then takeDistinct n rest result
  else if result.length + 1 ≥ n then result ++ [agent]
  else takeDistinct n rest (result ++ [agent])

/- Clockwise from the position of the key, all around. -/
def getAgents (r : HashRing) (key : String) (n : ℕ) :
    List String :=
  let hash := hashKey key
  let later := r.ring.entries.filter fun e => hash ≤ e.1
  takeDistinct n ((later ++ r.ring.entries).map (·.2)) []

variable {hashKey : String → ℕ}

theorem mem_agents_addAgent
    {r : HashRing} {agentId a : String} :
    a ∈ (r.addAgent hashKey agentId).agents ↔ a = agentId ∨ a ∈ r.agents := by
  unfold addAgent
  split
  next hThere =>
    rw [List.contains_iff_mem] at hThere
    constructor
    · exact Or.inr
    · rintro (rfl | hMem)
      · exact hThere
      · exact hMem
  next =>
    rw [List.mem_append, List.mem_singleton, or_comm]

theorem mem_agents_removeAgent
    {r : HashRing} {agentId a : String} :
    a ∈ (r.removeAgent agentId).agents ↔ a ∈ r.agents ∧ a ≠ agentId := by
  unfold removeAgent
  rw [List.mem_filter, bne_iff_ne]

end HashRing

end Graph
