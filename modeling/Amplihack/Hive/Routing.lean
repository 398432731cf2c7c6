import Mathlib.Data.String.Basic
import Amplihack.Base.Utf8
import Amplihack.Graph.HashRing

/-
  Where facts go: the hash, the key of a content, and the
  ring of agents.
-/

-- Hashes And Keys

namespace Hive

open Base

/- FNV-1a in 32 bits, over the bytes of the text. -/
def hashKey (key : String) : ℕ :=
  (utf8 key.toList).foldl
    (fun hash byte =>
      ((hash ^^^ byte.toNat) * 16777619) % 4294967296)
    2166136261

/- No two of the texts have one hash. -/
def CollisionFree
    {κ : Type} (hash : String → κ) (texts : List String) :
    Prop :=
  ∀ c ∈ texts, ∀ d ∈ texts, hash c = hash d → c = d

theorem CollisionFree.subset
    {κ : Type} {hash : String → κ} {few many : List String}
    (hFree : CollisionFree hash many) (hSubset : few ⊆ many) :
    CollisionFree hash few :=
  fun c hC d hD hSame =>
    hFree c (hSubset hC) d (hSubset hD) hSame

def stopWords : List String :=
  ["the", "and", "for", "that", "with", "this", "from", "are",
    "was", "were", "has", "have", "had", "not", "but"]

def isWhitespace (c : Char) : Bool :=
  (9 ≤ c.toNat && c.toNat ≤ 13) || c.toNat == 32 ||
    c.toNat == 133 || c.toNat == 160 || c.toNat == 5760 ||
    (8192 ≤ c.toNat && c.toNat ≤ 8202) || c.toNat == 8232 ||
    c.toNat == 8233 || c.toNat == 8239 || c.toNat == 8287 ||
    c.toNat == 12288

def splitWhitespace (text : String) : List String :=
  ((text.toList.splitOnP isWhitespace).filter (!·.isEmpty)).map String.ofList

/- The text up to a byte; none inside a character. -/
def sliceTo : List Char → ℕ → Option (List Char)
| _, 0 => some []
| [], _ + 1 => none
| c :: cs, n + 1 =>
  if c.utf8Size ≤ n + 1 then
    (sliceTo cs (n + 1 - c.utf8Size)).map (c :: ·)
  else none

/- Five significant words, or the first bytes; or a panic. -/
def contentKey (toLowercase : String → String)
    (content : String) :
    Option String :=
  let words := ((splitWhitespace content).filter fun w =>
    2 < w.utf8ByteSize && !stopWords.contains (toLowercase w)).take 5
  if words.isEmpty then
    (sliceTo content.toList (min content.utf8ByteSize 20)).map String.ofList
  else some (" ".intercalate (words.map toLowercase))

-- The Ring

/- Agents by position, and the positions they were given. -/
structure Ring where
  ringToAgent : OrderedMap ℕ String
  agentPositions : OrderedMap String (List ℕ)
  replicationFactor : ℕ

namespace Ring

def new (replicationFactor : ℕ) : Ring where
  ringToAgent := .empty
  agentPositions := .empty
  replicationFactor := replicationFactor

def positions (agentId : String) : List ℕ :=
  (List.range 64).map fun i =>
    hashKey (agentId ++ ":vnode:" ++ toString i)

def occupy (agentId : String)
    (ringToAgent : OrderedMap ℕ String) (position : ℕ) :
    OrderedMap ℕ String :=
  ringToAgent.upsert position fun _ => agentId

def addAgent (r : Ring) (agentId : String) : Ring :=
  if (r.agentPositions.get? agentId).isSome then r
  else
    { r with
      ringToAgent :=
        (positions agentId).foldl (occupy agentId) r.ringToAgent
      agentPositions := r.agentPositions.upsert agentId
        fun _ => positions agentId }

def removeAgent (r : Ring) (agentId : String) : Ring :=
  match r.agentPositions.get? agentId with
  | none => r
  | some given =>
    { r with
      ringToAgent := r.ringToAgent.restrict (!given.contains ·)
      agentPositions :=
        r.agentPositions.restrict (· != agentId) }

/- Clockwise from behind the position of the key. -/
def getAgents (r : Ring) (key : String) : List String :=
  let position := hashKey key
  let later := r.ringToAgent.entries.filter (position < ·.1)
  let before := r.ringToAgent.entries.filter (·.1 ≤ position)
  Graph.HashRing.takeDistinct r.replicationFactor
    ((later ++ before).map (·.2)) []

/- Each agent has all its positions, and no one else does. -/
structure Placed (r : Ring) : Prop where
  own : ∀ a given, r.agentPositions.get? a = some given →
    given = positions a ∧ ∀ p ∈ given, r.ringToAgent.get? p = some a
  listed : ∀ p a, r.ringToAgent.get? p = some a →
    p ∈ positions a ∧ (r.agentPositions.get? a).isSome

/- None of an agent's positions is taken by another. -/
def Apart (r : Ring) (agentId : String) : Prop :=
  ∀ a, (r.agentPositions.get? a).isSome → a ≠ agentId →
    ∀ p ∈ positions a, p ∉ positions agentId

theorem get?_foldl_occupy
    (agentId : String) (given : List ℕ) (m : OrderedMap ℕ String) (p : ℕ) :
    (given.foldl (occupy agentId) m).get? p =
      if p ∈ given then some agentId else m.get? p := by
  induction given generalizing m with
  | nil => simp
  | cons q given ih =>
    rw [List.foldl_cons, ih]
    unfold occupy
    rw [OrderedMap.get?_upsert]
    by_cases hRest : p ∈ given
    · simp [hRest]
    · by_cases hHead : p = q
      · simp [hHead]
      · simp [hRest, hHead]

theorem placed_new (replicationFactor : ℕ) :
    (new replicationFactor).Placed where
  own := by
    intro a given hGet
    change OrderedMap.empty.get? a = _ at hGet
    rw [OrderedMap.get?_empty] at hGet
    cases hGet
  listed := by
    intro p a hGet
    change OrderedMap.empty.get? p = _ at hGet
    rw [OrderedMap.get?_empty] at hGet
    cases hGet

variable {r : Ring}

theorem isSome_addAgent (agentId a : String) :
    ((r.addAgent agentId).agentPositions.get? a).isSome ↔
      a = agentId ∨ (r.agentPositions.get? a).isSome := by
  unfold addAgent
  split
  next hThere =>
    constructor
    · exact Or.inr
    · rintro (rfl | hSome)
      · exact hThere
      · exact hSome
  next =>
    dsimp only
    rw [OrderedMap.get?_upsert]
    split
    next hSelf => simp [hSelf]
    next hOther => simp [hOther]

theorem isSome_removeAgent (agentId a : String) :
    ((r.removeAgent agentId).agentPositions.get? a).isSome ↔
      a ≠ agentId ∧ (r.agentPositions.get? a).isSome := by
  unfold removeAgent
  split
  next hNone =>
    constructor
    · intro hSome
      refine ⟨?_, hSome⟩
      rintro rfl
      rw [hNone] at hSome
      cases hSome
    · exact And.right
  next =>
    dsimp only
    rw [OrderedMap.get?_restrict]
    by_cases hSelf : a = agentId
    · simp [hSelf]
    · simp [hSelf]

theorem placed_addAgent
    {agentId : String} (hPlaced : r.Placed) (hApart : r.Apart agentId) :
    (r.addAgent agentId).Placed := by
  unfold addAgent
  split
  · exact hPlaced
  next hNew =>
    constructor
    case own =>
      intro a given hGet
      dsimp only at hGet ⊢
      rw [OrderedMap.get?_upsert] at hGet
      split at hGet
      next hSelf =>
        cases hGet
        rw [hSelf]
        refine ⟨rfl, ?_⟩
        intro p hP
        rw [get?_foldl_occupy, if_pos hP]
      next hOther =>
        obtain ⟨rfl, hOwn⟩ := hPlaced.own a given hGet
        refine ⟨rfl, ?_⟩
        intro p hP
        have hFree := hApart a (by rw [hGet]; rfl) hOther p hP
        rw [get?_foldl_occupy, if_neg hFree]
        exact hOwn p hP
    case listed =>
      intro p a hGet
      dsimp only at hGet ⊢
      rw [get?_foldl_occupy] at hGet
      rw [OrderedMap.get?_upsert]
      split at hGet
      next hP =>
        cases hGet
        rw [if_pos rfl]
        exact ⟨hP, rfl⟩
      next =>
        refine ⟨(hPlaced.listed p a hGet).1, ?_⟩
        split
        · rfl
        · exact (hPlaced.listed p a hGet).2

theorem placed_removeAgent
    (agentId : String) (hPlaced : r.Placed) :
    (r.removeAgent agentId).Placed := by
  unfold removeAgent
  split
  · exact hPlaced
  next given hGiven =>
    have hOwn := hPlaced.own agentId given hGiven
    constructor
    case own =>
      intro a theirs hGet
      dsimp only at hGet ⊢
      rw [OrderedMap.get?_restrict] at hGet
      split at hGet
      next hOther =>
        rw [bne_iff_ne] at hOther
        obtain ⟨hSame, hTheirs⟩ := hPlaced.own a theirs hGet
        refine ⟨hSame, ?_⟩
        intro p hP
        rw [OrderedMap.get?_restrict, if_pos]
        · exact hTheirs p hP
        · rw [Bool.not_eq_true', List.contains_eq_mem,
            decide_eq_false_iff_not]
          intro hBoth
          have hA := hTheirs p hP
          rw [hOwn.2 p hBoth] at hA
          exact hOther (Option.some.inj hA).symm
      next => cases hGet
    case listed =>
      intro p a hGet
      dsimp only at hGet ⊢
      rw [OrderedMap.get?_restrict] at hGet
      split at hGet
      next hKept =>
        obtain ⟨hP, hListed⟩ := hPlaced.listed p a hGet
        refine ⟨hP, ?_⟩
        rw [OrderedMap.get?_restrict, if_pos]
        · exact hListed
        · rw [bne_iff_ne]
          rintro rfl
          rw [hOwn.1, Bool.not_eq_true', List.contains_eq_mem,
            decide_eq_false_iff_not] at hKept
          exact hKept hP
      next => cases hGet

-- Owners

variable {n : ℕ} {agents result : List String} {a : String}

theorem mem_of_mem_takeDistinct
    (hMem : a ∈ Graph.HashRing.takeDistinct n agents result) :
    a ∈ agents ∨ a ∈ result := by
  induction agents generalizing result with
  | nil => exact Or.inr hMem
  | cons agent rest ih =>
    unfold Graph.HashRing.takeDistinct at hMem
    split at hMem
    · exact (ih hMem).imp_left (List.mem_cons_of_mem _)
    · split at hMem
      · rcases List.mem_append.mp hMem with hOld | hLast
        · exact Or.inr hOld
        · rw [List.mem_singleton.mp hLast]
          exact Or.inl List.mem_cons_self
      · rcases ih hMem with hRest | hEither
        · exact Or.inl (List.mem_cons_of_mem _ hRest)
        · rcases List.mem_append.mp hEither with hOld | hLast
          · exact Or.inr hOld
          · rw [List.mem_singleton.mp hLast]
            exact Or.inl List.mem_cons_self

theorem takeDistinct_ne_nil_of_result
    (agents : List String) (hResult : result ≠ []) :
    Graph.HashRing.takeDistinct n agents result ≠ [] := by
  induction agents generalizing result with
  | nil => exact hResult
  | cons agent rest ih =>
    unfold Graph.HashRing.takeDistinct
    split
    · exact ih hResult
    · split
      · simp
      · exact ih (by simp)

/- However few are asked for, one is taken. -/
theorem takeDistinct_ne_nil
    (hAgents : agents ≠ []) :
    Graph.HashRing.takeDistinct n agents [] ≠ [] := by
  cases agents with
  | nil => exact absurd rfl hAgents
  | cons agent rest =>
    unfold Graph.HashRing.takeDistinct
    split
    next hThere => simp at hThere
    next =>
      split
      · simp
      · exact takeDistinct_ne_nil_of_result rest (by simp)

theorem mem_getAgents
    {key a : String} (hPlaced : r.Placed) (hMem : a ∈ r.getAgents key) :
    (r.agentPositions.get? a).isSome := by
  unfold getAgents at hMem
  rcases mem_of_mem_takeDistinct hMem with hEntry | hNil
  · obtain ⟨⟨p, b⟩, hE, rfl⟩ := List.mem_map.mp hEntry
    have hIn : (p, b) ∈ r.ringToAgent.entries := by
      rcases List.mem_append.mp hE with hLater | hBefore
      · exact (List.mem_filter.mp hLater).1
      · exact (List.mem_filter.mp hBefore).1
    exact (hPlaced.listed p b (OrderedMap.get?_of_mem_entries hIn)).2
  · exact (List.not_mem_nil hNil).elim

/- A key has an owner once there is an agent. -/
theorem getAgents_ne_nil
    (hPlaced : r.Placed)
    (hAgent : (r.agentPositions.get? a).isSome) (key : String) :
    r.getAgents key ≠ [] := by
  obtain ⟨given, hGiven⟩ := Option.isSome_iff_exists.mp hAgent
  obtain ⟨rfl, hOwn⟩ := hPlaced.own a given hGiven
  have hFirst : hashKey (a ++ ":vnode:" ++ toString 0) ∈ positions a :=
    List.mem_map.mpr ⟨0, List.mem_range.mpr (by decide), rfl⟩
  have hEntry := OrderedMap.mem_entries_of_get? (hOwn _ hFirst)
  unfold getAgents
  apply takeDistinct_ne_nil
  intro hNil
  rw [List.map_eq_nil_iff, List.append_eq_nil_iff,
    List.filter_eq_nil_iff, List.filter_eq_nil_iff] at hNil
  have hLater := hNil.1 _ hEntry
  have hBefore := hNil.2 _ hEntry
  rw [decide_eq_true_iff] at hLater hBefore
  omega

end Ring

end Hive
