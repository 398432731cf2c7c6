import Mathlib.Data.List.Dedup
import Amplihack.Memory.Backend

/-
  Sessions as each backend lists them, and the criteria of a
  query: those it sets, and those of the SQL statement.
-/

-- Sessions

namespace Memory

open Base

structure SessionInfo where
  sessionId : String
  agentIds : List String
  memoryCount : ℕ
  createdAt : Float
  lastAccessed : Float

/- One more entry of its session. -/
def SessionInfo.addEntry
    (info : SessionInfo) (entry : MemoryEntry) :
    SessionInfo :=
  { info with
    memoryCount := info.memoryCount + 1
    agentIds :=
      if info.agentIds.contains entry.agentId then info.agentIds
      else info.agentIds ++ [entry.agentId]
    lastAccessed :=
      if info.lastAccessed < entry.accessedAt then
        entry.accessedAt
      else info.lastAccessed }

def addToSession
    (sessions : Dict String SessionInfo) (entry : MemoryEntry) :
    Dict String SessionInfo :=
  let info := (sessions.get? entry.sessionId).getD
    { sessionId := entry.sessionId
      agentIds := []
      memoryCount := 0
      createdAt := entry.createdAt
      lastAccessed := entry.accessedAt }
  sessions.insert entry.sessionId (info.addEntry entry)

def inMemorySessions (entries : List MemoryEntry) :
    List SessionInfo :=
  (entries.foldl addToSession .empty).entries.map Prod.snd

def leastOf : List Float → Float
| [] => 0
| x :: xs => xs.foldl (fun m y => if y < m then y else m) x

def greatestOf : List Float → Float
| [] => 0
| x :: xs => xs.foldl (fun m y => if m < y then y else m) x

/- The rows of each session, counted. -/
def sqliteSessions (rows : List Row) : List SessionInfo :=
  (rows.map Row.sessionId).dedup.map fun sessionId =>
    let group := rows.filter (·.sessionId == sessionId)
    { sessionId := sessionId
      agentIds := []
      memoryCount := group.length
      createdAt := leastOf (group.map Row.createdAt)
      lastAccessed := greatestOf (group.map Row.accessedAt) }

/- A session is listed with this many memories. -/
def Listed
    (sessions : List SessionInfo) (sessionId : String) (count : ℕ) :
    Prop :=
  ∃ info ∈ sessions, info.sessionId = sessionId ∧ info.memoryCount = count

variable {entries : List MemoryEntry}
variable {rows : List Row}
variable {sessionId : String}
variable {count : ℕ}

def countIn (entries : List MemoryEntry) (sessionId : String) :
    ℕ :=
  entries.countP (·.sessionId == sessionId)

theorem countIn_append
    (entries : List MemoryEntry) (entry : MemoryEntry) (sessionId : String) :
    countIn (entries ++ [entry]) sessionId =
      countIn entries sessionId +
        if entry.sessionId == sessionId then 1 else 0 := by
  unfold countIn
  rw [List.countP_append, List.countP_singleton]

/- Every session of the entries is there, with its count. -/
structure Counted
    (entries : List MemoryEntry) (sessions : Dict String SessionInfo) :
    Prop where
  absent : ∀ sessionId, sessions.get? sessionId = none →
    countIn entries sessionId = 0
  present : ∀ sessionId info,
    sessions.get? sessionId = some info →
      info.sessionId = sessionId ∧
        info.memoryCount = countIn entries sessionId ∧
        0 < countIn entries sessionId

theorem Counted.add
    {sessions : Dict String SessionInfo}
    (hCounted : Counted entries sessions) (entry : MemoryEntry) :
    Counted (entries ++ [entry]) (addToSession sessions entry) := by
  constructor
  case absent =>
    intro sessionId hNone
    unfold addToSession at hNone
    dsimp only at hNone
    rw [Dict.get?_insert] at hNone
    by_cases hSame : sessionId = entry.sessionId
    · simp [hSame] at hNone
    · simp only [hSame, if_false] at hNone
      rw [countIn_append, hCounted.absent sessionId hNone,
        if_neg (by simpa using Ne.symm hSame)]
  case present =>
    intro sessionId info hSome
    unfold addToSession at hSome
    dsimp only at hSome
    rw [Dict.get?_insert] at hSome
    by_cases hSame : sessionId = entry.sessionId
    · subst hSame
      rw [if_pos rfl, Option.some.injEq] at hSome
      rw [countIn_append, if_pos BEq.rfl, ← hSome]
      cases hOld : sessions.get? entry.sessionId with
      | none =>
        rw [hCounted.absent _ hOld]
        exact ⟨rfl, rfl, Nat.zero_lt_one⟩
      | some old =>
        obtain ⟨hId, hCount, -⟩ := hCounted.present _ old hOld
        refine ⟨hId, ?_, Nat.succ_pos _⟩
        rw [← hCount]
        rfl
    · simp only [hSame, if_false] at hSome
      rw [countIn_append, if_neg (by simpa using Ne.symm hSame)]
      exact hCounted.present sessionId info hSome

theorem counted_inMemory (entries : List MemoryEntry) :
    Counted entries (entries.foldl addToSession .empty) := by
  induction entries using List.reverseRecOn with
  | nil =>
    constructor
    · exact fun _ _ => rfl
    · intro sessionId info hSome
      rw [List.foldl_nil, Dict.get?_empty] at hSome
      cases hSome
  | append_singleton entries entry ih =>
    rw [List.foldl_append]
    exact ih.add entry

theorem listed_inMemory_iff :
    Listed (inMemorySessions entries) sessionId count ↔
      count = countIn entries sessionId ∧ 0 < count := by
  have hCounted := counted_inMemory entries
  unfold Listed inMemorySessions
  constructor
  · rintro ⟨info, hInfo, rfl, rfl⟩
    obtain ⟨⟨key, value⟩, hEntry, rfl⟩ := List.mem_map.mp hInfo
    have hGet := Dict.get?_eq_some_iff.mpr hEntry
    obtain ⟨hId, hCount, hPos⟩ := hCounted.present _ _ hGet
    dsimp only
    rw [hId, hCount]
    exact ⟨rfl, hPos⟩
  · rintro ⟨rfl, hPos⟩
    cases hGet : (entries.foldl addToSession .empty).get?
        sessionId with
    | none =>
      rw [hCounted.absent _ hGet] at hPos
      exact absurd hPos (lt_irrefl 0)
    | some info =>
      obtain ⟨hId, hCount, -⟩ := hCounted.present _ _ hGet
      have hEntry := Dict.get?_eq_some_iff.mp hGet
      exact ⟨info, List.mem_map_of_mem hEntry, hId, hCount⟩

theorem listed_sqlite_iff :
    Listed (sqliteSessions rows) sessionId count ↔
      count = rows.countP (·.sessionId == sessionId) ∧ 0 < count := by
  unfold Listed sqliteSessions
  constructor
  · rintro ⟨info, hInfo, rfl, rfl⟩
    obtain ⟨key, hKey, rfl⟩ := List.mem_map.mp hInfo
    obtain ⟨row, hRow, rfl⟩ :=
      List.mem_map.mp (List.mem_dedup.mp hKey)
    dsimp only
    rw [← List.countP_eq_length_filter]
    exact ⟨rfl, List.countP_pos_iff.mpr ⟨row, hRow, BEq.rfl⟩⟩
  · rintro ⟨rfl, hPos⟩
    obtain ⟨row, hRow, hSame⟩ := List.countP_pos_iff.mp hPos
    refine ⟨_, List.mem_map_of_mem (List.mem_dedup.mpr
      (List.mem_map_of_mem hRow)), eq_of_beq hSame, ?_⟩
    dsimp only
    rw [eq_of_beq hSame, ← List.countP_eq_length_filter]

/- Two listings agree when every session has one count. -/
theorem listed_iff_listed_iff :
    (∀ sessionId count,
        Listed (inMemorySessions entries) sessionId count ↔
          Listed (sqliteSessions rows) sessionId count) ↔
      ∀ sessionId, countIn entries sessionId =
        rows.countP (·.sessionId == sessionId) := by
  constructor
  · intro hListed sessionId
    by_contra hOther
    rcases Nat.eq_zero_or_pos (countIn entries sessionId) with
      hNone | hSome
    · have hPos : 0 < rows.countP (·.sessionId == sessionId) := by
        omega
      have hBoth := listed_inMemory_iff.mp
        ((hListed sessionId _).mpr (listed_sqlite_iff.mpr ⟨rfl, hPos⟩))
      exact hOther hBoth.1.symm
    · have hBoth := listed_sqlite_iff.mp
        ((hListed sessionId _).mp (listed_inMemory_iff.mpr ⟨rfl, hSome⟩))
      exact hOther hBoth.1
  · intro hCounts sessionId count
    rw [listed_inMemory_iff, listed_sqlite_iff, hCounts]

-- Criteria

/- A query with the tags, which neither backend reads. -/
structure TaggedQuery extends MemoryQuery where
  tags : List String

/- The text in the content, letter case ignored or exact. -/
def literally (exact : Bool) (text content : String) : Bool :=
  let fold := if exact then id else Char.toLower
  (content.toList.map fold).tails.any (text.toList.map fold).isPrefixOf

/- Every criterion that the query sets. -/
def TaggedQuery.satisfied
    (exact : Bool) (query : TaggedQuery) (entry : MemoryEntry) :
    Bool :=
  query.sessionId.all (entry.sessionId == ·) &&
    query.agentId.all (entry.agentId == ·) &&
    (query.memoryTypes.isEmpty ||
      query.memoryTypes.contains entry.memoryType) &&
    (query.tags.isEmpty || query.tags.any entry.tags.contains) &&
    literally exact query.queryText entry.content

/- The WHERE clause, on the entry itself. -/
def MemoryQuery.selectsEntry
    (query : MemoryQuery) (entry : MemoryEntry) :
    Bool :=
  query.sessionId.all (entry.sessionId == ·) &&
    query.agentId.all (entry.agentId == ·) &&
    (query.memoryTypes.isEmpty ||
      query.memoryTypes.contains entry.memoryType) &&
    (query.queryText.isEmpty ||
      like ('%' :: (query.queryText.toList ++ ['%'])) entry.content.toList)

-- Patterns

theorem like_percent (ps cs : List Char) :
    like ('%' :: ps) cs = cs.tails.any (like ps) := by
  unfold like
  exact if_pos rfl

theorem like_cons_cons
    {p : Char} (hPlain : p ≠ '%') (c : Char) (ps cs : List Char) :
    like (p :: ps) (c :: cs) = ((p = '_' || likeChar p c) && like ps cs) := by
  conv_lhs => unfold like
  exact if_neg hPlain

theorem any_tails_of_suffix
    {f : List Char → Bool} {tail cs : List Char}
    (hSuffix : tail <:+ cs) (hHolds : f tail = true) :
    cs.tails.any f = true := by
  rw [List.any_eq_true]
  exact ⟨tail, (List.mem_tails _ _).mpr hSuffix, hHolds⟩

/- A pattern matches what it is made of. -/
theorem like_of_forall₂
    {ps cs : List Char}
    (hSame : List.Forall₂ (fun p c => p.toLower = c.toLower) ps cs)
    (rest : List Char) :
    like (ps ++ ['%']) (cs ++ rest) = true := by
  induction hSame with
  | nil =>
    rw [List.nil_append, List.nil_append, like_percent]
    exact any_tails_of_suffix List.nil_suffix rfl
  | @cons p c ps cs hHead _ ih =>
    rw [List.cons_append, List.cons_append]
    by_cases hPercent : p = '%'
    · rw [hPercent, like_percent]
      exact any_tails_of_suffix (List.suffix_cons c _) ih
    · rw [like_cons_cons hPercent, ih]
      unfold likeChar
      rw [hHead]
      simp

theorem forall₂_of_map_eq
    {f : Char → Char} {ps cs : List Char} (hSame : ps.map f = cs.map f) :
    List.Forall₂ (fun p c => f p = f c) ps cs := by
  induction ps generalizing cs with
  | nil =>
    rw [List.map_nil, eq_comm, List.map_eq_nil_iff] at hSame
    rw [hSame]
    exact List.Forall₂.nil
  | cons p ps ih =>
    cases cs with
    | nil => cases hSame
    | cons c cs =>
      obtain ⟨hHead, hTail⟩ := List.cons.inj hSame
      exact List.Forall₂.cons hHead (ih hTail)

theorem literally_iff (exact : Bool) (text content : String) :
    literally exact text content = true ↔
      text.toList.map (if exact then id else Char.toLower) <:+:
        content.toList.map (if exact then id else Char.toLower) := by
  unfold literally
  dsimp only
  rw [List.any_eq_true]
  constructor
  · rintro ⟨tail, hTail, hPrefix⟩
    rw [List.mem_tails] at hTail
    rw [List.isPrefixOf_iff_prefix] at hPrefix
    exact hPrefix.isInfix.trans hTail.isInfix
  · rintro ⟨before, after, hSame⟩
    refine ⟨_ ++ after, (List.mem_tails _ _).mpr ⟨before, ?_⟩,
      List.isPrefixOf_iff_prefix.mpr (List.prefix_append _ _)⟩
    rw [← List.append_assoc]
    exact hSame

/- What holds with exact letters holds without their case. -/
theorem literally_mono
    {exact : Bool} {text content : String}
    (hLiteral : literally exact text content = true) :
    literally false text content = true := by
  cases exact with
  | false => exact hLiteral
  | true =>
    rw [literally_iff] at hLiteral ⊢
    rw [if_pos rfl, List.map_id, List.map_id] at hLiteral
    exact hLiteral.map _

/- A literal match is a match of the pattern. -/
theorem like_of_literally
    {text content : String} (hLiteral : literally false text content = true) :
    like ('%' :: (text.toList ++ ['%'])) content.toList =
      true := by
  rw [literally_iff, if_neg Bool.false_ne_true] at hLiteral
  obtain ⟨before, after, hSame⟩ := hLiteral
  rw [List.append_assoc] at hSame
  obtain ⟨first, others, hContent, -, hOthers⟩ :=
    List.map_eq_append_iff.mp hSame.symm
  obtain ⟨middle, rest, hRest, hMiddle, -⟩ :=
    List.map_eq_append_iff.mp hOthers
  rw [like_percent, hContent, hRest]
  refine any_tails_of_suffix (List.suffix_append first _) ?_
  exact like_of_forall₂ (forall₂_of_map_eq hMiddle.symm) rest

end Memory
