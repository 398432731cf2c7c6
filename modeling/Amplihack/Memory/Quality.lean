import Mathlib.Algebra.Order.Ring.Rat
import Amplihack.Base.Numbers
import Amplihack.Hive.Routing
import Amplihack.Memory.Backend

/-
  The quality of memories: what is too trivial to keep, what
  a query asks for, and how well an entry answers it.

  The lower-case letters of a text, the number that a float
  stands for and the hash of a content are left open.
-/

-- Readings

namespace Memory

open Base Hive

structure Readings where
  lower : String → String
  exact : Float → ℚ
  fingerprint : String → UInt64

/- A query with all that the rankings read. -/
structure RetrievalQuery extends MemoryQuery where
  tags : List String
  tokenBudget : ℕ
  timeRangeSecs : Option Float

/- `content_fingerprint` -/
def Readings.contentFingerprint
    (r : Readings) (entry : MemoryEntry) :
    UInt64 :=
  r.fingerprint entry.content

-- Trivial Contents

def trivialPhrases : List String :=
  ["hello", "hi", "hey", "thanks", "thank you", "ok", "okay",
    "yes", "no", "sure", "got it", "understood",
    "sounds good"]

def trim (text : String) : String :=
  String.ofList ((text.toList.dropWhile
    isWhitespace).reverse.dropWhile isWhitespace).reverse

def Readings.isTrivial
    (r : Readings) (content : String) (minLength : ℕ) :
    Bool :=
  let trimmed := trim content
  if trimmed.utf8ByteSize < minLength then true
  else trivialPhrases.contains (r.lower trimmed)

-- Queries

def Readings.matchesQuery
    (r : Readings) (now : ℚ) (entry : MemoryEntry) (query : RetrievalQuery) :
    Bool :=
  query.sessionId.all (entry.sessionId == ·) &&
    query.agentId.all (entry.agentId == ·) &&
    (query.memoryTypes.isEmpty ||
      query.memoryTypes.contains entry.memoryType) &&
    (query.tags.isEmpty || query.tags.any (entry.tags.contains ·)) &&
    query.timeRangeSecs.all fun range =>
      now - r.exact entry.createdAt ≤ r.exact range

/- The different words of a query. -/
def queryWords (query : RetrievalQuery) : List String :=
  (splitWhitespace query.queryText).eraseDups

/- Words in common 60%, recency 20%, and importance 20%. -/
def Readings.relevanceScore
    (r : Readings) (now : ℚ) (entry : MemoryEntry)
    (queryWords : List String) :
    ℚ :=
  let contentWords :=
    (splitWhitespace entry.content).map r.lower
  let queryLower := (queryWords.map r.lower).eraseDups
  let overlap : ℚ := queryLower.countP (contentWords.contains ·)
  let wordScore :=
    if queryWords.isEmpty then 0
    else overlap / queryWords.length
  let ageHours :=
    max ((now - r.exact entry.createdAt) / 3600) 0
  let recencyBoost := 1 / (1 + ageHours * (1 / 10))
  let score := wordScore * (6 / 10) +
    recencyBoost * (2 / 10) +
    r.exact entry.importance * (2 / 10)
  min (max score 0) 1

/- `content.contains(pattern)` -/
def containsText (content pattern : String) : Bool :=
  content.toList.tails.any pattern.toList.isPrefixOf

def scoreImportance
    (content : String) (memoryType : MemoryType) :
    Float :=
  let score : Float := 0.5 +
    (match memoryType with
    | .procedural => 0.1
    | .strategic => 0.15
    | .working => -0.1
    | _ => 0.0)
  let len := content.utf8ByteSize
  let score := if 200 < len then score + 0.1 else score
  let score := if 500 < len then score + 0.05 else score
  let score :=
    if containsText content "fn " ||
        containsText content "def " ||
        containsText content "class " then
      score + 0.1
    else score
  Binary64.clamp 0.0 1.0 score

end Memory
