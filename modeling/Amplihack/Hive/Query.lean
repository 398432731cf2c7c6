import Amplihack.Base.Numbers
import Amplihack.Base.Search
import Amplihack.Base.TopMerge
import Amplihack.Hive.Shard

/-
  Queries: the search of a shard, and the merge of the
  searches of all shards.

  The sums of scores are of halves, so that the order of the
  terms makes no difference to them.
-/

-- Scores

namespace Hive

open Base

def searchStopWords : List String :=
  ["the", "a", "an", "is", "are", "was", "were", "what", "how",
    "does", "do", "and", "or", "of", "in", "to", "for", "with",
    "on", "at", "by", "from", "that", "this", "it", "as", "be",
    "been", "has", "have", "had", "will", "would", "could",
    "should", "did", "which", "who", "when", "where", "why",
    "any", "some", "all", "both", "each", "few", "more", "most",
    "other", "such", "into", "through", "during", "before",
    "after", "than", "then", "these", "those", "there", "their",
    "they", "its"]

/- Quotation marks are given by their code points. -/
def isPunctuation (c : Char) : Bool :=
  ['?', '.', ',', '!', ';', ':', Char.ofNat 39, Char.ofNat 34,
    '(', ')', '[', ']'].contains c

def stripPunctuation (word : String) : String :=
  let trimmed := word.toList.dropWhile isPunctuation
  String.ofList (trimmed.reverse.dropWhile isPunctuation).reverse

def bigramsOf (words : List String) : List (String × String) :=
  words.zip words.tail

def contains (text pattern : String) : Bool :=
  (find pattern.toList text.toList).isSome

def startsWith (text pattern : String) : Bool :=
  pattern.toList.isPrefixOf text.toList

/- What one term adds to the hits. -/
def termHits
    (contentLower : String) (contentWords : List String) (term : String) :
    Float :=
  let weight :=
    if term.toList.any Char.isDigit then 5.0 else 1.0
  if contains contentLower term then weight
  else if 4 ≤ term.utf8ByteSize && contentWords.any fun w =>
      4 ≤ w.utf8ByteSize &&
        (startsWith w term || startsWith term w) then
    weight * 0.5
  else 0.0

def scoreFact
    (toLowercase : String → String) (fact : Fact Float)
    (terms : List String) (bigrams : List (String × String)) :
    Float :=
  let contentLower := toLowercase fact.content
  let contentWords := splitWhitespace contentLower
  let hits := terms.foldl
    (fun hits term =>
      hits + termHits contentLower contentWords term)
    0.0
  if hits ≤ 0.0 then 0.0
  else
    let factBigrams := bigramsOf contentWords
    let bigramHits := bigrams.countP (factBigrams.contains ·)
    hits + Float.ofNat bigramHits * 0.3 + fact.confidence * 0.01

def rawWords
    (toLowercase : String → String) (queryText : String) :
    List String :=
  ((splitWhitespace (toLowercase queryText)).map
    stripPunctuation).filter fun w => !w.isEmpty

/- All words when none is left without the stop words. -/
def searchTerms (words : List String) : List String :=
  let terms := (words.filter fun w =>
    !searchStopWords.contains w && 1 < w.utf8ByteSize).eraseDups
  if terms.isEmpty then words.eraseDups else terms

def scoreFor
    (toLowercase : String → String) (queryText : String) (fact : Fact Float) :
    Float :=
  let words := rawWords toLowercase queryText
  scoreFact toLowercase fact (searchTerms words) (bigramsOf words).eraseDups

-- Searches

namespace ShardStore

/- `values` is the order in which a shard goes through them. -/
def search
    (toLowercase : String → String)
    (values : ShardStore Float → List (Fact Float))
    (s : ShardStore Float) (queryText : String) (limit : ℕ) :
    List (Fact Float) :=
  let scored := ((values s).filter fun f =>
    !f.tags.contains "retracted").filterMap fun f =>
      let score := scoreFor toLowercase queryText f
      if 0.0 < score then some (score, f) else none
  let sorted := scored.mergeSort fun a b => !decide (a.1 < b.1)
  (sorted.take limit).map (·.2)

def factCount {F : Type} (s : ShardStore F) : ℕ :=
  s.facts.entries.length

end ShardStore

namespace Router

/- `agentIds` is the order in which the ring gives them. -/
def selectQueryTargets
    (r : Router Float) (queryFanout : ℕ) (agentIds : List String) :
    List String :=
  let nonEmpty := agentIds.filter fun a =>
    (r.shards.get? a).any fun s => 0 < s.factCount
  if nonEmpty.length < agentIds.length then agentIds
  else nonEmpty.take (queryFanout * 3)

/- One shard after the other; nothing is sorted again. -/
def query
    (toLowercase : String → String)
    (values : ShardStore Float → List (Fact Float))
    (r : Router Float) (queryFanout : ℕ)
    (agentIds : List String) (queryText : String) (limit : ℕ) :
    List (Fact Float) :=
  let targets := r.selectQueryTargets queryFanout agentIds
  let found := targets.flatMap fun a =>
    match r.shards.get? a with
    | some s => s.search toLowercase values queryText limit
    | none => []
  (unseen (fun f => hashKey f.content) [] found).take limit

end Router

-- The Best Of A Shard

/- `values` gives the facts of a shard, in whatever order. -/
def FactsOf
    (values : ShardStore Float → List (Fact Float)) :
    Prop :=
  ∀ s, (values s).Perm (s.facts.entries.map Prod.snd)

namespace ShardStore

variable {toLowercase : String → String}
variable {values : ShardStore Float → List (Fact Float)}
variable {s : ShardStore Float}
variable {queryText : String}
variable {limit : ℕ}

/- Not retracted, and with a score. -/
def isMatch
    (toLowercase : String → String) (queryText : String) (f : Fact Float) :
    Bool :=
  !f.tags.contains "retracted" &&
    decide (0.0 < scoreFor toLowercase queryText f)

def matching
    (toLowercase : String → String)
    (values : ShardStore Float → List (Fact Float))
    (s : ShardStore Float) (queryText : String) :
    List (Fact Float) :=
  (values s).filter (isMatch toLowercase queryText)

/- Equal scores stay in the order of the facts. -/
def best
    (toLowercase : String → String)
    (values : ShardStore Float → List (Fact Float))
    (s : ShardStore Float) (queryText : String) (limit : ℕ) :
    List (Fact Float) :=
  ((s.matching toLowercase values queryText).mergeSort
    fun f g => !decide
      (scoreFor toLowercase queryText f <
        scoreFor toLowercase queryText g)).take limit

theorem filterMap_scored (facts : List (Fact Float)) :
    ((facts.filter fun f =>
      !f.tags.contains "retracted").filterMap fun f =>
        let score := scoreFor toLowercase queryText f
        if 0.0 < score then some (score, f) else none) =
      (facts.filter (isMatch toLowercase queryText)).map
        fun f => (scoreFor toLowercase queryText f, f) := by
  induction facts with
  | nil => rfl
  | cons f facts ih =>
    unfold isMatch at ih ⊢
    rw [List.filter_cons, List.filter_cons]
    cases f.tags.contains "retracted" with
    | true => exact ih
    | false =>
      by_cases hScore : 0.0 < scoreFor toLowercase queryText f
      · rw [Bool.not_false, if_pos rfl, List.filterMap_cons]
        dsimp only
        rw [if_pos hScore, decide_eq_true hScore, ih]
        rfl
      · rw [Bool.not_false, if_pos rfl, List.filterMap_cons]
        dsimp only
        rw [if_neg hScore, decide_eq_false hScore, ih]
        rfl

theorem search_eq_best :
    s.search toLowercase values queryText limit =
      s.best toLowercase values queryText limit := by
  unfold search best matching
  dsimp only
  rw [filterMap_scored, ← List.map_mergeSort]
  · rw [← List.map_take, List.map_map]
    exact List.map_id _
  · intro f _ g _
    rfl

end ShardStore

end Hive
