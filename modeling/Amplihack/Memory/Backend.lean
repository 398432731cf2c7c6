import Mathlib.Data.List.Infix
import Amplihack.Base.Json.Text
import Amplihack.Base.Dict

/-
  Memory entries and the requests that make and change them.

  The backends that keep memory entries.
-/

-- Memory Types

namespace Memory

open Base

inductive MemoryType where
| episodic
| semantic
| procedural
| prospective
| working
| strategic
| codeContext
| projectStructure
| userPreference
| errorPattern
| conversation
| task
deriving DecidableEq

namespace MemoryType

def asStr : MemoryType → String
| episodic => "episodic"
| semantic => "semantic"
| procedural => "procedural"
| prospective => "prospective"
| working => "working"
| strategic => "strategic"
| codeContext => "code_context"
| projectStructure => "project_structure"
| userPreference => "user_preference"
| errorPattern => "error_pattern"
| conversation => "conversation"
| task => "task"

def all : List MemoryType :=
  [episodic, semantic, procedural, prospective, working,
    strategic, codeContext, projectStructure, userPreference,
    errorPattern, conversation, task]

/- The type of a snake-case name. -/
def ofStr? (name : String) : Option MemoryType :=
  all.find? fun memoryType => memoryType.asStr == name

@[simp]
theorem ofStr?_asStr (memoryType : MemoryType) :
    ofStr? memoryType.asStr = some memoryType := by
  cases memoryType <;> decide

end MemoryType

-- Entries

abbrev Metadata := Dict String Json

structure MemoryEntry where
  id : String
  sessionId : String
  agentId : String
  memoryType : MemoryType
  title : String
  content : String
  metadata : Metadata
  createdAt : Float
  accessedAt : Float
  tags : List String
  importance : Float

namespace MemoryEntry

/- The id is a new one, `now` the time of the clock. -/
def new
    (id sessionId agentId : String) (memoryType : MemoryType)
    (content : String) (now : Float) :
    MemoryEntry where
  id := id
  sessionId := sessionId
  agentId := agentId
  memoryType := memoryType
  title := ""
  content := content
  metadata := .empty
  createdAt := now
  accessedAt := now
  tags := []
  importance := 0.5

end MemoryEntry

structure MemoryQuery where
  queryText : String
  sessionId : Option String
  agentId : Option String
  memoryTypes : List MemoryType
  limit : ℕ

-- Requests

structure StoreRequest where
  agentId : String
  title : String
  content : String
  memoryType : MemoryType
  metadata : Metadata
  tags : List String
  importance : Option Float

def StoreRequest.entry
    (request : StoreRequest) (sessionId id : String) (now : Float) :
    MemoryEntry :=
  let entry := MemoryEntry.new id sessionId request.agentId
    request.memoryType request.content now
  { entry with
    title := request.title
    tags := request.tags
    importance := request.importance.getD entry.importance
    metadata := request.metadata }

structure UpdateRequest where
  title : Option String
  content : Option String
  metadata : Option Metadata
  tags : Option (List String)
  importance : Option Float

/- The entry with the fields that are given, touched now. -/
def UpdateRequest.apply
    (update : UpdateRequest) (entry : MemoryEntry) (now : Float) :
    MemoryEntry :=
  { entry with
    title := update.title.getD entry.title
    content := update.content.getD entry.content
    metadata := update.metadata.getD entry.metadata
    tags := update.tags.getD entry.tags
    importance := update.importance.getD entry.importance
    accessedAt := now }

@[simp]
theorem UpdateRequest.apply_id
    (update : UpdateRequest) (entry : MemoryEntry) (now : Float) :
    (update.apply entry now).id = entry.id :=
  rfl

end Memory

-- The Interface

namespace Memory

open Base

/- What the calls do when they do not fail. -/
structure Backend where
  State : Type
  start : State
  /- None when the entry is refused. -/
  store : State → MemoryEntry → Option State
  retrieve : State → MemoryQuery → List MemoryEntry
  delete : State → String → State × Bool

def MemoryQuery.rowLimit (query : MemoryQuery) : ℕ :=
  if query.limit > 0 then query.limit else 20

-- In Memory

/- The lower-case letters of texts. -/
structure Lowercase where
  lower : String → String
  lower_empty : lower "" = ""

def Lowercase.matches
    (texts : Lowercase) (query : MemoryQuery) (entry : MemoryEntry) :
    Bool :=
  let queryLower := texts.lower query.queryText
  (queryLower.isEmpty ||
      (texts.lower entry.content).toList.tails.any
        queryLower.toList.isPrefixOf) &&
    query.sessionId.all (entry.sessionId == ·) &&
    (query.memoryTypes.isEmpty || query.memoryTypes.contains entry.memoryType)

/- The entries in the order in which they were stored. -/
def inMemoryBackend (texts : Lowercase) : Backend where
  State := List MemoryEntry
  start := []
  store entries entry := some (entries ++ [entry])
  retrieve entries query :=
    (entries.filter (texts.matches query)).take query.rowLimit
  delete entries id :=
    let kept := entries.filter (·.id != id)
    (kept, kept.length < entries.length)

-- SQLite

/- A row of the table `memories`. -/
structure Row where
  id : String
  sessionId : String
  agentId : String
  memoryType : String
  title : String
  content : String
  metadata : String
  createdAt : Float
  accessedAt : Float
  tags : String
  importance : Float

/-
  The JSON texts of columns, and the order in which rows of
  equal time are given.
-/
structure Sqlite where
  metadataText : Metadata → String
  metadataOf : String → Option Metadata
  tagsText : List String → String
  tagsOf : String → Option (List String)
  newestFirst : List Row → List Row
  newestFirst_perm : ∀ rows, (newestFirst rows).Perm rows
  newestFirst_sorted : ∀ rows,
    (newestFirst rows).Pairwise
      fun row other => ¬ row.createdAt < other.createdAt

/- One letter equals its ASCII upper or lower case. -/
def likeChar (p c : Char) : Bool := p.toLower == c.toLower

/- The pattern of LIKE. -/
def like : List Char → List Char → Bool
| [], cs => cs.isEmpty
| p :: ps, cs =>
  if p = '%' then cs.tails.any (like ps)
  else
    match cs with
    | [] => false
    | c :: cs => (p = '_' || likeChar p c) && like ps cs

namespace Sqlite

variable (sqlite : Sqlite)

/-
  A NaN is stored as a null, which the statement's OR REPLACE
  turns into the column's default, or refuses without one.
-/
def row (entry : MemoryEntry) : Option Row :=
  if entry.createdAt.isNaN || entry.accessedAt.isNaN then none
  else
    some
      { id := entry.id
        sessionId := entry.sessionId
        agentId := entry.agentId
        memoryType := entry.memoryType.asStr
        title := entry.title
        content := entry.content
        metadata := sqlite.metadataText entry.metadata
        createdAt := entry.createdAt
        accessedAt := entry.accessedAt
        tags := sqlite.tagsText entry.tags
        importance :=
          if entry.importance.isNaN then 0.5
          else entry.importance }

def rowToEntry (row : Row) : MemoryEntry where
  id := row.id
  sessionId := row.sessionId
  agentId := row.agentId
  memoryType :=
    (MemoryType.ofStr? row.memoryType).getD .semantic
  title := row.title
  content := row.content
  metadata := (sqlite.metadataOf row.metadata).getD .empty
  createdAt := row.createdAt
  accessedAt := row.accessedAt
  tags := (sqlite.tagsOf row.tags).getD []
  importance := row.importance

end Sqlite

/- The WHERE clause of the query. -/
def MemoryQuery.selects (query : MemoryQuery) (row : Row) :
    Bool :=
  query.sessionId.all (row.sessionId == ·) &&
    query.agentId.all (row.agentId == ·) &&
    (query.memoryTypes.isEmpty ||
      query.memoryTypes.any (·.asStr == row.memoryType)) &&
    (query.queryText.isEmpty ||
      like ('%' :: (query.queryText.toList ++ ['%'])) row.content.toList)

def sqliteBackend (sqlite : Sqlite) : Backend where
  State := List Row
  start := []
  store rows entry :=
    (sqlite.row entry).map fun row =>
      rows.filter (·.id != entry.id) ++ [row]
  retrieve rows query :=
    ((sqlite.newestFirst (rows.filter query.selects)).take
      (min query.rowLimit 10000)).map sqlite.rowToEntry
  delete rows id :=
    (rows.filter (·.id != id), rows.any (·.id == id))

end Memory
