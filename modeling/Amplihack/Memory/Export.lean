import Amplihack.Memory.Backend

/-
  The memories of a database, and the export of a session.
-/

-- The Database

namespace Memory

open Base

namespace Database

/-
  A row of `memory_entries`. `T` is that of the texts of
  JSON columns. Stores leave the expiry and the parent null.
-/
structure Row (T : Type) where
  id : String
  sessionId : String
  agentId : String
  memoryType : String
  title : String
  content : String
  metadata : T
  tags : Option T
  importance : Option Float
  createdAt : String
  accessedAt : String

/-
  JSON texts of columns, the numbers that neither SQLite nor
  JSON can write, and the order in which SQLite gives rows.
  A metadata number may come back changed from its text.
-/
structure Engine (T : Type) where
  metadataText : Metadata → T
  metadataOf : T → Option Metadata
  tagsText : List String → T
  tagsOf : T → Option (List String)
  tagsOf_tagsText : ∀ tags, tagsOf (tagsText tags) = some tags
  isNaN : Float → Bool
  isFinite : Float → Bool
  isNaN_of_isFinite : ∀ x, isFinite x = true → isNaN x = false
  isNaN_half : isNaN 0.5 = false
  isoToEpoch : String → Float
  newestFirst : List (Row T) → List (Row T)
  newestFirst_perm : ∀ rows, (newestFirst rows).Perm rows
  newestFirst_sorted : ∀ rows,
    (newestFirst rows).Pairwise fun row other =>
      other.accessedAt ≤ row.accessedAt

/- Sessions, and agents in them, with their first and last use. -/
structure Tables (T : Type) where
  entries : Dict String (Row T)
  sessions : Dict String (String × String)
  sessionAgents : Dict (String × String) (String × String)

variable {T : Type}

def Tables.empty : Tables T where
  entries := .empty
  sessions := .empty
  sessionAgents := .empty

def touch
    {κ : Type} [DecidableEq κ] (key : κ) (now : String)
    (uses : Dict κ (String × String)) :
    Dict κ (String × String) :=
  match uses.get? key with
  | none => uses.insert key (now, now)
  | some (created, _) => uses.insert key (created, now)

namespace Engine

variable (db : Engine T)

/- A NaN is stored as null, and no tags as null too. -/
def row (entry : MemoryEntry) (now : String) : Row T where
  id := entry.id
  sessionId := entry.sessionId
  agentId := entry.agentId
  memoryType := entry.memoryType.asStr
  title := entry.title
  content := entry.content
  metadata := db.metadataText entry.metadata
  tags :=
    if entry.tags.isEmpty then none
    else some (db.tagsText entry.tags)
  importance :=
    if db.isNaN entry.importance then none
    else some entry.importance
  createdAt := now
  accessedAt := now

/- A stored id is replaced, in whatever session it is. -/
def storeMemory
    (tables : Tables T) (entry : MemoryEntry) (now : String) :
    Tables T where
  entries := tables.entries.insert entry.id (db.row entry now)
  sessions := touch entry.sessionId now tables.sessions
  sessionAgents :=
    touch (entry.sessionId, entry.agentId) now tables.sessionAgents

def rowToEntry (row : Row T) : Option MemoryEntry :=
  (MemoryType.ofStr? row.memoryType).map fun memoryType =>
    { id := row.id
      sessionId := row.sessionId
      agentId := row.agentId
      memoryType := memoryType
      title := row.title
      content := row.content
      metadata := (db.metadataOf row.metadata).getD .empty
      createdAt := db.isoToEpoch row.createdAt
      accessedAt := db.isoToEpoch row.accessedAt
      tags := (row.tags.bind db.tagsOf).getD []
      importance := row.importance.getD 0.5 }

end Engine

structure DbQuery where
  sessionId : Option String := none
  agentId : Option String := none
  memoryType : Option MemoryType := none
  contentSearch : Option String := none
  minImportance : Option Float := none
  limit : Option ℕ := none
  offset : Option ℕ := none

/- Comparing with a null is never true. -/
def DbQuery.selects (query : DbQuery) (row : Row T) : Bool :=
  query.sessionId.all (row.sessionId == ·) &&
    query.agentId.all (row.agentId == ·) &&
    query.memoryType.all (row.memoryType == ·.asStr) &&
    query.contentSearch.all (fun search =>
      let pattern := '%' :: (search.toList ++ ['%'])
      like pattern row.content.toList || like pattern row.title.toList) &&
    query.minImportance.all fun least =>
      row.importance.any fun x => decide (least ≤ x)

/- An offset counts only together with a limit. -/
def DbQuery.window (query : DbQuery) (rows : List (Row T)) :
    List (Row T) :=
  match query.limit with
  | none => rows
  | some limit => (rows.drop (query.offset.getD 0)).take limit

def Engine.retrieveMemories
    (db : Engine T) (tables : Tables T) (query : DbQuery) :
    List MemoryEntry :=
  let rows := (tables.entries.entries.map Prod.snd).filter
    query.selects
  (query.window (db.newestFirst rows)).filterMap db.rowToEntry

def deleteMemory (tables : Tables T) (memoryId : String) :
    Tables T × Bool :=
  ({ tables with entries := tables.entries.remove memoryId },
    (tables.entries.get? memoryId).isSome)

def deleteSession (tables : Tables T) (sessionId : String) :
    Tables T × Bool :=
  ({ entries := tables.entries.retain fun _ row =>
       row.sessionId != sessionId
     sessions := tables.sessions.remove sessionId
     sessionAgents := tables.sessionAgents.retain fun key _ =>
       key.1 != sessionId },
    (tables.sessions.get? sessionId).isSome)

-- The Export

/- What is exported of a memory, times aside. -/
structure Fields where
  id : String
  sessionId : String
  agentId : String
  memoryType : String
  title : String
  content : String
  metadata : Metadata
  tags : List String
  importance : Option Float

structure Exported extends Fields where
  createdAt : Float
  accessedAt : Float

/- JSON has no number for what is not finite. -/
def Engine.toJson (db : Engine T) (entry : MemoryEntry) :
    Exported where
  id := entry.id
  sessionId := entry.sessionId
  agentId := entry.agentId
  memoryType := entry.memoryType.asStr
  title := entry.title
  content := entry.content
  metadata := entry.metadata
  tags := entry.tags
  importance :=
    if db.isFinite entry.importance then some entry.importance
    else none
  createdAt := entry.createdAt
  accessedAt := entry.accessedAt

def exportedTypes : List MemoryType :=
  [.semantic, .episodic, .procedural, .working, .strategic]

def exportLimit : ℕ := 10000

def exportQuery (sessionId : String) (memoryType : MemoryType) :
    DbQuery where
  sessionId := some sessionId
  memoryType := some memoryType
  limit := some exportLimit

/- The values of the JSON text that the export is. -/
def Engine.exportSessionMemories
    (db : Engine T) (tables : Tables T) (sessionId : String) :
    List Exported :=
  (exportedTypes.flatMap fun memoryType =>
    db.retrieveMemories tables
      (exportQuery sessionId memoryType)).map db.toJson

-- Histories

inductive Operation where
| storeMemory (entry : MemoryEntry) (now : String)
| deleteMemory (memoryId : String)
| deleteSession (sessionId : String)

def Engine.step (db : Engine T) (tables : Tables T) :
    Operation → Tables T
| .storeMemory entry now => db.storeMemory tables entry now
| .deleteMemory memoryId => (deleteMemory tables memoryId).1
| .deleteSession sessionId => (deleteSession tables sessionId).1

def Engine.run (db : Engine T) (history : List Operation) :
    Tables T :=
  history.foldl db.step .empty

/- The latest store of each id, unless it was deleted since. -/
def follow (memories : Dict String MemoryEntry) :
    Operation → Dict String MemoryEntry
| .storeMemory entry _ => memories.insert entry.id entry
| .deleteMemory memoryId => memories.remove memoryId
| .deleteSession sessionId =>
  memories.retain fun _ entry => entry.sessionId != sessionId

def live (history : List Operation) : Dict String MemoryEntry :=
  history.foldl follow .empty

def storedFields (entry : MemoryEntry) : Fields where
  id := entry.id
  sessionId := entry.sessionId
  agentId := entry.agentId
  memoryType := entry.memoryType.asStr
  title := entry.title
  content := entry.content
  metadata := entry.metadata
  tags := entry.tags
  importance := some entry.importance

/- Each memory of the session once, and nothing else. -/
structure CompleteExport
    (db : Engine T) (history : List Operation) (sessionId : String) :
    Prop where
  once : ((db.exportSessionMemories (db.run history)
    sessionId).map (·.id)).Nodup
  exact : ∀ fields,
    fields ∈ (db.exportSessionMemories (db.run history)
        sessionId).map (·.toFields) ↔
      ∃ id entry, (live history).get? id = some entry ∧
        entry.sessionId = sessionId ∧
        fields = storedFields entry

structure RemovesSession
    (db : Engine T) (history : List Operation) (sessionId : String) :
    Prop where
  removed : ∀ id entry, (live history).get? id = some entry →
    entry.sessionId = sessionId →
      (deleteSession (db.run history) sessionId).1.entries.get? id = none
  kept : ∀ id,
    (∀ entry, (live history).get? id = some entry →
      entry.sessionId ≠ sessionId) →
      (deleteSession (db.run history) sessionId).1.entries.get?
        id = (db.run history).entries.get? id

/-
  Its importance is finite, and its metadata comes back from
  their text.
-/
def Engine.ReadsBack (db : Engine T) (entry : MemoryEntry) :
    Prop :=
  db.isFinite entry.importance = true ∧
    (db.metadataOf (db.metadataText entry.metadata)).getD
      .empty = entry.metadata

def isOf
    (sessionId : String) (memoryType : MemoryType) (entry : MemoryEntry) :
    Bool :=
  entry.sessionId == sessionId &&
    decide (entry.memoryType = memoryType)

/-
  The memories of the session are of exported types, no more
  of each than a query gives, and each reads back.
-/
structure Exportable
    (db : Engine T) (history : List Operation) (sessionId : String) :
    Prop where
  listed : ∀ id entry, (live history).get? id = some entry →
    entry.sessionId = sessionId →
      entry.memoryType ∈ exportedTypes ∧ db.ReadsBack entry
  few : ∀ memoryType ∈ exportedTypes,
    (live history).countValues (isOf sessionId memoryType) ≤ exportLimit

-- Rows And Live Memories

variable {db : Engine T}
variable {history : List Operation}
variable {sessionId : String}

/- The rows are those of the live memories, under their ids. -/
structure Mirrors
    (db : Engine T) (entries : Dict String (Row T))
    (memories : Dict String MemoryEntry) :
    Prop where
  sound : ∀ id row, entries.get? id = some row →
    ∃ entry now, memories.get? id = some entry ∧ row = db.row entry now
  complete : ∀ id entry, memories.get? id = some entry →
    ∃ now, entries.get? id = some (db.row entry now)
  keyed : ∀ id entry, memories.get? id = some entry → entry.id = id

theorem mirrors_empty : Mirrors db .empty .empty where
  sound := by
    intro id row hGet
    rw [Dict.get?_empty] at hGet
    cases hGet
  complete := by
    intro id entry hGet
    rw [Dict.get?_empty] at hGet
    cases hGet
  keyed := by
    intro id entry hGet
    rw [Dict.get?_empty] at hGet
    cases hGet

variable {entries : Dict String (Row T)}
variable {memories : Dict String MemoryEntry}

theorem Mirrors.insert
    (hMirrors : Mirrors db entries memories)
    (entry : MemoryEntry) (now : String) :
    Mirrors db (entries.insert entry.id (db.row entry now))
      (memories.insert entry.id entry) where
  sound := by
    intro id row hGet
    rw [Dict.get?_insert] at hGet ⊢
    by_cases hSame : id = entry.id
    · rw [if_pos hSame] at hGet ⊢
      exact ⟨entry, now, rfl, (Option.some.inj hGet).symm⟩
    · rw [if_neg hSame] at hGet ⊢
      exact hMirrors.sound id row hGet
  complete := by
    intro id other hGet
    rw [Dict.get?_insert] at hGet ⊢
    by_cases hSame : id = entry.id
    · rw [if_pos hSame] at hGet ⊢
      exact ⟨now, by rw [Option.some.inj hGet]⟩
    · rw [if_neg hSame] at hGet ⊢
      exact hMirrors.complete id other hGet
  keyed := by
    intro id other hGet
    rw [Dict.get?_insert] at hGet
    by_cases hSame : id = entry.id
    · rw [if_pos hSame] at hGet
      rw [← Option.some.inj hGet, hSame]
    · rw [if_neg hSame] at hGet
      exact hMirrors.keyed id other hGet

/- Rows and memories that go by the same rule go together. -/
theorem Mirrors.retain
    (hMirrors : Mirrors db entries memories) (p : String → Row T → Bool)
    (q : String → MemoryEntry → Bool)
    (hSame : ∀ id entry now, p id (db.row entry now) = q id entry) :
    Mirrors db (entries.retain p) (memories.retain q) where
  sound := by
    intro id row hGet
    rw [Dict.get?_retain_eq_some_iff] at hGet
    rcases hMirrors.sound id row hGet.1 with ⟨entry, now, hMemory, rfl⟩
    refine ⟨entry, now, ?_, rfl⟩
    rw [Dict.get?_retain_eq_some_iff, ← hSame id entry now]
    exact ⟨hMemory, hGet.2⟩
  complete := by
    intro id entry hGet
    rw [Dict.get?_retain_eq_some_iff] at hGet
    rcases hMirrors.complete id entry hGet.1 with ⟨now, hRow⟩
    refine ⟨now, ?_⟩
    rw [Dict.get?_retain_eq_some_iff, hSame id entry now]
    exact ⟨hRow, hGet.2⟩
  keyed := by
    intro id entry hGet
    rw [Dict.get?_retain_eq_some_iff] at hGet
    exact hMirrors.keyed id entry hGet.1

theorem Mirrors.step
    {tables : Tables T} (hMirrors : Mirrors db tables.entries memories)
    (op : Operation) :
    Mirrors db (db.step tables op).entries (follow memories op) := by
  cases op with
  | storeMemory entry now => exact hMirrors.insert entry now
  | deleteMemory memoryId =>
    exact hMirrors.retain
      (fun id _ => decide (id ≠ memoryId))
      (fun id _ => decide (id ≠ memoryId))
      fun _ _ _ => rfl
  | deleteSession sessionId =>
    exact hMirrors.retain
      (fun _ row => row.sessionId != sessionId)
      (fun _ entry => entry.sessionId != sessionId)
      fun _ _ _ => rfl

theorem mirrors_foldl
    {tables : Tables T} (hMirrors : Mirrors db tables.entries memories)
    (history : List Operation) :
    Mirrors db (history.foldl db.step tables).entries
      (history.foldl follow memories) := by
  induction history generalizing tables memories with
  | nil => exact hMirrors
  | cons op history ih => exact ih (hMirrors.step op)

theorem mirrors_run (db : Engine T) (history : List Operation) :
    Mirrors db (db.run history).entries (live history) := by
  have hStart : Mirrors db (Tables.empty : Tables T).entries
      .empty := mirrors_empty
  exact mirrors_foldl hStart history

-- Reading Rows Back

namespace Engine

/- The memory that the row of a memory is read as. -/
def readEntry
    (db : Engine T) (entry : MemoryEntry) (now : String) :
    MemoryEntry :=
  { entry with
    metadata :=
      (db.metadataOf (db.metadataText entry.metadata)).getD .empty
    createdAt := db.isoToEpoch now
    accessedAt := db.isoToEpoch now
    importance :=
      if db.isNaN entry.importance then 0.5
      else entry.importance }

theorem rowToEntry_row
    (db : Engine T) (entry : MemoryEntry) (now : String) :
    db.rowToEntry (db.row entry now) = some (db.readEntry entry now) := by
  have hTags :
      (((db.row entry now).tags).bind db.tagsOf).getD [] =
        entry.tags := by
    unfold row
    dsimp only
    by_cases hEmpty : entry.tags.isEmpty
    · rw [if_pos hEmpty]
      exact (List.isEmpty_iff.mp hEmpty).symm
    · rw [if_neg hEmpty, Option.bind_some, db.tagsOf_tagsText]
      rfl
  have hImportance :
      (db.row entry now).importance.getD 0.5 =
        if db.isNaN entry.importance then 0.5
        else entry.importance := by
    unfold row
    dsimp only
    split
    · rfl
    · rfl
  unfold rowToEntry
  rw [hTags, hImportance]
  simp [row, readEntry]

/- What is exported is what was stored when it reads back. -/
theorem toJson_readEntry_iff
    (db : Engine T) (entry : MemoryEntry) (now : String) :
    (db.toJson (db.readEntry entry now)).toFields = storedFields entry ↔
      db.ReadsBack entry := by
  unfold toJson readEntry storedFields ReadsBack
  simp only [Fields.mk.injEq, true_and]
  rw [and_comm]
  apply and_congr_left
  intro _
  by_cases hNaN : db.isNaN entry.importance = true
  · rw [if_pos hNaN]
    have hNotFinite : db.isFinite entry.importance ≠ true := by
      intro hFinite
      rw [db.isNaN_of_isFinite _ hFinite] at hNaN
      cases hNaN
    constructor
    · intro hSame
      split at hSame
      next =>
        have hHalf := db.isNaN_half
        rw [Option.some.inj hSame] at hHalf
        rw [hHalf] at hNaN
        cases hNaN
      next => cases hSame
    · intro hFinite
      exact absurd hFinite hNotFinite
  · rw [if_neg hNaN]
    by_cases hFinite : db.isFinite entry.importance = true
    · simp [hFinite]
    · simp [hFinite]

end Engine

-- The Export Of A Type

theorem asStr_inj {a b : MemoryType}
    (hSame : a.asStr = b.asStr) :
    a = b := by
  have hOf := MemoryType.ofStr?_asStr a
  rw [hSame, MemoryType.ofStr?_asStr] at hOf
  exact (Option.some.inj hOf).symm

theorem selects_row
    (db : Engine T) (sessionId : String)
    (memoryType : MemoryType) (entry : MemoryEntry) (now : String) :
    (exportQuery sessionId memoryType).selects
        (db.row entry now) =
      isOf sessionId memoryType entry := by
  have hType :
      (entry.memoryType.asStr == memoryType.asStr) =
        decide (entry.memoryType = memoryType) := by
    by_cases hSame : entry.memoryType = memoryType
    · simp [hSame]
    · have hNames : entry.memoryType.asStr ≠ memoryType.asStr :=
        fun hNames => hSame (asStr_inj hNames)
      simp [hSame, hNames]
  unfold DbQuery.selects exportQuery isOf
  simp [Engine.row, hType]

/- The rows that the query of a type selects. -/
def typeRows
    (entries : Dict String (Row T)) (sessionId : String)
    (memoryType : MemoryType) :
    List (Row T) :=
  (entries.entries.map Prod.snd).filter
    (exportQuery sessionId memoryType).selects

variable {memoryType : MemoryType}

theorem Mirrors.mem_typeRows_iff
    (hMirrors : Mirrors db entries memories) {row : Row T} :
    row ∈ typeRows entries sessionId memoryType ↔
      ∃ id entry now, memories.get? id = some entry ∧
        entries.get? id = some row ∧
        row = db.row entry now ∧
        isOf sessionId memoryType entry = true := by
  unfold typeRows
  rw [List.mem_filter, List.mem_map]
  constructor
  · rintro ⟨⟨⟨id, row'⟩, hMem, rfl⟩, hSelects⟩
    have hGet := Dict.get?_of_mem_entries hMem
    rcases hMirrors.sound id row' hGet with ⟨entry, now, hMemory, rfl⟩
    rw [selects_row] at hSelects
    exact ⟨id, entry, now, hMemory, hGet, rfl, hSelects⟩
  · rintro ⟨id, entry, now, -, hGet, rfl, hOf⟩
    refine ⟨⟨(id, db.row entry now), Dict.mem_entries_of_get? hGet, rfl⟩, ?_⟩
    rw [selects_row]
    exact hOf

/- Every row has its own id. -/
theorem Mirrors.nodup_typeRows
    (hMirrors : Mirrors db entries memories) :
    ((typeRows entries sessionId memoryType).map (·.id)).Nodup := by
  have hIds :
      (entries.entries.map Prod.snd).map (·.id) =
        entries.entries.map Prod.fst := by
    rw [List.map_map]
    apply List.map_congr_left
    intro e hMem
    rcases hMirrors.sound e.1 e.2
      (Dict.get?_of_mem_entries hMem) with
      ⟨entry, now, hMemory, hRow⟩
    have hKeyed := hMirrors.keyed e.1 entry hMemory
    rw [Function.comp_apply, hRow]
    exact hKeyed
  have hAll : ((entries.entries.map Prod.snd).map (·.id)).Nodup := by
    rw [hIds]
    exact entries.nodupKeys
  unfold typeRows
  exact hAll.sublist (List.filter_sublist.map _)

/- As many rows as there are live memories for them. -/
theorem Mirrors.length_typeRows
    (hMirrors : Mirrors db entries memories) :
    (typeRows entries sessionId memoryType).length =
      memories.countValues (isOf sessionId memoryType) := by
  have hKeys :
      entries.keysWhere
          (exportQuery sessionId memoryType).selects =
        memories.keysWhere (isOf sessionId memoryType) := by
    ext id
    rw [Dict.mem_keysWhere_iff, Dict.mem_keysWhere_iff]
    constructor
    · rintro ⟨row, hGet, hSelects⟩
      rcases hMirrors.sound id row hGet with ⟨entry, now, hMemory, rfl⟩
      rw [selects_row] at hSelects
      exact ⟨entry, hMemory, hSelects⟩
    · rintro ⟨entry, hMemory, hOf⟩
      rcases hMirrors.complete id entry hMemory with ⟨now, hGet⟩
      refine ⟨db.row entry now, hGet, ?_⟩
      rw [selects_row]
      exact hOf
  rw [← Dict.card_keysWhere, ← hKeys, Dict.card_keysWhere]
  unfold typeRows Dict.countValues
  rw [← List.countP_eq_length_filter, List.countP_map]
  rfl

/- The rows that the query of a type gives. -/
def givenRows
    (db : Engine T) (entries : Dict String (Row T))
    (sessionId : String) (memoryType : MemoryType) :
    List (Row T) :=
  (db.newestFirst (typeRows entries sessionId memoryType)).take exportLimit

def exportedOf
    (db : Engine T) (entries : Dict String (Row T))
    (sessionId : String) (memoryType : MemoryType) :
    List Exported :=
  ((givenRows db entries sessionId memoryType).filterMap
    db.rowToEntry).map db.toJson

theorem export_eq_flatMap
    (db : Engine T) (tables : Tables T) (sessionId : String) :
    db.exportSessionMemories tables sessionId =
      exportedTypes.flatMap (exportedOf db tables.entries sessionId) := by
  unfold Engine.exportSessionMemories
  rw [List.map_flatMap]
  rfl

theorem Mirrors.mem_givenRows
    (hMirrors : Mirrors db entries memories) {row : Row T}
    (hMem : row ∈ givenRows db entries sessionId memoryType) :
    ∃ id entry now, memories.get? id = some entry ∧
      entries.get? id = some row ∧
      row = db.row entry now ∧
      isOf sessionId memoryType entry = true :=
  hMirrors.mem_typeRows_iff.mp
    ((db.newestFirst_perm _).subset (List.mem_of_mem_take hMem))

/- An exported memory is a live one, as it is read. -/
theorem Mirrors.mem_exportedOf
    (hMirrors : Mirrors db entries memories) {x : Exported}
    (hMem : x ∈ exportedOf db entries sessionId memoryType) :
    ∃ id entry now, memories.get? id = some entry ∧
      isOf sessionId memoryType entry = true ∧
      x = db.toJson (db.readEntry entry now) := by
  rcases List.mem_map.mp hMem with ⟨read, hRead, rfl⟩
  rcases List.mem_filterMap.mp hRead with ⟨row, hRow, hSome⟩
  rcases hMirrors.mem_givenRows hRow with
    ⟨id, entry, now, hMemory, -, rfl, hOf⟩
  rw [db.rowToEntry_row] at hSome
  exact ⟨id, entry, now, hMemory, hOf,
    by rw [Option.some.inj hSome]⟩

/- Without too many of its type, a live memory is exported. -/
theorem Mirrors.exists_exportedOf
    (hMirrors : Mirrors db entries memories)
    (hFew : memories.countValues (isOf sessionId memoryType) ≤ exportLimit)
    {id : String} {entry : MemoryEntry}
    (hMemory : memories.get? id = some entry)
    (hOf : isOf sessionId memoryType entry = true) :
    ∃ now, db.toJson (db.readEntry entry now) ∈
      exportedOf db entries sessionId memoryType := by
  rcases hMirrors.complete id entry hMemory with ⟨now, hGet⟩
  refine ⟨now, List.mem_map_of_mem (List.mem_filterMap.mpr
    ⟨db.row entry now, ?_, db.rowToEntry_row entry now⟩)⟩
  unfold givenRows
  have hRows :
      (db.newestFirst
        (typeRows entries sessionId memoryType)).length ≤
          exportLimit := by
    rw [(db.newestFirst_perm _).length_eq, hMirrors.length_typeRows]
    exact hFew
  rw [List.take_of_length_le hRows]
  exact (db.newestFirst_perm _).mem_iff.mpr
    (hMirrors.mem_typeRows_iff.mpr ⟨id, entry, now, hMemory, hGet, rfl, hOf⟩)

/- The ids exported are those of the rows given. -/
theorem Mirrors.ids_exportedOf
    (hMirrors : Mirrors db entries memories) :
    (exportedOf db entries sessionId memoryType).map (·.id) =
      (givenRows db entries sessionId memoryType).map (·.id) := by
  have hRows :
      ∀ rows : List (Row T),
        (∀ row ∈ rows, ∃ entry now, row = db.row entry now) →
          ((rows.filterMap db.rowToEntry).map db.toJson).map
              (·.id) =
            rows.map (·.id) := by
    intro rows
    induction rows with
    | nil => exact fun _ => rfl
    | cons row rows ih =>
      intro hAll
      rcases hAll row List.mem_cons_self with ⟨entry, now, rfl⟩
      have hRest := ih fun other hMem =>
        hAll other (List.mem_cons_of_mem _ hMem)
      rw [List.filterMap_cons_some (db.rowToEntry_row entry now)]
      simp only [List.map_cons, hRest]
      rfl
  apply hRows
  intro row hMem
  rcases hMirrors.mem_givenRows hMem with ⟨id, entry, now, -, -, hRow, -⟩
  exact ⟨entry, now, hRow⟩

theorem Mirrors.nodup_exportedOf
    (hMirrors : Mirrors db entries memories) :
    ((exportedOf db entries sessionId memoryType).map (·.id)).Nodup := by
  rw [hMirrors.ids_exportedOf]
  have hAll :
      ((db.newestFirst (typeRows entries sessionId
        memoryType)).map (·.id)).Nodup :=
    ((db.newestFirst_perm _).map _).nodup_iff.mpr hMirrors.nodup_typeRows
  exact hAll.sublist ((List.take_sublist _ _).map _)

theorem length_exportedOf_le
    (db : Engine T) (entries : Dict String (Row T))
    (sessionId : String) (memoryType : MemoryType) :
    (exportedOf db entries sessionId memoryType).length ≤
      exportLimit := by
  unfold exportedOf
  rw [List.length_map]
  exact (List.length_filterMap_le _ _).trans (List.length_take_le _ _)

-- The Export Of A Session

theorem isOf_iff {entry : MemoryEntry} :
    isOf sessionId memoryType entry = true ↔
      entry.sessionId = sessionId ∧ entry.memoryType = memoryType := by
  unfold isOf
  rw [Bool.and_eq_true, beq_iff_eq, decide_eq_true_eq]

/- An id is exported with one type only. -/
theorem Mirrors.once
    (hMirrors : Mirrors db entries memories) :
    ((exportedTypes.flatMap
      (exportedOf db entries sessionId)).map (·.id)).Nodup := by
  rw [List.map_flatMap, List.nodup_flatMap]
  refine ⟨fun memoryType _ => hMirrors.nodup_exportedOf, ?_⟩
  have hTypes : exportedTypes.Nodup := by decide
  apply hTypes.imp
  intro first second hNe id hFirst hSecond
  rcases List.mem_map.mp hFirst with ⟨x, hX, rfl⟩
  rcases List.mem_map.mp hSecond with ⟨y, hY, hId⟩
  rcases hMirrors.mem_exportedOf hX with ⟨i, entry, now, hMemory, hOf, rfl⟩
  rcases hMirrors.mem_exportedOf hY with
    ⟨j, other, later, hOther, hOfOther, rfl⟩
  have hIds : other.id = entry.id := hId
  rw [hMirrors.keyed i entry hMemory, hMirrors.keyed j other hOther] at hIds
  rw [hIds, hMemory] at hOther
  rw [← Option.some.inj hOther] at hOfOther
  exact hNe ((isOf_iff.mp hOf).2.symm.trans (isOf_iff.mp hOfOther).2)

/- What must be exported of a memory is what is exported of it. -/
theorem Mirrors.readsBack_of_exported
    (hMirrors : Mirrors db entries memories) {id : String}
    {entry : MemoryEntry}
    (hMemory : memories.get? id = some entry) {x : Exported}
    (hMem : x ∈ exportedOf db entries sessionId memoryType)
    (hFields : x.toFields = storedFields entry) :
    entry.memoryType = memoryType ∧ db.ReadsBack entry := by
  rcases hMirrors.mem_exportedOf hMem with ⟨i, other, now, hOther, hOf, rfl⟩
  have hIds : other.id = entry.id := congrArg Fields.id hFields
  rw [hMirrors.keyed i other hOther, hMirrors.keyed id entry hMemory] at hIds
  rw [hIds, hMemory] at hOther
  cases Option.some.inj hOther
  exact ⟨(isOf_iff.mp hOf).2, (db.toJson_readEntry_iff entry now).mp hFields⟩

/- All memories of a type exported: they fit in one query. -/
theorem Mirrors.few_of_exported
    (hMirrors : Mirrors db entries memories)
    (hAll : ∀ id entry, memories.get? id = some entry →
      isOf sessionId memoryType entry = true →
        ∃ x ∈ exportedOf db entries sessionId memoryType,
          x.toFields = storedFields entry) :
    memories.countValues (isOf sessionId memoryType) ≤
      exportLimit := by
  have hSubset :
      memories.keysWhere (isOf sessionId memoryType) ⊆
        ((exportedOf db entries sessionId memoryType).map
          (·.id)).toFinset := by
    intro id hMem
    rcases Dict.mem_keysWhere_iff.mp hMem with ⟨entry, hMemory, hOf⟩
    rcases hAll id entry hMemory hOf with ⟨x, hX, hFields⟩
    have hId : x.id = id :=
      (congrArg Fields.id hFields).trans (hMirrors.keyed id entry hMemory)
    rw [List.mem_toFinset, ← hId]
    exact List.mem_map_of_mem hX
  calc memories.countValues (isOf sessionId memoryType)
      = (memories.keysWhere (isOf sessionId memoryType)).card :=
        (Dict.card_keysWhere _ _).symm
    _ ≤ ((exportedOf db entries sessionId memoryType).map
          (·.id)).toFinset.card := Finset.card_le_card hSubset
    _ ≤ ((exportedOf db entries sessionId memoryType).map
          (·.id)).length := List.toFinset_card_le _
    _ ≤ exportLimit := by
        rw [List.length_map]
        exact length_exportedOf_le db entries sessionId memoryType

theorem exportable_of_complete
    (hComplete : CompleteExport db history sessionId) :
    Exportable db history sessionId := by
  have hMirrors := mirrors_run db history
  have hExported :
      ∀ id entry, (live history).get? id = some entry →
        entry.sessionId = sessionId →
          entry.memoryType ∈ exportedTypes ∧
            db.ReadsBack entry ∧
            ∃ x ∈ exportedOf db (db.run history).entries
              sessionId entry.memoryType,
              x.toFields = storedFields entry := by
    intro id entry hMemory hSession
    have hMem := (hComplete.exact (storedFields entry)).mpr
      ⟨id, entry, hMemory, hSession, rfl⟩
    rcases List.mem_map.mp hMem with ⟨x, hX, hFields⟩
    rw [export_eq_flatMap] at hX
    rcases List.mem_flatMap.mp hX with ⟨memoryType, hListed, hOf⟩
    rcases hMirrors.readsBack_of_exported hMemory hOf hFields
      with ⟨rfl, hReads⟩
    exact ⟨hListed, hReads, x, hOf, hFields⟩
  constructor
  · intro id entry hMemory hSession
    rcases hExported id entry hMemory hSession with ⟨hListed, hReads, -⟩
    exact ⟨hListed, hReads⟩
  · intro memoryType _
    apply hMirrors.few_of_exported
    intro id entry hMemory hOf
    rcases isOf_iff.mp hOf with ⟨hSession, rfl⟩
    exact (hExported id entry hMemory hSession).2.2

theorem complete_of_exportable
    (hExportable : Exportable db history sessionId) :
    CompleteExport db history sessionId := by
  have hMirrors := mirrors_run db history
  constructor
  · rw [export_eq_flatMap]
    exact hMirrors.once
  · intro fields
    rw [export_eq_flatMap, List.mem_map]
    constructor
    · rintro ⟨x, hX, rfl⟩
      rcases List.mem_flatMap.mp hX with ⟨memoryType, hListed, hOf⟩
      rcases hMirrors.mem_exportedOf hOf with
        ⟨id, entry, now, hMemory, hIs, rfl⟩
      have hSession := (isOf_iff.mp hIs).1
      exact ⟨id, entry, hMemory, hSession,
        (db.toJson_readEntry_iff entry now).mpr
          (hExportable.listed id entry hMemory hSession).2⟩
    · rintro ⟨id, entry, hMemory, hSession, rfl⟩
      rcases hExportable.listed id entry hMemory hSession with
        ⟨hListed, hReads⟩
      rcases hMirrors.exists_exportedOf
        (hExportable.few entry.memoryType hListed) hMemory
        (isOf_iff.mpr ⟨hSession, rfl⟩) with ⟨now, hX⟩
      exact ⟨_, List.mem_flatMap.mpr ⟨entry.memoryType, hListed, hX⟩,
        (db.toJson_readEntry_iff entry now).mpr hReads⟩

/- Deleting a session takes its memories and leaves the others. -/
theorem removesSession
    (db : Engine T) (history : List Operation) (sessionId : String) :
    RemovesSession db history sessionId := by
  have hMirrors := mirrors_run db history
  constructor
  · intro id entry hMemory hSession
    rw [Option.eq_none_iff_forall_ne_some]
    intro row hGet
    rcases Dict.get?_retain_eq_some_iff.mp hGet with ⟨hRow, hKeeps⟩
    rcases hMirrors.sound id row hRow with ⟨other, now, hOther, rfl⟩
    rw [hMemory] at hOther
    cases Option.some.inj hOther
    exact (bne_iff_ne.mp hKeeps) hSession
  · intro id hOther
    apply Option.ext
    intro row
    refine Dict.get?_retain_eq_some_iff.trans ⟨And.left, ?_⟩
    intro hRow
    refine ⟨hRow, ?_⟩
    rcases hMirrors.sound id row hRow with ⟨entry, now, hMemory, rfl⟩
    exact bne_iff_ne.mpr (hOther entry hMemory)

/-
  The export of a session is complete if and only if its
  memories are of the exported types, at most as many of each
  as one query gives, and read back as they were stored.
-/
theorem export_complete_iff
    (db : Engine T) (history : List Operation) (sessionId : String) :
    CompleteExport db history sessionId ∧
        RemovesSession db history sessionId ↔
      Exportable db history sessionId := by
  constructor
  · rintro ⟨hComplete, -⟩
    exact exportable_of_complete hComplete
  · intro hExportable
    exact ⟨complete_of_exportable hExportable,
      removesSession db history sessionId⟩

def notOlder (row other : Row (List String)) : Bool :=
  decide (other.accessedAt ≤ row.accessedAt)

theorem notOlder_trans
    (a b c : Row (List String)) (hab : notOlder a b = true)
    (hbc : notOlder b c = true) :
    notOlder a c = true := by
  unfold notOlder at hab hbc ⊢
  rw [decide_eq_true_eq] at hab hbc ⊢
  exact String.le_trans hbc hab

theorem notOlder_total (a b : Row (List String)) :
    (notOlder a b || notOlder b a) = true := by
  unfold notOlder
  rw [Bool.or_eq_true, decide_eq_true_eq, decide_eq_true_eq]
  exact String.le_total _ _

/- An engine for memories without metadata. -/
def plainEngine : Engine (List String) where
  metadataText := fun _ => []
  metadataOf := fun _ => some .empty
  tagsText := id
  tagsOf := some
  tagsOf_tagsText := fun _ => rfl
  isNaN := fun _ => false
  isFinite := fun _ => true
  isNaN_of_isFinite := fun _ _ => rfl
  isNaN_half := rfl
  isoToEpoch := fun _ => 0
  newestFirst := fun rows => rows.mergeSort notOlder
  newestFirst_perm := fun rows => List.mergeSort_perm rows _
  newestFirst_sorted := by
    intro rows
    have hSorted := List.pairwise_mergeSort notOlder_trans notOlder_total rows
    exact hSorted.imp fun hLe => of_decide_eq_true hLe

def oneReminder : List Operation :=
  [.storeMemory
    (MemoryEntry.new "m1" "s" "a" .prospective "call back" 0)
    "2024-01-01T00:00:00Z"]

/- The only memory of the session is of a type never asked for. -/
theorem prospective_is_not_exported :
    ¬ CompleteExport plainEngine oneReminder "s" := by
  intro hComplete
  have hMemory :
      (live oneReminder).get? "m1" =
        some (MemoryEntry.new "m1" "s" "a" .prospective "call back" 0) := rfl
  have hListed := ((exportable_of_complete hComplete).listed
    "m1" _ hMemory rfl).1
  revert hListed
  decide

end Database

end Memory
