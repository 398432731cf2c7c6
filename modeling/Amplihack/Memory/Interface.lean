import Amplihack.Memory.Laws
import Amplihack.Memory.Listing

/-
  The two backends after the same stores and deletions: what
  it means that they give the same answers, and the right ones,
  and what both hold as long as no entry is stored again.
-/

-- Histories

namespace Memory

open Base

inductive Change where
| store (entry : MemoryEntry)
| delete (id : String)

/- A refused entry changes nothing. -/
def Backend.change (B : Backend) (s : B.State) :
    Change → B.State
| .store entry => (B.store s entry).getD s
| .delete id => (B.delete s id).1

def Backend.after (B : Backend) (history : List Change) :
    B.State :=
  history.foldl B.change B.start

def memoryAfter (texts : Lowercase) (history : List Change) :
    List MemoryEntry :=
  (inMemoryBackend texts).after history

def rowsAfter (sqlite : Sqlite) (history : List Change) :
    List Row :=
  (sqliteBackend sqlite).after history

def Change.apply (entries : List MemoryEntry) :
    Change → List MemoryEntry
| .store entry => entries.filter (·.id != entry.id) ++ [entry]
| .delete id => entries.filter (·.id != id)

/- The last entry of each id that has not been deleted. -/
def stored (history : List Change) : List MemoryEntry :=
  history.foldl Change.apply []

/- Times that can be told apart. -/
def Apart (e f : MemoryEntry) : Prop :=
  e.createdAt < f.createdAt ∨ f.createdAt < e.createdAt

def DistinctTimes (entries : List MemoryEntry) : Prop :=
  entries.Pairwise Apart

/- A character below 128. -/
def Ascii (text : String) : Prop :=
  ∀ c ∈ text.toList, c.toNat < 128

structure AsciiTexts
    (entries : List MemoryEntry) (query : TaggedQuery) :
    Prop where
  contents : ∀ e ∈ entries, Ascii e.content
  query : Ascii query.queryText

/- In ASCII texts, letters are lowered one by one. -/
def Lowercase.LowersAscii (texts : Lowercase) : Prop :=
  ∀ text, Ascii text →
    (texts.lower text).toList = text.toList.map Char.toLower

-- Agreement

/-
  The answers in a history, to its deletions and of sessions,
  and after it to `query`.
-/
structure Agree
    (texts : Lowercase) (sqlite : Sqlite) (exact : Bool)
    (history : List Change) (query : TaggedQuery) :
    Prop where
  deletes : ∀ earlier id later,
    history = earlier ++ .delete id :: later →
      ((inMemoryBackend texts).delete
          (memoryAfter texts earlier) id).2 =
        ((sqliteBackend sqlite).delete (rowsAfter sqlite earlier) id).2
  sessions : ∀ earlier, earlier <+: history →
    ∀ sessionId count,
      Listed (inMemorySessions (memoryAfter texts earlier))
          sessionId count ↔
        Listed (sqliteSessions (rowsAfter sqlite earlier)) sessionId count
  retrieved :
    (inMemoryBackend texts).retrieve (memoryAfter texts history)
        query.toMemoryQuery =
      (sqliteBackend sqlite).retrieve (rowsAfter sqlite history)
        query.toMemoryQuery
  satisfying : ∃ found : List MemoryEntry,
    found.Perm ((stored history).filter
        (query.satisfied exact)) ∧
      (inMemoryBackend texts).retrieve
          (memoryAfter texts history) query.toMemoryQuery =
        found.take query.rowLimit

/- The id is not stored, and the columns can hold the times. -/
def Change.Plain (sqlite : Sqlite) (entries : List MemoryEntry) :
    Change → Prop
| .store entry => (∀ e ∈ entries, e.id ≠ entry.id) ∧
    (sqlite.row entry).isSome
| .delete _ => True

def PlainHistory (sqlite : Sqlite) (history : List Change) :
    Prop :=
  ∀ earlier c later, history = earlier ++ c :: later →
    c.Plain sqlite (stored earlier)

/-
  What matches session, types and text has the agent, a tag,
  the letters and columns that give it back, and was stored
  newest first; nothing matches through a wildcard alone.
-/
structure PlainQuery
    (texts : Lowercase) (sqlite : Sqlite) (exact : Bool)
    (entries : List MemoryEntry) (query : TaggedQuery) :
    Prop where
  agent : ∀ e ∈ entries,
    texts.matches query.toMemoryQuery e = true →
      query.agentId.all (e.agentId == ·) = true
  tags : ∀ e ∈ entries,
    texts.matches query.toMemoryQuery e = true →
      (query.tags.isEmpty || query.tags.any e.tags.contains) = true
  letters : ∀ e ∈ entries,
    texts.matches query.toMemoryQuery e = true →
      literally exact query.queryText e.content = true
  columns : ∀ e ∈ entries,
    texts.matches query.toMemoryQuery e = true →
      ∀ row, sqlite.row e = some row → sqlite.rowToEntry row = e
  wildcards : ∀ e ∈ entries,
    query.selectsEntry e = true → texts.matches query.toMemoryQuery e = true
  order :
    (entries.filter (texts.matches query.toMemoryQuery)).Pairwise
      fun e later => later.createdAt < e.createdAt

-- Rows Of Entries

variable {texts : Lowercase}
variable {sqlite : Sqlite}
variable {exact : Bool}
variable {history : List Change}
variable {query : TaggedQuery}
variable {entries : List MemoryEntry}
variable {e f : MemoryEntry}
variable {row : Row}

structure RowOf (e : MemoryEntry) (row : Row) : Prop where
  id : row.id = e.id
  sessionId : row.sessionId = e.sessionId
  agentId : row.agentId = e.agentId
  memoryType : row.memoryType = e.memoryType.asStr
  content : row.content = e.content
  createdAt : row.createdAt = e.createdAt

theorem rowOf (hRow : sqlite.row e = some row) : RowOf e row := by
  unfold Sqlite.row at hRow
  split at hRow
  · cases hRow
  · cases hRow
    exact ⟨rfl, rfl, rfl, rfl, rfl, rfl⟩

theorem asStr_beq (m n : MemoryType) :
    (m.asStr == n.asStr) = (m == n) := by
  rw [Bool.eq_iff_iff, beq_iff_eq, beq_iff_eq]
  constructor
  · intro hSame
    have hOf := congrArg MemoryType.ofStr? hSame
    rw [MemoryType.ofStr?_asStr, MemoryType.ofStr?_asStr,
      Option.some.injEq] at hOf
    exact hOf
  · exact congrArg _

theorem selects_row (hRow : sqlite.row e = some row) :
    query.selects row = query.selectsEntry e := by
  have hOf := rowOf hRow
  have hTypes : (query.memoryTypes.any
      fun m => m.asStr == row.memoryType) =
        query.memoryTypes.contains e.memoryType := by
    rw [hOf.memoryType, List.contains_eq_any_beq]
    congr 1
    funext m
    rw [asStr_beq, Bool.beq_comm]
  unfold MemoryQuery.selects MemoryQuery.selectsEntry
  rw [hOf.sessionId, hOf.agentId, hOf.content, hTypes]

theorem filter_rows
    {p : Row → Bool} {q : MemoryEntry → Bool}
    (hSame : ∀ e row, sqlite.row e = some row → p row = q e)
    (entries : List MemoryEntry) :
    (entries.filterMap sqlite.row).filter p =
      (entries.filter q).filterMap sqlite.row := by
  induction entries with
  | nil => rfl
  | cons e entries ih =>
    cases hRow : sqlite.row e with
    | none =>
      rw [List.filterMap_cons_none hRow, ih, List.filter_cons]
      split
      · rw [List.filterMap_cons_none hRow]
      · rfl
    | some row =>
      rw [List.filterMap_cons_some hRow, List.filter_cons,
        List.filter_cons, hSame e row hRow, ih]
      split
      · rw [List.filterMap_cons_some hRow]
      · rfl

theorem countP_rows
    (hRows : ∀ e ∈ entries, (sqlite.row e).isSome) (sessionId : String) :
    (entries.filterMap sqlite.row).countP
        (·.sessionId == sessionId) =
      countIn entries sessionId := by
  unfold countIn
  induction entries with
  | nil => rfl
  | cons e entries ih =>
    rw [List.forall_mem_cons] at hRows
    obtain ⟨row, hRow⟩ := Option.isSome_iff_exists.mp hRows.1
    rw [List.filterMap_cons_some hRow, List.countP_cons,
      List.countP_cons, ih hRows.2, (rowOf hRow).sessionId]

-- Backends In Step

/- Both hold what is stored, each id once. -/
structure InStep
    (texts : Lowercase) (sqlite : Sqlite) (history : List Change) :
    Prop where
  memory : memoryAfter texts history = stored history
  rows : rowsAfter sqlite history = (stored history).filterMap sqlite.row
  written : ∀ e ∈ stored history, (sqlite.row e).isSome
  ids : ((stored history).map MemoryEntry.id).Nodup

theorem stored_append (history : List Change) (c : Change) :
    stored (history ++ [c]) = c.apply (stored history) :=
  List.foldl_append

theorem memoryAfter_append (history : List Change) (c : Change) :
    memoryAfter texts (history ++ [c]) =
      (inMemoryBackend texts).change (memoryAfter texts history) c :=
  List.foldl_append

theorem rowsAfter_append (history : List Change) (c : Change) :
    rowsAfter sqlite (history ++ [c]) =
      (sqliteBackend sqlite).change (rowsAfter sqlite history)
        c :=
  List.foldl_append

theorem memory_store (entries : List MemoryEntry) :
    (inMemoryBackend texts).change entries (.store e) = entries ++ [e] :=
  rfl

theorem memory_delete (entries : List MemoryEntry) (id : String) :
    (inMemoryBackend texts).change entries (.delete id) =
      entries.filter (·.id != id) :=
  rfl

theorem rows_store
    (hRow : sqlite.row e = some row) (rows : List Row) :
    (sqliteBackend sqlite).change rows (.store e) =
      rows.filter (·.id != e.id) ++ [row] := by
  change ((sqlite.row e).map fun row =>
    List.filter (·.id != e.id) rows ++ [row]).getD rows = _
  rw [hRow]
  rfl

theorem rows_refused
    (hRow : sqlite.row e = none) (rows : List Row) :
    (sqliteBackend sqlite).change rows (.store e) = rows := by
  change ((sqlite.row e).map fun row =>
    List.filter (·.id != e.id) rows ++ [row]).getD rows = _
  rw [hRow]
  rfl

theorem rows_delete (rows : List Row) (id : String) :
    (sqliteBackend sqlite).change rows (.delete id) =
      rows.filter (·.id != id) :=
  rfl

theorem filter_fresh
    (hFresh : ∀ f ∈ entries, f.id ≠ e.id) :
    entries.filter (·.id != e.id) = entries := by
  rw [List.filter_eq_self]
  intro f hF
  rw [bne_iff_ne]
  exact hFresh f hF

theorem filter_rows_id (entries : List MemoryEntry) (id : String) :
    (entries.filterMap sqlite.row).filter (·.id != id) =
      (entries.filter (·.id != id)).filterMap sqlite.row :=
  filter_rows (fun e row hRow => by rw [(rowOf hRow).id]) entries

theorem PlainHistory.init
    {c : Change} (hPlain : PlainHistory sqlite (history ++ [c])) :
    PlainHistory sqlite history ∧ c.Plain sqlite (stored history) := by
  constructor
  · intro earlier d later hSplit
    apply hPlain earlier d (later ++ [c])
    rw [hSplit, List.append_assoc, List.cons_append]
  · exact hPlain history c [] rfl

theorem InStep.append
    {c : Change} (hInStep : InStep texts sqlite history)
    (hPlain : c.Plain sqlite (stored history)) :
    InStep texts sqlite (history ++ [c]) := by
  cases c with
  | store e =>
    obtain ⟨hFresh, hSome⟩ := hPlain
    obtain ⟨row, hRow⟩ := Option.isSome_iff_exists.mp hSome
    have hStored : stored (history ++ [.store e]) =
        stored history ++ [e] := by
      rw [stored_append]
      unfold Change.apply
      dsimp only
      rw [filter_fresh hFresh]
    constructor
    case memory =>
      rw [memoryAfter_append, hInStep.memory, hStored]
      exact memory_store _
    case rows =>
      rw [rowsAfter_append, hInStep.rows, hStored,
        rows_store hRow, filter_rows_id, filter_fresh hFresh,
        List.filterMap_append, List.filterMap_cons_some hRow]
      rfl
    case written =>
      rw [hStored]
      intro f hF
      rcases List.mem_append.mp hF with hOld | hNew
      · exact hInStep.written f hOld
      · rw [List.mem_singleton.mp hNew]
        exact hSome
    case ids =>
      rw [hStored, List.map_append, List.nodup_append]
      refine ⟨hInStep.ids, List.nodup_singleton _, ?_⟩
      intro id hId other hOther
      obtain ⟨f, hF, rfl⟩ := List.mem_map.mp hId
      rw [List.map_singleton, List.mem_singleton] at hOther
      rw [hOther]
      exact hFresh f hF
  | delete id =>
    have hStored : stored (history ++ [.delete id]) =
        (stored history).filter (·.id != id) := by
      rw [stored_append]
      rfl
    constructor
    case memory =>
      rw [memoryAfter_append, hInStep.memory, hStored]
      exact memory_delete _ id
    case rows =>
      rw [rowsAfter_append, hInStep.rows, hStored, rows_delete,
        filter_rows_id]
    case written =>
      rw [hStored]
      exact fun f hF =>
        hInStep.written f (List.mem_filter.mp hF).1
    case ids =>
      rw [hStored]
      exact hInStep.ids.sublist (List.filter_sublist.map _)

theorem inStep_after (hPlain : PlainHistory sqlite history) :
    InStep texts sqlite history := by
  induction history using List.reverseRecOn with
  | nil =>
    exact ⟨rfl, rfl, fun _ hIn => absurd hIn List.not_mem_nil, List.nodup_nil⟩
  | append_singleton history c ih =>
    obtain ⟨hBefore, hLast⟩ := hPlain.init
    exact (ih hBefore).append hLast

theorem InStep.countP_eq
    (hInStep : InStep texts sqlite history) (sessionId : String) :
    countIn (memoryAfter texts history) sessionId =
      (rowsAfter sqlite history).countP (·.sessionId == sessionId) := by
  rw [hInStep.memory, hInStep.rows, countP_rows hInStep.written]

/- A deletion finds an entry in both or in neither. -/
theorem InStep.delete_eq
    (hInStep : InStep texts sqlite history) (id : String) :
    ((inMemoryBackend texts).delete (memoryAfter texts history) id).2 =
      ((sqliteBackend sqlite).delete (rowsAfter sqlite history) id).2 := by
  rw [hInStep.memory, hInStep.rows]
  change decide ((List.filter (·.id != id)
    (stored history)).length < (stored history).length) =
      ((stored history).filterMap sqlite.row).any (·.id == id)
  rw [Bool.eq_iff_iff, decide_eq_true_iff, length_filter_lt_iff,
    List.any_eq_true]
  constructor
  · rintro ⟨e, hE, hId⟩
    obtain ⟨row, hRow⟩ :=
      Option.isSome_iff_exists.mp (hInStep.written e hE)
    refine ⟨row, List.mem_filterMap.mpr ⟨e, hE, hRow⟩, ?_⟩
    rw [(rowOf hRow).id]
    simpa using hId
  · rintro ⟨row, hIn, hId⟩
    obtain ⟨e, hE, hRow⟩ := List.mem_filterMap.mp hIn
    rw [(rowOf hRow).id] at hId
    exact ⟨e, hE, by simpa using hId⟩

end Memory
