import Mathlib.Data.List.Pairwise
import Amplihack.Base.FirstBy
import Amplihack.Memory.Interface

/-
  The in-memory and the SQLite backend give the same answers,
  the right ones, after a history that stores no id again, to
  a query whose criteria both apply.
-/

-- Texts

namespace Memory

open Base

variable {texts : Lowercase}
variable {sqlite : Sqlite}
variable {exact : Bool}
variable {history : List Change}
variable {query : TaggedQuery}
variable {entries : List MemoryEntry}
variable {e : MemoryEntry}

/- The empty text is in every content. -/
theorem literally_empty (exact : Bool) (content : String) :
    literally exact "" content = true := by
  rw [literally_iff]
  exact List.nil_infix

/- Lower-case texts are compared without letter case. -/
theorem matches_eq
    (hLowers : texts.LowersAscii) (hText : Ascii query.queryText)
    (hContent : Ascii e.content) :
    texts.matches query.toMemoryQuery e =
      (literally false query.queryText e.content &&
        query.sessionId.all (e.sessionId == ·) &&
        (query.memoryTypes.isEmpty ||
          query.memoryTypes.contains e.memoryType)) := by
  have hLiteral : literally false query.queryText e.content =
      (texts.lower e.content).toList.tails.any
        (texts.lower query.queryText).toList.isPrefixOf := by
    unfold literally
    rw [hLowers _ hText, hLowers _ hContent]
    rfl
  have hEmpty : ((texts.lower query.queryText).isEmpty ||
      literally false query.queryText e.content) =
        literally false query.queryText e.content := by
    rw [Bool.or_eq_right_iff_imp]
    intro hNone
    rw [String.isEmpty_iff] at hNone
    have hLetters := hLowers _ hText
    rw [hNone, eq_comm, String.toList_empty,
      List.map_eq_nil_iff, String.toList_eq_nil_iff] at hLetters
    rw [hLetters]
    exact literally_empty false e.content
  unfold Lowercase.matches
  dsimp only
  rw [← hLiteral, hEmpty]

-- Criteria

/- What satisfies every criterion satisfies those in memory. -/
theorem matches_of_satisfied
    (hLowers : texts.LowersAscii)
    (hText : Ascii query.queryText) (hContent : Ascii e.content)
    (hSatisfied : query.satisfied exact e = true) :
    texts.matches query.toMemoryQuery e = true := by
  unfold TaggedQuery.satisfied at hSatisfied
  simp only [Bool.and_eq_true] at hSatisfied
  obtain ⟨⟨⟨⟨hSession, -⟩, hTypes⟩, -⟩, hLiteral⟩ := hSatisfied
  rw [matches_eq hLowers hText hContent,
    literally_mono hLiteral, hSession, hTypes]
  rfl

/- And those of the statement. -/
theorem selectsEntry_of_satisfied
    (hSatisfied : query.satisfied exact e = true) :
    query.selectsEntry e = true := by
  unfold TaggedQuery.satisfied at hSatisfied
  simp only [Bool.and_eq_true] at hSatisfied
  obtain ⟨⟨⟨⟨hSession, hAgent⟩, hTypes⟩, -⟩, hLiteral⟩ :=
    hSatisfied
  unfold MemoryQuery.selectsEntry
  rw [hSession, hAgent, hTypes,
    like_of_literally (literally_mono hLiteral), Bool.or_true]
  rfl

theorem satisfied_of_matches
    (hLowers : texts.LowersAscii) (hTexts : AsciiTexts entries query)
    (hPlain : PlainQuery texts sqlite exact entries query) (hE : e ∈ entries)
    (hMatches : texts.matches query.toMemoryQuery e = true) :
    query.satisfied exact e = true := by
  have hParts := hMatches
  rw [matches_eq hLowers hTexts.query (hTexts.contents e hE)]
    at hParts
  simp only [Bool.and_eq_true] at hParts
  obtain ⟨⟨-, hSession⟩, hTypes⟩ := hParts
  unfold TaggedQuery.satisfied
  rw [hSession, hTypes, hPlain.agent e hE hMatches,
    hPlain.tags e hE hMatches, hPlain.letters e hE hMatches]
  rfl

/- In a plain query, the three filters are one. -/
theorem matches_eq_satisfied
    (hLowers : texts.LowersAscii) (hTexts : AsciiTexts entries query)
    (hPlain : PlainQuery texts sqlite exact entries query)
    (hE : e ∈ entries) :
    texts.matches query.toMemoryQuery e = query.satisfied exact e := by
  rw [Bool.eq_iff_iff]
  exact ⟨satisfied_of_matches hLowers hTexts hPlain hE,
    matches_of_satisfied hLowers hTexts.query
      (hTexts.contents e hE)⟩

theorem selectsEntry_eq_matches
    (hLowers : texts.LowersAscii) (hTexts : AsciiTexts entries query)
    (hPlain : PlainQuery texts sqlite exact entries query)
    (hE : e ∈ entries) :
    query.selectsEntry e = texts.matches query.toMemoryQuery e := by
  rw [Bool.eq_iff_iff]
  constructor
  · exact hPlain.wildcards e hE
  · intro hMatches
    exact selectsEntry_of_satisfied
      (satisfied_of_matches hLowers hTexts hPlain hE hMatches)

-- Order

theorem not_lt_of_lt {x y : Float} (hLess : x < y) : ¬ y < x := by
  intro hMore
  rw [Binary64.lt_iff_orderKey] at hLess hMore
  obtain ⟨k, hK, l, hL, hLess⟩ := hLess
  obtain ⟨l', hL', k', hK', hMore⟩ := hMore
  rw [Option.mem_unique hK' hK, Option.mem_unique hL' hL] at hMore
  exact lt_asymm hLess hMore

/- Rows in the order of their times stay where they are. -/
theorem newestFirst_eq
    {rows : List Row}
    (hOrder : rows.Pairwise
      fun row other => other.createdAt < row.createdAt) :
    sqlite.newestFirst rows = rows := by
  have hApart : ∀ row ∈ rows, ∀ other ∈ rows, row ≠ other →
      row.createdAt < other.createdAt ∨ other.createdAt < row.createdAt := by
    have hEither : rows.Pairwise fun row other =>
        row.createdAt < other.createdAt ∨ other.createdAt < row.createdAt :=
      hOrder.imp Or.inr
    have hSymm : Std.Symm fun row other : Row =>
        row.createdAt < other.createdAt ∨ other.createdAt < row.createdAt :=
      ⟨fun _ _ => Or.symm⟩
    exact fun row hRow other hOther hNe =>
      hEither.forall hRow hOther hNe
  apply List.Perm.eq_of_pairwise _
    (sqlite.newestFirst_sorted rows) (hOrder.imp not_lt_of_lt)
    (sqlite.newestFirst_perm rows)
  intro row other hRow hOther hLeft hRight
  have hIn := (sqlite.newestFirst_perm rows).mem_iff.mp hRow
  by_contra hNe
  rcases hApart row hIn other hOther hNe with hLess | hMore
  · exact hLeft hLess
  · exact hRight hMore

theorem pairwise_rows
    (hOrder : entries.Pairwise fun e later => later.createdAt < e.createdAt) :
    (entries.filterMap sqlite.row).Pairwise
      fun row other => other.createdAt < row.createdAt := by
  rw [List.pairwise_filterMap]
  refine hOrder.imp ?_
  intro e later hLess row hRow other hOther
  rw [(rowOf hRow).createdAt, (rowOf hOther).createdAt]
  exact hLess

/- Rows that give their entries back. -/
theorem map_rowToEntry
    (hSome : ∀ e ∈ entries, (sqlite.row e).isSome)
    (hBack : ∀ e ∈ entries, ∀ row, sqlite.row e = some row →
      sqlite.rowToEntry row = e) :
    (entries.filterMap sqlite.row).map sqlite.rowToEntry =
      entries := by
  induction entries with
  | nil => rfl
  | cons e entries ih =>
    rw [List.forall_mem_cons] at hSome hBack
    obtain ⟨row, hRow⟩ := Option.isSome_iff_exists.mp hSome.1
    rw [List.filterMap_cons_some hRow, List.map_cons,
      hBack.1 row hRow, ih hSome.2 hBack.2]

-- Plain Histories And Queries

theorem memory_retrieve :
    (inMemoryBackend texts).retrieve entries query.toMemoryQuery =
      (entries.filter (texts.matches query.toMemoryQuery)).take
        query.rowLimit :=
  rfl

theorem sqlite_retrieve
    (hLimit : query.limit ≤ 10000) (entries : List MemoryEntry) :
    (sqliteBackend sqlite).retrieve
        (entries.filterMap sqlite.row) query.toMemoryQuery =
      ((sqlite.newestFirst
        ((entries.filter query.selectsEntry).filterMap
          sqlite.row)).map sqlite.rowToEntry).take
            query.rowLimit := by
  have hRows : query.rowLimit ≤ 10000 := by
    unfold MemoryQuery.rowLimit
    split
    · exact hLimit
    · omega
  rw [← filter_rows (p := query.selects)
    (fun e row hRow => selects_row hRow), List.map_take.symm]
  change List.map _ (List.take (min query.rowLimit 10000) _) = _
  rw [Nat.min_eq_left hRows]

theorem PlainHistory.of_prefix
    {earlier : List Change} (hPlain : PlainHistory sqlite history)
    (hPrefix : earlier <+: history) :
    PlainHistory sqlite earlier := by
  obtain ⟨rest, rfl⟩ := hPrefix
  intro before c later hSplit
  apply hPlain before c (later ++ rest)
  rw [hSplit, List.append_assoc, List.cons_append]

theorem plainHistory_nil : PlainHistory sqlite [] := by
  intro earlier c later hSplit
  exact absurd hSplit (by simp)

theorem PlainHistory.append
    {c : Change} (hPlain : PlainHistory sqlite history)
    (hLast : c.Plain sqlite (stored history)) :
    PlainHistory sqlite (history ++ [c]) := by
  intro earlier d later hSplit
  rcases List.eq_nil_or_concat later with
    rfl | ⟨others, last, rfl⟩
  · obtain ⟨rfl, hSame⟩ := List.append_inj' hSplit rfl
    rw [← List.singleton_inj.mp hSame]
    exact hLast
  · rw [List.concat_eq_append, ← List.cons_append,
      ← List.append_assoc] at hSplit
    obtain ⟨hInit, -⟩ := List.append_inj' hSplit rfl
    exact hPlain earlier d others hInit

/- What a plain query is answered from backends in step. -/
theorem retrieved_of_plain
    (hLowers : texts.LowersAscii) (hLimit : query.limit ≤ 10000)
    (hTexts : AsciiTexts (stored history) query)
    (hInStep : InStep texts sqlite history)
    (hPlain : PlainQuery texts sqlite exact (stored history) query) :
    (sqliteBackend sqlite).retrieve (rowsAfter sqlite history)
        query.toMemoryQuery =
      ((stored history).filter (query.satisfied exact)).take
        query.rowLimit := by
  have hMatches : ∀ e ∈ stored history,
      texts.matches query.toMemoryQuery e = query.satisfied exact e :=
    fun e hE => matches_eq_satisfied hLowers hTexts hPlain hE
  have hSelects : ∀ e ∈ stored history,
      query.selectsEntry e = texts.matches query.toMemoryQuery e :=
    fun e hE => selectsEntry_eq_matches hLowers hTexts hPlain hE
  rw [hInStep.rows, sqlite_retrieve hLimit, List.filter_congr hSelects,
    newestFirst_eq (pairwise_rows hPlain.order), map_rowToEntry,
    List.filter_congr hMatches]
  · intro e hE
    exact hInStep.written e (List.mem_filter.mp hE).1
  · intro e hE
    obtain ⟨hStored, hIs⟩ := List.mem_filter.mp hE
    exact hPlain.columns e hStored hIs

theorem agree_of_plain
    (hLowers : texts.LowersAscii) (hLimit : query.limit ≤ 10000)
    (hTexts : AsciiTexts (stored history) query)
    (hHistory : PlainHistory sqlite history)
    (hPlain : PlainQuery texts sqlite exact (stored history) query) :
    Agree texts sqlite exact history query := by
  have hInStep : InStep texts sqlite history := inStep_after hHistory
  have hMemory : (inMemoryBackend texts).retrieve
      (memoryAfter texts history) query.toMemoryQuery =
        ((stored history).filter (query.satisfied exact)).take
          query.rowLimit := by
    rw [hInStep.memory, memory_retrieve]
    exact congrArg _ (List.filter_congr fun e hE =>
      matches_eq_satisfied hLowers hTexts hPlain hE)
  constructor
  case deletes =>
    rintro earlier id later rfl
    have hEarlier : InStep texts sqlite earlier :=
      inStep_after (hHistory.of_prefix (List.prefix_append _ _))
    exact hEarlier.delete_eq id
  case sessions =>
    intro earlier hPrefix
    have hEarlier : InStep texts sqlite earlier :=
      inStep_after (hHistory.of_prefix hPrefix)
    exact listed_iff_listed_iff.mpr hEarlier.countP_eq
  case retrieved =>
    rw [hMemory, retrieved_of_plain hLowers hLimit hTexts hInStep hPlain]
  case satisfying =>
    exact ⟨_, List.Perm.refl _, hMemory⟩

-- Nothing Less

/- A session loses the entry that is filtered out. -/
theorem countP_filter_lt
    {α : Type} {p q : α → Bool} {l : List α} {a : α}
    (hA : a ∈ l) (hP : p a = true) (hQ : q a = false) :
    (l.filter q).countP p < l.countP p := by
  rw [List.countP_eq_length_filter, List.countP_eq_length_filter,
    List.filter_comm, length_filter_lt_iff]
  exact ⟨a, List.mem_filter.mpr ⟨hA, hP⟩, hQ⟩

/- Sessions agree only if the last change was plain. -/
theorem InStep.plain_of_counts
    {c : Change} (hInStep : InStep texts sqlite history)
    (hCounts : ∀ sessionId,
      countIn (memoryAfter texts (history ++ [c])) sessionId =
        (rowsAfter sqlite (history ++ [c])).countP
          (·.sessionId == sessionId)) :
    c.Plain sqlite (stored history) := by
  cases c with
  | delete id => exact trivial
  | store e =>
    have hBefore := hInStep.countP_eq
    rw [hInStep.memory, hInStep.rows] at hBefore
    simp only [memoryAfter_append, rowsAfter_append, hInStep.memory,
      hInStep.rows, memory_store, countIn_append] at hCounts
    cases hRow : sqlite.row e with
    | none =>
      have hSession := hCounts e.sessionId
      rw [rows_refused hRow, hBefore, if_pos BEq.rfl]
        at hSession
      omega
    | some row =>
      refine ⟨?_, by rw [hRow]; rfl⟩
      intro f hF hId
      obtain ⟨old, hOld⟩ :=
        Option.isSome_iff_exists.mp (hInStep.written f hF)
      have hIn : old ∈ (stored history).filterMap
          sqlite.row := List.mem_filterMap.mpr ⟨f, hF, hOld⟩
      have hLost := countP_filter_lt
        (p := fun row => row.sessionId == f.sessionId)
        (q := fun row => row.id != e.id) hIn
        (by rw [(rowOf hOld).sessionId, BEq.rfl])
        (by rw [(rowOf hOld).id, hId, bne_self_eq_false])
      have hSession := hCounts f.sessionId
      rw [rows_store hRow, hBefore, List.countP_append,
        List.countP_singleton, (rowOf hRow).sessionId]
        at hSession
      omega

theorem plainHistory_of_sessions
    (hSessions : ∀ earlier, earlier <+: history →
      ∀ sessionId count,
        Listed (inMemorySessions (memoryAfter texts earlier))
            sessionId count ↔
          Listed (sqliteSessions (rowsAfter sqlite earlier))
            sessionId count) :
    PlainHistory sqlite history := by
  induction history using List.reverseRecOn with
  | nil => exact plainHistory_nil
  | append_singleton history c ih =>
    have hBefore : PlainHistory sqlite history :=
      ih fun earlier hPrefix => hSessions earlier
        (hPrefix.trans (List.prefix_append _ _))
    have hInStep : InStep texts sqlite history := inStep_after hBefore
    have hLast := hInStep.plain_of_counts
      (listed_iff_listed_iff.mp (hSessions _ (List.prefix_refl _)))
    exact hBefore.append hLast

theorem InStep.eq_of_id
    {f : MemoryEntry} (hInStep : InStep texts sqlite history)
    (hE : e ∈ stored history) (hF : f ∈ stored history) (hId : e.id = f.id) :
    e = f :=
  List.inj_on_of_nodup_map hInStep.ids hE hF hId

/- A filter keeps what its list holds, for lists of one kind. -/
theorem eq_of_filter_perm
    {p q : MemoryEntry → Bool}
    (hPerm : (entries.filter p).Perm (entries.filter q))
    (hE : e ∈ entries) (hP : p e = true) :
    q e = true :=
  (List.mem_filter.mp (hPerm.mem_iff.mp (List.mem_filter.mpr ⟨hE, hP⟩))).2

/- Agreement on all that matches, with no entry cut off. -/
theorem InStep.plain_of_retrieved
    (hInStep : InStep texts sqlite history)
    (hTimes : DistinctTimes (stored history))
    (hPerm : ((stored history).filter
        (texts.matches query.toMemoryQuery)).Perm
      ((stored history).filter (query.satisfied exact)))
    (hRetrieved : (stored history).filter
        (texts.matches query.toMemoryQuery) =
      (sqlite.newestFirst
        (((stored history).filter query.selectsEntry).filterMap
          sqlite.row)).map sqlite.rowToEntry) :
    PlainQuery texts sqlite exact (stored history) query := by
  have hSatisfied : ∀ e ∈ stored history,
      texts.matches query.toMemoryQuery e = true →
        query.satisfied exact e = true :=
    fun e hE => eq_of_filter_perm hPerm hE
  unfold TaggedQuery.satisfied at hSatisfied
  simp only [Bool.and_eq_true] at hSatisfied
  -- every row that is selected gives a stored entry back
  have hBack : ∀ e ∈ stored history,
      query.selectsEntry e = true → ∀ row,
        sqlite.row e = some row →
          sqlite.rowToEntry row = e ∧
            texts.matches query.toMemoryQuery e = true := by
    intro e hE hSelects row hRow
    have hIn : row ∈ sqlite.newestFirst
        (((stored history).filter query.selectsEntry).filterMap
          sqlite.row) := by
      rw [(sqlite.newestFirst_perm _).mem_iff]
      exact List.mem_filterMap.mpr
        ⟨e, List.mem_filter.mpr ⟨hE, hSelects⟩, hRow⟩
    have hGiven := List.mem_map_of_mem (f := sqlite.rowToEntry) hIn
    rw [← hRetrieved, List.mem_filter] at hGiven
    have hSame := hInStep.eq_of_id hGiven.1 hE (rowOf hRow).id
    rw [hSame] at hGiven
    exact ⟨hSame, hGiven.2⟩
  constructor
  case agent =>
    exact fun e hE hIs => (hSatisfied e hE hIs).1.1.1.2
  case tags =>
    exact fun e hE hIs => (hSatisfied e hE hIs).1.2
  case letters =>
    exact fun e hE hIs => (hSatisfied e hE hIs).2
  case columns =>
    intro e hE hIs row hRow
    have hAll : query.satisfied exact e = true :=
      eq_of_filter_perm hPerm hE hIs
    have hSelects := selectsEntry_of_satisfied hAll
    exact (hBack e hE hSelects row hRow).1
  case wildcards =>
    intro e hE hSelects
    obtain ⟨row, hRow⟩ :=
      Option.isSome_iff_exists.mp (hInStep.written e hE)
    exact (hBack e hE hSelects row hRow).2
  case order =>
    have hApart : ((stored history).filter
        (texts.matches query.toMemoryQuery)).Pairwise Apart :=
      hTimes.sublist List.filter_sublist
    have hSorted : ((stored history).filter
        (texts.matches query.toMemoryQuery)).Pairwise
          fun e later => ¬ e.createdAt < later.createdAt := by
      rw [hRetrieved, List.pairwise_map]
      exact sqlite.newestFirst_sorted _
    refine hApart.imp₂ ?_ hSorted
    intro e later hEither hNotLess
    exact hEither.resolve_left hNotLess

theorem plain_of_agree
    (hLimit : query.limit ≤ 10000) (hTimes : DistinctTimes (stored history))
    (hAll : (stored history).length ≤ query.rowLimit)
    (hAgree : Agree texts sqlite exact history query) :
    PlainHistory sqlite history ∧
      PlainQuery texts sqlite exact (stored history) query := by
  have hHistory := plainHistory_of_sessions hAgree.sessions
  have hInStep : InStep texts sqlite history := inStep_after hHistory
  refine ⟨hHistory, ?_⟩
  have hRetrieved := hAgree.retrieved
  obtain ⟨found, hFound, hTaken⟩ := hAgree.satisfying
  rw [hInStep.memory, hInStep.rows, memory_retrieve,
    sqlite_retrieve hLimit] at hRetrieved
  rw [hInStep.memory, memory_retrieve] at hTaken
  have hFilter (p : MemoryEntry → Bool) :
      ((stored history).filter p).length ≤ query.rowLimit :=
    (List.length_filter_le p _).trans hAll
  rw [List.take_of_length_le (hFilter _)] at hRetrieved hTaken
  rw [List.take_of_length_le] at hTaken hRetrieved
  · apply hInStep.plain_of_retrieved hTimes _ hRetrieved
    rw [hTaken]
    exact hFound
  · rw [List.length_map, (sqlite.newestFirst_perm _).length_eq]
    exact (List.length_filterMap_le _ _).trans (hFilter _)
  · rw [hFound.length_eq]
    exact hFilter _

/-
  Where no id is stored again and the criteria of a query
  leave no room between the two readings of it, the backends
  give the same answers, and the right ones. Nothing less is
  enough when the limit cuts nothing off.
-/
theorem backends_agree
    (texts : Lowercase) (sqlite : Sqlite) (exact : Bool)
    (history : List Change) (query : TaggedQuery)
    (hLowers : texts.LowersAscii) (hLimit : query.limit ≤ 10000)
    (hTexts : AsciiTexts (stored history) query)
    (hTimes : DistinctTimes (stored history)) :
    (PlainHistory sqlite history →
      PlainQuery texts sqlite exact (stored history) query →
        Agree texts sqlite exact history query) ∧
      ((stored history).length ≤ query.rowLimit →
        Agree texts sqlite exact history query →
          PlainHistory sqlite history ∧
            PlainQuery texts sqlite exact (stored history) query) :=
  ⟨agree_of_plain hLowers hLimit hTexts, plain_of_agree hLimit hTimes⟩

-- Two Entries

def lowered : Lowercase where
  lower text := String.ofList (text.toList.map Char.toLower)
  lower_empty := rfl

theorem lowered_lowersAscii : lowered.LowersAscii :=
  fun _ _ => String.toList_ofList

def newerRow (row other : Row) : Bool :=
  Binary64.numberKey other.createdAt ≤ Binary64.numberKey row.createdAt

theorem newerRow_iff (row other : Row) :
    newerRow row other = true ↔
      OrderDual.toDual (Binary64.numberKey row.createdAt) ≤
        OrderDual.toDual (Binary64.numberKey other.createdAt) := by
  unfold newerRow
  rw [decide_eq_true_iff, OrderDual.toDual_le_toDual]

/- Entries without metadata and tags, in rows. -/
def bareSqlite : Sqlite where
  metadataText _ := "\x7b\x7d"
  metadataOf _ := some .empty
  tagsText _ := "[]"
  tagsOf _ := some []
  newestFirst rows := rows.mergeSort newerRow
  newestFirst_perm rows := List.mergeSort_perm rows newerRow
  newestFirst_sorted := by
    intro rows
    refine (pairwise_mergeSort newerRow_iff rows).imp ?_
    intro row other hNewer hLess
    rw [OrderDual.toDual_le_toDual] at hNewer
    rw [Binary64.lt_iff_orderKey] at hLess
    obtain ⟨k, hK, l, hL, hLess⟩ := hLess
    unfold Binary64.numberKey at hNewer
    rw [Option.mem_def.mp hK, Option.mem_def.mp hL] at hNewer
    exact not_le_of_gt hLess hNewer

def noted (id : String) (time : Float) : MemoryEntry :=
  MemoryEntry.new id "session" "agent" .semantic "text" time

@[simp]
theorem noted_id (id : String) (time : Float) :
    (noted id time).id = id :=
  rfl

@[simp]
theorem noted_sessionId (id : String) (time : Float) :
    (noted id time).sessionId = "session" :=
  rfl

@[simp]
theorem noted_content (id : String) (time : Float) :
    (noted id time).content = "text" :=
  rfl

theorem bareSqlite_row
    {time : Float} (hTime : time.isNaN = false) (id : String) :
    ∃ row, bareSqlite.row (noted id time) = some row ∧
      bareSqlite.rowToEntry row = noted id time := by
  unfold Sqlite.row noted MemoryEntry.new
  dsimp only
  rw [hTime, Bool.or_self, if_neg Bool.false_ne_true]
  refine ⟨_, rfl, ?_⟩
  unfold Sqlite.rowToEntry
  dsimp only
  rw [ite_self, MemoryType.ofStr?_asStr]
  rfl

theorem ascii_text : Ascii "text" := by
  have hAll : "text".toList.all
      (fun c => decide (c.toNat < 128)) = true := rfl
  intro c hC
  exact of_decide_eq_true (List.all_eq_true.mp hAll c hC)

theorem asciiTexts_noted
    {query : TaggedQuery} (hText : query.queryText = "text")
    (hNoted : ∀ e ∈ entries, e.content = "text") :
    AsciiTexts entries query where
  contents := by
    intro e hE
    rw [hNoted e hE]
    exact ascii_text
  query := by
    rw [hText]
    exact ascii_text

/- The text that every entry is about. -/
def textQuery : TaggedQuery where
  queryText := "text"
  sessionId := none
  agentId := some "agent"
  memoryTypes := []
  limit := 10
  tags := []

theorem literally_text (exact : Bool) :
    literally exact "text" "text" = true := by
  rw [literally_iff]

/- Stored newest first, two entries are found by both. -/
theorem agree_on_two :
    Agree lowered bareSqlite true
      [.store (noted "b" 2), .store (noted "a" 1)]
      textQuery := by
  have hIds : "b" ≠ "a" := by decide
  have hLess : (1 : Float) < 2 := by decide +kernel
  have hOne : (1 : Float).isNaN = false := by decide +kernel
  have hTwo : (2 : Float).isNaN = false := by decide +kernel
  have hStored : stored
      [.store (noted "b" 2), .store (noted "a" 1)] =
        [noted "b" 2, noted "a" 1] := by
    have hKept : [noted "b" 2].filter (·.id != "a") = [noted "b" 2] := by
      rw [List.filter_eq_self, List.forall_mem_singleton, bne_iff_ne]
      exact hIds
    exact congrArg (· ++ [noted "a" 1]) hKept
  have hTexts : AsciiTexts (stored
      [.store (noted "b" 2), .store (noted "a" 1)])
        textQuery := by
    rw [hStored]
    apply asciiTexts_noted rfl
    simp
  have hTimes : DistinctTimes (stored
      [.store (noted "b" 2), .store (noted "a" 1)]) := by
    rw [hStored]
    exact List.pairwise_pair.mpr (Or.inr hLess)
  have hRows : ∀ e ∈ [noted "b" 2, noted "a" 1],
      ∃ row, bareSqlite.row e = some row ∧ bareSqlite.rowToEntry row = e := by
    rw [List.forall_mem_cons, List.forall_mem_singleton]
    exact ⟨bareSqlite_row hTwo "b", bareSqlite_row hOne "a"⟩
  have hHistory : PlainHistory bareSqlite
      [.store (noted "b" 2), .store (noted "a" 1)] := by
    have hFirst : PlainHistory bareSqlite [.store (noted "b" 2)] := by
      apply plainHistory_nil.append
      refine ⟨fun e hE => absurd hE List.not_mem_nil, ?_⟩
      obtain ⟨row, hRow, -⟩ := bareSqlite_row hTwo "b"
      rw [hRow]
      rfl
    apply hFirst.append
    obtain ⟨row, hRow, -⟩ := bareSqlite_row hOne "a"
    refine ⟨?_, by rw [hRow]; rfl⟩
    change ∀ e ∈ [noted "b" 2], e.id ≠ "a"
    rw [List.forall_mem_singleton]
    exact hIds
  have hQuery : PlainQuery lowered bareSqlite true (stored
      [.store (noted "b" 2), .store (noted "a" 1)])
        textQuery := by
    rw [hStored]
    have hMatch : ∀ e ∈ [noted "b" 2, noted "a" 1],
        lowered.matches textQuery.toMemoryQuery e = true := by
      rw [List.forall_mem_cons, List.forall_mem_singleton]
      exact ⟨rfl, rfl⟩
    constructor
    case agent =>
      rw [List.forall_mem_cons, List.forall_mem_singleton]
      exact ⟨fun _ => rfl, fun _ => rfl⟩
    case tags => exact fun _ _ _ => rfl
    case letters =>
      rw [List.forall_mem_cons, List.forall_mem_singleton]
      exact ⟨fun _ => literally_text true, fun _ => literally_text true⟩
    case columns =>
      intro e hE _ row hRow
      obtain ⟨same, hSame, hBack⟩ := hRows e hE
      rw [hRow, Option.some.injEq] at hSame
      rw [hSame]
      exact hBack
    case wildcards => exact fun e hE _ => hMatch e hE
    case order =>
      rw [List.filter_eq_self.mpr hMatch]
      exact List.pairwise_pair.mpr hLess
  exact (backends_agree lowered bareSqlite true
    [.store (noted "b" 2), .store (noted "a" 1)] textQuery
    lowered_lowersAscii (by decide) hTexts hTimes).1 hHistory hQuery

/- Stored twice under one id, an entry is counted twice. -/
theorem not_agree_of_stored_again :
    lowered.LowersAscii ∧
      textQuery.limit ≤ 10000 ∧
      AsciiTexts [noted "a" 1, noted "a" 2] textQuery ∧
      DistinctTimes [noted "a" 1, noted "a" 2] ∧
      ∀ exact, ¬ Agree lowered bareSqlite exact
        [.store (noted "a" 1), .store (noted "a" 2)]
        textQuery := by
  have hLess : (1 : Float) < 2 := by decide +kernel
  have hOne : (1 : Float).isNaN = false := by decide +kernel
  have hTwo : (2 : Float).isNaN = false := by decide +kernel
  refine ⟨lowered_lowersAscii, by decide, ?_, ?_, ?_⟩
  · apply asciiTexts_noted rfl
    simp
  · exact List.pairwise_pair.mpr (Or.inl hLess)
  · intro exact hAgree
    have hCounts := listed_iff_listed_iff.mp
      (hAgree.sessions _ (List.prefix_refl _)) "session"
    obtain ⟨row, hRow, -⟩ := bareSqlite_row hOne "a"
    obtain ⟨other, hOther, -⟩ := bareSqlite_row hTwo "a"
    have hMemory : memoryAfter lowered
        [.store (noted "a" 1), .store (noted "a" 2)] =
          [noted "a" 1, noted "a" 2] := rfl
    have hRows : rowsAfter bareSqlite
        [.store (noted "a" 1), .store (noted "a" 2)] = [other] := by
      change (sqliteBackend bareSqlite).change
        ((sqliteBackend bareSqlite).change []
          (.store (noted "a" 1))) (.store (noted "a" 2)) = _
      rw [rows_store hRow, rows_store hOther]
      have hGone : row.id = "a" := (rowOf hRow).id
      simp [hGone]
      rfl
    rw [hMemory, hRows] at hCounts
    simp [countIn, (rowOf hOther).sessionId] at hCounts

end Memory
