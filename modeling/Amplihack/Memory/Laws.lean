import Mathlib.Data.List.Perm.Basic
import Amplihack.Base.Numbers
import Amplihack.Memory.Backend

/-
  What the two backends have in common: they keep entries by
  id, and a query of one session gives the entries of that
  session, up to its limit.
-/

-- Laws

namespace Memory

open Base

/- The query by which a manager looks for an id. -/
def idQuery (sessionId : String) : MemoryQuery where
  queryText := ""
  sessionId := some sessionId
  agentId := none
  memoryTypes := []
  limit := 100

/-
  `reaches` says that an entry is among the hundred of its
  session that a query gives, `survives` that its fields can
  be kept, `replaces` that a second entry of an id takes the
  place of the first.
-/
structure Terms (B : Backend) where
  holds : B.State → MemoryEntry → Prop
  reaches : B.State → MemoryEntry → Prop
  survives : MemoryEntry → Prop
  replaces : Prop

/- No two entries have the same id. -/
def Terms.Distinct
    {B : Backend} (T : Terms B) (s : B.State) :
    Prop :=
  ∀ e f, T.holds s e → T.holds s f → e.id = f.id → e = f

structure Lawful (B : Backend) (T : Terms B) : Prop where
  start : ∀ e, ¬ T.holds B.start e
  store : ∀ s e, T.survives e →
    (T.replaces ∨ ∀ f, T.holds s f → f.id ≠ e.id) →
      ∃ t, B.store s e = some t ∧
        ∀ f, T.holds t f ↔ f = e ∨ T.holds s f ∧ f.id ≠ e.id
  delete_holds : ∀ s id f,
    T.holds (B.delete s id).1 f ↔ T.holds s f ∧ f.id ≠ id
  delete_done : ∀ s id,
    (B.delete s id).2 = true ↔ ∃ f, T.holds s f ∧ f.id = id
  sound : ∀ s sessionId e,
    e ∈ B.retrieve s (idQuery sessionId) →
      T.holds s e ∧ e.sessionId = sessionId
  complete : ∀ s e, T.Distinct s → T.holds s e →
    T.reaches s e → e ∈ B.retrieve s (idQuery e.sessionId)

-- In Memory

/- Fewer than a hundred of its session came before it. -/
def inMemoryTerms (texts : Lowercase) :
    Terms (inMemoryBackend texts) where
  holds := fun (entries : List MemoryEntry) e => e ∈ entries
  reaches := fun (entries : List MemoryEntry) e =>
    (entries.takeWhile (·.id != e.id)).countP
      (·.sessionId == e.sessionId) < 100
  survives _ := True
  replaces := False

@[simp]
theorem matches_idQuery
    (texts : Lowercase) (sessionId : String) (entry : MemoryEntry) :
    texts.matches (idQuery sessionId) entry =
      (entry.sessionId == sessionId) := by
  simp [Lowercase.matches, idQuery, texts.lower_empty]

variable {α : Type} {n : ℕ} {p : α → Bool} {a : α}

/- The first entries that satisfy `p` keep an entry in them. -/
theorem mem_take_filter
    {before after : List α} (hA : p a = true) (hFew : before.countP p < n) :
    a ∈ ((before ++ a :: after).filter p).take n := by
  rw [List.filter_append, List.filter_cons_of_pos hA,
    List.take_append, List.mem_append]
  right
  rw [List.countP_eq_length_filter] at hFew
  obtain ⟨m, hM⟩ := Nat.exists_eq_add_of_lt hFew
  have hRest : n - (before.filter p).length = m + 1 := by omega
  rw [hRest, List.take_succ_cons]
  exact List.mem_cons_self

theorem length_filter_lt_iff
    {l : List α} :
    (l.filter p).length < l.length ↔ ∃ a ∈ l, p a = false := by
  rw [List.length_filter_lt_length_iff_exists]
  simp

theorem inMemory_lawful (texts : Lowercase) :
    Lawful (inMemoryBackend texts) (inMemoryTerms texts) where
  start := fun e => List.not_mem_nil
  store := by
    intro (s : List MemoryEntry) e _ hNew
    refine ⟨_, rfl, ?_⟩
    intro f
    change f ∈ s ++ [e] ↔ f = e ∨ f ∈ s ∧ f.id ≠ e.id
    have hOther : f ∈ s → f.id ≠ e.id :=
      fun hMem => hNew.resolve_left id f hMem
    rw [List.mem_append, List.mem_singleton, or_comm]
    exact or_congr_right ⟨fun hMem => ⟨hMem, hOther hMem⟩, And.left⟩
  delete_holds := by
    intro (s : List MemoryEntry) id f
    change f ∈ s.filter (·.id != id) ↔ f ∈ s ∧ f.id ≠ id
    simp
  delete_done := by
    intro (s : List MemoryEntry) id
    change decide ((s.filter (·.id != id)).length < s.length) =
      true ↔ ∃ f, f ∈ s ∧ f.id = id
    rw [decide_eq_true_iff, length_filter_lt_iff]
    simp
  sound := by
    intro (s : List MemoryEntry) sessionId e hMem
    have hFilter := List.mem_of_mem_take hMem
    have hBoth := List.mem_filter.mp hFilter
    rw [matches_idQuery, beq_iff_eq] at hBoth
    exact hBoth
  complete := by
    intro (s : List MemoryEntry) e hDistinct hMem hReach
    change e ∈ (s.filter (texts.matches (idQuery e.sessionId))).take 100
    change e ∈ s at hMem
    have hSplit := List.takeWhile_append_dropWhile
      (p := fun f : MemoryEntry => f.id != e.id) (l := s)
    cases hRest : s.dropWhile (·.id != e.id) with
    | nil =>
      rw [List.dropWhile_eq_nil_iff] at hRest
      have hNe := hRest e hMem
      simp at hNe
    | cons f rest =>
      rw [hRest] at hSplit
      have hHead := List.head?_dropWhile_not
        (fun f : MemoryEntry => f.id != e.id) s
      rw [hRest] at hHead
      have hId : f.id = e.id := by simpa using hHead
      have hF : f ∈ s := by
        rw [← hSplit]
        simp
      have hSame : f = e := hDistinct f e hF hMem hId
      rw [hSame] at hSplit
      rw [← hSplit]
      apply mem_take_filter
      · simp
      · refine lt_of_le_of_lt (List.countP_mono_left ?_) hReach
        intro g _ hG
        simpa using hG

-- SQLite

/- At most a hundred rows of its session are as new as it. -/
def sqliteTerms (sqlite : Sqlite) :
    Terms (sqliteBackend sqlite) where
  holds := fun (rows : List Row) e =>
    ∃ row ∈ rows, sqlite.rowToEntry row = e
  reaches := fun (rows : List Row) e =>
    rows.countP (fun row => row.sessionId == e.sessionId &&
      !(row.createdAt < e.createdAt)) ≤ 100
  survives e :=
    (sqlite.row e).map sqlite.rowToEntry = some e
  replaces := True

@[simp]
theorem selects_idQuery (sessionId : String) (row : Row) :
    (idQuery sessionId).selects row = (row.sessionId == sessionId) := by
  simp [MemoryQuery.selects, idQuery]

theorem not_lt_self (x : Float) : ¬ x < x := by
  intro hLt
  rw [Binary64.lt_iff_orderKey] at hLt
  obtain ⟨k, hK, l, hL, hKeys⟩ := hLt
  rw [Option.mem_unique hK hL] at hKeys
  exact lt_irrefl l hKeys

/- What is sorted ends after those that may precede it. -/
theorem mem_take_of_sorted
    {R : α → α → Prop} {l : List α} (hSorted : l.Pairwise R)
    (hMem : a ∈ l) (hSelf : p a = true)
    (hBefore : ∀ b ∈ l, R b a → p b = true) (hFew : l.countP p ≤ n) :
    a ∈ l.take n := by
  obtain ⟨before, after, rfl⟩ := List.append_of_mem hMem
  rw [List.pairwise_append] at hSorted
  have hAll : ∀ b ∈ before, p b = true := by
    intro b hB
    exact hBefore b (List.mem_append_left _ hB)
      (hSorted.2.2 b hB a List.mem_cons_self)
  have hCount : before.countP p = before.length :=
    List.countP_eq_length.mpr hAll
  rw [List.countP_append, List.countP_cons_of_pos hSelf, hCount] at hFew
  rw [List.take_append, List.mem_append]
  right
  obtain ⟨m, hM⟩ : ∃ m, n - before.length = m + 1 :=
    ⟨n - before.length - 1, by omega⟩
  rw [hM, List.take_succ_cons]
  exact List.mem_cons_self

theorem sqlite_lawful (sqlite : Sqlite) :
    Lawful (sqliteBackend sqlite) (sqliteTerms sqlite) where
  start := by
    rintro e ⟨row, hMem, -⟩
    exact List.not_mem_nil hMem
  store := by
    intro (s : List Row) e hSurvives _
    change (sqlite.row e).map sqlite.rowToEntry = some e
      at hSurvives
    obtain ⟨row, hRow, hEntry⟩ :=
      Option.map_eq_some_iff.mp hSurvives
    refine ⟨List.filter (·.id != e.id) s ++ [row], ?_, ?_⟩
    · change (sqlite.row e).map _ = _
      rw [hRow]
      rfl
    · intro f
      change (∃ r ∈ List.filter (·.id != e.id) s ++ [row],
        sqlite.rowToEntry r = f) ↔
          f = e ∨ (∃ r ∈ s, sqlite.rowToEntry r = f) ∧ f.id ≠ e.id
      constructor
      · rintro ⟨r, hMem, rfl⟩
        rcases List.mem_append.mp hMem with hOld | hNew
        · rw [List.mem_filter, bne_iff_ne] at hOld
          exact Or.inr ⟨⟨r, hOld.1, rfl⟩, hOld.2⟩
        · rw [List.mem_singleton.mp hNew]
          exact Or.inl hEntry
      · rintro (rfl | ⟨⟨r, hMem, rfl⟩, hNe⟩)
        · exact ⟨row, by simp, hEntry⟩
        · refine ⟨r, List.mem_append_left _ ?_, rfl⟩
          rw [List.mem_filter, bne_iff_ne]
          exact ⟨hMem, hNe⟩
  delete_holds := by
    intro (s : List Row) id f
    change (∃ r ∈ List.filter (·.id != id) s,
      sqlite.rowToEntry r = f) ↔
        (∃ r ∈ s, sqlite.rowToEntry r = f) ∧ f.id ≠ id
    constructor
    · rintro ⟨r, hMem, rfl⟩
      rw [List.mem_filter, bne_iff_ne] at hMem
      exact ⟨⟨r, hMem.1, rfl⟩, hMem.2⟩
    · rintro ⟨⟨r, hMem, rfl⟩, hNe⟩
      refine ⟨r, ?_, rfl⟩
      rw [List.mem_filter, bne_iff_ne]
      exact ⟨hMem, hNe⟩
  delete_done := by
    intro (s : List Row) id
    change List.any s (·.id == id) = true ↔
      ∃ f, (∃ r ∈ s, sqlite.rowToEntry r = f) ∧ f.id = id
    rw [List.any_eq_true]
    constructor
    · rintro ⟨r, hMem, hId⟩
      exact ⟨_, ⟨r, hMem, rfl⟩, beq_iff_eq.mp hId⟩
    · rintro ⟨_, ⟨r, hMem, rfl⟩, hId⟩
      exact ⟨r, hMem, beq_iff_eq.mpr hId⟩
  sound := by
    intro (s : List Row) sessionId e hMem
    obtain ⟨r, hTake, rfl⟩ := List.mem_map.mp hMem
    have hRow := (sqlite.newestFirst_perm _).mem_iff.mp
      (List.mem_of_mem_take hTake)
    rw [List.mem_filter, selects_idQuery, beq_iff_eq] at hRow
    exact ⟨⟨r, hRow.1, rfl⟩, hRow.2⟩
  complete := by
    intro (s : List Row) e _ hHolds hReach
    obtain ⟨r, hMem, rfl⟩ := hHolds
    refine List.mem_map.mpr ⟨r, ?_, rfl⟩
    have hPerm := sqlite.newestFirst_perm
      (List.filter (idQuery r.sessionId).selects s)
    have hRow : r ∈ List.filter (idQuery r.sessionId).selects s := by
      rw [List.mem_filter]
      exact ⟨hMem, by simp⟩
    refine mem_take_of_sorted
      (p := fun row => row.sessionId == r.sessionId &&
        !(decide (row.createdAt < r.createdAt)))
      (sqlite.newestFirst_sorted _)
      (hPerm.mem_iff.mpr hRow) ?_ ?_ ?_
    · simp [not_lt_self]
    · intro b hB hBefore
      have hSelected := hPerm.mem_iff.mp hB
      rw [List.mem_filter, selects_idQuery] at hSelected
      simp [hBefore, hSelected.2]
    · change List.countP _ (sqlite.newestFirst
        (List.filter (idQuery r.sessionId).selects s)) ≤ 100
      rw [hPerm.countP_eq]
      exact le_trans (List.Sublist.countP_le List.filter_sublist) hReach

-- Either Of Them

inductive Kind where
| inMemory (texts : Lowercase)
| sqlite (database : Sqlite)

namespace Kind

def backend : Kind → Backend
| .inMemory texts => inMemoryBackend texts
| .sqlite database => sqliteBackend database

def terms : (kind : Kind) → Terms kind.backend
| .inMemory texts => inMemoryTerms texts
| .sqlite database => sqliteTerms database

theorem lawful : ∀ kind : Kind, Lawful kind.backend kind.terms
| .inMemory texts => inMemory_lawful texts
| .sqlite database => sqlite_lawful database

end Kind

end Memory
