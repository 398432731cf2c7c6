import Amplihack.Memory.Agreement

/-
  In a history whose actions all meet the condition, every
  action of every manager has the right outcome.
-/

-- The Condition

namespace Memory

open Base

/-
  What is stored survives the backend's own form of it; an
  entry that is looked for is within reach of the query; an
  update does not lose its entry half way.
-/
def Meets
    {B : Backend} (T : Terms B) (s : B.State) :
    Action → Prop
| .store sessionId new =>
  new.fails = false → T.survives (new.entry sessionId)
| .storeBatch sessionId news =>
  ∀ new ∈ news, new.fails = false → T.survives (new.entry sessionId)
| .get sessionId memoryId fails =>
  fails = false → T.Within s sessionId memoryId
| .update sessionId memoryId request now faults =>
  faults.get = false →
    T.Within s sessionId memoryId ∧
      ∀ e, T.holds s e → e.id = memoryId →
        e.sessionId = sessionId → UpdateSafe T (request.apply e now) faults
| .delete sessionId memoryId faults =>
  faults.get = false → T.Within s sessionId memoryId

variable {B : Backend} {T : Terms B}
variable {s : B.State}
variable {ledger : Ledger}
variable {used : List String}
variable {sessionId memoryId : String}

-- One Action

/- The outcome is right, and what is told is what is kept. -/
def Told
    (T : Terms B) (s : B.State) (ledger : Ledger)
    (used : List String) (action : Action) :
    Prop :=
  Right ledger action (perform B s action).2 ∧
    Agrees T (perform B s action).1
      (record ledger action (perform B s action).2)
      (History.newIds action ++ used)

theorem told_of_perform
    {action : Action} (t : B.State) (outcome : Outcome)
    (hPerform : perform B s action = (t, outcome))
    (hRight : Right ledger action outcome)
    (hAfter : Agrees T t (record ledger action outcome)
      (History.newIds action ++ used)) :
    Told T s ledger used action := by
  unfold Told
  rw [hPerform]
  exact ⟨hRight, hAfter⟩

theorem Ledger.visible_eq_some
    {entry : MemoryEntry}
    (hVisible : ledger.visible sessionId memoryId = some entry) :
    ledger memoryId = some entry ∧ entry.sessionId = sessionId := by
  rw [Ledger.visible, Option.filter_eq_some_iff, beq_iff_eq]
    at hVisible
  exact hVisible

variable (hLaws : Lawful B T)
variable (hAgrees : Agrees T s ledger used)

include hLaws hAgrees

theorem store_told
    {new : NewMemory} (hFresh : (new.id :: used).Nodup)
    (hMeets : Meets T s (.store sessionId new)) :
    Told T s ledger used (.store sessionId new) := by
  rw [List.nodup_cons] at hFresh
  rcases store_agrees hLaws hAgrees hFresh.1 hMeets with
    ⟨hFails, hStore⟩ | ⟨-, t, hStore, hAfter⟩
  · refine told_of_perform s (.stored (.error {})) ?_ ?_ ?_
    · simp only [perform, hStore]
    · exact hFails
    · exact hAgrees.mono (List.subset_cons_self _ _)
  · refine told_of_perform t (.stored (.ok new.id)) ?_ ?_ ?_
    · simp only [perform, hStore]
    · exact rfl
    · exact hAfter

theorem storeBatch_told
    {news : List NewMemory} (hFresh : (news.map (·.id) ++ used).Nodup)
    (hMeets : Meets T s (.storeBatch sessionId news)) :
    Told T s ledger used (.storeBatch sessionId news) :=
  storeBatch_agrees hLaws hAgrees hFresh hMeets

theorem get_told
    {fails : Bool} (hMeets : Meets T s (.get sessionId memoryId fails)) :
    Told T s ledger used (.get sessionId memoryId fails) := by
  refine told_of_perform s _ rfl ?_ ?_
  · cases fails with
    | true => exact rfl
    | false =>
      rw [get_eq_visible hLaws hAgrees (hMeets rfl)]
      exact rfl
  · cases hGet : get B sessionId memoryId fails s <;>
      exact hAgrees

/- What an update does once it has looked up the entry. -/
theorem update_of_visible
    (request : UpdateRequest) (now : Float)
    {faults : UpdateFaults} (hGet : faults.get = false)
    (hWithin : T.Within s sessionId memoryId) :
    update B sessionId memoryId request now faults s =
      match ledger.visible sessionId memoryId with
      | none => (s, .ok false)
      | some entry =>
        let removed := callDelete B faults.delete s memoryId
        let stored := callStore B faults.store removed.1
          (request.apply entry now)
        (stored.1, stored.2.map fun _ => true) := by
  unfold update
  rw [hGet, get_eq_visible hLaws hAgrees hWithin]
  cases ledger.visible sessionId memoryId <;> rfl

theorem update_told
    {request : UpdateRequest} {now : Float} {faults : UpdateFaults}
    (hMeets : Meets T s (.update sessionId memoryId request now faults)) :
    Told T s ledger used (.update sessionId memoryId request now faults) := by
  cases hGet : faults.get with
  | true =>
    have hFailed : update B sessionId memoryId request now
        faults s = (s, .error {}) := by
      unfold update
      rw [hGet]
      rfl
    refine told_of_perform s (.done (.error {})) ?_ ?_ ?_
    · simp only [perform, hFailed]
    · exact Or.inl hGet
    · exact hAgrees
  | false =>
    obtain ⟨hWithin, hSafe⟩ := hMeets hGet
    have hUpdate := update_of_visible hLaws hAgrees request now hGet hWithin
    cases hVisible : ledger.visible sessionId memoryId with
    | none =>
      rw [hVisible] at hUpdate
      refine told_of_perform s (.done (.ok false)) ?_ ?_ ?_
      · simp only [perform, hUpdate]
      · change _ = (ledger.visible sessionId memoryId).isSome
        rw [hVisible]
        rfl
      · exact hAgrees
    | some entry =>
      rw [hVisible] at hUpdate
      obtain ⟨hSome, hSession⟩ :=
        Ledger.visible_eq_some hVisible
      have hId := hAgrees.keyed memoryId entry hSome
      have hHolds : T.holds s entry := by
        rw [hAgrees.holds, hId]
        exact hSome
      have hKnown := hAgrees.known memoryId entry hSome
      rw [← hId] at hKnown
      have hReplace := replace_agrees
        (e := request.apply entry now) hLaws hAgrees
        hKnown (hSafe entry hHolds hId hSession)
      rw [UpdateRequest.apply_id, hId] at hReplace
      rcases hReplace with ⟨hStore, hDone⟩ | ⟨t, hDone, hAfter⟩
      · refine told_of_perform s (.done (.error {})) ?_ ?_ ?_
        · simp only [perform, hUpdate, hDone]
          rfl
        · exact Or.inr hStore
        · exact hAgrees
      · refine told_of_perform t (.done (.ok true)) ?_ ?_ ?_
        · simp only [perform, hUpdate, hDone]
          rfl
        · change _ = (ledger.visible sessionId memoryId).isSome
          rw [hVisible]
          rfl
        · change Agrees T t (Function.update ledger memoryId
            ((ledger memoryId).map (request.apply · now)))
            used
          rw [hSome, Option.map_some, ← hId]
          exact hAfter

theorem delete_told
    {faults : DeleteFaults}
    (hMeets : Meets T s (.delete sessionId memoryId faults)) :
    Told T s ledger used (.delete sessionId memoryId faults) := by
  cases hGet : faults.get with
  | true =>
    refine told_of_perform s (.done (.error {})) ?_ ?_ ?_
    · simp only [perform, delete, hGet]
      rfl
    · exact Or.inl hGet
    · exact hAgrees
  | false =>
    have hLook := get_eq_visible hLaws hAgrees (hMeets hGet)
    cases hVisible : ledger.visible sessionId memoryId with
    | none =>
      rw [hVisible] at hLook
      refine told_of_perform s (.done (.ok false)) ?_ ?_ ?_
      · simp only [perform, delete, hGet, hLook]
      · change _ = (ledger.visible sessionId memoryId).isSome
        rw [hVisible]
        rfl
      · exact hAgrees
    | some entry =>
      rw [hVisible] at hLook
      obtain ⟨hSome, -⟩ := Ledger.visible_eq_some hVisible
      have hId := hAgrees.keyed memoryId entry hSome
      have hHolds : T.holds s entry := by
        rw [hAgrees.holds, hId]
        exact hSome
      cases hDelete : faults.delete with
      | true =>
        refine told_of_perform s (.done (.error {})) ?_ ?_ ?_
        · simp only [perform, delete, hGet, hLook, hDelete]
          rfl
        · exact Or.inr hDelete
        · exact hAgrees
      | false =>
        have hDone : (B.delete s memoryId).2 = true :=
          (hLaws.delete_done s memoryId).mpr ⟨entry, hHolds, hId⟩
        refine told_of_perform (B.delete s memoryId).1
          (.done (.ok true)) ?_ ?_ ?_
        · simp only [perform, delete, hGet, hLook, hDelete, callDelete, hDone]
          rfl
        · change _ = (ledger.visible sessionId memoryId).isSome
          rw [hVisible]
          rfl
        · exact hAgrees.erase (hLaws.delete_holds s memoryId)

theorem perform_told
    {action : Action} (hFresh : (History.newIds action ++ used).Nodup)
    (hMeets : Meets T s action) :
    Told T s ledger used action := by
  cases action with
  | store sessionId new => exact store_told hLaws hAgrees hFresh hMeets
  | storeBatch sessionId news =>
    exact storeBatch_told hLaws hAgrees hFresh hMeets
  | get sessionId memoryId fails => exact get_told hLaws hAgrees hMeets
  | update sessionId memoryId request now faults =>
    exact update_told hLaws hAgrees hMeets
  | delete sessionId memoryId faults => exact delete_told hLaws hAgrees hMeets

omit hLaws hAgrees

-- Whole Histories

namespace History

/- The actions whose new ids are new and that `Meets` admits. -/
def Allowed
    (kind : Kind) (h : History kind.backend) (action : Action) :
    Prop :=
  Fresh h action ∧ Meets kind.terms h.backend action

/- The backend keeps what is told, and no id is made twice. -/
def Sound (kind : Kind) (h : History kind.backend) : Prop :=
  Agrees kind.terms h.backend h.ledger h.used

theorem start_sound (kind : Kind) :
    Sound kind (start kind.backend) where
  holds := by
    intro e
    refine iff_of_false (kind.lawful.start e) ?_
    intro hSome
    cases hSome
  keyed := by
    intro id e hSome
    cases hSome
  known := by
    intro id e hSome
    cases hSome

theorem step_sound
    {kind : Kind} (h : History kind.backend) (action : Action)
    (hSound : Sound kind h) (hAllowed : Allowed kind h action) :
    Sound kind (h.step action) :=
  (perform_told kind.lawful hSound hAllowed.1 hAllowed.2).2

/-
  In every history whose actions all meet the condition each
  action is answered rightly, over either backend.
-/
theorem right_of_meets
    (kind : Kind) (h : History kind.backend) (action : Action)
    (hRun : Reaches step (Allowed kind) (start kind.backend) h)
    (hAllowed : Allowed kind h action) :
    Right h.ledger action (perform _ h.backend action).2 := by
  have hSound : Sound kind h :=
    hRun.invariant (Sound kind) step_sound (start_sound kind)
  exact (perform_told kind.lawful hSound hAllowed.1 hAllowed.2).1

-- More Than A Hundred Memories

/- Texts whose letters have no other case. -/
def caseless : Lowercase where
  lower text := text
  lower_empty := rfl

def note : StoreRequest where
  agentId := "agent"
  title := "note"
  content := "text"
  memoryType := .semantic
  metadata := .empty
  tags := []
  importance := none

def noteId (n : ℕ) : String :=
  String.ofList (List.replicate n 'n')

def newNote (n : ℕ) : NewMemory := ⟨note, noteId n, 0, false⟩

/- The note number `n` of the session. -/
def storeNote (n : ℕ) : Action := .store "session" (newNote n)

def afterNotes (count : ℕ) :
    History (inMemoryBackend caseless) :=
  ((List.range count).map storeNote).foldl step (start _)

theorem noteId_inj {m n : ℕ} :
    noteId m = noteId n ↔ m = n := by
  refine ⟨?_, congrArg noteId⟩
  intro hEq
  have hLength := congrArg (fun id => id.toList.length) hEq
  simpa [noteId] using hLength

theorem afterNotes_succ (count : ℕ) :
    afterNotes (count + 1) = (afterNotes count).step (storeNote count) := by
  rw [afterNotes, List.range_succ, List.map_append, List.foldl_append]
  rfl

/- The notes that are kept, and the ids that were made. -/
theorem afterNotes_kept (count : ℕ) :
    (afterNotes count).backend =
        (List.range count).map (fun n => (newNote n).entry "session") ∧
      (afterNotes count).used = ((List.range count).map noteId).reverse := by
  induction count with
  | zero => exact ⟨rfl, rfl⟩
  | succ count ih =>
    rw [afterNotes_succ, List.range_succ, List.map_append,
      List.map_append, List.reverse_append, ← ih.1, ← ih.2]
    exact ⟨rfl, rfl⟩

theorem fresh_storeNote (count : ℕ) :
    Fresh (afterNotes count) (storeNote count) := by
  unfold Fresh
  rw [(afterNotes_kept count).2]
  change (noteId count :: ((List.range count).map noteId).reverse).Nodup
  rw [List.nodup_cons, List.mem_reverse, List.nodup_reverse]
  constructor
  · intro hMem
    obtain ⟨n, hN, hId⟩ := List.mem_map.mp hMem
    rw [noteId_inj.mp hId] at hN
    exact absurd (List.mem_range.mp hN) (lt_irrefl count)
  · exact List.Nodup.map (fun _ _ hEq => noteId_inj.mp hEq) List.nodup_range

theorem fresh_get
    (count : ℕ) (sessionId memoryId : String) (fails : Bool) :
    Fresh (afterNotes count) (.get sessionId memoryId fails) := by
  have hNodup := fresh_storeNote count
  exact (List.nodup_cons.mp hNodup).2

theorem afterNotes_reached (count : ℕ) :
    Reaches step Fresh (start _) (afterNotes count) := by
  induction count with
  | zero => exact Reaches.refl _
  | succ count ih =>
    rw [afterNotes_succ]
    exact ih.tail _ (fresh_storeNote count)

/- The note stored last is told to its own session. -/
theorem visible_last (count : ℕ) :
    (afterNotes (count + 1)).ledger.visible "session"
        (noteId count) =
      some ((newNote count).entry "session") := by
  rw [afterNotes_succ, Ledger.visible]
  change Option.filter _ (Function.update
      (afterNotes count).ledger (noteId count)
      (some ((newNote count).entry "session"))
      (noteId count)) = _
  rw [Function.update_self]
  rfl

/- A lookup is given the first hundred notes. -/
theorem get_afterNotes
    {count n : ℕ} (hMany : 100 ≤ n) :
    get (inMemoryBackend caseless) "session" (noteId n) false
        (afterNotes count).backend =
      .ok none := by
  have hFind :
      ((inMemoryBackend caseless).retrieve
        (afterNotes count).backend (idQuery "session")).find?
          (·.id == noteId n) = none := by
    rw [(afterNotes_kept count).1, List.find?_eq_none]
    change ∀ e ∈ ((List.map _ (List.range count)).filter _).take 100, ¬ _
    intro e hMem hId
    have hAll : ((List.range count).map
        (fun m => (newNote m).entry "session")).filter
          (caseless.matches (idQuery "session")) =
        (List.range count).map (fun m => (newNote m).entry "session") := by
      rw [List.filter_eq_self]
      intro f hF
      obtain ⟨m, -, rfl⟩ := List.mem_map.mp hF
      rw [matches_idQuery]
      rfl
    rw [hAll, ← List.map_take, List.take_range] at hMem
    obtain ⟨m, hM, rfl⟩ := List.mem_map.mp hMem
    have hSame : m = n := noteId_inj.mp (beq_iff_eq.mp hId)
    have hFew := List.mem_range.mp hM
    omega
  unfold get callRetrieve
  simp only [Bool.false_eq_true, if_false]
  exact congrArg Except.ok hFind

/- From the hundred and first on, the last is not found. -/
theorem last_is_not_found
    (count : ℕ) (hMany : 100 ≤ count) :
    ¬ Right (afterNotes (count + 1)).ledger
      (.get "session" (noteId count) false)
      (perform _ (afterNotes (count + 1)).backend
        (.get "session" (noteId count) false)).2 := by
  intro hRight
  have hFound : Right (afterNotes (count + 1)).ledger
      (.get "session" (noteId count) false)
      (.got (get (inMemoryBackend caseless) "session"
        (noteId count) false
        (afterNotes (count + 1)).backend)) := hRight
  rw [get_afterNotes hMany] at hFound
  have hNone : none = (afterNotes (count + 1)).ledger.visible
      "session" (noteId count) := hFound
  rw [visible_last count] at hNone
  cases hNone

/- A note, its lookup by its own session and by another. -/
theorem right_of_one_note :
    Right (afterNotes 1).ledger (.get "session" (noteId 0) false)
        (perform _ (afterNotes 1).backend
          (.get "session" (noteId 0) false)).2 ∧
      Right (afterNotes 1).ledger (.get "other" (noteId 0) false)
        (perform _ (afterNotes 1).backend
          (.get "other" (noteId 0) false)).2 := by
  have hRun : Reaches step
      (Allowed (.inMemory caseless)) (start _)
      (afterNotes 1) := by
    refine (Reaches.refl (start _)).tail (storeNote 0) ?_
    exact ⟨List.nodup_singleton _, fun _ => trivial⟩
  have hWithin : ∀ sessionId,
      Allowed (.inMemory caseless) (afterNotes 1)
        (.get sessionId (noteId 0) false) := by
    intro sessionId
    refine ⟨List.nodup_singleton _, ?_⟩
    intro _ e hHolds _ _
    change List.countP _ (List.takeWhile _ [_]) < 100
    exact lt_of_le_of_lt List.countP_le_length
      (lt_of_le_of_lt (List.takeWhile_prefix _).length_le (by decide))
  exact ⟨right_of_meets (.inMemory caseless) (afterNotes 1)
      _ hRun (hWithin _),
    right_of_meets (.inMemory caseless) (afterNotes 1) _ hRun (hWithin _)⟩

/-
  The last of a hundred and one notes is not found by the
  manager that stored it, though no call has failed.
-/
theorem hundred_and_first_is_not_found :
    Reaches step Fresh (start _) (afterNotes (100 + 1)) ∧
      Fresh (afterNotes (100 + 1)) (.get "session" (noteId 100) false) ∧
      ¬ Right (afterNotes (100 + 1)).ledger
        (.get "session" (noteId 100) false)
        (perform _ (afterNotes (100 + 1)).backend
          (.get "session" (noteId 100) false)).2 :=
  ⟨afterNotes_reached (100 + 1), fresh_get (100 + 1) _ _ _,
    last_is_not_found 100 (le_refl 100)⟩

end History

end Memory
