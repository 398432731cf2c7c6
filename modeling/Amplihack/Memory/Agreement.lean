import Mathlib.Logic.Function.Basic
import Amplihack.Memory.Laws
import Amplihack.Base.Runs

/-
  The manager of one session over a backend.

  Each call of the backend may fail; a call that fails
  changes nothing.

  Histories of any number of managers over one backend, and
  what the callers were told of each entry.

  The managers find, update and delete every memory of their
  own session and no other, while the hundred entries that a
  lookup is given hold the one looked for and no update loses
  its entry between removing and storing it.
-/

-- Calls Of The Backend

namespace Memory

open Base

/- A call of the backend failed. -/
structure BackendError where

variable (B : Backend)

def callStore
    (fails : Bool) (s : B.State) (entry : MemoryEntry) :
    B.State × Except BackendError String :=
  match fails, B.store s entry with
  | false, some t => (t, .ok entry.id)
  | _, _ => (s, .error {})

def callRetrieve
    (fails : Bool) (s : B.State) (query : MemoryQuery) :
    Except BackendError (List MemoryEntry) :=
  if fails then .error {} else .ok (B.retrieve s query)

def callDelete
    (fails : Bool) (s : B.State) (id : String) :
    B.State × Except BackendError Bool :=
  if fails then (s, .error {})
  else ((B.delete s id).1, .ok (B.delete s id).2)

-- The Manager

/- A request, the new id, the time, and whether it fails. -/
structure NewMemory where
  request : StoreRequest
  id : String
  now : Float
  fails : Bool

def NewMemory.entry
    (new : NewMemory) (sessionId : String) :
    MemoryEntry :=
  new.request.entry sessionId new.id new.now

/- Which of the calls of an update fail. -/
structure UpdateFaults where
  get : Bool
  delete : Bool
  store : Bool

structure DeleteFaults where
  get : Bool
  delete : Bool

/- The manager's session is `sessionId`. -/
variable (sessionId : String)

def store (new : NewMemory) (s : B.State) :
    B.State × Except BackendError String :=
  callStore B new.fails s (new.entry sessionId)

/- The ids, none for one that failed. -/
def storeBatch :
    List NewMemory → B.State → B.State × List (Option String)
| [], s => (s, [])
| new :: rest, s =>
  let stored := store B sessionId new s
  let others := storeBatch rest stored.1
  (others.1, stored.2.toOption :: others.2)

def get (memoryId : String) (fails : Bool) (s : B.State) :
    Except BackendError (Option MemoryEntry) :=
  (callRetrieve B fails s (idQuery sessionId)).map fun entries =>
    entries.find? (·.id == memoryId)

def update
    (memoryId : String) (request : UpdateRequest) (now : Float)
    (faults : UpdateFaults) (s : B.State) :
    B.State × Except BackendError Bool :=
  match get B sessionId memoryId faults.get s with
  | .error e => (s, .error e)
  | .ok none => (s, .ok false)
  | .ok (some entry) =>
    -- what becomes of the old version is not looked at
    let removed := callDelete B faults.delete s memoryId
    let stored := callStore B faults.store removed.1
      (request.apply entry now)
    (stored.1, stored.2.map fun _ => true)

def delete
    (memoryId : String) (faults : DeleteFaults) (s : B.State) :
    B.State × Except BackendError Bool :=
  match get B sessionId memoryId faults.get s with
  | .error e => (s, .error e)
  | .ok none => (s, .ok false)
  | .ok (some _) => callDelete B faults.delete s memoryId

-- Lookup

variable {B : Backend} {T : Terms B}
variable {sessionId memoryId : String}
variable {s : B.State}

/- The entry of an id, for the session it belongs to. -/
def Terms.Finds
    (T : Terms B) (s : B.State) (sessionId memoryId : String)
    (found : Option MemoryEntry) :
    Prop :=
  ∀ e, found = some e ↔
    T.holds s e ∧ e.id = memoryId ∧ e.sessionId = sessionId

/- Every entry of the id and session is within reach. -/
def Terms.Within
    (T : Terms B) (s : B.State) (sessionId memoryId : String) :
    Prop :=
  ∀ e, T.holds s e → e.id = memoryId → e.sessionId = sessionId → T.reaches s e

theorem of_find?_id
    {entries : List MemoryEntry} {e : MemoryEntry}
    (hFound : entries.find? (·.id == memoryId) = some e) :
    e ∈ entries ∧ e.id = memoryId := by
  refine ⟨List.mem_of_find?_eq_some hFound, ?_⟩
  have hId := List.find?_some hFound
  exact beq_iff_eq.mp hId

theorem get_finds
    (hLaws : Lawful B T) (hDistinct : T.Distinct s)
    (hWithin : T.Within s sessionId memoryId) :
    ∃ found, get B sessionId memoryId false s = .ok found ∧
      T.Finds s sessionId memoryId found := by
  refine ⟨_, rfl, ?_⟩
  intro e
  constructor
  · intro hFound
    have hEntry := of_find?_id hFound
    have hSound := hLaws.sound s sessionId e hEntry.1
    exact ⟨hSound.1, hEntry.2, hSound.2⟩
  · rintro ⟨hHolds, rfl, rfl⟩
    have hMem := hLaws.complete s e hDistinct hHolds
      (hWithin e hHolds rfl rfl)
    have hSome : ((B.retrieve s (idQuery e.sessionId)).find?
        (·.id == e.id)).isSome = true :=
      List.find?_isSome.mpr ⟨e, hMem, beq_self_eq_true e.id⟩
    obtain ⟨f, hFound⟩ := Option.isSome_iff_exists.mp hSome
    have hEntry := of_find?_id hFound
    have hSound := hLaws.sound s e.sessionId f hEntry.1
    rw [hDistinct f e hSound.1 hHolds hEntry.2] at hFound
    exact hFound

end Memory

-- Actions

namespace Memory

open Base

/- What a manager of a session is called to do. -/
inductive Action where
| store (sessionId : String) (new : NewMemory)
| storeBatch (sessionId : String) (news : List NewMemory)
| get (sessionId memoryId : String) (fails : Bool)
| update (sessionId memoryId : String) (request : UpdateRequest)
    (now : Float) (faults : UpdateFaults)
| delete (sessionId memoryId : String) (faults : DeleteFaults)

/- What the caller is told. -/
inductive Outcome where
| stored (result : Except BackendError String)
| batch (ids : List (Option String))
| got (result : Except BackendError (Option MemoryEntry))
| done (result : Except BackendError Bool)

def perform (B : Backend) (s : B.State) :
    Action → B.State × Outcome
| .store sessionId new =>
  let stored := store B sessionId new s
  (stored.1, .stored stored.2)
| .storeBatch sessionId news =>
  let stored := storeBatch B sessionId news s
  (stored.1, .batch stored.2)
| .get sessionId memoryId fails =>
  (s, .got (get B sessionId memoryId fails s))
| .update sessionId memoryId request now faults =>
  let updated := update B sessionId memoryId request now
    faults s
  (updated.1, .done updated.2)
| .delete sessionId memoryId faults =>
  let deleted := delete B sessionId memoryId faults s
  (deleted.1, .done deleted.2)

-- What The Callers Were Told

/- The entry last stored or updated under each id. -/
abbrev Ledger := String → Option MemoryEntry

namespace Ledger

def insert (ledger : Ledger) (entry : MemoryEntry) : Ledger :=
  Function.update ledger entry.id (some entry)

/- The entry of an id, for the session it belongs to. -/
def visible
    (ledger : Ledger) (sessionId memoryId : String) :
    Option MemoryEntry :=
  (ledger memoryId).filter (·.sessionId == sessionId)

/- The entries of a batch that were stored. -/
def insertBatch (sessionId : String) :
    Ledger → List NewMemory → List (Option String) → Ledger
| ledger, new :: news, some _ :: ids =>
  insertBatch sessionId (ledger.insert (new.entry sessionId)) news ids
| ledger, _ :: news, none :: ids =>
  insertBatch sessionId ledger news ids
| ledger, _, _ => ledger

end Ledger

/-
  An id is stored when the store succeeded, changed when an
  update returned true and gone when a delete returned true.
-/
def record (ledger : Ledger) : Action → Outcome → Ledger
| .store sessionId new, .stored (.ok _) =>
  ledger.insert (new.entry sessionId)
| .storeBatch sessionId news, .batch ids =>
  ledger.insertBatch sessionId news ids
| .update _ memoryId request now _, .done (.ok true) =>
  Function.update ledger memoryId
    ((ledger memoryId).map (request.apply · now))
| .delete _ memoryId _, .done (.ok true) =>
  Function.update ledger memoryId none
| _, _ => ledger

/-
  A lookup gives the entry as it was last stored or updated,
  to its own session and to no other; an update or delete
  returns true exactly when it exists for the session; only
  an action one of whose calls fails returns an error.
-/
def Right (ledger : Ledger) : Action → Outcome → Prop
| .store _ new, .stored (.ok id) => id = new.id
| .store _ new, .stored (.error _) => new.fails = true
| .storeBatch _ news, .batch ids =>
  ids = news.map fun new =>
    if new.fails then none else some new.id
| .get sessionId memoryId _, .got (.ok found) =>
  found = ledger.visible sessionId memoryId
| .get _ _ fails, .got (.error _) => fails = true
| .update sessionId memoryId _ _ _, .done (.ok b) =>
  b = (ledger.visible sessionId memoryId).isSome
| .update _ _ _ _ faults, .done (.error _) =>
  faults.get = true ∨ faults.store = true
| .delete sessionId memoryId _, .done (.ok b) =>
  b = (ledger.visible sessionId memoryId).isSome
| .delete _ _ faults, .done (.error _) =>
  faults.get = true ∨ faults.delete = true
| _, _ => False

-- Histories

/- The backend, what the callers know and the ids made. -/
structure History (B : Backend) where
  backend : B.State
  ledger : Ledger
  used : List String

namespace History

def start (B : Backend) : History B where
  backend := B.start
  ledger := fun _ => none
  used := []

def newIds : Action → List String
| .store _ new => [new.id]
| .storeBatch _ news => news.map (·.id)
| _ => []

def step {B : Backend} (h : History B) (action : Action) :
    History B :=
  let performed := perform B h.backend action
  { backend := performed.1
    ledger := record h.ledger action performed.2
    used := newIds action ++ h.used }

/- A new id is one that was never made before. -/
def Fresh {B : Backend} (h : History B) (action : Action) :
    Prop :=
  (newIds action ++ h.used).Nodup

end History

end Memory

-- Agreement

namespace Memory

open Base

variable {B : Backend} {T : Terms B}
variable {s t : B.State}
variable {ledger : Ledger}
variable {used : List String}
variable {sessionId memoryId : String}

/- The backend keeps what the callers were told. -/
structure Agrees
    (T : Terms B) (s : B.State) (ledger : Ledger) (used : List String) :
    Prop where
  holds : ∀ e, T.holds s e ↔ ledger e.id = some e
  keyed : ∀ id e, ledger id = some e → e.id = id
  known : ∀ id e, ledger id = some e → id ∈ used

namespace Agrees

theorem distinct (hAgrees : Agrees T s ledger used) :
    T.Distinct s := by
  intro e f hE hF hId
  rw [hAgrees.holds] at hE hF
  rw [hId, hF] at hE
  exact (Option.some.inj hE).symm

theorem mono
    {more : List String} (hAgrees : Agrees T s ledger used)
    (hSubset : used ⊆ more) :
    Agrees T s ledger more where
  holds := hAgrees.holds
  keyed := hAgrees.keyed
  known := fun id e hSome => hSubset (hAgrees.known id e hSome)

/- What a lookup finds is what the ledger shows. -/
theorem eq_visible
    {found : Option MemoryEntry} (hAgrees : Agrees T s ledger used)
    (hFinds : T.Finds s sessionId memoryId found) :
    found = ledger.visible sessionId memoryId := by
  apply Option.ext
  intro e
  rw [Ledger.visible, Option.filter_eq_some_iff, hFinds e,
    hAgrees.holds, beq_iff_eq]
  constructor
  · rintro ⟨hSome, rfl, hSession⟩
    exact ⟨hSome, hSession⟩
  · rintro ⟨hSome, hSession⟩
    have hId := hAgrees.keyed memoryId e hSome
    rw [hId]
    exact ⟨hSome, rfl, hSession⟩

/- An entry that takes the place of those of its id. -/
theorem insert
    {e : MemoryEntry} (hAgrees : Agrees T s ledger used)
    (hHolds : ∀ f, T.holds t f ↔ f = e ∨ T.holds s f ∧ f.id ≠ e.id) :
    Agrees T t (ledger.insert e) (e.id :: used) where
  holds := by
    intro f
    rw [hHolds, Ledger.insert]
    by_cases hId : f.id = e.id
    · rw [hId, Function.update_self]
      simp [eq_comm]
    · rw [Function.update_of_ne hId, ← hAgrees.holds]
      have hNe : f ≠ e := fun hEq => hId (congrArg _ hEq)
      simp [hNe, hId]
  keyed := by
    intro id f hSome
    rw [Ledger.insert] at hSome
    by_cases hId : id = e.id
    · rw [hId, Function.update_self] at hSome
      rw [hId, Option.some.inj hSome]
    · rw [Function.update_of_ne hId] at hSome
      exact hAgrees.keyed id f hSome
  known := by
    intro id f hSome
    rw [Ledger.insert] at hSome
    by_cases hId : id = e.id
    · rw [hId]
      exact List.mem_cons_self
    · rw [Function.update_of_ne hId] at hSome
      exact List.mem_cons_of_mem _ (hAgrees.known id f hSome)

/- The entries of an id are gone. -/
theorem erase
    (hAgrees : Agrees T s ledger used)
    (hHolds : ∀ f, T.holds t f ↔ T.holds s f ∧ f.id ≠ memoryId) :
    Agrees T t (Function.update ledger memoryId none) used where
  holds := by
    intro f
    rw [hHolds]
    by_cases hId : f.id = memoryId
    · rw [hId, Function.update_self]
      simp
    · rw [Function.update_of_ne hId, ← hAgrees.holds]
      simp [hId]
  keyed := by
    intro id f hSome
    by_cases hId : id = memoryId
    · rw [hId, Function.update_self] at hSome
      cases hSome
    · rw [Function.update_of_ne hId] at hSome
      exact hAgrees.keyed id f hSome
  known := by
    intro id f hSome
    by_cases hId : id = memoryId
    · rw [hId, Function.update_self] at hSome
      cases hSome
    · rw [Function.update_of_ne hId] at hSome
      exact hAgrees.known id f hSome

end Agrees

-- Storing

variable (hLaws : Lawful B T)

include hLaws

theorem callStore_of_survives
    {e : MemoryEntry} (hSurvives : T.survives e)
    (hNew : T.replaces ∨ ∀ f, T.holds s f → f.id ≠ e.id) :
    ∃ t, callStore B false s e = (t, .ok e.id) ∧
      ∀ f, T.holds t f ↔ f = e ∨ T.holds s f ∧ f.id ≠ e.id := by
  obtain ⟨t, hStore, hHolds⟩ := hLaws.store s e hSurvives hNew
  refine ⟨t, ?_, hHolds⟩
  simp only [callStore, hStore]

/- A new entry is stored, unless the call fails. -/
theorem store_agrees
    {new : NewMemory} (hAgrees : Agrees T s ledger used)
    (hFresh : new.id ∉ used)
    (hSurvives : new.fails = false → T.survives (new.entry sessionId)) :
    (new.fails = true ∧ store B sessionId new s = (s, .error {})) ∨
    (new.fails = false ∧
      ∃ t, store B sessionId new s = (t, .ok new.id) ∧
        Agrees T t (ledger.insert (new.entry sessionId))
          (new.id :: used)) := by
  cases hFails : new.fails with
  | true =>
    left
    refine ⟨rfl, ?_⟩
    simp only [store, callStore, hFails]
  | false =>
    right
    have hNew : ∀ f, T.holds s f → f.id ≠ (new.entry sessionId).id := by
      intro f hHolds hId
      rw [hAgrees.holds] at hHolds
      apply hFresh
      have hKnown := hAgrees.known f.id f hHolds
      rw [hId] at hKnown
      exact hKnown
    obtain ⟨t, hStore, hHolds⟩ := callStore_of_survives hLaws
      (hSurvives hFails) (Or.inr hNew)
    refine ⟨rfl, t, ?_, hAgrees.insert hHolds⟩
    rw [store, hFails, hStore]
    rfl

/- The ids of a batch, and its entries, one after the other. -/
theorem storeBatch_agrees
    {news : List NewMemory} (hAgrees : Agrees T s ledger used)
    (hFresh : (news.map (·.id) ++ used).Nodup)
    (hSurvives : ∀ new ∈ news, new.fails = false →
      T.survives (new.entry sessionId)) :
    (storeBatch B sessionId news s).2 =
        news.map (fun new =>
          if new.fails then none else some new.id) ∧
      Agrees T (storeBatch B sessionId news s).1
        (ledger.insertBatch sessionId news (storeBatch B sessionId news s).2)
        (news.map (·.id) ++ used) := by
  induction news generalizing s ledger used with
  | nil => exact ⟨rfl, hAgrees⟩
  | cons new news ih =>
    rw [List.map_cons, List.cons_append, List.nodup_cons]
      at hFresh
    have hNew : new.id ∉ used := fun hMem =>
      hFresh.1 (List.mem_append_right _ hMem)
    have hRest : ∀ other ∈ news, other.fails = false →
        T.survives (other.entry sessionId) :=
      fun other hMem =>
        hSurvives other (List.mem_cons_of_mem _ hMem)
    rcases store_agrees hLaws hAgrees hNew
        (hSurvives new List.mem_cons_self) with
      ⟨hFails, hStore⟩ | ⟨hFails, t, hStore, hAfter⟩
    · have hTail := ih hAgrees hFresh.2 hRest
      simp only [storeBatch, hStore, List.map_cons, hFails]
      refine ⟨congrArg _ hTail.1, hTail.2.mono ?_⟩
      exact List.subset_cons_self _ _
    · have hMoved : (news.map (·.id) ++ (new.id :: used)).Nodup := by
        rw [List.nodup_middle, List.nodup_cons]
        exact hFresh
      have hTail := ih hAfter hMoved hRest
      simp only [storeBatch, hStore, List.map_cons, hFails]
      refine ⟨congrArg _ hTail.1, hTail.2.mono ?_⟩
      intro id hMem
      simp only [List.mem_append, List.mem_cons] at hMem ⊢
      rcases hMem with hNews | hSelf | hUsed
      · exact Or.inl (Or.inr hNews)
      · exact Or.inl (Or.inl hSelf)
      · exact Or.inr hUsed

-- Updating And Deleting

/- A lookup is given the entry that the ledger shows. -/
theorem get_eq_visible
    (hAgrees : Agrees T s ledger used)
    (hWithin : T.Within s sessionId memoryId) :
    get B sessionId memoryId false s =
      .ok (ledger.visible sessionId memoryId) := by
  obtain ⟨found, hGet, hFinds⟩ :=
    get_finds hLaws hAgrees.distinct hWithin
  rw [hGet, hAgrees.eq_visible hFinds]

/-
  The store of an update fails only if its delete did, and a
  delete that fails leaves an entry that the store replaces.
-/
structure UpdateSafe
    (T : Terms B) (entry : MemoryEntry) (faults : UpdateFaults) :
    Prop where
  stored : faults.store = true → faults.delete = true
  survives : faults.store = false → T.survives entry
  replaces : faults.store = false → faults.delete = true → T.replaces

theorem callDelete_holds
    (fails : Bool) (f : MemoryEntry) :
    T.holds (callDelete B fails s memoryId).1 f ↔
      T.holds s f ∧ (fails = false → f.id ≠ memoryId) := by
  cases fails with
  | true => simp [callDelete]
  | false => simp [callDelete, hLaws.delete_holds]

/- The old version is replaced, or the update fails. -/
theorem replace_agrees
    {e : MemoryEntry} {faults : UpdateFaults}
    (hAgrees : Agrees T s ledger used) (hKnown : e.id ∈ used)
    (hSafe : UpdateSafe T e faults) :
    (faults.store = true ∧
      callStore B faults.store
          (callDelete B faults.delete s e.id).1 e =
        (s, .error {})) ∨
    ∃ t, callStore B faults.store
        (callDelete B faults.delete s e.id).1 e = (t, .ok e.id) ∧
      Agrees T t (ledger.insert e) used := by
  cases hStore : faults.store with
  | true =>
    left
    rw [hSafe.stored hStore]
    exact ⟨rfl, rfl⟩
  | false =>
    right
    have hNew : T.replaces ∨ ∀ f,
        T.holds (callDelete B faults.delete s e.id).1 f → f.id ≠ e.id := by
      cases hDelete : faults.delete with
      | true => exact Or.inl (hSafe.replaces hStore hDelete)
      | false =>
        right
        intro f hHolds
        rw [callDelete_holds hLaws] at hHolds
        exact hHolds.2 rfl
    obtain ⟨t, hDone, hHolds⟩ := callStore_of_survives hLaws
      (hSafe.survives hStore) hNew
    refine ⟨t, hDone, ?_⟩
    refine (hAgrees.insert ?_).mono
      (List.cons_subset.mpr ⟨hKnown, List.Subset.refl used⟩)
    intro f
    rw [hHolds, callDelete_holds hLaws]
    constructor
    · rintro (hSame | ⟨⟨hOld, -⟩, hNe⟩)
      · exact Or.inl hSame
      · exact Or.inr ⟨hOld, hNe⟩
    · rintro (hSame | ⟨hOld, hNe⟩)
      · exact Or.inl hSame
      · exact Or.inr ⟨⟨hOld, fun _ => hNe⟩, hNe⟩

end Memory
