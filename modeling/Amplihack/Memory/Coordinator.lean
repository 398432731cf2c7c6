import Mathlib.Data.Finset.Insert
import Mathlib.Data.Finset.Image
import Mathlib.Data.Finset.Filter
import Mathlib.Data.List.Nodup
import Amplihack.Memory.Quality

/-
  The coordinator that stores memories after a check, and the
  fingerprints by which it tells what it has stored already.
-/

-- The Coordinator

namespace Memory

open Base Hive

structure CoordinatorStats where
  totalStored : ℕ
  totalRetrieved : ℕ
  totalRejected : ℕ
  duplicateCount : ℕ
  trivialCount : ℕ
  entriesByType : Dict String ℕ

structure MemoryConfig where
  duplicateDetection : Bool
  trivialContentFilter : Bool
  minContentLength : ℕ

/- Whether a content is refused as trivial. -/
def MemoryConfig.refusesTrivial
    (config : MemoryConfig) (r : Readings) (content : String) :
    Bool :=
  config.trivialContentFilter && r.isTrivial content config.minContentLength

structure MemoryCoordinator where
  config : MemoryConfig
  entries : List MemoryEntry
  fingerprints : Finset UInt64
  stats : CoordinatorStats

structure StorageRequest where
  content : String
  memoryType : MemoryType
  sessionId : String
  agentId : String
  metadata : Metadata
  importance : Option Float

namespace MemoryCoordinator

def new (config : MemoryConfig) : MemoryCoordinator where
  config := config
  entries := []
  fingerprints := ∅
  stats :=
    { totalStored := 0
      totalRetrieved := 0
      totalRejected := 0
      duplicateCount := 0
      trivialCount := 0
      entriesByType := .empty }

variable (r : Readings)

/- One more entry of the type. -/
def countType
    (counts : Dict String ℕ) (memoryType : MemoryType) :
    Dict String ℕ :=
  counts.insert memoryType.asStr ((counts.get? memoryType.asStr).getD 0 + 1)

/- The id of the new entry, none when it is refused. -/
def store
    (c : MemoryCoordinator) (request : StorageRequest)
    (id : String) (now : Float) :
    MemoryCoordinator × Option String :=
  if c.config.refusesTrivial r request.content then
    ({ c with
        stats :=
          { c.stats with
            trivialCount := c.stats.trivialCount + 1
            totalRejected := c.stats.totalRejected + 1 } },
      none)
  else
    let entry :=
      { MemoryEntry.new id request.sessionId request.agentId
          request.memoryType request.content now with
        metadata := request.metadata }
    let fp := r.contentFingerprint entry
    if c.config.duplicateDetection ∧ fp ∈ c.fingerprints then
      ({ c with
          stats :=
            { c.stats with
              duplicateCount := c.stats.duplicateCount + 1
              totalRejected := c.stats.totalRejected + 1 } },
        none)
    else
      let fingerprints :=
        if c.config.duplicateDetection then
          insert fp c.fingerprints
        else c.fingerprints
      let entry :=
        { entry with
          importance := request.importance.getD
            (scoreImportance entry.content entry.memoryType) }
      ({ c with
          entries := c.entries ++ [entry]
          fingerprints := fingerprints
          stats :=
            { c.stats with
              entriesByType :=
                countType c.stats.entriesByType entry.memoryType
              totalStored := c.stats.totalStored + 1 } },
        some entry.id)

def charsPerToken : ℕ := 4

def usizeMax : ℕ := 18446744073709551615

/- The entries that are given, with those given before. -/
def takeWithin
    (limit budgetChars : ℕ) :
    ℕ → List MemoryEntry → List MemoryEntry → List MemoryEntry
| _, results, [] => results
| used, results, entry :: rest =>
  if limit ≤ results.length then results
  else
    let chars :=
      entry.content.utf8ByteSize + entry.title.utf8ByteSize
    if budgetChars < used + chars ∧ results ≠ [] then results
    else
      takeWithin limit budgetChars (used + chars) (results ++ [entry]) rest

def retrieve
    (c : MemoryCoordinator) (query : RetrievalQuery) (now : Float) :
    MemoryCoordinator × List MemoryEntry :=
  let words := queryWords query
  let scored :=
    (c.entries.filter
      (r.matchesQuery (r.exact now) · query)).map fun e =>
        (r.relevanceScore (r.exact now) e words, e)
  let ranked := scored.mergeSort fun a b => b.1 ≤ a.1
  let budgetChars :=
    min (query.tokenBudget * charsPerToken) usizeMax
  ({ c with
      stats :=
        { c.stats with
          totalRetrieved := c.stats.totalRetrieved + 1 } },
    takeWithin query.rowLimit budgetChars 0 [] (ranked.map (·.2)))

/- Removes the entries, and their fingerprints. -/
def forget
    (c : MemoryCoordinator) (removes : MemoryEntry → Bool) :
    MemoryCoordinator :=
  let removedFps :=
    ((c.entries.filter removes).map r.contentFingerprint).toFinset
  { c with
    entries := c.entries.filter (!removes ·)
    fingerprints := c.fingerprints.filter (· ∉ removedFps) }

def clearWorkingMemory
    (c : MemoryCoordinator) (sessionId : String) :
    MemoryCoordinator :=
  c.forget r fun e =>
    e.sessionId == sessionId && e.memoryType == .working

def clearSession
    (c : MemoryCoordinator) (sessionId : String) :
    MemoryCoordinator :=
  c.forget r (·.sessionId == sessionId)

def markTaskComplete
    (c : MemoryCoordinator) (sessionId : String) :
    MemoryCoordinator :=
  c.clearWorkingMemory r sessionId

end MemoryCoordinator

-- Histories

inductive Operation where
| store (request : StorageRequest) (id : String) (now : Float)
| retrieve (query : RetrievalQuery) (now : Float)
| clearWorkingMemory (sessionId : String)
| markTaskComplete (sessionId : String)
| clearSession (sessionId : String)

inductive Reply where
| stored (id : Option String)
| retrieved (entries : List MemoryEntry)
| done

namespace MemoryCoordinator

variable (r : Readings)

def step (c : MemoryCoordinator) :
    Operation → MemoryCoordinator × Reply
| .store request id now =>
  let (c, answer) := c.store r request id now
  (c, .stored answer)
| .retrieve query now =>
  let (c, entries) := c.retrieve r query now
  (c, .retrieved entries)
| .clearWorkingMemory sessionId =>
  (c.clearWorkingMemory r sessionId, .done)
| .markTaskComplete sessionId =>
  (c.markTaskComplete r sessionId, .done)
| .clearSession sessionId => (c.clearSession r sessionId, .done)

/- The coordinator, and every operation with its answer. -/
def run
    (config : MemoryConfig) (history : List Operation) :
    MemoryCoordinator × List (Operation × Reply) :=
  history.foldl
    (fun (c, log) op =>
      let (c, reply) := c.step r op
      (c, log ++ [(op, reply)]))
    (new config, [])

-- Entries And Fingerprints

variable {r : Readings}
variable {c : MemoryCoordinator}
variable {used : List String}

/-
  The entries have different contents, each of them used, and
  the fingerprints are those of the entries.
-/
structure Tracked
    (r : Readings) (used : List String) (c : MemoryCoordinator) :
    Prop where
  detects : c.config.duplicateDetection = true
  used : ∀ e ∈ c.entries, e.content ∈ used
  contents : (c.entries.map (·.content)).Nodup
  fingerprints : ∀ fp, fp ∈ c.fingerprints ↔
    ∃ e ∈ c.entries, r.contentFingerprint e = fp

theorem tracked_new
    {config : MemoryConfig} (hDetects : config.duplicateDetection = true) :
    Tracked r used (new config) where
  detects := hDetects
  used := by
    intro e hMem
    cases hMem
  contents := List.nodup_nil
  fingerprints := by
    intro fp
    constructor
    · intro hMem
      exact absurd hMem (Finset.notMem_empty fp)
    · intro hSome
      rcases hSome with ⟨e, hMem, -⟩
      cases hMem

/- A content is stored when its fingerprint is known. -/
theorem Tracked.known_iff
    {content : String} (hTracked : Tracked r used c)
    (hFree : CollisionFree r.fingerprint used) (hUsed : content ∈ used) :
    r.fingerprint content ∈ c.fingerprints ↔
      ∃ e ∈ c.entries, e.content = content := by
  rw [hTracked.fingerprints]
  constructor
  · intro hKnown
    rcases hKnown with ⟨e, hMem, hSame⟩
    exact ⟨e, hMem, hFree e.content (hTracked.used e hMem)
      content hUsed hSame⟩
  · intro hStored
    rcases hStored with ⟨e, hMem, hContent⟩
    exact ⟨e, hMem, congrArg r.fingerprint hContent⟩

/- What is removed takes its fingerprints with it only. -/
theorem Tracked.forget
    (hTracked : Tracked r used c) (hFree : CollisionFree r.fingerprint used)
    (removes : MemoryEntry → Bool) :
    Tracked r used (c.forget r removes) := by
  have hKept : ∀ e ∈ c.entries.filter (!removes ·),
      e ∈ c.entries ∧ removes e = false := by
    intro e hMem
    rcases List.mem_filter.mp hMem with ⟨hIn, hNot⟩
    exact ⟨hIn, (Bool.not_eq_true' _).mp hNot⟩
  constructor
  case detects => exact hTracked.detects
  case used =>
    exact fun e hMem => hTracked.used e (hKept e hMem).1
  case contents =>
    exact hTracked.contents.sublist (List.filter_sublist.map _)
  case fingerprints =>
    intro fp
    unfold MemoryCoordinator.forget
    dsimp only
    rw [Finset.mem_filter, List.mem_toFinset, List.mem_map,
      hTracked.fingerprints]
    constructor
    · intro hBoth
      rcases hBoth with ⟨⟨e, hMem, hFp⟩, hNone⟩
      refine ⟨e, List.mem_filter.mpr ⟨hMem, ?_⟩, hFp⟩
      rw [Bool.not_eq_true']
      cases hRemoves : removes e with
      | false => rfl
      | true =>
        exact absurd ⟨e, List.mem_filter.mpr ⟨hMem, hRemoves⟩, hFp⟩ hNone
    · intro hSome
      rcases hSome with ⟨e, hMem, hFp⟩
      rcases hKept e hMem with ⟨hIn, hStays⟩
      refine ⟨⟨e, hIn, hFp⟩, ?_⟩
      intro hGone
      rcases hGone with ⟨f, hRemoved, hSame⟩
      rcases List.mem_filter.mp hRemoved with ⟨hThere, hRemoves⟩
      -- One fingerprint is one content, and that is one entry.
      have hContent : f.content = e.content :=
        hFree f.content (hTracked.used f hThere)
          e.content (hTracked.used e hIn) (hSame.trans hFp.symm)
      have hEntry : f = e :=
        List.inj_on_of_nodup_map hTracked.contents hThere hIn hContent
      rw [hEntry, hStays] at hRemoves
      cases hRemoves

-- One Store

variable {request : StorageRequest}
variable {id : String}
variable {now : Float}

/- The entry that a request makes. -/
def entryOf
    (request : StorageRequest) (id : String) (now : Float) :
    MemoryEntry :=
  { MemoryEntry.new id request.sessionId request.agentId
      request.memoryType request.content now with
    metadata := request.metadata
    importance := request.importance.getD
      (scoreImportance request.content request.memoryType) }

/- Refused as trivial, refused as a repetition, or stored. -/
theorem store_cases
    (hDetects : c.config.duplicateDetection = true)
    (request : StorageRequest) (id : String) (now : Float) :
    (c.config.refusesTrivial r request.content = true ∧
      c.store r request id now =
        ({ c with
            stats :=
              { c.stats with
                trivialCount := c.stats.trivialCount + 1
                totalRejected :=
                  c.stats.totalRejected + 1 } }, none)) ∨
    (c.config.refusesTrivial r request.content = false ∧
      r.fingerprint request.content ∈ c.fingerprints ∧
      c.store r request id now =
        ({ c with
            stats :=
              { c.stats with
                duplicateCount := c.stats.duplicateCount + 1
                totalRejected :=
                  c.stats.totalRejected + 1 } }, none)) ∨
    (c.config.refusesTrivial r request.content = false ∧
      r.fingerprint request.content ∉ c.fingerprints ∧
      c.store r request id now =
        ({ c with
            entries := c.entries ++ [entryOf request id now]
            fingerprints :=
              insert (r.fingerprint request.content) c.fingerprints
            stats :=
              { c.stats with
                entriesByType :=
                  countType c.stats.entriesByType request.memoryType
                totalStored := c.stats.totalStored + 1 } },
          some id)) := by
  by_cases hTrivial : c.config.refusesTrivial r request.content = true
  · left
    refine ⟨hTrivial, ?_⟩
    rw [store, if_pos hTrivial]
  · right
    have hKept := Bool.eq_false_iff.mpr hTrivial
    by_cases hKnown : r.fingerprint request.content ∈ c.fingerprints
    · left
      refine ⟨hKept, hKnown, ?_⟩
      rw [store, if_neg hTrivial]
      exact if_pos ⟨hDetects, hKnown⟩
    · right
      refine ⟨hKept, hKnown, ?_⟩
      rw [store, if_neg hTrivial]
      dsimp only
      have hNew : ¬ (c.config.duplicateDetection = true ∧
          r.fingerprint request.content ∈ c.fingerprints) :=
        fun hBoth => hKnown hBoth.2
      refine (if_neg hNew).trans ?_
      rw [if_pos hDetects]
      rfl

theorem Tracked.store
    (hTracked : Tracked r used c) (hFree : CollisionFree r.fingerprint used)
    (hUsed : request.content ∈ used) :
    Tracked r used (c.store r request id now).1 := by
  rcases store_cases (r := r) hTracked.detects
      request id now with
    ⟨-, hStore⟩ | ⟨-, -, hStore⟩ | ⟨-, hNew, hStore⟩
  · rw [hStore]
    exact ⟨hTracked.detects, hTracked.used, hTracked.contents,
      hTracked.fingerprints⟩
  · rw [hStore]
    exact ⟨hTracked.detects, hTracked.used, hTracked.contents,
      hTracked.fingerprints⟩
  · rw [hStore]
    rw [hTracked.known_iff hFree hUsed] at hNew
    constructor
    case detects => exact hTracked.detects
    case used =>
      intro e hMem
      rcases List.mem_append.mp hMem with hOld | hHere
      · exact hTracked.used e hOld
      · rw [List.mem_singleton.mp hHere]
        exact hUsed
    case contents =>
      rw [List.map_append, List.nodup_append]
      refine ⟨hTracked.contents, List.nodup_singleton _, ?_⟩
      intro content hOld other hHere hSame
      rw [List.mem_singleton.mp hHere] at hSame
      rcases List.mem_map.mp hOld with ⟨e, hMem, hContent⟩
      exact hNew ⟨e, hMem, hContent.trans hSame⟩
    case fingerprints =>
      intro fp
      dsimp only
      rw [Finset.mem_insert, hTracked.fingerprints]
      constructor
      · intro hEither
        rcases hEither with hHere | ⟨e, hMem, hFp⟩
        · exact ⟨entryOf request id now,
            List.mem_append_right _ (List.mem_singleton_self _),
            hHere.symm⟩
        · exact ⟨e, List.mem_append_left _ hMem, hFp⟩
      · intro hSome
        rcases hSome with ⟨e, hMem, hFp⟩
        rcases List.mem_append.mp hMem with hOld | hHere
        · exact .inr ⟨e, hOld, hFp⟩
        · rw [List.mem_singleton.mp hHere] at hFp
          exact .inl hFp.symm

/- A non-trivial content is refused if it is stored. -/
theorem Tracked.refused_iff
    (hTracked : Tracked r used c) (hFree : CollisionFree r.fingerprint used)
    (hUsed : request.content ∈ used)
    (hKept : c.config.refusesTrivial r request.content = false) :
    (c.store r request id now).2 = none ↔
      ∃ e ∈ c.entries, e.content = request.content := by
  rw [← hTracked.known_iff hFree hUsed]
  rcases store_cases (r := r) hTracked.detects
      request id now with
    ⟨hTrivial, -⟩ | ⟨-, hKnown, hStore⟩ | ⟨-, hNew, hStore⟩
  · rw [hKept] at hTrivial
    cases hTrivial
  · rw [hStore]
    exact ⟨fun _ => hKnown, fun _ => rfl⟩
  · rw [hStore]
    refine ⟨?_, fun hKnown => absurd hKnown hNew⟩
    intro hNone
    cases hNone

-- Counted Answers

def isStored : Operation × Reply → Bool
| (.store _ _ _, .stored (some _)) => true
| _ => false

/- A memory of the type was stored. -/
def isStoredAs (name : String) : Operation × Reply → Bool
| (.store request _ _, .stored (some _)) =>
  request.memoryType.asStr == name
| _ => false

/- A store was refused, and its content meets the test. -/
def isRejected (test : String → Bool) :
    Operation × Reply → Bool
| (.store request _ _, .stored none) => test request.content
| _ => false

/- The statistics are those of the answers given. -/
structure Counted
    (r : Readings) (config : MemoryConfig) (log : List (Operation × Reply))
    (stats : CoordinatorStats) :
    Prop where
  stored : stats.totalStored = log.countP isStored
  rejected : stats.totalRejected = log.countP (isRejected fun _ => true)
  trivial : stats.trivialCount =
    log.countP (isRejected (config.refusesTrivial r))
  duplicate : stats.duplicateCount =
    log.countP (isRejected (!config.refusesTrivial r ·))
  byType : ∀ name, (stats.entriesByType.get? name).getD 0 =
    log.countP (isStoredAs name)

variable {config : MemoryConfig}
variable {log : List (Operation × Reply)}

theorem counted_new :
    Counted r config [] (new config).stats :=
  ⟨rfl, rfl, rfl, rfl, fun _ => rfl⟩

theorem getD_countType
    (counts : Dict String ℕ) (memoryType : MemoryType) (name : String) :
    ((countType counts memoryType).get? name).getD 0 =
      (counts.get? name).getD 0 + (memoryType.asStr == name).toNat := by
  unfold countType
  rw [Dict.get?_insert]
  by_cases hSame : name = memoryType.asStr
  · subst hSame
    rw [if_pos rfl, BEq.rfl]
    rfl
  · have hOther : (memoryType.asStr == name) = false :=
      beq_false_of_ne (Ne.symm hSame)
    rw [if_neg hSame, hOther]
    rfl

theorem countP_concat
    (test : Operation × Reply → Bool) (log : List (Operation × Reply))
    (answer : Operation × Reply) :
    (log ++ [answer]).countP test =
      log.countP test + (test answer).toNat := by
  rw [List.countP_append, List.countP_singleton]
  cases test answer <;> rfl

/- What is no store changes none of the counts. -/
theorem Counted.other
    {stats : CoordinatorStats} {op : Operation} {reply : Reply}
    (hCounted : Counted r config log stats)
    (hOther : ∀ request id now, op ≠ .store request id now)
    (totalRetrieved : ℕ) :
    Counted r config (log ++ [(op, reply)])
      { stats with totalRetrieved := totalRetrieved } := by
  have hStored : isStored (op, reply) = false := by
    cases op with
    | store request id now => exact absurd rfl (hOther _ _ _)
    | _ => rfl
  have hAs : ∀ name, isStoredAs name (op, reply) = false := by
    cases op with
    | store request id now => exact absurd rfl (hOther _ _ _)
    | _ => exact fun _ => rfl
  have hRejected : ∀ test, isRejected test (op, reply) = false := by
    cases op with
    | store request id now => exact absurd rfl (hOther _ _ _)
    | _ => exact fun _ => rfl
  constructor
  case stored =>
    rw [countP_concat, hStored, ← hCounted.stored]
    rfl
  case rejected =>
    rw [countP_concat, hRejected, ← hCounted.rejected]
    rfl
  case trivial =>
    rw [countP_concat, hRejected, ← hCounted.trivial]
    rfl
  case duplicate =>
    rw [countP_concat, hRejected, ← hCounted.duplicate]
    rfl
  case byType =>
    intro name
    rw [countP_concat, hAs, ← hCounted.byType]
    rfl

theorem Counted.store
    (hCounted : Counted r config log c.stats) (hConfig : c.config = config)
    (hDetects : c.config.duplicateDetection = true)
    (request : StorageRequest) (id : String) (now : Float) :
    Counted r config
      (log ++ [(.store request id now, .stored (c.store r request id now).2)])
      (c.store r request id now).1.stats := by
  rcases store_cases (r := r) hDetects request id now with
    ⟨hTrivial, hStore⟩ | ⟨hKept, -, hStore⟩ | ⟨-, -, hStore⟩
  · rw [hConfig] at hTrivial
    rw [hStore]
    constructor
    case stored => rw [countP_concat, ← hCounted.stored]; rfl
    case rejected =>
      rw [countP_concat, ← hCounted.rejected]
      rfl
    case trivial =>
      rw [countP_concat, ← hCounted.trivial, isRejected, hTrivial]
      rfl
    case duplicate =>
      rw [countP_concat, ← hCounted.duplicate, isRejected, hTrivial]
      rfl
    case byType =>
      intro name
      rw [countP_concat, ← hCounted.byType]
      rfl
  · rw [hConfig] at hKept
    rw [hStore]
    constructor
    case stored => rw [countP_concat, ← hCounted.stored]; rfl
    case rejected =>
      rw [countP_concat, ← hCounted.rejected]
      rfl
    case trivial =>
      rw [countP_concat, ← hCounted.trivial, isRejected, hKept]
      rfl
    case duplicate =>
      rw [countP_concat, ← hCounted.duplicate, isRejected, hKept]
      rfl
    case byType =>
      intro name
      rw [countP_concat, ← hCounted.byType]
      rfl
  · rw [hStore]
    constructor
    case stored => rw [countP_concat, ← hCounted.stored]; rfl
    case rejected =>
      rw [countP_concat, ← hCounted.rejected]
      rfl
    case trivial =>
      rw [countP_concat, ← hCounted.trivial]
      rfl
    case duplicate =>
      rw [countP_concat, ← hCounted.duplicate]
      rfl
    case byType =>
      intro name
      rw [countP_concat, ← hCounted.byType, getD_countType]
      rfl

-- Over A Whole History

/- The contents that a history stores or tries to. -/
def contentsUsed (history : List Operation) : List String :=
  history.filterMap fun
    | .store request _ _ => some request.content
    | _ => none

structure Kept
    (r : Readings) (config : MemoryConfig) (used : List String)
    (s : MemoryCoordinator × List (Operation × Reply)) :
    Prop where
  configured : s.1.config = config
  tracked : Tracked r used s.1
  counted : Counted r config s.2 s.1.stats

/- Any operation keeps what holds of the coordinator. -/
theorem Kept.step
    {op : Operation} (hKept : Kept r config used (c, log))
    (hFree : CollisionFree r.fingerprint used)
    (hUsed : ∀ request id now, op = .store request id now →
      request.content ∈ used) :
    Kept r config used ((c.step r op).1, log ++ [(op, (c.step r op).2)]) := by
  cases op with
  | store request id now =>
    refine ⟨?_, hKept.tracked.store hFree (hUsed request id now rfl), ?_⟩
    · rcases store_cases (r := r) hKept.tracked.detects
        request id now with
        ⟨-, hStore⟩ | ⟨-, -, hStore⟩ | ⟨-, -, hStore⟩
      all_goals
        dsimp only [MemoryCoordinator.step]
        rw [hStore]
        exact hKept.configured
    · exact hKept.counted.store hKept.configured
        hKept.tracked.detects request id now
  | retrieve query now =>
    refine ⟨hKept.configured, ?_, ?_⟩
    · exact ⟨hKept.tracked.detects, hKept.tracked.used,
        hKept.tracked.contents, hKept.tracked.fingerprints⟩
    · exact hKept.counted.other (fun _ _ _ hOp => by cases hOp) _
  | clearWorkingMemory _ | markTaskComplete _ | clearSession _ =>
    exact ⟨hKept.configured, hKept.tracked.forget hFree _,
      hKept.counted.other (fun _ _ _ hOp => by cases hOp) _⟩

theorem kept_run
    {history : List Operation} (hDetects : config.duplicateDetection = true)
    (hFree : CollisionFree r.fingerprint used)
    (hUsed : contentsUsed history ⊆ used) :
    Kept r config used (run r config history) := by
  have hStart : Kept r config used (new config, []) :=
    ⟨rfl, tracked_new hDetects, counted_new⟩
  unfold run
  generalize ((new config, []) : MemoryCoordinator ×
    List (Operation × Reply)) = s at hStart ⊢
  induction history generalizing s with
  | nil => exact hStart
  | cons op history ih =>
    rw [List.foldl_cons]
    apply ih
    · intro content hMem
      apply hUsed
      unfold contentsUsed at hMem ⊢
      rw [List.filterMap_cons]
      split
      · exact hMem
      · exact List.mem_cons_of_mem _ hMem
    · apply hStart.step hFree
      intro request id now hOp
      apply hUsed
      rw [hOp]
      exact List.mem_cons_self

/-
  After any history the entries have different contents and
  the fingerprints are theirs: the next content that is not
  trivial is refused just when it is stored.  The statistics
  are those of the answers given.
-/
theorem duplicates_follow_entries
    (r : Readings) (config : MemoryConfig)
    (history : List Operation) (request : StorageRequest)
    (id : String) (now : Float) (hDetects : config.duplicateDetection = true)
    (hFree : CollisionFree r.fingerprint
      (request.content :: contentsUsed history)) :
    ((run r config history).1.entries.map (·.content)).Nodup ∧
    (∀ fp, fp ∈ (run r config history).1.fingerprints ↔
      ∃ e ∈ (run r config history).1.entries, r.contentFingerprint e = fp) ∧
    (config.refusesTrivial r request.content = false →
      (((run r config history).1.store r request id now).2 = none ↔
        ∃ e ∈ (run r config history).1.entries,
          e.content = request.content)) ∧
    Counted r config (run r config history).2
      (run r config history).1.stats := by
  have hKept := kept_run hDetects hFree
    (List.subset_cons_self request.content (contentsUsed history))
  refine ⟨hKept.tracked.contents, hKept.tracked.fingerprints,
    ?_, hKept.counted⟩
  intro hNot
  refine hKept.tracked.refused_iff hFree List.mem_cons_self ?_
  rw [hKept.configured]
  exact hNot

/- Hashes by length. -/
def sampleReadings : Readings where
  lower := fun text => text
  exact := fun _ => 0
  fingerprint := fun text => UInt64.ofNat text.length

def sampleConfig : MemoryConfig where
  duplicateDetection := true
  trivialContentFilter := false
  minContentLength := 10

def sampleRequest : StorageRequest where
  content := "The sky is blue"
  memoryType := .semantic
  sessionId := "s"
  agentId := "default"
  metadata := .empty
  importance := none

/- A content that is stored is refused, under another id. -/
theorem duplicates_follow_one_entry :
    ((run sampleReadings sampleConfig
      [.store sampleRequest "1" 0]).1.store sampleReadings
        sampleRequest "2" 1).2 = none := by
  have hFree : CollisionFree sampleReadings.fingerprint
      (sampleRequest.content ::
        contentsUsed [.store sampleRequest "1" 0]) := by
    have hAll : ∀ c ∈ [sampleRequest.content,
        sampleRequest.content], c = sampleRequest.content := by
      intro c hMem
      rcases List.mem_cons.mp hMem with hHere | hLater
      · exact hHere
      · exact List.mem_singleton.mp hLater
    exact fun c hC d hD _ => (hAll c hC).trans (hAll d hD).symm
  have hFollows := duplicates_follow_entries sampleReadings
    sampleConfig [.store sampleRequest "1" 0] sampleRequest
    "2" 1 rfl hFree
  exact (hFollows.2.2.1 rfl).mpr ⟨_, List.mem_singleton_self _, rfl⟩

end MemoryCoordinator

end Memory
