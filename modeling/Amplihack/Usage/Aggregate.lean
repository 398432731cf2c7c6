import Mathlib.Data.Finset.Insert
import Mathlib.Data.List.FinRange
import Amplihack.Usage.Manifest

/-
  The use of tokens that a list of observations shows.

  A response that is identified counts once. What only a
  cumulative counter shows fills an unknown remainder.

  The report of the books: each session's own tokens, and
  those of the sessions that it started.
-/

-- Observations

namespace Usage

open Base

/- What a record says of one use of tokens. -/
structure UsageRecord where
  key : Option String
  nativeSession : Option String
  model : Option String
  tokens : Option Tokens
  cumulative : Bool

inductive Event
| model (model : Option String)
| nativeSession (id : Option String)
| usage (u : UsageRecord)

/- An event in a file of one of the sessions. -/
structure Observation (m : Manifest) where
  session : m.Index
  timestamp : Option String
  event : Event
  incomplete : Bool

structure Diagnostic where
  session : Option ℕ
  file : Option ℕ
  line : Option ℕ
  code : String
deriving DecidableEq

abbrev Diagnostics : Type := Finset Diagnostic

def note
    (ds : Diagnostics) (session : Option ℕ) (code : String) :
    Diagnostics :=
  insert
    { session := session
      file := none
      line := none
      code := code } ds

structure UnresolvedUsage where
  provider : Provider
  model : String
  tokens : Tokens
  reason : String

variable {m : Manifest}

/- A session of the manifest, or none of them. -/
abbrev Owner (m : Manifest) : Type := Option m.Index

/- The session that has this native id at the provider. -/
def Manifest.owner
    (m : Manifest) (provider : Provider) (native : Option String) :
    Owner m :=
  native.bind fun id =>
    m.sessions.findFinIdx? fun s =>
      s.id = id && s.provider = provider

def incompleteOwner (ds : Diagnostics) (owner : Owner m) :
    Diagnostics :=
  match owner with
  | none => ds
  | some i => note ds (some i) "incomplete_usage_observation"

-- Token subsets

def invalidSubsets (t : Tokens) : Bool :=
  t.cacheRead + t.cacheWrite > t.input || t.reasoning > t.output

/- The buckets with their subsets taken out. -/
def disjoint (t : Tokens) : Tokens :=
  { t with
    input := t.input - t.cacheRead - t.cacheWrite
    output := t.output - t.reasoning }

def noteSubsets
    (ds : Diagnostics) (t : Tokens) (source : m.Index) :
    Diagnostics :=
  if invalidSubsets t then
    note ds (some source) "inconsistent_delta_subsets"
  else ds

def difference (now previous : Tokens) : Tokens :=
  .fromValues fun i => now.values i - previous.values i

-- Identified responses

def unknown : String := "unknown"

/- What the copies of one response have shown. -/
structure Identified (m : Manifest) where
  owner : Owner m
  nativeSession : Option String
  ambiguousOwner : Bool
  ambiguousModel : Bool
  incomplete : Bool
  source : m.Index
  model : String
  tokens : Option Tokens

namespace Identified

/- The copies name different native sessions. -/
def ownershipConflict (old new : Identified m) : Bool :=
  old.nativeSession.isSome && new.nativeSession.isSome &&
    old.nativeSession ≠ new.nativeSession

def modelConflict (old new : Identified m) : Bool :=
  old.model ≠ new.model && old.model ≠ unknown && new.model ≠ unknown

def conflict (old new : Identified m) : Bool :=
  old.ownershipConflict new || old.modelConflict new

def claimOwner (old new : Identified m) : Identified m :=
  if old.ownershipConflict new then
    { old with
      ambiguousOwner := true
      owner := none }
  else if !old.ambiguousOwner && old.nativeSession.isNone then
    { old with
      nativeSession := new.nativeSession
      owner := new.owner }
  else old

/- Conflicting copies cannot establish a model. -/
def claimModel (old new : Identified m) : Identified m :=
  if old.modelConflict new then
    { old with
      ambiguousModel := true
      model := unknown }
  else if old.model = unknown && !old.ambiguousModel then
    { old with model := new.model }
  else old

def joinTokens (old new : Option Tokens) : Option Tokens :=
  match new with
  | none => old
  | some t => some (old.getD 0 ⊔ t)

/- One more copy of a response. -/
def merge (old new : Identified m) : Identified m :=
  let claimed := (old.claimOwner new).claimModel new
  { claimed with
    tokens := joinTokens old.tokens new.tokens
    incomplete :=
      old.incomplete || old.conflict new || new.incomplete }

def mergeNotes
    (ds : Diagnostics) (old new : Identified m) :
    Diagnostics :=
  let ds :=
    if old.ownershipConflict new then
      incompleteOwner (incompleteOwner ds old.owner) new.owner
    else ds
  if old.conflict new then
    let ds := incompleteOwner ds (old.claimOwner new).owner
    let ds := incompleteOwner ds new.owner
    let ds :=
      note ds (some new.source) "conflicting_message_identity"
    note ds (some old.source) "conflicting_message_identity"
  else ds

end Identified

-- Cumulative counters

/- The cumulative counters of one native session. -/
structure Snapshots (m : Manifest) where
  owner : Owner m
  source : m.Index
  highwater : Tokens
  fallback : ModelMap
  ambiguousSubsets : Bool

namespace Snapshots

def start (owner : Owner m) (source : m.Index) :
    Snapshots m where
  owner := owner
  source := source
  highwater := 0
  fallback := .empty
  ambiguousSubsets := false

/- The counters that every record exposes. -/
def regressed (s : Snapshots m) (tokens : Tokens) : Bool :=
  tokens.input < s.highwater.input ||
    tokens.cacheRead < s.highwater.cacheRead ||
    tokens.output < s.highwater.output ||
    tokens.reasoning < s.highwater.reasoning

/- The tokens since the highest counters seen. -/
def advance
    (s : Snapshots m) (provider : Provider) (model : String)
    (tokens : Tokens) :
    Snapshots m :=
  let delta := difference tokens s.highwater
  let attempts := if 0 < delta.total then .ofNat _ 1 else 0
  { s with
    ambiguousSubsets := s.ambiguousSubsets || invalidSubsets delta
    highwater := s.highwater ⊔ tokens
    fallback := add s.fallback provider model delta attempts }

end Snapshots

-- The pass over the observations

abbrev ResponseKey : Type := Provider ×ₗ String

abbrev GroupKey : Type := Provider ×ₗ String

abbrev CoverageKey : Type := Provider ×ₗ String ×ₗ String

/- What the pass has gathered. -/
structure Pass (m : Manifest) where
  ds : Diagnostics
  unresolved : List UnresolvedUsage
  coverage : OrderedMap CoverageKey Unit
  unique : OrderedMap ResponseKey (Identified m)
  snapshots : OrderedMap GroupKey (Snapshots m)
  first : Owner m → Option String
  last : Owner m → Option String

def Pass.start (m : Manifest) (ds : Diagnostics) : Pass m where
  ds := ds
  unresolved := []
  coverage := .empty
  unique := .empty
  snapshots := .empty
  first := fun _ => none
  last := fun _ => none

/- The group of a response without a native session. -/
def placeholder (source : ℕ) : String :=
  "unidentified-source-" ++ toString source

namespace Observation

variable (o : Observation m)
variable (u : UsageRecord)

def provider : Provider :=
  (m.session o.session).provider

def owner : Owner m :=
  m.owner o.provider u.nativeSession

def group : String :=
  u.nativeSession.getD (placeholder o.session)

def isIncomplete : Bool :=
  o.incomplete || u.model.getD unknown = unknown ||
    (!u.cumulative && u.key.isNone) ||
    (o.provider = .codex && u.tokens.any invalidSubsets)

/- The response that the observation shows, on its own. -/
def identified : Identified m where
  owner := o.owner u
  nativeSession := u.nativeSession
  ambiguousOwner := false
  ambiguousModel := false
  incomplete := o.isIncomplete u
  source := o.session
  model := u.model.getD unknown
  tokens := u.tokens

/- The diagnostics of every usage observation. -/
def notes (ds : Diagnostics) : Diagnostics :=
  let ds :=
    if (o.owner u).isNone then
      note ds (some o.session)
        (if u.nativeSession.isSome then
          "unmapped_native_session"
        else "unattributed_native_session")
    else ds
  let ds :=
    if o.incomplete then incompleteOwner ds (o.owner u) else ds
  let ds :=
    if u.model.getD unknown = unknown then
      note ds (some o.session) "unknown_model"
    else ds
  if o.isIncomplete u then incompleteOwner ds (o.owner u)
  else ds

end Observation

namespace Pass

variable (s : Pass m)
variable (o : Observation m)
variable (u : UsageRecord)

def noted : Pass m :=
  { s with ds := o.notes u s.ds }

/- The first and the last time of use by the owner. -/
def timed : Pass m :=
  match o.timestamp.filter fun _ => u.tokens.isSome with
  | none => s
  | some t =>
    let owner := o.owner u
    { s with
      first :=
        if (s.first owner).isNone then
          Function.update s.first owner (some t)
        else s.first
      last := Function.update s.last owner (some t) }

/- No identity, so nothing can be said of its copies. -/
def unkeyed : Pass m :=
  let ds :=
    note s.ds (some o.session) "usage_without_stable_identity"
  match u.tokens with
  | none => { s with ds := ds }
  | some tokens =>
    let codex := o.provider = .codex
    { s with
      ds := if codex then noteSubsets ds tokens o.session
            else ds
      unresolved := s.unresolved ++
        [{ provider := o.provider
           model := u.model.getD unknown
           tokens := if codex then disjoint tokens else tokens
           reason := "missing_stable_identity_non_additive" }] }

def identify (key : String) : Pass m :=
  let new := o.identified u
  let k := toLex (o.provider, key)
  { s with
    ds :=
      match s.unique.get? k with
      | none => s.ds
      | some old => Identified.mergeNotes s.ds old new
    coverage :=
      s.coverage.upsert
        (toLex (o.provider, toLex (o.group u, key)))
        fun _ => ()
    unique :=
      s.unique.upsert k fun old =>
        match old with
        | none => new
        | some old => old.merge new }

def snapshot (tokens : Tokens) : Pass m :=
  match u.nativeSession with
  | none =>
    { s with
      ds := noteSubsets s.ds tokens o.session
      unresolved := s.unresolved ++
        [{ provider := o.provider
           model := u.model.getD unknown
           tokens := disjoint tokens
           reason := "missing_native_session_non_additive" }] }
  | some id =>
    let k := toLex (o.provider, id)
    let state := (s.snapshots.get? k).getD
      (.start (o.owner u) o.session)
    { s with
      ds :=
        if state.regressed tokens then
          incompleteOwner
            (note s.ds (some o.session) "cumulative_counter_regressed")
            (o.owner u)
        else s.ds
      snapshots :=
        s.snapshots.upsert k fun old =>
          (old.getD (.start (o.owner u) o.session)).advance
            o.provider (u.model.getD unknown) tokens }

def record : Pass m :=
  if u.cumulative then
    match u.tokens with
    | none => s
    | some tokens => s.snapshot o u tokens
  else
    match u.key with
    | none => s.unkeyed o u
    | some key => s.identify o u key

def observe : Pass m :=
  match o.event with
  | .usage u => ((s.noted o u).timed o u).record o u
  | _ => s

end Pass

def gather
    (m : Manifest) (observations : List (Observation m)) (ds : Diagnostics) :
    Pass m :=
  observations.foldl Pass.observe (.start m ds)

-- The books

/- One map for each session, and one for what has no owner. -/
abbrev Buckets (m : Manifest) : Type := Owner m → ModelMap

structure Books (m : Manifest) where
  ds : Diagnostics
  unresolved : List UnresolvedUsage
  buckets : Buckets m

/- The identified tokens of each group of a snapshot. -/
def identifiedTotals (s : Pass m) : OrderedMap GroupKey Tokens :=
  s.coverage.entries.foldl
    (fun totals e =>
      let provider := (ofLex e.1).1
      let group := (ofLex (ofLex e.1).2).1
      let key := (ofLex (ofLex e.1).2).2
      match (s.unique.get? (toLex (provider, key))).bind
          Identified.tokens with
      | none => totals
      | some tokens =>
        totals.upsert (toLex (provider, group)) fun old =>
          old.getD 0 + tokens)
    .empty

namespace Books

variable (b : Books m)

def noted (f : Diagnostics → Diagnostics) : Books m :=
  { b with ds := f b.ds }

def charge
    (owner : Owner m) (provider : Provider) (model : String)
    (tokens : Tokens) (attempts : U64) :
    Books m :=
  { b with
    buckets :=
      Function.update b.buckets owner
        (add (b.buckets owner) provider model tokens attempts) }

/- The durations of the cache writes say more than the total. -/
def conflictingPartitions (t : Tokens) : Bool :=
  t.cacheWrite < t.cacheWrite5m + t.cacheWrite1h

def uniqueNotes
    (provider : Provider) (u : Identified m) (tokens : Tokens)
    (ds : Diagnostics) :
    Diagnostics :=
  let ds :=
    if conflictingPartitions tokens then
      incompleteOwner
        (note ds (some u.source) "conflicting_cache_partitions")
        u.owner
    else ds
  if provider = .codex then
    let ds :=
      if invalidSubsets tokens then incompleteOwner ds u.owner
      else ds
    noteSubsets ds tokens u.source
  else ds

/- A response with no counters is evidence, but no number. -/
def addUnique (e : ResponseKey × Identified m) : Books m :=
  let provider := (ofLex e.1).1
  let u := e.2
  let b :=
    b.noted fun ds =>
      if u.incomplete then incompleteOwner ds u.owner else ds
  match u.tokens with
  | none => b
  | some tokens =>
    (b.noted (uniqueNotes provider u tokens)).charge u.owner
      provider u.model
      (if provider = .codex then disjoint tokens else tokens)
      (.ofNat _ 1)

/- The rest of a snapshot whose responses are identified. -/
def addRemainder
    (provider : Provider) (s : Snapshots m) (identified : Tokens) :
    Books m :=
  let remainder := difference s.highwater identified
  if invalidSubsets remainder then
    { b with
      ds :=
        noteSubsets
          (incompleteOwner
            (note b.ds (some s.source) "inconsistent_cumulative_remainder")
            s.owner)
          remainder s.source
      unresolved := b.unresolved ++
        [{ provider := provider
           model := unknown
           tokens := disjoint remainder
           reason :=
             "inconsistent_cumulative_remainder_non_additive"
          }] }
  else if 0 < remainder.total then
    (b.noted fun ds =>
      noteSubsets
        (incompleteOwner
          (note ds (some s.source) "unidentified_cumulative_remainder")
          s.owner)
        remainder s.source).charge
      s.owner provider unknown (disjoint remainder) 0
  else b

/- The attempts of all models; the sum of the source wraps. -/
def fallbackAttempts (fallback : ModelMap) : U64 :=
  let attempts :=
    fallback.values.foldl (fun n u => n + u.observedAttempts.val) 0
  .ofNat _ (attempts % 18446744073709551616)

/- A model of a snapshot with no identified response. -/
def addFallback
    (provider : Provider) (s : Snapshots m) (u : ModelUsage) :
    Books m :=
  (b.noted fun ds =>
    let ds :=
      if invalidSubsets u.tokens then incompleteOwner ds s.owner
      else ds
    noteSubsets ds u.tokens s.source).charge
    s.owner provider u.model (disjoint u.tokens)
    u.observedAttempts

def addSnapshots
    (totals : OrderedMap GroupKey Tokens) (e : GroupKey × Snapshots m) :
    Books m :=
  let provider := (ofLex e.1).1
  let s := e.2
  match totals.get? e.1 with
  | some identified => b.addRemainder provider s identified
  | none =>
    if s.ambiguousSubsets && 1 < s.fallback.entries.length then
      (b.noted fun ds =>
        noteSubsets
          (incompleteOwner
            (note ds (some s.source) "ambiguous_cumulative_model_attribution")
            s.owner)
          s.highwater s.source).charge
        s.owner provider unknown (disjoint s.highwater)
        (fallbackAttempts s.fallback)
    else
      s.fallback.values.foldl (fun b u => b.addFallback provider s u) b

end Books

def books (s : Pass m) : Books m :=
  let start : Books m :=
    { ds := s.ds
      unresolved := s.unresolved
      buckets := fun _ => .empty }
  s.snapshots.entries.foldl
    (fun b e => b.addSnapshots (identifiedTotals s) e)
    (s.unique.entries.foldl Books.addUnique start)

end Usage

-- Reports

namespace Usage

open Base

structure SessionReport where
  id : String
  runId : Option String
  parent : Option String
  provider : Provider
  direct : Spent
  inclusive : Spent
  models : List ModelUsage
  complete : Bool
  firstObserved : Option String
  lastObserved : Option String

structure Report where
  version : ℕ
  workstream : Option String
  repository : Option String
  branch : Option String
  prs : List ℕ
  allocation : String
  total : Spent
  unattributed : Spent
  unresolved : List UnresolvedUsage
  models : List ModelUsage
  sessions : List SessionReport
  complete : Bool
  diagnostics : Diagnostics
  firstObserved : Option String
  lastObserved : Option String

variable {m : Manifest}

def Manifest.indices (m : Manifest) : List m.Index :=
  List.finRange m.sessions.length

/- The sessions in order, and then no session. -/
def Manifest.owners (m : Manifest) : List (Owner m) :=
  m.indices.map some ++ [none]

/- A session's own tokens. -/
def Books.direct (b : Books m) (i : m.Index) : Spent :=
  sum (b.buckets (some i))

def addModels (all bucket : ModelMap) : ModelMap :=
  bucket.values.foldl
    (fun all u =>
      add all u.provider u.model u.tokens u.observedAttempts)
    all

/- The rows of every bucket, model by model. -/
def Books.allModels (b : Books m) : ModelMap :=
  m.owners.foldl (fun all o => addModels all (b.buckets o)) .empty

-- Sessions

/- Some diagnostic is about the session. -/
def noted (ds : Diagnostics) (i : m.Index) : Bool :=
  Decidable.decide (∃ d ∈ ds, d.session = some i.val)

structure Counted (m : Manifest) where
  ds : Diagnostics
  complete : m.Index → Bool

/- A session is complete if nothing was noted of it. -/
def Counted.next
    (b : Books m) (c : Counted m) (i : m.Index) :
    Counted m :=
  let ds :=
    if isMissing (b.direct i) then
      note c.ds (some i) "no_usage_observed"
    else c.ds
  { ds := ds
    complete := Function.update c.complete i (!noted ds i) }

def counted (b : Books m) : Counted m :=
  m.indices.foldl (Counted.next b) { ds := b.ds, complete := fun _ => false }

structure Totals (m : Manifest) where
  inclusive : m.Index → Spent
  complete : m.Index → Bool

/- What one session adds to an ancestor. -/
def Totals.addTo
    (tokens : Spent) (complete : Bool) (t : Totals m) (p : m.Index) :
    Totals m where
  inclusive :=
    Function.update t.inclusive p (addOptional (t.inclusive p) tokens)
  complete :=
    Function.update t.complete p (t.complete p && complete)

/-
  The walk from a session over its ancestors; none if it does
  not end.
-/
def Totals.climb
    (direct : m.Index → Spent) (t : Totals m) (i : m.Index) :
    Option (Totals m) :=
  (ancestors m.parentIndex m.sessions.length
      (m.parentIndex i)).map fun above =>
    above.foldl (Totals.addTo (direct i) (t.complete i)) t

def rollUp (b : Books m) (complete : m.Index → Bool) :
    Option (Totals m) :=
  m.indices.foldlM (Totals.climb b.direct)
    { inclusive := b.direct, complete := complete }

-- The report

def missingIdentity (m : Manifest) : Bool :=
  m.workstream.isNone || m.repository.isNone ||
    m.branch.isNone || m.prs.isEmpty

/- The tokens of no session, and of sessions with no run. -/
def Books.unattributed (b : Books m) : Spent :=
  if missingIdentity m then sum b.allModels
  else
    m.indices.foldl
      (fun total i =>
        if (m.session i).runId.isNone then
          addOptional total (b.direct i)
        else total)
      (sum (b.buckets none))

def sessionReport
    (b : Books m) (totals : Totals m)
    (first last : Owner m → Option String) (i : m.Index) :
    SessionReport where
  id := (m.session i).id
  runId := (m.session i).runId
  parent := (m.session i).parent
  provider := (m.session i).provider
  direct := b.direct i
  inclusive := totals.inclusive i
  models := (b.buckets (some i)).values
  complete := totals.complete i
  firstObserved := first (some i)
  lastObserved := last (some i)

def identityNotes (m : Manifest) (ds : Diagnostics) :
    Diagnostics :=
  if missingIdentity m then
    note ds none "unattributed_workstream_identity"
  else ds

def reportOf
    (b : Books m) (first last : Owner m → Option String) (totals : Totals m) :
    Report :=
  let ds := identityNotes m (counted b).ds
  { version := 1
    workstream := m.workstream
    repository := m.repository
    branch := m.branch
    prs := m.prs
    allocation :=
      if 1 < m.prs.length then "shared_non_additive"
      else "exclusive"
    total := sum b.allModels
    unattributed := b.unattributed
    unresolved := b.unresolved
    models := b.allModels.values
    sessions :=
      m.indices.map (sessionReport b totals first last)
    complete := Decidable.decide (ds = ∅)
    diagnostics := ds
    firstObserved := (m.owners.filterMap first).min?
    lastObserved := (m.owners.filterMap last).max? }

/- None if the walk over some session's ancestors never ends. -/
def assemble
    (b : Books m) (first last : Owner m → Option String) :
    Option Report :=
  (rollUp b (counted b).complete).map (reportOf b first last)

def aggregate
    (m : Manifest) (observations : List (Observation m)) (ds : Diagnostics) :
    Option Report :=
  let s := gather m observations ds
  assemble (books s) s.first s.last

end Usage
