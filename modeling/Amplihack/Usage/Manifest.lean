import Mathlib.Algebra.Group.Pi.Basic
import Mathlib.Algebra.Group.WithOne.Defs
import Mathlib.Data.Fin.VecNotation
import Mathlib.Data.Fintype.Basic
import Mathlib.Data.Prod.Lex
import Mathlib.Data.String.Basic
import Mathlib.Tactic.FinCases
import Amplihack.Base.Caps
import Amplihack.Base.OrderedMap
import Amplihack.Base.Ancestry

/-
  Token counts of usage reports, and the use of each model.

  The manifest of a usage report, and its validation.
-/

-- Token counts

namespace Usage

open Base

inductive Provider
| claude
| codex
deriving DecidableEq

def Provider.rank : Provider → ℕ
| .claude => 0
| .codex => 1

instance : LinearOrder Provider :=
  LinearOrder.lift' Provider.rank (by
    intro p q hRank
    cases p <;> cases q <;> first | rfl | cases hRank)

/- Unsigned numbers of 64 bits that saturate. -/
abbrev U64 : Type := Capped 18446744073709551615

/- Disjoint buckets; the durations divide `cacheWrite`. -/
structure Tokens where
  input : U64
  cacheWrite : U64
  cacheWrite5m : U64
  cacheWrite1h : U64
  cacheRead : U64
  output : U64
  reasoning : U64
deriving DecidableEq

namespace Tokens

def values (t : Tokens) : Fin 7 → U64 :=
  ![t.input, t.cacheWrite, t.cacheWrite5m, t.cacheWrite1h,
    t.cacheRead, t.output, t.reasoning]

def fromValues (v : Fin 7 → U64) : Tokens where
  input := v 0
  cacheWrite := v 1
  cacheWrite5m := v 2
  cacheWrite1h := v 3
  cacheRead := v 4
  output := v 5
  reasoning := v 6

@[simp]
theorem values_fromValues (v : Fin 7 → U64) :
    (fromValues v).values = v := by
  funext i
  fin_cases i <;> rfl

@[simp]
theorem fromValues_values (t : Tokens) :
    fromValues t.values = t :=
  rfl

theorem values_injective : Function.Injective values := by
  intro s t hValues
  rw [← fromValues_values s, hValues, fromValues_values]

/- The default has no tokens. -/
instance : Zero Tokens := ⟨fromValues fun _ => 0⟩

instance : Add Tokens :=
  ⟨fun s t => fromValues fun i => s.values i + t.values i⟩

instance : Max Tokens :=
  ⟨fun s t => fromValues fun i => s.values i ⊔ t.values i⟩

@[simp]
theorem values_zero : (0 : Tokens).values = 0 :=
  values_fromValues _

@[simp]
theorem values_add (s t : Tokens) :
    (s + t).values = s.values + t.values :=
  values_fromValues _

@[simp]
theorem values_max (s t : Tokens) :
    (max s t).values = s.values ⊔ t.values :=
  values_fromValues _

instance : AddCommMonoid Tokens where
  add_assoc s t u := values_injective (by simp [add_assoc])
  zero_add t := values_injective (by simp)
  add_zero t := values_injective (by simp)
  add_comm s t := values_injective (by simp [add_comm])
  nsmul := nsmulRec

instance : LE Tokens := ⟨fun s t => s.values ≤ t.values⟩

/- The componentwise maximum is the join. -/
instance : SemilatticeSup Tokens where
  le_refl t := le_refl t.values
  le_trans s t u := le_trans (a := s.values)
  le_antisymm s t hst hts :=
    values_injective (le_antisymm hst hts)
  sup := max
  le_sup_left s t := by
    change s.values ≤ (max s t).values
    rw [values_max]
    exact le_sup_left
  le_sup_right s t := by
    change t.values ≤ (max s t).values
    rw [values_max]
    exact le_sup_right
  sup_le s t u hs ht := by
    change (max s t).values ≤ u.values
    rw [values_max]
    exact sup_le hs ht

instance : OrderBot Tokens where
  bot := 0
  bot_le t := by
    change (0 : Tokens).values ≤ t.values
    rw [values_zero]
    intro i
    exact bot_le (a := t.values i)

/- The buckets that add up; the durations are in one. -/
def total (t : Tokens) : U64 :=
  t.input + t.cacheWrite + t.cacheRead + t.output + t.reasoning

end Tokens

-- The use of each model

structure ModelUsage where
  provider : Provider
  model : String
  tokens : Tokens
  observedAttempts : U64
  reasoningInOutput : Bool

abbrev ModelKey : Type := Provider ×ₗ String

abbrev ModelMap : Type := OrderedMap ModelKey ModelUsage

def noUsage (provider : Provider) (model : String) :
    ModelUsage where
  provider := provider
  model := model
  tokens := 0
  observedAttempts := 0
  reasoningInOutput := provider = .claude

def ModelUsage.plus
    (b : ModelUsage) (tokens : Tokens) (attempts : U64) :
    ModelUsage :=
  { b with
    tokens := b.tokens + tokens
    observedAttempts := b.observedAttempts + attempts }

/- Tokens and attempts go to the row of their model. -/
def add
    (map : ModelMap) (provider : Provider) (model : String)
    (tokens : Tokens) (attempts : U64) :
    ModelMap :=
  map.upsert (toLex (provider, model)) fun b =>
    (b.getD (noUsage provider model)).plus tokens attempts

/- A sum of no tokens at all is not 0 but missing. -/
abbrev Spent : Type := WithZero Tokens

def isMissing (spent : Spent) : Bool :=
  let tokens : Option Tokens := spent
  tokens.isNone

def addOptional (total other : Spent) : Spent :=
  total + other

def sum (models : ModelMap) : Spent :=
  models.values.foldl (fun r u => addOptional r u.tokens) 0

theorem sum_eq (models : ModelMap) :
    sum models =
      OrderedMap.sumOf (fun _ u => (u.tokens : Spent))
        models := by
  unfold sum OrderedMap.sumOf OrderedMap.values
  rw [List.sum_eq_foldl, List.foldl_map, List.foldl_map]
  rfl

@[simp]
theorem sum_empty : sum OrderedMap.empty = 0 :=
  rfl

@[simp]
theorem sum_add
    (map : ModelMap) (provider : Provider) (model : String)
    (tokens : Tokens) (attempts : U64) :
    sum (add map provider model tokens attempts) = sum map + tokens := by
  rw [sum_eq, sum_eq]
  apply OrderedMap.sumOf_upsert
  · simp [ModelUsage.plus, noUsage]
  · intro v
    simp [ModelUsage.plus]

end Usage

-- The manifest

namespace Usage

open Base

/- A native session: its files, and who started it. -/
structure Session where
  id : String
  provider : Provider
  runId : Option String
  parent : Option String
  complete : Bool
  files : List String

structure Manifest where
  version : ℕ
  workstream : Option String
  repository : Option String
  branch : Option String
  prs : List ℕ
  completed : Bool
  sessions : List Session

/- The position of a session in the manifest. -/
abbrev Manifest.Index (m : Manifest) : Type :=
  Fin m.sessions.length

def Manifest.session (m : Manifest) (i : m.Index) : Session :=
  m.sessions.get i

-- Validation

def labelChars : List Char :=
  ['.', '_', '-', ':', '@']

def safeLabel (s : String) : Bool :=
  s ≠ "" && s.utf8ByteSize ≤ 160 &&
    s.toList.all fun c => c.isAlphanum || labelChars.contains c

/- The parts between slashes. -/
def pathParts (s : String) : List String :=
  (s.toList.splitOn '/').map String.ofList

def safePathLabel (s : String) : Bool :=
  (pathParts s).all safeLabel && s.utf8ByteSize ≤ 240

def safeRepository (s : String) : Bool :=
  (pathParts s).length = 2 && (pathParts s).all safeLabel

def safeIdentity (m : Manifest) : Bool :=
  m.workstream.all safeLabel && m.branch.all safePathLabel &&
    m.repository.all safeRepository

/- The parent that the first session of that id names. -/
def Manifest.parentOf (m : Manifest) (id : String) :
    Option String :=
  (m.sessions.find? fun s => s.id = id).bind Session.parent

def safeSession (s : Session) : Bool :=
  safeLabel s.id && s.runId.all safeLabel && s.parent.all safeLabel

/-
  The walk is given more fuel than there are sessions, which
  it never uses up.
-/
def endsAncestry (m : Manifest) (s : Session) : Bool :=
  revisits m.parentOf (m.sessions.length + 1) ∅ (some s.id) = some false

/- Each session of the list in turn; `ids` are those before. -/
def validateSessions (m : Manifest) :
    Finset String → List Session → Except String Unit
| _, [] => .ok ()
| ids, s :: rest =>
  if !safeSession s || s.id ∈ ids then
    .error "invalid or duplicate session identity"
  else if !endsAncestry m s then
    .error "cyclic session ancestry"
  else validateSessions m (insert s.id ids) rest

def validate (m : Manifest) : Except String Unit :=
  if m.version ≠ 1 then
    .error "unsupported usage manifest version"
  else if m.sessions.isEmpty then
    .error "usage manifest needs at least one session"
  else if !safeIdentity m then
    .error "invalid manifest identity label"
  else
    match validateSessions m ∅ m.sessions with
    | .error e => .error e
    | .ok () =>
      if m.prs.contains 0 || !Decidable.decide m.prs.Nodup then
        .error "PR identities must be unique positive numbers"
      else .ok ()

variable {m : Manifest}

theorem validateSessions_ok_iff
    (ids : Finset String) (sessions : List Session) :
    validateSessions m ids sessions = .ok () ↔
      (∀ s ∈ sessions, safeSession s ∧ endsAncestry m s ∧ s.id ∉ ids) ∧
        (sessions.map Session.id).Nodup := by
  induction sessions generalizing ids with
  | nil => simp [validateSessions]
  | cons s rest ih =>
    unfold validateSessions
    split
    next hBad =>
      constructor
      · intro hOk
        cases hOk
      · rintro ⟨hAll, -⟩
        have hHead := hAll s List.mem_cons_self
        simp [hHead.1, hHead.2.2] at hBad
    next hGood =>
      split
      next hCyclic =>
        constructor
        · intro hOk
          cases hOk
        · rintro ⟨hAll, -⟩
          have hHead := hAll s List.mem_cons_self
          simp [hHead.2.1] at hCyclic
      next hEnds =>
        simp only [Bool.or_eq_true, Bool.not_eq_true', decide_eq_true_eq,
          not_or, Bool.not_eq_false] at hGood hEnds
        rw [ih]
        simp only [List.forall_mem_cons, hGood.1, hEnds, hGood.2,
          List.map_cons, List.nodup_cons, Finset.mem_insert, not_or]
        constructor
        · rintro ⟨hRest, hNodup⟩
          refine ⟨⟨⟨trivial, trivial, not_false⟩, ?_⟩, ?_, hNodup⟩
          · intro t hMem
            have hTail := hRest t hMem
            exact ⟨hTail.1, hTail.2.1, hTail.2.2.2⟩
          · intro hMem
            rcases List.mem_map.1 hMem with ⟨t, hIn, hId⟩
            exact (hRest t hIn).2.2.1 hId
        · rintro ⟨⟨-, hRest⟩, hNew, hNodup⟩
          refine ⟨?_, hNodup⟩
          intro t hMem
          have hTail := hRest t hMem
          refine ⟨hTail.1, hTail.2.1, ?_, hTail.2.2⟩
          intro hId
          rw [← hId] at hNew
          exact hNew (List.mem_map_of_mem hMem)

/- A manifest that passes has distinct, acyclic sessions. -/
theorem sessions_of_validate (hValid : validate m = .ok ()) :
    (∀ s ∈ m.sessions, endsAncestry m s) ∧
      (m.sessions.map Session.id).Nodup := by
  have hSessions : validateSessions m ∅ m.sessions = .ok () := by
    unfold validate at hValid
    split at hValid
    next => cases hValid
    next =>
      split at hValid
      next => cases hValid
      next =>
        split at hValid
        next => cases hValid
        next =>
          split at hValid
          next => cases hValid
          next hOk => exact hOk
  rcases (validateSessions_ok_iff ∅ m.sessions).1 hSessions with
    ⟨hAll, hNodup⟩
  exact ⟨fun s hMem => (hAll s hMem).2.1, hNodup⟩

-- Parents by position

/- The first session of that id. -/
def Manifest.position (m : Manifest) (id : String) :
    Option m.Index :=
  m.sessions.findFinIdx? fun s => s.id = id

def Manifest.parentIndex (m : Manifest) (i : m.Index) :
    Option m.Index :=
  (m.session i).parent.bind m.position

theorem id_of_position
    {id : String} {i : m.Index} (hPosition : m.position id = some i) :
    (m.session i).id = id := by
  have hFound := List.findFinIdx?_eq_some_iff.1 hPosition
  simpa [Manifest.session] using hFound.1

section Distinct

variable (hNodup : (m.sessions.map Session.id).Nodup)

include hNodup

theorem session_eq_of_id
    {s t : Session} (hs : s ∈ m.sessions) (ht : t ∈ m.sessions)
    (hId : s.id = t.id) :
    s = t :=
  List.inj_on_of_nodup_map hNodup hs ht hId

theorem index_eq_of_id
    {i j : m.Index} (hId : (m.session i).id = (m.session j).id) :
    i = j := by
  have hInjective := List.nodup_iff_injective_get.1 hNodup
  have hSame := @hInjective ⟨i.1, by simp⟩ ⟨j.1, by simp⟩
    (by simpa [Manifest.session] using hId)
  exact Fin.ext (Fin.mk.inj hSame)

theorem position_session (i : m.Index) :
    m.position (m.session i).id = some i := by
  cases hPosition : m.position (m.session i).id with
  | none =>
    have hNone := List.findFinIdx?_eq_none_iff.1 hPosition
      (m.session i) (List.get_mem _ _)
    simp at hNone
  | some j => rw [index_eq_of_id hNodup (id_of_position hPosition)]

/- A session's parent is the one that it names. -/
theorem parentIndex_eq_some_iff
    {i p : m.Index} :
    m.parentIndex i = some p ↔
      (m.session i).parent = some (m.session p).id := by
  unfold Manifest.parentIndex
  constructor
  · intro hParent
    rcases Option.bind_eq_some_iff.1 hParent with ⟨id, hNamed, hPosition⟩
    rw [hNamed, id_of_position hPosition]
  · intro hNamed
    rw [hNamed]
    exact position_session hNodup p

theorem parentOf_session (i : m.Index) :
    m.parentOf (m.session i).id = (m.session i).parent := by
  unfold Manifest.parentOf
  cases hFind :
      m.sessions.find? fun s => s.id = (m.session i).id with
  | none =>
    have hNone := List.find?_eq_none.1 hFind (m.session i) (List.get_mem _ _)
    simp at hNone
  | some s =>
    have hId : s.id = (m.session i).id := by simpa using List.find?_some hFind
    rw [session_eq_of_id hNodup
      (List.mem_of_find?_eq_some hFind) (List.get_mem _ _) hId]
    rfl

/- An ancestor by position is one by name. -/
theorem above_id
    {i j : m.Index} (hAbove : Above m.parentIndex i j) :
    Above m.parentOf (m.session i).id (m.session j).id := by
  refine Relation.TransGen.lift (fun i => (m.session i).id) ?_ i j hAbove
  intro i p hParent
  change m.parentOf (m.session i).id = some (m.session p).id
  rw [parentOf_session hNodup]
  exact (parentIndex_eq_some_iff hNodup).1 hParent

end Distinct

/- No session of a valid manifest is its own ancestor. -/
theorem not_above_self_of_validate
    (hValid : validate m = .ok ()) (i : m.Index) :
    ¬ Above m.parentIndex i i := by
  intro hAbove
  rcases sessions_of_validate hValid with ⟨hEnds, hNodup⟩
  have hEnd := hEnds (m.session i) (List.get_mem _ _)
  exact not_above_self_of_revisits (of_decide_eq_true hEnd)
    (above_id hNodup hAbove)

end Usage
