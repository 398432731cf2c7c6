import Mathlib.Data.List.MinMax
import Mathlib.Data.Prod.Lex
import Amplihack.Profile.Overflow
import Amplihack.Base.FirstBy

/-
  Rotate settings: the flag, then its variable, then the
  default.

  Every resolved value is within its specification's range,
  and the settings carry the proofs.

  The decision rule: a pure function of the settings, the
  live reading, the candidates' readings, the last swap time
  and the clock.

  The plan-room swap: the plan login with the most weekly
  room among those with session room.
-/

-- One Setting

namespace Rotate

/- A whole number from `min` to `max`, if it has one. -/
def InRange (min : ℕ) (max : Option ℕ) (v : ℕ) : Prop :=
  min ≤ v ∧ ∀ m ∈ max, v ≤ m

instance (min : ℕ) (max : Option ℕ) (v : ℕ) :
    Decidable (InRange min max v) :=
  inferInstanceAs (Decidable (_ ∧ _))

/- A setting: its flag, its variable, its default, its range. -/
structure Spec where
  flag : String
  var : String
  default : ℕ
  min : ℕ
  max : Option ℕ
  default_ok : InRange min max default

/- A value that was not accepted. -/
structure SettingError where
  name : String
  shown : String
  expected : String

namespace Spec

/- A value the setting may have. -/
def Holds (spec : Spec) (v : ℕ) : Prop :=
  InRange spec.min spec.max v

instance (spec : Spec) (v : ℕ) : Decidable (spec.Holds v) :=
  inferInstanceAs (Decidable (InRange _ _ _))

def expected (spec : Spec) : String :=
  match spec.max with
  | some max =>
    s!"expected a whole number from {spec.min} to {max}"
  | none => s!"expected a whole number from {spec.min} up"

/- The error for `raw`, which is cut to 32 characters. -/
def failure (spec : Spec) (name raw : String) :
    SettingError where
  name := name
  shown := String.ofList (raw.toList.take 32)
  expected := spec.expected

/- Digits alone, within 64 bits and within the range. -/
def parse (spec : Spec) (name raw : String) :
    Except SettingError {v : ℕ // spec.Holds v} :=
  if raw.isEmpty || !raw.toList.all Char.isDigit then
    .error (spec.failure name raw)
  else
    let v := Nat.ofDigitChars 10 raw.toList 0
    if UInt64.size ≤ v then .error (spec.failure name raw)
    else if hRange : InRange spec.min spec.max v then
      .ok ⟨v, hRange⟩
    else .error (spec.failure name raw)

/- The flag; else a variable that is not empty; else the default. -/
def resolve
    (spec : Spec) (flag : Option String) (env : String → Option String) :
    Except SettingError {v : ℕ // spec.Holds v} :=
  match flag with
  | some raw => spec.parse spec.flag raw
  | none =>
    match (env spec.var).filter (fun v => !v.isEmpty) with
    | some raw => spec.parse spec.var raw
    | none => .ok ⟨spec.default, spec.default_ok⟩

end Spec

-- The Settings

def sessionAtSpec : Spec where
  flag := "--session-at"
  var := "AMPLIHACK_ROTATE_SESSION_AT"
  default := 85
  min := 1
  max := some 100
  default_ok := by decide

def weekAtSpec : Spec where
  flag := "--week-at"
  var := "AMPLIHACK_ROTATE_WEEK_AT"
  default := 90
  min := 1
  max := some 100
  default_ok := by decide

def marginSpec : Spec where
  flag := "--margin"
  var := "AMPLIHACK_ROTATE_MARGIN"
  default := 5
  min := 0
  max := some 100
  default_ok := by decide

def upgradeMarginSpec : Spec where
  flag := "--upgrade-margin"
  var := "AMPLIHACK_ROTATE_UPGRADE_MARGIN"
  default := 30
  min := 0
  max := some 100
  default_ok := by decide

def holdSpec : Spec where
  flag := "--hold"
  var := "AMPLIHACK_ROTATE_HOLD"
  default := 3600
  min := 0
  max := none
  default_ok := by decide

def overflowWaitSpec : Spec where
  flag := "--overflow-wait"
  var := "AMPLIHACK_ROTATE_OVERFLOW_WAIT"
  default := 1800
  min := 0
  max := some 604800
  default_ok := by decide

def overflowUnknownResetSpec : Spec where
  flag := "--overflow-unknown-reset"
  var := "AMPLIHACK_ROTATE_OVERFLOW_UNKNOWN_RESET"
  default := 0
  min := 0
  max := some 1
  default_ok := by decide

def intervalSpec : Spec where
  flag := "--interval"
  var := "AMPLIHACK_ROTATE_INTERVAL"
  default := 600
  min := 1
  max := some 86400
  default_ok := by decide

/- Resolved settings: every value is within its range. -/
structure Settings where
  sessionAt : {v : ℕ // sessionAtSpec.Holds v}
  weekAt : {v : ℕ // weekAtSpec.Holds v}
  margin : {v : ℕ // marginSpec.Holds v}
  upgradeMargin : {v : ℕ // upgradeMarginSpec.Holds v}
  hold : {v : ℕ // holdSpec.Holds v}
  interval : {v : ℕ // intervalSpec.Holds v}
  overflowWait : {v : ℕ // overflowWaitSpec.Holds v}
  overflowUnknownReset : Bool

/- The tuning flags of a command line. -/
structure TuneFlags where
  sessionAt : Option String
  weekAt : Option String
  margin : Option String
  upgradeMargin : Option String
  hold : Option String
  overflowWait : Option String
  overflowUnknownReset : Option String

/- The settings for one run. -/
def resolve
    (tune : TuneFlags) (interval : Option String)
    (env : String → Option String) :
    Except SettingError Settings := do
  let sessionAt ← sessionAtSpec.resolve tune.sessionAt env
  let weekAt ← weekAtSpec.resolve tune.weekAt env
  let margin ← marginSpec.resolve tune.margin env
  let upgradeMargin ←
    upgradeMarginSpec.resolve tune.upgradeMargin env
  let hold ← holdSpec.resolve tune.hold env
  let interval ← intervalSpec.resolve interval env
  let overflowWait ←
    overflowWaitSpec.resolve tune.overflowWait env
  let unknown ← overflowUnknownResetSpec.resolve
    tune.overflowUnknownReset env
  return { sessionAt, weekAt, margin, upgradeMargin, hold,
           interval, overflowWait,
           overflowUnknownReset := unknown.val = 1 }

namespace Settings

/- Every setting at its default. -/
def default : Settings where
  sessionAt := ⟨_, sessionAtSpec.default_ok⟩
  weekAt := ⟨_, weekAtSpec.default_ok⟩
  margin := ⟨_, marginSpec.default_ok⟩
  upgradeMargin := ⟨_, upgradeMarginSpec.default_ok⟩
  hold := ⟨_, holdSpec.default_ok⟩
  interval := ⟨_, intervalSpec.default_ok⟩
  overflowWait := ⟨_, overflowWaitSpec.default_ok⟩
  overflowUnknownReset := false

theorem sessionAt_le (s : Settings) : s.sessionAt.val ≤ 100 :=
  s.sessionAt.property.2 100 rfl

theorem weekAt_le (s : Settings) : s.weekAt.val ≤ 100 :=
  s.weekAt.property.2 100 rfl

/- The overflow gate the running rotator decides with. -/
def gate (s : Settings) : Profile.Gate where
  wait := s.overflowWait.val
  unknownReset := s.overflowUnknownReset
  sessionAt := s.sessionAt.val
  weekAt := s.weekAt.val

end Settings

-- The Settings As Flags

/- The value that stands after a flag. -/
def flagValue (flag : String) : List String → Option String
| name :: value :: rest =>
  if name = flag then some value else flagValue flag rest
| _ => none

/- The tuning flags a command line gives. -/
def TuneFlags.ofArgs (args : List String) : TuneFlags where
  sessionAt := flagValue sessionAtSpec.flag args
  weekAt := flagValue weekAtSpec.flag args
  margin := flagValue marginSpec.flag args
  upgradeMargin := flagValue upgradeMarginSpec.flag args
  hold := flagValue holdSpec.flag args
  overflowWait := flagValue overflowWaitSpec.flag args
  overflowUnknownReset :=
    flagValue overflowUnknownResetSpec.flag args

/- No flag is given. -/
def TuneFlags.default : TuneFlags :=
  ⟨none, none, none, none, none, none, none⟩

/- The overflow gate from its four variables only. -/
def gateFromEnv (env : String → Option String) :
    Except SettingError Profile.Gate := do
  let wait ← overflowWaitSpec.resolve none env
  let unknown ← overflowUnknownResetSpec.resolve none env
  let sessionAt ← sessionAtSpec.resolve none env
  let weekAt ← weekAtSpec.resolve none env
  return { wait := wait.val
           unknownReset := unknown.val = 1
           sessionAt := sessionAt.val
           weekAt := weekAt.val }

/- A rotator could have resolved the gate. -/
def gateInRange (gate : Profile.Gate) : Bool :=
  sessionAtSpec.Holds gate.sessionAt && weekAtSpec.Holds gate.weekAt &&
    overflowWaitSpec.max.all (gate.wait ≤ ·)

/- Explicit flags for the background process. -/
def Settings.toArgs (s : Settings) (withInterval : Bool) :
    List String :=
  [(sessionAtSpec, s.sessionAt.val), (weekAtSpec, s.weekAt.val),
   (marginSpec, s.margin.val),
   (upgradeMarginSpec, s.upgradeMargin.val),
   (holdSpec, s.hold.val), (overflowWaitSpec, s.overflowWait.val),
   (overflowUnknownResetSpec, s.overflowUnknownReset.toNat)].flatMap
    (fun p => [p.1.flag, p.2.repr]) ++
  if withInterval then [intervalSpec.flag, s.interval.val.repr]
  else []

/- A value in range is read back from its decimal text. -/
theorem Spec.parse_repr
    (spec : Spec) (name : String) (v : {v : ℕ // spec.Holds v})
    (hFits : v.val < UInt64.size) :
    spec.parse name v.val.repr = .ok v := by
  have hDigits : v.val.repr.toList.all Char.isDigit = true := by
    rw [Nat.toList_repr, List.all_eq_true]
    intro c hMem
    exact Nat.isDigit_of_mem_toDigits (by decide) (by decide) hMem
  have hValue : Nat.ofDigitChars 10 v.val.repr.toList 0 = v.val := by
    rw [Nat.toList_repr, Nat.ofDigitChars_ten_toDigits]
  have hRange : InRange spec.min spec.max
      (Nat.ofDigitChars 10 v.val.repr.toList 0) := by
    rw [hValue]
    exact v.property
  unfold Spec.parse
  rw [if_neg (by simp only [hDigits]; simp)]
  dsimp only
  rw [if_neg (by omega), dif_pos hRange]
  exact congrArg Except.ok (Subtype.ext hValue)

/- What a setting resolves to fits in 64 bits. -/
theorem Spec.resolve_lt
    {spec : Spec} {flag : Option String}
    {env : String → Option String} {v : {v : ℕ // spec.Holds v}}
    (hDefault : spec.default < UInt64.size)
    (hOk : spec.resolve flag env = .ok v) :
    v.val < UInt64.size := by
  have hParsed : ∀ name raw, spec.parse name raw = .ok v →
      v.val < UInt64.size := by
    intro name raw hParse
    unfold Spec.parse at hParse
    dsimp only at hParse
    split at hParse
    · simp at hParse
    · split at hParse
      · simp at hParse
      · split at hParse
        · simp only [Except.ok.injEq] at hParse
          rw [← hParse]
          exact Nat.lt_of_not_le ‹¬ UInt64.size ≤ _›
        · simp at hParse
  unfold Spec.resolve at hOk
  split at hOk
  · exact hParsed _ _ hOk
  · split at hOk
    · exact hParsed _ _ hOk
    · simp only [Except.ok.injEq] at hOk
      rwa [← hOk]

/- Each flag of the settings stands before its value. -/
theorem TuneFlags.ofArgs_toArgs (s : Settings) :
    TuneFlags.ofArgs (s.toArgs true) =
      { sessionAt := some s.sessionAt.val.repr
        weekAt := some s.weekAt.val.repr
        margin := some s.margin.val.repr
        upgradeMargin := some s.upgradeMargin.val.repr
        hold := some s.hold.val.repr
        overflowWait := some s.overflowWait.val.repr
        overflowUnknownReset :=
          some s.overflowUnknownReset.toNat.repr } ∧
      flagValue intervalSpec.flag (s.toArgs true) =
        some s.interval.val.repr := by
  simp [TuneFlags.ofArgs, Settings.toArgs, flagValue, sessionAtSpec,
    weekAtSpec, marginSpec, upgradeMarginSpec, holdSpec, overflowWaitSpec,
    overflowUnknownResetSpec, intervalSpec]

/- Settings that fit are read back from their flags. -/
theorem resolve_ofArgs
    (s : Settings) (hHold : s.hold.val < UInt64.size)
    (env : String → Option String) :
    resolve (.ofArgs (s.toArgs true))
      (flagValue intervalSpec.flag (s.toArgs true)) env = .ok s := by
  have hSize : UInt64.size = 18446744073709551616 := rfl
  have hBound : ∀ {spec : Spec} {m : ℕ}, spec.max = some m →
      m ≤ 604800 → ∀ v : {v : ℕ // spec.Holds v}, v.val < UInt64.size := by
    intro spec m hMax hSmall v
    have hLe := v.property.2 m hMax
    omega
  have hUnknown :
      overflowUnknownResetSpec.Holds s.overflowUnknownReset.toNat := by
    cases s.overflowUnknownReset <;> decide
  rcases TuneFlags.ofArgs_toArgs s with ⟨hTune, hInterval⟩
  simp only [hTune, hInterval, resolve, Spec.resolve]
  rw [Spec.parse_repr _ _ _ (hBound rfl (by decide) s.sessionAt),
    Spec.parse_repr _ _ _ (hBound rfl (by decide) s.weekAt),
    Spec.parse_repr _ _ _ (hBound rfl (by decide) s.margin),
    Spec.parse_repr _ _ _ (hBound rfl (by decide) s.upgradeMargin),
    Spec.parse_repr _ _ _ hHold,
    Spec.parse_repr _ _ _ (hBound rfl (by decide) s.interval),
    Spec.parse_repr _ _ _ (hBound rfl (by decide) s.overflowWait),
    Spec.parse_repr _ _ ⟨_, hUnknown⟩ (hBound rfl (by decide) _)]
  have hBool : decide (s.overflowUnknownReset.toNat = 1) =
      s.overflowUnknownReset := by cases s.overflowUnknownReset <;> rfl
  simp only [bind, Except.bind, pure, Except.pure, hBool]

/- A computation that succeeds succeeds at its first step. -/
theorem exists_of_bind_eq_ok
    {ε α β : Type} {first : Except ε α} {rest : α → Except ε β}
    {b : β} (hOk : (first >>= rest) = .ok b) :
    ∃ a, first = .ok a ∧ rest a = .ok b := by
  cases first with
  | error e => simp [bind, Except.bind] at hOk
  | ok a => exact ⟨a, rfl, hOk⟩

/- Each setting of a run is what its specification resolved. -/
theorem resolved_each
    {tune : TuneFlags} {interval : Option String}
    {env : String → Option String} {s : Settings}
    (hResolve : resolve tune interval env = .ok s) :
    sessionAtSpec.resolve tune.sessionAt env = .ok s.sessionAt ∧
    weekAtSpec.resolve tune.weekAt env = .ok s.weekAt ∧
    holdSpec.resolve tune.hold env = .ok s.hold ∧
    overflowWaitSpec.resolve tune.overflowWait env = .ok s.overflowWait ∧
    ∃ unknown, overflowUnknownResetSpec.resolve
        tune.overflowUnknownReset env = .ok unknown ∧
      s.overflowUnknownReset = decide (unknown.val = 1) := by
  unfold resolve at hResolve
  rcases exists_of_bind_eq_ok hResolve with ⟨_, hSession, h⟩
  rcases exists_of_bind_eq_ok h with ⟨_, hWeek, h⟩
  rcases exists_of_bind_eq_ok h with ⟨_, _, h⟩
  rcases exists_of_bind_eq_ok h with ⟨_, _, h⟩
  rcases exists_of_bind_eq_ok h with ⟨_, hHold, h⟩
  rcases exists_of_bind_eq_ok h with ⟨_, _, h⟩
  rcases exists_of_bind_eq_ok h with ⟨_, hWait, h⟩
  rcases exists_of_bind_eq_ok h with ⟨unknown, hUnknown, h⟩
  simp only [pure, Except.pure, Except.ok.injEq] at h
  subst h
  exact ⟨hSession, hWeek, hHold, hWait, unknown, hUnknown, rfl⟩

end Rotate

-- Readings

namespace Rotate

open Base Profile

/- What one probe showed, reduced to what the rule needs. -/
inductive Reading where
| measured (session week : Float)
| exhausted (session week : Option Float)
| failed
deriving DecidableEq

namespace Reading

/- Points left in the worse window; none for a failed probe. -/
def headroom : Reading → Option UInt8
| .failed => none
| .exhausted _ _ => some 0
| .measured session week =>
  let left :=
    Binary64.floor (100 - Binary64.fmax session week)
  if left.isNaN then none
  else some (Binary64.clamp 0 100 left).toUInt8

def isFailed : Reading → Bool
| .failed => true
| _ => false

theorem isFailed_eq_false_iff {r : Reading} :
    r.isFailed = false ↔ r ≠ .failed := by
  cases r <;> simp [isFailed]

def isExhausted : Reading → Bool
| .exhausted _ _ => true
| _ => false

end Reading

/- One usage window: percent used, and when it resets. -/
structure Win where
  used : Float
  resetsAt : Option ℤ

/- The session and weekly windows of one probe. -/
structure Windows where
  session : Option Win
  week : Option Win
  noSessionLimit : Bool

/- A probe as the rotator keeps it. -/
structure Probed where
  reading : Reading
  windows : Windows
  spendLimit : Bool
  unknown : Bool
  stillRunning : Bool
  observedAt : Option ℤ
  carried : Bool

/- A named login with what its probe showed. -/
structure Measured where
  name : ProfileName
  reading : Reading
  windows : Windows
  spendLimit : Bool
  unknown : Bool

/- The probe of a named login. -/
def Measured.new (name : ProfileName) (p : Probed) :
    Measured where
  name := name
  reading := p.reading
  windows := p.windows
  spendLimit := p.spendLimit
  unknown := p.unknown

-- Decisions

/- Why a swap is made. -/
inductive Reason where
| threshold
| upgrade
| failedProbe
| overflowIn
| overflowOut
| planRoom
deriving DecidableEq

inductive Decision where
| stay
| swap (target : ProfileName) (reason : Reason)
| alert
deriving DecidableEq

/- The login a decision swaps to. -/
def Decision.target : Decision → Option ProfileName
| .swap target _ => some target
| _ => none

theorem Decision.target_eq_some_iff
    {d : Decision} {n : ProfileName} :
    d.target = some n ↔ ∃ reason, d = .swap n reason := by
  cases d with
  | stay | swap _ _ | alert => simp [Decision.target]

/- The live login has reached a threshold; a failure counts. -/
def needsSwap (s : Settings) : Reading → Bool
| .failed => true
| .exhausted _ _ => true
| .measured session week =>
  Float.ofNat s.sessionAt.val ≤ session || Float.ofNat s.weekAt.val ≤ week

/- A candidate that is not exhausted, with its headroom. -/
def ranked (c : Measured) : Option (ProfileName × UInt8) :=
  if c.reading.isExhausted then none
  else c.reading.headroom.map fun h => (c.name, h)

/- Most headroom first, then the first name. -/
def bestKey (p : ProfileName × UInt8) : ℕᵒᵈ ×ₗ String :=
  toLex (OrderDual.toDual p.2.toNat, p.1.text)

/- The candidate with the most headroom. -/
def best (candidates : List Measured) :
    Option (ProfileName × UInt8) :=
  (candidates.filterMap ranked).argmin bestKey

/- The last swap is less than `hold` seconds ago. -/
def held (hold : ℕ) (swappedAt : Option ℤ) (now : ℤ) : Bool :=
  0 < hold &&
    swappedAt.any (fun t =>
      saturatingSub now t < orMax hold)

/- The best candidate's headroom over the live login's. -/
def gain (live : Reading) (h : UInt8) : ℤ :=
  (h.toNat : ℤ) - ((live.headroom.getD 0).toNat : ℤ)

def decide
    (s : Settings) (live : Reading) (candidates : List Measured)
    (swappedAt : Option ℤ) (now : ℤ) :
    Decision :=
  match needsSwap s live, best candidates with
  | true, some (target, h) =>
    if (s.margin.val : ℤ) ≤ gain live h then
      .swap target .threshold
    else .alert
  | true, none => .alert
  | false, some (target, h) =>
    if !held s.hold.val swappedAt now ∧
        0 < gain live h ∧
        (s.upgradeMargin.val : ℤ) ≤ gain live h then
      .swap target .upgrade
    else .stay
  | false, none => .stay

-- What The Rule Decides

theorem ranked_eq_some_iff
    {c : Measured} {n : ProfileName} {h : UInt8} :
    ranked c = some (n, h) ↔
      c.reading.isExhausted = false ∧ c.name = n ∧
        c.reading.headroom = some h := by
  rw [ranked]
  cases c.reading.isExhausted with
  | true => simp
  | false => simp [and_comm]

theorem bestKey_injective : Function.Injective bestKey := by
  rintro ⟨m, g⟩ ⟨n, h⟩ hKey
  have hHeadroom : g = h :=
    UInt8.toNat.inj (congrArg (fun k => OrderDual.ofDual (ofLex k).1) hKey)
  have hName : m = n :=
    ProfileName.text_injective (congrArg (fun k => (ofLex k).2) hKey)
  rw [hHeadroom, hName]

/- More headroom, or as much and an earlier name. -/
theorem best_eq_some_iff
    {candidates : List Measured} {p : ProfileName × UInt8} :
    best candidates = some p ↔
      (∃ c ∈ candidates, ranked c = some p) ∧
        ∀ c ∈ candidates, ∀ q ∈ ranked c, bestKey p ≤ bestKey q := by
  rw [best, argmin_eq_some_iff_of_injOn fun _ _ _ _ hKey =>
    bestKey_injective hKey]
  simp only [List.mem_filterMap, Option.mem_def]
  refine and_congr_right fun _ => ?_
  constructor
  · exact fun hLeast c hc q hq => hLeast q ⟨c, hc, hq⟩
  · rintro hLeast q ⟨c, hc, hq⟩
    exact hLeast c hc q hq

theorem best_eq_none_iff {candidates : List Measured} :
    best candidates = none ↔ ∀ c ∈ candidates, ranked c = none := by
  rw [best, List.argmin_eq_none, List.filterMap_eq_nil_iff]

theorem headroom_le_of_bestKey_le
    {p q : ProfileName × UInt8} (hKey : bestKey p ≤ bestKey q) :
    q.2.toNat ≤ p.2.toNat := by
  rcases Prod.Lex.le_iff.mp hKey with hLt | hEq
  · exact (OrderDual.toDual_lt_toDual.mp hLt).le
  · exact (OrderDual.toDual_inj.mp hEq.1).ge

/- The best candidate is one of them. -/
theorem best_mem
    {candidates : List Measured} {target : ProfileName} {h : UInt8}
    (hBest : best candidates = some (target, h)) :
    ∃ c ∈ candidates, c.name = target ∧ c.reading.headroom = some h := by
  rcases List.mem_filterMap.mp (List.argmin_mem hBest) with ⟨c, hc, hRanked⟩
  exact ⟨c, hc, (ranked_eq_some_iff.mp hRanked).2⟩

variable {s : Settings} {live : Reading}
variable {candidates : List Measured} {swappedAt : Option ℤ}

/- At a threshold the rule never just stays. -/
theorem decide_ne_stay
    {now : ℤ} (hAt : needsSwap s live = true) :
    decide s live candidates swappedAt now ≠ .stay := by
  rw [decide, hAt]
  rcases best candidates with _ | ⟨t, h⟩
  · simp
  · simp only
    split <;> simp

/- A swap is for a threshold or for an upgrade. -/
theorem decide_eq_swap_iff
    {now : ℤ} {target : ProfileName} {reason : Reason} :
    decide s live candidates swappedAt now = .swap target reason ↔
      ∃ h, best candidates = some (target, h) ∧
        (needsSwap s live = true ∧
            (s.margin.val : ℤ) ≤ gain live h ∧
            reason = .threshold ∨
          needsSwap s live = false ∧
            held s.hold.val swappedAt now = false ∧
            0 < gain live h ∧
            (s.upgradeMargin.val : ℤ) ≤ gain live h ∧
            reason = .upgrade) := by
  rw [decide]
  cases needsSwap s live <;>
    rcases best candidates with _ | ⟨t, h⟩
  · simp
  · by_cases hUp : held s.hold.val swappedAt now = false ∧
        0 < gain live h ∧
        (s.upgradeMargin.val : ℤ) ≤ gain live h
    · simp only [Bool.not_eq_true', hUp, and_self, if_true]
      constructor
      · intro hSwap
        cases hSwap
        exact ⟨h, rfl, Or.inr ⟨trivial, trivial, hUp.2.1, hUp.2.2, rfl⟩⟩
      · rintro ⟨h', hBest, ⟨hNo, _⟩ | ⟨_, _, _, _, rfl⟩⟩
        · cases hNo
        · cases hBest
          rfl
    · simp only [Bool.not_eq_true', hUp, if_false, reduceCtorEq, false_iff]
      rintro ⟨h', hBest, ⟨hNo, _⟩ | ⟨_, hUp'⟩⟩
      · cases hNo
      · cases hBest
        exact hUp ⟨hUp'.1, hUp'.2.1, hUp'.2.2.1⟩
  · simp
  · by_cases hMargin : (s.margin.val : ℤ) ≤ gain live h
    · simp only [hMargin, if_true]
      constructor
      · intro hSwap
        cases hSwap
        exact ⟨h, rfl, Or.inl ⟨trivial, hMargin, rfl⟩⟩
      · rintro ⟨h', hBest, ⟨_, _, rfl⟩ | ⟨hNo, _⟩⟩
        · cases hBest
          rfl
        · cases hNo
    · simp only [hMargin, if_false, reduceCtorEq, false_iff]
      rintro ⟨h', hBest, ⟨_, hMargin', _⟩ | ⟨hNo, _⟩⟩
      · cases hBest
        exact hMargin hMargin'
      · cases hNo

/- An alert: a threshold, and no candidate clears the margin. -/
theorem decide_eq_alert_iff
    {now : ℤ} :
    decide s live candidates swappedAt now = .alert ↔
      needsSwap s live = true ∧
        ∀ target h, best candidates = some (target, h) →
          gain live h < s.margin.val := by
  rw [decide]
  cases needsSwap s live <;>
    rcases best candidates with _ | ⟨t, h⟩
  · simp
  · simp only [Bool.false_eq_true, false_and, iff_false]
    split <;> simp
  · simp
  · by_cases hMargin : (s.margin.val : ℤ) ≤ gain live h
    · simp only [hMargin, if_true, reduceCtorEq, true_and, false_iff]
      intro hBelow
      have hLt := hBelow t h rfl
      omega
    · simp only [hMargin, if_false, true_and, true_iff]
      rintro t' h' hBest
      cases hBest
      exact not_le.mp hMargin

end Rotate

-- Room

namespace Rotate

open Base Profile

/- Both windows are below 100. -/
def room (session week : Float) : Bool :=
  session < 100 && week < 100

def hasRoom : Reading → Bool
| .measured session week => room session week
| _ => false

-- The Choice

/- A login with room, with its session and week figures. -/
structure Roomy where
  name : ProfileName
  session : Float
  week : Float

/- The login as one with room. -/
def roomy (m : Measured) : Option Roomy :=
  match m.reading with
  | .measured session week =>
    if room session week then some ⟨m.name, session, week⟩
    else none
  | _ => none

/- The integers' order, from the instance that computes. -/
local instance intPreorder : Preorder ℤ := Int.instLinearOrder.toPreorder

/- Week first, then session, then name. -/
def roomKey (r : Roomy) : ℤ ×ₗ ℤ ×ₗ String :=
  toLex (Binary64.totalKey r.week,
    toLex (Binary64.totalKey r.session, r.name.text))

/- The logins that compete: those with session room, if any. -/
def pass (s : Settings) (pool : List Roomy) : List Roomy :=
  let first := pool.filter fun r =>
    r.session < Float.ofNat s.sessionAt.val
  if first.isEmpty then pool else first

/- The login that ranks first among those that compete. -/
def winner (s : Settings) (logins : List Measured) :
    Option Roomy :=
  (pass s (logins.filterMap roomy)).argmin roomKey

/-
  The plan login to move to for room; none when nothing
  qualifies or the live login ranks first.
-/
def choose
    (s : Settings) (live : Option Measured) (plan : List Measured) :
    Option ProfileName :=
  match winner s (live.toList ++ plan) with
  | none => none
  | some winner =>
    if live.any (fun l => l.name = winner.name) then none
    else some winner.name

-- What The Choice Is

theorem hasRoom_measured_iff {session week : Float} :
    hasRoom (.measured session week) = true ↔ session < 100 ∧ week < 100 := by
  simp [hasRoom, room]

theorem roomy_eq_some_iff {m : Measured} {r : Roomy} :
    roomy m = some r ↔
      m.reading = .measured r.session r.week ∧
        room r.session r.week = true ∧ m.name = r.name := by
  rcases r with ⟨name, session, week⟩
  cases hReading : m.reading with
  | measured s w =>
    simp only [roomy, hReading]
    split
    · next hRoom =>
        simp only [Option.some.injEq, Roomy.mk.injEq, Reading.measured.injEq]
        constructor
        · rintro ⟨rfl, rfl, rfl⟩
          exact ⟨⟨rfl, rfl⟩, hRoom, rfl⟩
        · rintro ⟨⟨rfl, rfl⟩, _, rfl⟩
          exact ⟨rfl, rfl, rfl⟩
    · next hRoom =>
        simp only [reduceCtorEq, false_iff, Reading.measured.injEq]
        rintro ⟨⟨rfl, rfl⟩, hRoom', _⟩
        exact hRoom hRoom'
  | exhausted _ _ | failed => simp [roomy, hReading]

theorem roomy_isSome (m : Measured) :
    (roomy m).isSome = hasRoom m.reading := by
  cases hReading : m.reading with
  | measured s w =>
    simp only [roomy, hReading, hasRoom]
    split
    · next hRoom => simp [hRoom]
    · next hRoom => simp [hRoom]
  | exhausted _ _ | failed => simp [roomy, hReading, hasRoom]

/- Either everyone competes, or those with session room. -/
theorem pass_eq_nil_iff {s : Settings} {pool : List Roomy} :
    pass s pool = [] ↔ pool = [] := by
  rw [pass]
  cases hFirst : pool.filter fun r =>
      r.session < Float.ofNat s.sessionAt.val with
  | nil => simp
  | cons r first =>
    have hMem : r ∈ pool :=
      List.mem_of_mem_filter (hFirst ▸ List.mem_cons_self)
    simp [List.ne_nil_of_mem hMem]

/- With session room somewhere, those with it compete. -/
theorem mem_pass_iff
    {s : Settings} {pool : List Roomy} {r : Roomy} :
    r ∈ pass s pool ↔
      r ∈ pool ∧
        ((∃ q ∈ pool, q.session < Float.ofNat s.sessionAt.val) →
          r.session < Float.ofNat s.sessionAt.val) := by
  rw [pass]
  split
  · next hEmpty =>
      simp only [List.isEmpty_iff, List.filter_eq_nil_iff,
        decide_eq_true_eq] at hEmpty
      constructor
      · rintro hMem
        refine ⟨hMem, ?_⟩
        rintro ⟨q, hq, hLt⟩
        exact absurd hLt (hEmpty q hq)
      · exact fun hMem => hMem.1
  · next hSome =>
      simp only [List.isEmpty_iff, List.filter_eq_nil_iff,
        decide_eq_true_eq, not_forall, not_not] at hSome
      rcases hSome with ⟨q, hq, hLt⟩
      simp only [List.mem_filter, decide_eq_true_eq]
      constructor
      · rintro ⟨hMem, hRoom⟩
        exact ⟨hMem, fun _ => hRoom⟩
      · rintro ⟨hMem, hRoom⟩
        exact ⟨hMem, hRoom ⟨q, hq, hLt⟩⟩

theorem pass_subset (s : Settings) (pool : List Roomy) :
    pass s pool ⊆ pool := by
  rw [pass]
  split
  · exact List.Subset.refl _
  · exact List.filter_subset_self _

/- A winner exists exactly when some login has room. -/
theorem winner_eq_none_iff
    {s : Settings} {logins : List Measured} :
    winner s logins = none ↔ ∀ m ∈ logins, hasRoom m.reading = false := by
  rw [winner, List.argmin_eq_none, pass_eq_nil_iff, List.filterMap_eq_nil_iff]
  refine forall₂_congr fun m _ => ?_
  rw [← roomy_isSome, Option.isSome_eq_false_iff, Option.isNone_iff_eq_none]

theorem winner_mem
    {s : Settings} {logins : List Measured} {w : Roomy}
    (hWinner : winner s logins = some w) :
    ∃ m ∈ logins, roomy m = some w :=
  List.mem_filterMap.mp (pass_subset _ _ (List.argmin_mem hWinner))

/- The choice is the winner, unless that is the live login. -/
theorem choose_eq_some_iff
    {s : Settings} {live : Option Measured}
    {plan : List Measured} {target : ProfileName} :
    choose s live plan = some target ↔
      (∀ l ∈ live, l.name ≠ target) ∧
        ∃ w, winner s (live.toList ++ plan) = some w ∧ w.name = target := by
  rw [choose]
  cases winner s (live.toList ++ plan) with
  | none => simp
  | some w =>
    cases live with
    | none => simp
    | some l =>
      by_cases hName : l.name = w.name
      · simp +contextual [hName]
      · simp only [Option.any_some, hName]
        simp only [decide_false, Bool.false_eq_true,
          if_false, Option.some.injEq]
        constructor
        · rintro rfl
          exact ⟨by simpa using hName, w, rfl, rfl⟩
        · rintro ⟨_, w', rfl, hTarget⟩
          exact hTarget

/- The swap for room goes to a plan login. -/
theorem choose_mem
    {s : Settings} {live : Option Measured}
    {plan : List Measured} {target : ProfileName}
    (hChoose : choose s live plan = some target) :
    ∃ c ∈ plan, c.name = target := by
  rw [choose_eq_some_iff] at hChoose
  rcases hChoose with ⟨hOther, w, hWinner, hName⟩
  rcases winner_mem hWinner with ⟨m, hMem, hRoomy⟩
  have hSame : m.name = target :=
    (roomy_eq_some_iff.mp hRoomy).2.2.trans hName
  refine ⟨m, ?_, hSame⟩
  rcases List.mem_append.mp hMem with hLive | hPlan
  · exact absurd hSame (hOther m (Option.mem_toList.mp hLive))
  · exact hPlan

/- With no live login in the way, room is always taken. -/
theorem choose_none_eq_none_iff
    {s : Settings} {plan : List Measured} :
    choose s none plan = none ↔ ∀ c ∈ plan, hasRoom c.reading = false := by
  rw [← winner_eq_none_iff (s := s), choose]
  simp only [Option.toList_none, List.nil_append]
  cases winner s plan <;> simp

end Rotate
