import Amplihack.Base.Dict
import Amplihack.Base.FirstBy
import Amplihack.Rotate.Decide
import Mathlib.Data.List.Perm.Basic

/-
  Candidate selection: a pure function of the profiles, their
  readings, the threshold, the exclusions, the overflow
  profiles and an eligibility filter.
-/

-- Readings

namespace AutoSwitch

open Base Profile

/-
  One usage window. A reading comes from a JSON file, whose
  numbers are finite.
-/
structure Window where
  usedPercentage : Float
  resetsAt : ℤ
  finite : usedPercentage.isFinite = true

structure Reading where
  fiveHour : Option Window
  sevenDay : Option Window

structure Pool where
  profiles : List ProfileName
  readings : Dict String Reading
  threshold : ℕ
  exclude : List ProfileName
  now : ℤ

def Pool.reading (pool : Pool) (p : ProfileName) :
    Option Reading :=
  pool.readings.get? p.text

/- A window's usage, or 0 once its reset time has passed. -/
def adjusted (w : Option Window) (now : ℤ) : Float :=
  match w with
  | some w => if now < w.resetsAt then w.usedPercentage else 0.0
  | none => 0.0

def worst (r : Reading) (now : ℤ) : Float :=
  Binary64.fmax (adjusted r.fiveHour now) (adjusted r.sevenDay now)

/- A missing reading is not exhausted. -/
def isExhausted (r : Option Reading) (threshold : ℕ) (now : ℤ) :
    Bool :=
  r.any fun r => Float.ofNat threshold ≤ worst r now

theorem adjusted_finite (w : Option Window) (now : ℤ) :
    (adjusted w now).isFinite = true := by
  have hZero : (0.0 : Float).isFinite = true := by decide
  cases w with
  | none => exact hZero
  | some w =>
    unfold adjusted
    dsimp only
    split
    · exact w.finite
    · exact hZero

theorem worst_finite (r : Reading) (now : ℤ) :
    (worst r now).isFinite = true :=
  Binary64.fmax_finite (adjusted_finite r.fiveHour now)
    (adjusted_finite r.sevenDay now)

-- The Best Profile

/- The integers' order, from the instance that computes. -/
local instance countPreorder : Preorder ℤ :=
  Int.instLinearOrder.toPreorder

/- Least used first, then by name. -/
def quotaKey (k : Float × ProfileName) :
    (ℤ ×ₗ ℤ ×ₗ ℤ) ×ₗ String :=
  toLex (Binary64.numberKey k.1, k.2.text)

/- The profiles that pass every rule, in the pool's order. -/
def candidates
    (pool : Pool) (current : String) (usable : Option Reading → Bool)
    (eligible : ProfileName → Bool) :
    List ProfileName :=
  pool.profiles.filter fun p =>
    !(p.text == current || pool.exclude.contains p) &&
      usable (pool.reading p) && eligible p

/- The profile with its worse window, if it has a reading. -/
def known (pool : Pool) (p : ProfileName) :
    Option (Float × ProfileName) :=
  (pool.reading p).map fun r => (worst r pool.now, p)

/-
  Known readings by their worse window, then the profiles
  without one, by name; the first of a stable sort.
-/
def selectBy
    (pool : Pool) (current : String) (usable : Option Reading → Bool)
    (eligible : ProfileName → Bool) :
    Option ProfileName :=
  let all := candidates pool current usable eligible
  let unknown := all.filter fun p => (pool.reading p).isNone
  (((all.filterMap (known pool)).argmin quotaKey).map
    Prod.snd).or (unknown.argmin ProfileName.text)

/- The eligible profile with the most quota left. -/
def select
    (pool : Pool) (current : String) (eligible : ProfileName → Bool) :
    Option ProfileName :=
  selectBy pool current
    (fun r => !isExhausted r pool.threshold pool.now) eligible

section Best

variable {pool : Pool}
variable {current : String}
variable {usable : Option Reading → Bool}
variable {eligible : ProfileName → Bool}

theorem known_eq_some_iff
    {p : ProfileName} {k : Float × ProfileName} :
    known pool p = some k ↔
      ∃ r, pool.reading p = some r ∧ k = (worst r pool.now, p) := by
  unfold known
  rw [Option.map_eq_some_iff]
  simp only [eq_comm]

/- The profile chosen is one that passes every rule. -/
theorem selectBy_mem
    {p : ProfileName}
    (hSelected : selectBy pool current usable eligible = some p) :
    p ∈ candidates pool current usable eligible := by
  unfold selectBy at hSelected
  dsimp only at hSelected
  rcases Option.or_eq_some_iff.1 hSelected with
    hKnown | ⟨-, hUnknown⟩
  · rcases Option.map_eq_some_iff.1 hKnown with ⟨k, hMin, rfl⟩
    rcases List.mem_filterMap.1 (List.argmin_mem hMin) with ⟨q, hMem, hQ⟩
    rcases known_eq_some_iff.1 hQ with ⟨r, -, rfl⟩
    exact hMem
  · exact (List.mem_filter.1 (List.argmin_mem hUnknown)).1

theorem mem_candidates_iff {p : ProfileName} :
    p ∈ candidates pool current usable eligible ↔
      p ∈ pool.profiles ∧ p.text ≠ current ∧
        p ∉ pool.exclude ∧
        usable (pool.reading p) = true ∧ eligible p = true := by
  simp [candidates, and_assoc]

theorem selectBy_eq_none_iff :
    selectBy pool current usable eligible = none ↔
      ∀ p, p ∉ candidates pool current usable eligible := by
  unfold selectBy
  dsimp only
  rw [Option.or_eq_none_iff, Option.map_eq_none_iff, List.argmin_eq_none,
    List.argmin_eq_none, List.filterMap_eq_nil_iff, List.filter_eq_nil_iff]
  constructor
  · rintro ⟨hKnown, hUnknown⟩ p hMem
    cases hReading : pool.reading p with
    | none => exact hUnknown p hMem (by simp [hReading])
    | some r =>
      have hNone := hKnown p hMem
      simp [known, hReading] at hNone
  · intro hNone
    exact ⟨fun p hMem => absurd hMem (hNone p),
      fun p hMem => absurd hMem (hNone p)⟩

/- The names decide every tie, so the order does not matter. -/
theorem selectBy_congr
    {pool' : Pool} (hReadings : pool'.readings = pool.readings)
    (hNow : pool'.now = pool.now)
    (hSame : ∀ p,
      p ∈ candidates pool current usable eligible ↔
        p ∈ candidates pool' current usable eligible) :
    selectBy pool current usable eligible =
      selectBy pool' current usable eligible := by
  have hReading : pool'.reading = pool.reading := by
    unfold Pool.reading
    rw [hReadings]
  have hKnown : known pool' = known pool := by
    unfold known
    rw [hReading, hNow]
  have hFirst :
      ((candidates pool current usable eligible).filterMap
          (known pool)).argmin quotaKey =
        ((candidates pool' current usable eligible).filterMap
          (known pool)).argmin quotaKey := by
    apply argmin_congr_of_injOn
    · intro k hk l hl hKey
      rcases List.mem_filterMap.1 hk with ⟨p, -, hp⟩
      rcases List.mem_filterMap.1 hl with ⟨q, -, hq⟩
      rcases known_eq_some_iff.1 hp with ⟨r, hr, rfl⟩
      rcases known_eq_some_iff.1 hq with ⟨r', hr', rfl⟩
      have hName : p = q :=
        ProfileName.text_injective (congrArg (fun key => (ofLex key).2) hKey)
      subst hName
      rw [Option.some.inj (hr.symm.trans hr')]
    · intro k
      simp only [List.mem_filterMap, hSame]
  have hRest :
      ((candidates pool current usable eligible).filter
          fun p => (pool.reading p).isNone).argmin ProfileName.text =
        ((candidates pool' current usable eligible).filter
          fun p => (pool.reading p).isNone).argmin
            ProfileName.text := by
    apply argmin_congr_of_injOn
    · intro p _ q _ hName
      exact ProfileName.text_injective hName
    · intro p
      simp only [List.mem_filter, hSame]
  unfold selectBy
  dsimp only
  rw [hKnown, hReading, hFirst, hRest]

end Best

-- The Overflow Side

/- No gate when overflow may not be used at all. -/
structure OverflowPool where
  order : List ProfileName
  blocked : List String
  gate : Option Gate
  platform : Option ProfileName
  notPlan : List ProfileName
  noLogin : List ProfileName
  kindsUnknown : Bool

/- Neither an overflow nor an API-key profile. -/
def OverflowPool.isPlan (ov : OverflowPool) (p : ProfileName) :
    Bool :=
  !ov.order.contains p && !ov.notPlan.contains p

/- A reading's session and week use. -/
def sessionWeek (r : Reading) (now : ℤ) : Float × Float :=
  (adjusted r.fiveHour now, adjusted r.sevenDay now)

/- The gate's test, the one the rotator applies. -/
def gateCapacity (r : Reading) (g : Gate) (now : ℤ) : Bool :=
  g.planCapacity (sessionWeek r now).1 (sessionWeek r now).2

/- Both windows are below 100. -/
def hasRoom (r : Reading) (now : ℤ) : Bool :=
  Rotate.room (sessionWeek r now).1 (sessionWeek r now).2

/- The reset of the window at its threshold, or the later. -/
def regainsAt
    (g : Gate) (used : Float × Float) (resets : Option ℤ × Option ℤ) :
    Option ℤ :=
  match g.atThreshold used.1 used.2 with
  | (true, false) => resets.1
  | (false, true) => resets.2
  | (true, true) => do
      let session ← resets.1
      let week ← resets.2
      return max session week
  | (false, false) => none

def regains (r : Reading) (g : Gate) (now : ℤ) : Option ℤ :=
  regainsAt g (sessionWeek r now)
    (r.fiveHour.map Window.resetsAt, r.sevenDay.map Window.resetsAt)

/- The one rule for the move back to a plan profile. -/
def mayReturnTo
    (r : Option Reading) (gate : Option Gate) (threshold : ℕ) (now : ℤ) :
    Bool :=
  match r, gate with
  | none, _ => true
  | some r, some g => gateCapacity r g now
  | some r, none => !isExhausted (some r) threshold now

/- Whether a session on overflow leaves it for the profile. -/
def wayOff
    (r : Option Reading) (gate : Option Gate) (threshold : ℕ) (now : ℤ) :
    Bool :=
  mayReturnTo r gate threshold now ||
    (gate.isSome && r.any fun r => hasRoom r now)

/- No active spend block holds it. -/
def overflowUsable (name : String) (blocked : List String) :
    Bool :=
  !blocked.contains name

def onOverflow (ov : OverflowPool) (current : String) : Bool :=
  ov.order.any fun o => o.text == current

/- The current reading counts, except on an overflow profile. -/
def currentReading
    (pool : Pool) (ov : OverflowPool) (current : String) :
    Option Reading :=
  if onOverflow ov current then none
  else pool.readings.get? current

/- The plan profiles that are not excluded. -/
def planProfiles (pool : Pool) (ov : OverflowPool) :
    List ProfileName :=
  pool.profiles.filter fun p =>
    !pool.exclude.contains p && ov.isPlan p

/- When the first plan profile regains capacity. -/
def earliestPlanReset
    (pool : Pool) (ov : OverflowPool) (gate : Gate) (current : String) :
    Option ℤ :=
  (((planProfiles pool ov).filterMap pool.reading ++
      (currentReading pool ov current).toList).filterMap
    fun r => regains r gate pool.now).min?

/- The plan profiles with no reading that could have one. -/
def unreadPlan (pool : Pool) (ov : OverflowPool) :
    List ProfileName :=
  ((planProfiles pool ov).filter fun p =>
    !ov.noLogin.contains p).filter fun p =>
      (pool.reading p).isNone

-- The Selection

section Selection

variable (pool : Pool)
variable (ov : OverflowPool)
variable (current : String)
variable (eligible : ProfileName → Bool)

/- The pool with every profile off the plan left out. -/
def planPool : Pool :=
  { pool with
    exclude := pool.exclude ++
      pool.profiles.filter fun p => !ov.isPlan p }

/- The caller's own name of a profile. -/
def own (p : Option ProfileName) : Option ProfileName :=
  p.bind fun p => pool.profiles.find? fun q => q = p

/- The best plan profile under the auto-switch threshold. -/
def fallback : Option ProfileName :=
  own pool (select (planPool pool ov) current eligible)

def hasCapacity (gate : Gate) (p : ProfileName) : Bool :=
  (pool.reading p).all fun r => gateCapacity r gate pool.now

/- The best plan profile with capacity, or with no reading. -/
def back (gate : Gate) : Option ProfileName :=
  own pool <|
    if onOverflow ov current then
      selectBy (planPool pool ov) current
        (fun r => mayReturnTo r (some gate) pool.threshold pool.now)
        eligible
    else
      select (planPool pool ov) current fun p =>
        hasCapacity pool gate p && eligible p

/- The plan profile with room and the most quota left. -/
def withRoom : Option ProfileName :=
  own pool (selectBy (planPool pool ov) current
    (fun r => r.any fun r => hasRoom r pool.now) eligible)

/- An overflow profile that may be moved to. -/
def mayTake (o : ProfileName) : Bool :=
  pool.profiles.contains o && !pool.exclude.contains o &&
    overflowUsable o.text ov.blocked && eligible o

/- The first usable credit profile, off the API key. -/
def creditOffKey : Option ProfileName :=
  ov.order.find? fun o =>
    o.text != current && some o != ov.platform && mayTake pool ov eligible o

/- Some plan profile, the current one included, has room. -/
def planRoom : Bool :=
  ((planProfiles pool ov).filterMap pool.reading ++
    (currentReading pool ov current).toList).any fun r =>
      hasRoom r pool.now

def beatsCurrent (p : ProfileName) : Bool :=
  match currentReading pool ov current, pool.reading p with
  | some c, some r => worst r pool.now < worst c pool.now
  | _, _ => true

/- The current profile is an API key, marked or not. -/
def onKey : Bool :=
  ov.notPlan.any fun k => k.text == current

/- The first overflow profile that may be spent on. -/
def paid : Option ProfileName :=
  let unread := !(unreadPlan pool ov).isEmpty
  ov.order.find? fun o =>
    o.text != current &&
      !((onKey ov current || unread) && some o == ov.platform) &&
      mayTake pool ov eligible o

/- Off overflow, or on a spend-blocked overflow profile. -/
def planThenPaid (gate : Gate) : Option ProfileName :=
  if planRoom pool ov current then
    (fallback pool ov current eligible).or
      ((withRoom pool ov current eligible).filter
        (beatsCurrent pool ov current))
  else
    let earliest := earliestPlanReset pool ov gate current
    ((paid pool ov current eligible).filter fun _ =>
      gate.far earliest pool.now).or
      (fallback pool ov current eligible)

/- With a gate, and no plan profile with capacity. -/
def withoutCapacity (gate : Gate) : Option ProfileName :=
  if onOverflow ov current then
    (withRoom pool ov current eligible).or <|
      ((creditOffKey pool ov current eligible).filter fun _ =>
        ov.platform.any fun p => p.text == current).or <|
        if overflowUsable current ov.blocked then none
        else planThenPaid pool ov current eligible gate
  else
    planThenPaid pool ov current eligible gate

/- Nothing is selected while the kinds are unknown. -/
def selectWithOverflow : Option ProfileName :=
  if ov.kindsUnknown then none
  else
    match ov.gate with
    | none => fallback pool ov current eligible
    | some gate =>
      (back pool ov current eligible gate).or
        (withoutCapacity pool ov current eligible gate)

end Selection

end AutoSwitch
