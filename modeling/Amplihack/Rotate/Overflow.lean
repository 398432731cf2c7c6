import Amplihack.Base.Dict
import Amplihack.Rotate.Decide
import Mathlib.Data.List.Sort

/-
  The overflow policy: a pure function of the settings, the
  readings with their reset times, the overflow entries, the
  spend blocks and the clock.
-/

-- Inputs And Verdicts

namespace Rotate

open Base Profile

/- A spend block: when it was made, until when, and why. -/
structure OverflowBlock where
  at_ : Int64
  until_ : Int64
  reason : String

/- What a cycle records about overflow. -/
inductive Tag where
| inward
| outward
| on
deriving DecidableEq

namespace Tag

def asStr : Tag → String
| .inward => "in"
| .outward => "out"
| .on => "on"

end Tag

structure OverflowInput where
  settings : Settings
  liveName : Option ProfileName
  live : Probed
  candidates : List Measured
  unmeasuredPlan : List ProfileName
  refused : List ProfileName
  overflow : List OverflowEntry
  blocks : Dict String OverflowBlock
  platformBlock : Option OverflowBlock
  swappedAt : Option ℤ
  now : ℤ

structure Verdict where
  decision : Decision
  tag : Option Tag
  newBlocks : List ProfileName
  nextPlanReset : Option ℤ
  unknownPlan : List ProfileName
  keyHeld : List ProfileName

-- Plan Capacity And Resets

/- A measured login below both thresholds. -/
def planUsable (s : Settings) : Reading → Bool
| .measured session week => s.gate.planCapacity session week
| _ => false

theorem planUsable_measured_iff
    {s : Settings} {session week : Float} :
    planUsable s (.measured session week) = true ↔
      session < Float.ofNat s.sessionAt.val ∧
        week < Float.ofNat s.weekAt.val := by
  rw [planUsable, Gate.planCapacity, Bool.and_eq_true,
    decide_eq_true_iff, decide_eq_true_iff]
  rfl

set_option maxRecDepth 4000 in
theorem ofNat_le_hundred :
    ∀ a ≤ 100, Float.ofNat a ≤ 100 := by
  decide

/- The thresholds are at most 100, so capacity is room. -/
theorem hasRoom_of_planUsable
    {s : Settings} {r : Reading} (hUsable : planUsable s r = true) :
    hasRoom r = true := by
  cases r with
  | measured session week =>
    rw [planUsable_measured_iff] at hUsable
    rw [hasRoom_measured_iff]
    exact ⟨Binary64.lt_of_lt_of_le hUsable.1
        (ofNat_le_hundred _ s.sessionAt_le),
      Binary64.lt_of_lt_of_le hUsable.2 (ofNat_le_hundred _ s.weekAt_le)⟩
  | exhausted _ _ | failed => simp [planUsable] at hUsable

/- The later of two resets; unknown when either is. -/
def laterReset (a b : Option ℤ) : Option ℤ :=
  match a, b with
  | some a, some b => some (max a b)
  | _, _ => none

/- When a plan login without capacity has it again. -/
def regains (s : Settings) (r : Reading) (w : Windows) :
    Option ℤ :=
  match r with
  | .failed => none
  | .measured session week => hit (some session) (some week)
  | .exhausted _ _ =>
    hit (w.session.map Win.used) (w.week.map Win.used)
where
  hit (sessionUsed weekUsed : Option Float) : Option ℤ :=
    let sessionHit :=
      sessionUsed.any fun u => (s.gate.atThreshold u 0).1
    let weekHit :=
      weekUsed.any fun u => (s.gate.atThreshold 0 u).2
    let sessionReset := w.session.bind Win.resetsAt
    let weekReset := w.week.bind Win.resetsAt
    match sessionHit, weekHit with
    | true, false => sessionReset
    | false, true => weekReset
    | true, true => laterReset sessionReset weekReset
    | false, false => none

/- The earliest known time a login of the pool regains capacity. -/
def earliestPlanReset
    (s : Settings) (pool : List (Reading × Windows)) :
    Option ℤ :=
  (pool.filterMap fun p => regains s p.1 p.2).min?

/- The profile has a block that has not expired. -/
def active
    (blocks : Dict String OverflowBlock) (name : ProfileName) (now : ℤ) :
    Bool :=
  (blocks.get? name.text).any fun b => now < b.until_.toInt

-- The Parts Of The Policy

namespace OverflowInput

variable (i : OverflowInput)

/- By tier; a stable sort keeps the given order within a tier. -/
def order : List OverflowEntry :=
  i.overflow.insertionSort fun a b => a.tier ≤ b.tier

/- The API-key entry. -/
def platform : Option ProfileName :=
  (i.order.find? fun e => e.tier = platformTier).map (·.name)

def isOverflow (n : ProfileName) : Bool :=
  i.order.any fun e => e.name = n

def liveOver : Bool :=
  i.liveName.any i.isOverflow

def platformBlocked : Bool :=
  i.platformBlock.any fun b => i.now < b.until_.toInt

def livePlatform : Bool :=
  i.platform.isSome && i.liveName = i.platform

/- Some candidate of this name reports a spend limit. -/
def limitSeen (o : ProfileName) : Bool :=
  i.candidates.any fun c => c.name = o && c.spendLimit

/- The live login's own new block, if it needs one. -/
def liveBlock : Option ProfileName :=
  i.liveName.filter fun live =>
    i.liveOver && i.live.spendLimit && !active i.blocks live i.now

/- Spend limits seen on overflow profiles without a block. -/
def newBlocks : List ProfileName :=
  i.liveBlock.toList ++
    (i.order.map (·.name)).filter fun o =>
      !(some o = i.liveName || active i.blocks o i.now) && i.limitSeen o

def blocked (n : ProfileName) : Bool :=
  active i.blocks n i.now || i.newBlocks.contains n ||
    (i.platformBlocked && some n = i.platform)

/- A candidate of this name that can be moved to. -/
def usableCandidate (o : ProfileName) : Option Measured :=
  i.candidates.find? fun c =>
    c.name = o && !c.reading.isFailed && !c.spendLimit

/-
  The first overflow profile by tier, then given order, that
  may be moved to; `creditOnly` leaves the API key out.
-/
def nextIn (creditOnly : Bool) : Option ProfileName :=
  ((((i.order.map (·.name)).filter fun o =>
      !(creditOnly && some o = i.platform)).filter fun o =>
        !(some o = i.liveName) && !i.blocked o).findSome?
          i.usableCandidate).map (·.name)

/- The candidates that are not overflow profiles. -/
def plan : List Measured :=
  i.candidates.filter fun c => !i.isOverflow c.name

/- Plan logins of unknown state: unmeasured, failed or refused. -/
def unknownPlan : List ProfileName :=
  i.unmeasuredPlan ++
    (i.plan.filter fun c => c.reading.isFailed).map (·.name) ++
    i.refused.filter fun n => !i.isOverflow n

def verdict
    (decision : Decision) (tag : Option Tag) (nextPlanReset : Option ℤ) :
    Verdict where
  decision := decision
  tag := tag
  newBlocks := i.newBlocks
  nextPlanReset := nextPlanReset
  unknownPlan := i.unknownPlan
  keyHeld := []

/- The next per-token profile; the key only with all known. -/
def nextPaid : Option ProfileName :=
  i.nextIn !i.unknownPlan.isEmpty

/- No per-token move; names the logins if only they stopped it. -/
def noMove (d : Decision) (earliest : Option ℤ) : Verdict :=
  let held := i.settings.gate.far earliest i.now &&
    (i.nextIn true).isNone && (i.nextIn false).isSome
  { i.verdict d none none with
    keyHeld := if held then i.unknownPlan else [] }

/- The live login as a measured one. -/
def liveMeasured : Option Measured :=
  i.liveName.map fun n => .new n i.live

/- The readings of the live login and of the plan. -/
def planReadings : List Reading :=
  i.live.reading :: i.plan.map (·.reading)

/- A login whose state might hide capacity. -/
def unknownHolds : Bool :=
  (i.plan.any fun c => c.unknown) || i.refused.any fun n => !i.isOverflow n

/- The earliest reset of the live login and of the plan. -/
def earliestWithLive : Option ℤ :=
  earliestPlanReset i.settings
    ((i.live.reading, i.live.windows) ::
      i.plan.map fun c => (c.reading, c.windows))

/- The earliest reset of the plan. -/
def earliestOfPlan : Option ℤ :=
  earliestPlanReset i.settings (i.plan.map fun c => (c.reading, c.windows))

/- What the decision rule says with plan candidates alone. -/
def planDecision : Decision :=
  decide i.settings i.live.reading i.plan i.swappedAt i.now

/-
  An alert, or a threshold swap onto a login that is itself
  without capacity.
-/
def movingWithoutCapacity : Bool :=
  match i.planDecision with
  | .alert => true
  | .swap target .threshold =>
    !i.plan.any fun c =>
      c.name = target && planUsable i.settings c.reading
  | _ => false

-- The Policy

/- Off a plan login. -/
def offPlan : Verdict :=
  let d := i.planDecision
  if !i.movingWithoutCapacity || i.live.reading.isFailed then
    i.verdict d none none
  else
    match choose i.settings i.liveMeasured i.plan with
    | some target =>
      let same : Bool :=
        match d with
        | .swap t _ => t = target
        | _ => false
      let d := if same then d else .swap target .planRoom
      i.verdict d none none
    | none =>
      if i.planReadings.any hasRoom then
        i.verdict .alert none none
      else
        let earliest := i.earliestWithLive
        if !i.unknownHolds ∧
            i.settings.gate.far earliest i.now then
          match i.nextPaid with
          | some target =>
            i.verdict (.swap target .overflowIn) (some .inward) earliest
          | none => i.noMove d earliest
        else i.noMove d earliest

/- On the API key, with no plan login to leave for. -/
def onKey : Verdict :=
  match i.nextIn true with
  | some target =>
    i.verdict (.swap target .overflowOut) (some .outward) none
  | none =>
    if i.platformBlocked then
      match best i.plan with
      | some (target, _) =>
        i.verdict (.swap target .overflowOut) (some .outward) none
      | none => i.verdict .alert (some .on) none
    else i.verdict .stay (some .on) i.earliestOfPlan

/- The best plan login, else the alert. -/
def leaveBlocked : Verdict :=
  match best i.plan with
  | some (target, _) =>
    i.verdict (.swap target .overflowOut) (some .outward) none
  | none => i.noMove .alert i.earliestOfPlan

/- On a blocked overflow profile. -/
def onBlocked : Verdict :=
  if i.settings.gate.far i.earliestOfPlan i.now then
    match i.nextPaid with
    | some target =>
      i.verdict (.swap target .overflowIn) (some .inward) i.earliestOfPlan
    | none => i.leaveBlocked
  else i.leaveBlocked

/- On an overflow profile that can still spend. -/
def onUsable : Verdict :=
  match i.live.reading.isFailed, i.planDecision with
  | true, .swap target reason =>
    i.verdict (.swap target reason) (some .outward) none
  | _, _ => i.verdict .stay (some .on) i.earliestOfPlan

/- Off an overflow profile. -/
def offOverflow : Verdict :=
  let withCapacity := i.plan.filter fun c =>
    planUsable i.settings c.reading
  match best withCapacity with
  | some (target, _) =>
    i.verdict (.swap target .overflowOut) (some .outward) none
  | none =>
    match choose i.settings none i.plan with
    | some target =>
      i.verdict (.swap target .overflowOut) (some .outward) none
    | none =>
      if i.livePlatform then i.onKey
      else if i.liveName.any i.blocked then i.onBlocked
      else i.onUsable

end OverflowInput

def decideOverflow (i : OverflowInput) : Verdict :=
  if !i.liveOver then i.offPlan else i.offOverflow

end Rotate
