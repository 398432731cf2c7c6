import Amplihack.Base.Numbers
import Amplihack.Profile.Overflow

/-
  The usage-limit wait of one step: what a limit allows, and
  the one wait that a step may have.

  How long a wait lasts and what ends it are answers of the
  world.

  The supervisor of a step: attempts, reruns under other
  profiles, and the wait.

  Each round of the loop gets the world's answers: how its
  attempt went, what the selection picks, whether the step was
  told to stop, and how a wait ends.
-/

-- What a limit allows

namespace AutoSwitch

open Base

/- Why a usage limit is not waited out. -/
inductive NoWait where
| noLimitMessage
| spendLimit
| noReset
| resetTooFar
| pipedPrompt
  deriving DecidableEq

/- A wait for a reset, for another login, or none. -/
inductive WaitFor where
| reset (at_ : ℤ)
| capacity (at_ : Option ℤ)
| skip (why : NoWait)
  deriving DecidableEq

def fiveHours : ℤ := 5 * 3600

/- The wait for a reset that the readings state. -/
def fromReading (reset now : ℤ) : WaitFor :=
  if saturatingAdd now fiveHours < reset then
    .skip .resetTooFar
  else
    .reset reset

/-
  A far or unreadable reset, made a wait for another login
  where one could take over.
-/
def upgrade
    (w : WaitFor) (seen : Option (Option ℤ)) (takeover : Bool) :
    WaitFor :=
  match w, seen with
  | .skip .resetTooFar, some reset =>
    if takeover then .capacity reset else w
  | .skip .noReset, some reset =>
    if takeover then .capacity reset else w
  | _, _ => w

-- The waiter

/- The wait's state for one step. -/
structure Waiter where
  /- Whether the wait is on; `none` in interactive use. -/
  enabled : Option Bool
  used : Bool
  blocked : Option NoWait
  capacityStart : Option ℤ

/- The refusal that `blocked` gives, if any. -/
def Waiter.blockedSkip (w : Waiter) : Option WaitFor :=
  w.blocked.map .skip

inductive WaitEnd where
| signal (sig : ℕ)
| sessionEnded
| stepTimeout
| capacityExpired
| resetReached
| maxReached
| loginChanged
| rotatorCapacity
| otherCapacity
  deriving DecidableEq

inductive AfterLimit where
| finish (code : Option ℤ)
| retry
  deriving DecidableEq

/- The world's answers to a wait. -/
structure WaitAnswers where
  signal : Option ℕ
  now : ℤ
  ending : WaitEnd

def afterEnd : WaitEnd → AfterLimit
| .signal sig => .finish (some (128 + sig))
| .sessionEnded => .finish none
| .stepTimeout => .finish none
| .capacityExpired => .finish none
| _ => .retry

/- Waits, unless the step did before or may not. -/
def afterLimit
    (w : Waiter) (inherited : WaitFor) (a : WaitAnswers) :
    AfterLimit × Waiter :=
  match w.enabled with
  | none => (.finish none, w)
  | some enabled =>
    match a.signal with
    | some sig => (.finish (some (128 + sig)), w)
    | none =>
      if !enabled || w.used then (.finish none, w)
      else
        match w.blockedSkip.getD inherited with
        | .skip _ => (.finish none, w)
        | .reset _ =>
          (afterEnd a.ending, { w with used := true, capacityStart := none })
        | .capacity _ =>
          (afterEnd a.ending,
            { w with
              used := true, capacityStart := some a.now })

end AutoSwitch

-- The loop's state

namespace AutoSwitch

namespace Rerun

open Base Profile

/-
  What does not change in a run: the inherited profile while
  auto-switch is on, the profiles, and the prompt's place.
-/
structure Setup where
  switch : Option ProfileName
  profiles : List ProfileName
  waitEnabled : Option Bool
  pipedPrompt : Bool

/- An attempt's exit code and buffered output. -/
structure Attempt where
  code : ℤ
  stdout : String

/- Which branch of the loop asked for an attempt. -/
inductive Why where
| first
| candidate
| back
| retry
  deriving DecidableEq

/- An attempt that was made; `none` is the inherited profile. -/
structure Made where
  profile : Option ProfileName
  why : Why
  waited : Bool
  attempt : Option Attempt

structure Loop where
  profile : Option ProfileName
  why : Why
  tried : List ProfileName
  inheritedWait : Option WaitFor
  inheritedHasCapacity : Bool
  waiter : Waiter
  made : List Made
  waits : ℕ

inductive Ended where
| unsupervised
| failed
| finished (stdout : String) (code : ℤ)
  deriving DecidableEq

inductive State where
| running (l : Loop)
| ended (l : Loop) (e : Ended)

def State.loop : State → Loop
| .running l => l
| .ended l _ => l

-- The start

/- The answers before the first attempt. -/
structure Begin where
  /- The substitute, and the inherited account's reset. -/
  substitute : Option (ProfileName × Option ℤ)
  waitNow : ℤ
  now : ℤ
  takeover : Bool

def firstLoop (setup : Setup) : Loop where
  profile := none
  why := .first
  tried := []
  inheritedWait := none
  inheritedHasCapacity := false
  waiter :=
    { enabled := setup.waitEnabled, used := false,
      blocked :=
        if setup.pipedPrompt then some .pipedPrompt else none,
      capacityStart := none }
  made := []
  waits := 0

/- The inherited account's reset on the wait's clock. -/
def substituteWait (b : Begin) (reset : ℤ) : WaitFor :=
  let reset :=
    saturatingAdd b.waitNow (saturatingSub reset b.now)
  upgrade (fromReading reset b.waitNow) (some (some reset)) b.takeover

def start (setup : Setup) (b : Begin) : Loop :=
  match setup.switch, b.substitute with
  | some _, some (p, some reset) =>
    { firstLoop setup with
      profile := some p,
      inheritedWait := some (substituteWait b reset) }
  | some _, some (p, none) =>
    { firstLoop setup with
      profile := some p, inheritedHasCapacity := true }
  | _, _ => firstLoop setup

-- A round

/- What an attempt that hit its limit said about it. -/
structure Limited where
  wait : WaitFor
  seen : Option (Option ℤ)

inductive Answer where
| notStarted
| done (a : Attempt) (limited : Option Limited)

structure Round where
  answer : Answer
  takeover : Bool
  on : Bool
  ledgerReads : Bool
  pick : Option ProfileName
  stop : Option ℕ
  wait : WaitAnswers
  capacityPick : Option ProfileName

def finish (l : Loop) (a : Attempt) (code : Option ℤ) : State :=
  .ended l (.finished a.stdout (code.getD a.code))

/- The next eligible profile, unless the wait was used. -/
def nextProfile (l : Loop) (r : Round) : Option ProfileName :=
  if r.on && r.ledgerReads && !l.waiter.used then r.pick
  else none

/- The profile that the retry after a wait runs under. -/
def retryProfile
    (setup : Setup) (w : Waiter) (r : Round) :
    Option ProfileName :=
  match setup.switch, w.capacityStart with
  | some _, some _ => r.capacityPick
  | _, _ => none

def waitOrFinish
    (setup : Setup) (l : Loop) (a : Attempt) (r : Round) :
    State :=
  match l.inheritedWait.or l.waiter.blockedSkip with
  | none => finish l a none
  | some wait =>
    let (what, waiter) := afterLimit l.waiter wait r.wait
    let waits :=
      if waiter.used && !l.waiter.used then l.waits + 1
      else l.waits
    match what with
    | .finish code => finish { l with waiter, waits } a code
    | .retry =>
      .running { l with
        waiter, waits,
        profile := retryProfile setup waiter r,
        why := .retry }

/- Back to the inherited profile while it has capacity. -/
def backOrWait
    (setup : Setup) (l : Loop) (a : Attempt) (r : Round) :
    State :=
  if l.inheritedHasCapacity && l.profile.isSome then
    let l := { l with inheritedHasCapacity := false }
    if setup.pipedPrompt then waitOrFinish setup l a r
    else
      match r.stop with
      | some sig => finish l a (some (128 + sig))
      | none => .running { l with profile := none, why := .back }
  else
    waitOrFinish setup l a r

def switchOrWait
    (setup : Setup) (inherited : ProfileName) (l : Loop)
    (a : Attempt) (r : Round) :
    State :=
  let current := l.profile.getD inherited
  let l := { l with tried := l.tried ++ [current] }
  match nextProfile l r with
  | none => backOrWait setup l a r
  | some next =>
    if setup.pipedPrompt then backOrWait setup l a r
    else
      match r.stop with
      | some sig => finish l a (some (128 + sig))
      | none =>
        .running { l with
          profile :=
            if next = inherited then none else some next,
          why := .candidate }

def afterLimited
    (setup : Setup) (l : Loop) (a : Attempt) (limited : Limited) (r : Round) :
    State :=
  let l :=
    if l.profile = none then
      { l with
        inheritedWait := some
          (upgrade limited.wait limited.seen r.takeover) }
    else l
  match setup.switch with
  | some inherited => switchOrWait setup inherited l a r
  | none => waitOrFinish setup l a r

/- The loop with its attempt made. -/
def Loop.record (l : Loop) (attempt : Option Attempt) : Loop :=
  { l with
    made := l.made ++
      [⟨l.profile, l.why, l.waiter.used, attempt⟩] }

def round (setup : Setup) (l : Loop) (r : Round) : State :=
  match r.answer with
  | .notStarted =>
    if l.made = [] ∧ l.profile = none then
      .ended (l.record none) .unsupervised
    else
      .ended (l.record none) .failed
  | .done a none => finish (l.record (some a)) a none
  | .done a (some limited) =>
    afterLimited setup (l.record (some a)) a limited r

def step (setup : Setup) : State → Round → State
| .running l, r => round setup l r
| .ended l e, _ => .ended l e

-- What the selection may answer

/- A substitute is another profile of the list. -/
def Begin.Offered (setup : Setup) (b : Begin) : Prop :=
  ∀ p reset, b.substitute = some (p, reset) →
    p ∈ setup.profiles ∧ setup.switch ≠ some p

/-
  A candidate is a profile of the list that was not tried; the
  login of a retry is another one than the inherited.
-/
def Offered (setup : Setup) : State → Round → Prop
| .running l, r =>
  (∀ p, r.pick = some p →
    p ∈ setup.profiles ∧
    ∀ i, setup.switch = some i → p ∉ l.tried ++ [l.profile.getD i]) ∧
  (∀ p, r.capacityPick = some p → p ∈ setup.profiles ∧ setup.switch ≠ some p)
| .ended _ _, _ => True

end Rerun

end AutoSwitch
