import Amplihack.Governor.Files
import Amplihack.Governor.Model

/-
  Budgets in percentage points, and the samples and the rate
  signal that a round takes from the profiles' readings.

  The decision function: pure, with no I/O.
-/

-- Budgets

namespace Governor

open Base

def day : ℤ := 86400

/-
  A finite percentage, brought between 0 and 100, and a reset
  from one day before to eight days after `now`.
-/
def plausibleWindow (pct : Float) (resetsAt now : ℤ) :
    Option WindowBudget :=
  if !pct.isFinite || resetsAt < saturatingSub now day ||
      saturatingAdd now (8 * day) < resetsAt then
    none
  else
    some
      { usedPct := Binary64.clamp 0.0 100.0 pct
        resetsAt := some resetsAt }

/- The window, judged at the time it was observed. -/
def window (raw : Option (Float × ℤ)) (observedAt : ℤ) :
    Option WindowBudget := do
  let (usedPct, resetsAt) ← raw
  plausibleWindow usedPct resetsAt observedAt

/- `none` for a profile whose reading cannot be used. -/
def budgetFromSnapshot (s : ProfileSnapshot) : Option Budget := do
  let session ←
    if s.noSessionWindow then some none
    else (window s.fiveHour s.observedAt).map some
  let weekly ← window s.sevenDay s.observedAt
  return {
    name := s.name
    active := s.active
    eligible := s.eligible
    session := session
    weekly := weekly }

/- The reading is older than `maxAge`, or not yet taken. -/
def staleReading (s : ProfileSnapshot) (maxAge : ℕ) (now : ℤ) :
    Bool :=
  if s.fiveHour.isNone && s.sevenDay.isNone then false
  else
    match checkedSub now s.observedAt with
    | some age => !(0 ≤ age && age ≤ orMax maxAge)
    | none => true

/- A window whose reset has passed starts again from zero. -/
def rolled (w : WindowBudget) (now : ℤ) : WindowBudget :=
  match w.resetsAt with
  | some r =>
    if r ≤ now then { usedPct := 0.0, resetsAt := none }
    else w
  | none => w

def exhausted (b : Budget) : Bool :=
  decide (100.0 ≤ b.weekly.usedPct) ||
    b.session.any fun s => decide (100.0 ≤ s.usedPct)

/- A stale reading counts only while a window is exhausted. -/
def budgets
    (snaps : List ProfileSnapshot) (now : ℤ) (maxAge : ℕ) :
    List Budget :=
  snaps.filterMap fun s => do
    let b ← budgetFromSnapshot s
    let b :=
      { b with
        weekly := rolled b.weekly now
        session := b.session.map fun w => rolled w now }
    if !staleReading s maxAge now || exhausted b then some b
    else none

-- Headroom

/- Why a profile can or cannot take a start. -/
inductive Headroom where
| room
| sessionExhausted
| weeklyExhausted
| inReserve
deriving DecidableEq

def remaining (w : WindowBudget) : Float :=
  Binary64.clamp 0.0 100.0 (100.0 - w.usedPct)

def usablePoints (b : Budget) : Float :=
  match b.session with
  | some s =>
    Binary64.fmin (remaining b.weekly) (remaining s)
  | none => remaining b.weekly

def weeklyRemaining (b : Budget) : Float :=
  remaining b.weekly

def headroom (b : Budget) (reservePoints : Float) : Headroom :=
  if 100.0 ≤ b.weekly.usedPct then .weeklyExhausted
  else if b.session.any fun s => decide (100.0 ≤ s.usedPct) then
    .sessionExhausted
  else if weeklyRemaining b ≤ reservePoints then .inReserve
  else .room

-- Samples and rates

/- A sample of one window; none without an observation time. -/
def sample (w : Option (Float × ℤ)) (observedAt : ℤ) :
    Option Sample := do
  if observedAt ≤ 0 then none
  else
    let b ← window w observedAt
    return {
      observedAt := observedAt
      usedPct := b.usedPct
      resetsAt := b.resetsAt }

/- The rings with a profile's sample, if there is one. -/
def pushInto
    (name : String) (sample : Option Sample)
    (rings : Dict String (List Sample)) :
    Dict String (List Sample) :=
  match sample with
  | some x =>
    rings.insert name (pushSample ((rings.get? name).getD []) x)
  | none => rings

/- One profile's latest reading, added to its rings. -/
def recordOne (history : History) (s : ProfileSnapshot) :
    History where
  weekly := pushInto s.name (sample s.sevenDay s.observedAt)
    history.weekly
  session := pushInto s.name (sample s.fiveHour s.observedAt)
    history.session

/- Every reading is added; unlisted profiles' rings go. -/
def recordSamples
    (history : History) (snaps : List ProfileSnapshot) :
    History :=
  let added := snaps.foldl recordOne history
  let listed := fun (name : String) (_ : List Sample) =>
    snaps.any fun s => s.name == name
  { weekly := added.weekly.retain listed
    session := added.session.retain listed }

def windowRate
    (w : WindowBudget) (ring : Option (List Sample)) (now : ℤ) :
    WindowRate where
  burn := ring.bind burnRate
  sustainable := sustainable (remaining w) w.resetsAt now

/- The signal of the active profile's windows. -/
def rateSignal
    (budgets : List Budget) (history : History) (now : ℤ) (bandPct : ℕ) :
    RateSignal :=
  let windows := budgets.flatMap fun b =>
    if b.active && b.eligible then
      windowRate b.weekly (history.weekly.get? b.name) now ::
        (b.session.map fun s =>
          windowRate s (history.session.get? b.name) now).toList
    else []
  signal windows bandPct

end Governor

-- Decisions

namespace Governor

open Base

/- The least of the times that are known. -/
def earliest (resets : List (Option ℤ)) : Option ℤ :=
  (resets.filterMap id).min?

def showReset (render : Render) (reset : Option ℤ) : String :=
  match reset with
  | some t => render.utc t
  | none => "an unknown time"

/- The active profile first, then by name. -/
def poolOrder (a b : Budget) : Bool :=
  if a.active == b.active then decide (a.name ≤ b.name)
  else a.active

/- The most usable points; the first name among equals. -/
def roomiest (room : List Budget) : Option Budget :=
  room.foldl
    (fun best b =>
      match best with
      | none => some b
      | some c =>
        let kb := Binary64.totalKey (usablePoints b)
        let kc := Binary64.totalKey (usablePoints c)
        if kc < kb ∨ kb = kc ∧ b.name ≤ c.name then some b
        else some c)
    none

/- Feedback is due, at most once per evaluation interval. -/
def evaluationDue (i : Inputs) (now : ℤ) : Bool :=
  match i.lastEvaluatedAt with
  | none => true
  | some t =>
    orMax i.settings.evalIntervalSecs ≤ saturatingSub now t

/- The limit that this decision uses. -/
def limitFor (i : Inputs) (now : ℤ) : ℕ :=
  let max_ := max i.settings.maxConcurrency 1
  if evaluationDue i now then
    nextLimit i.limit i.signal i.settings.step max_
  else
    clampNat i.limit 1 max_

/- An earlier request is first in the fair queue. -/
def ahead (i : Inputs) : Bool :=
  match head i.queue i.admissions with
  | none => false
  | some first =>
    match i.request.seq with
    | some seq => seq != first
    | none =>
      -- A start without a ticket comes after any other.
      let mine := keyFor i.request.class_
        i.request.workstream u64Max i.admissions
      let theirs := (i.queue.find? fun e => e.seq == first).map
        fun e => orderKey e i.admissions
      theirs.any fun t => t < mine

/- Steps 5 to 7: the limit, the fair queue, and the room. -/
def decideRoom
    (i : Inputs) (limit : ℕ)
    (made : DecisionKind → ReasonCode → String → Decision) (chosen : Budget) :
    Decision :=
  let held := min i.slots.length u32Max
  if limit ≤ held then
    made .wait .concurrency s!"{held} of {limit} slots are in use"
  else if ahead i then
    made .wait .queue "an earlier request is first in the fair queue"
  else
    let message := if chosen.active then
        "profile " ++ chosen.name ++ " has room"
      else
        "profile " ++ chosen.name ++ " has room; the rotator " ++
          "moves work there from the active profile"
    { made .allow .room message with announce := !chosen.active }

/- Steps 2 to 7, on a pool with a reading. -/
def decidePool
    (render : Render) (i : Inputs) (now : ℤ) (limit : ℕ)
    (made : DecisionKind → ReasonCode → String → Decision)
    (pool : List Budget) :
    Decision :=
  let open_ := pool.filter fun b =>
    headroom b 0.0 != .weeklyExhausted
  if open_.isEmpty then
    let reset := earliest <| pool.map fun b =>
      b.weekly.resetsAt.filter fun r => now < r
    let fits := reset.any (· ≤ i.request.deadline) &&
      now < i.request.deadline
    let message :=
      "every eligible profile has used its weekly limit; " ++
        "the next weekly reset is at " ++ showReset render reset
    { made (if fits then .wait else .deny) .weeklyExhausted
        message with
      retryAfter := reset }
  else
    let withSession := open_.filter fun b =>
      headroom b 0.0 != .sessionExhausted
    if withSession.isEmpty then
      let reset := earliest <| open_.map fun b =>
        b.session.bind WindowBudget.resetsAt
      let message :=
        "every eligible profile has used its session limit; " ++
          "the next session reset is at " ++
          showReset render reset
      { made .wait .sessionExhausted message with
        retryAfter := reset }
    else
      let reserve := if i.request.class_.protected_ then 0.0
        else Float.ofNat i.settings.reservePoints
      let room := withSession.filter fun b =>
        headroom b reserve == .room
      match (room.find? Budget.active).or (roomiest room) with
      | none =>
        let best := withSession.foldl
          (fun best b => Binary64.fmax best (weeklyRemaining b))
          0.0
        made .wait .reserve <|
          "ordinary work is held: the best weekly remainder " ++
            "is " ++ render.points best ++ " points, at or " ++
            "below the " ++
            toString i.settings.reservePoints ++
            " point reserve"
      | some chosen =>
        if i.request.nested then
          made .allow .nested <|
            i.request.start.asStr ++ " start admitted under " ++
              "the session's slot; profile " ++ chosen.name ++
              " has room"
        else
          decideRoom i limit made chosen

def decide (render : Render) (i : Inputs) (now : ℤ) :
    Decision :=
  let evaluated := evaluationDue i now
  let limit := limitFor i now
  let made := fun kind code message =>
    { kind := kind
      reason := { code := code, message := message }
      limitAfter := limit
      evaluated := evaluated
      retryAfter := none
      announce := false : Decision }
  let pool := (i.budgets.filter Budget.eligible).mergeSort
    poolOrder
  if pool.isEmpty then
    made .allow .noReadings <|
      "no usage reading for any eligible profile; " ++
        "admitted without a budget check"
  else if i.request.insideRecipe then
    made .allow .nested "admitted under the slot of the running recipe"
  else
    decidePool render i now limit made pool

-- What a decision says

variable {render : Render}
variable {i : Inputs}
variable {now : ℤ}

theorem limitFor_range (i : Inputs) (now : ℤ) :
    1 ≤ limitFor i now ∧ limitFor i now ≤ i.settings.maxConcurrency := by
  have hMax : max i.settings.maxConcurrency 1 =
      i.settings.maxConcurrency := max_eq_left i.settings.concurrency_range.1
  have hNext := nextLimit_range i.limit i.signal
    i.settings.step i.settings.maxConcurrency
  have hClamp := clampNat_range i.limit i.settings.maxConcurrency
  rw [hMax] at hNext hClamp
  unfold limitFor
  dsimp only
  rw [hMax]
  split
  · exact hNext
  · exact hClamp

/- Every decision says the limit it used, and if it is new. -/
theorem decide_limitAfter :
    (decide render i now).limitAfter = limitFor i now ∧
      (decide render i now).evaluated = evaluationDue i now := by
  unfold decide decidePool decideRoom
  dsimp only
  repeat' split
  all_goals exact ⟨rfl, rfl⟩

variable {limit : ℕ}
variable {made : DecisionKind → ReasonCode → String → Decision}

/- Between the checks of a pool, only room lets a start in. -/
theorem decideRoom_allow
    {chosen : Budget}
    (hMade : ∀ kind code message, (made kind code message).kind = kind)
    (hAllow : (decideRoom i limit made chosen).kind = .allow) :
    min i.slots.length u32Max < limit := by
  unfold decideRoom at hAllow
  by_cases hFull : limit ≤ min i.slots.length u32Max
  · simp [hFull, hMade] at hAllow
  · omega

theorem decidePool_allow
    {pool : List Budget}
    (hMade : ∀ kind code message, (made kind code message).kind = kind)
    (hAllow : (decidePool render i now limit made pool).kind = .allow) :
    i.request.nested = true ∨ min i.slots.length u32Max < limit := by
  unfold decidePool at hAllow
  dsimp only at hAllow
  split at hAllow
  next => split at hAllow <;> simp [hMade] at hAllow
  next =>
    split at hAllow
    next => simp [hMade] at hAllow
    next =>
      split at hAllow
      next => simp [hMade] at hAllow
      next =>
        split at hAllow
        next hNested => exact .inl hNested
        next => exact .inr (decideRoom_allow hMade hAllow)

/-
  A start is let in without readings, under a slot, or when
  fewer slots are held than the limit that is stored.
-/
theorem decide_allow
    (hAllow : (decide render i now).kind = .allow) :
    (decide render i now).reason.code = .noReadings ∨
      i.request.nested = true ∨
      min i.slots.length u32Max < limitFor i now := by
  by_cases hPool : ((i.budgets.filter Budget.eligible).mergeSort
      poolOrder).isEmpty
  · exact .inl (by simp [decide, hPool])
  · by_cases hInside : i.request.insideRecipe
    · refine .inr (.inl ?_)
      unfold Request.insideRecipe at hInside
      unfold Request.nested
      rw [eq_of_beq hInside]
      rfl
    · unfold decide at hAllow
      simp only [hPool, hInside, Bool.false_eq_true, if_false] at hAllow
      exact .inr (decidePool_allow (fun _ _ _ => rfl) hAllow)

end Governor
