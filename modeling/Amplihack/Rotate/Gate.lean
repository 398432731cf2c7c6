import Amplihack.Base.FirstBy
import Amplihack.Rotate.LedgerUpdates

/-
  The freshness gate: a target is accepted only on a fresh
  reading; a stale one is read again or made unknown, and the
  decision is made again.

  The clock, the re-reads and the stop requests are what each
  pass of the loop meets. `asked` and `passes` are histories
  that the loop does not read, but for the moment it is at.
  The check of the failed count in debug builds is left out.
-/

-- Stale Readings

namespace Rotate

open Base Profile

/- An unknown login. -/
def Probed.failed : Probed where
  reading := .failed
  windows :=
    { session := none
      week := none
      noSessionLimit := false }
  spendLimit := false
  unknown := true
  stillRunning := false
  observedAt := none
  carried := false

namespace Fresh

def maxRereadsPerCycle : ℕ := 3

/- Whether the gate may read a stale target again. -/
inductive Reread where
| allowed
| never
deriving DecidableEq

/-
  Not read, too old, older than the live reading, or not
  later than the swap away from a damped login.
-/
def stale
    (readAt liveReadAt dampedAt : Option ℤ) (now : ℤ) :
    Bool :=
  match readAt with
  | none => true
  | some t =>
    maxReadingAgeSecs < saturatingSub now t ||
      liveReadAt.any (fun live => t < live) ||
      dampedAt.any (fun d => t ≤ d)

/- The target of a swap that is chosen by a reading. -/
def gatedTarget : Decision → Option ProfileName
| .swap _ .overflowIn => none
| .swap target _ => some target
| .stay => none
| .alert => none

/- The lines that the gate adds to the log. -/
inductive FreshLine where
| stale (name : ProfileName) (old new : Probed)
| failed (name : ProfileName)
| limit (name : ProfileName)
| timeLimit (name : ProfileName)
| stillDamped (name : ProfileName)

/- The probe after a re-read returned `p`, and its lines. -/
def freshProbe
    (settings : Settings) (name : ProfileName) (old p : Probed)
    (finished : ℤ) (damped : Bool) :
    Probed × List FreshLine :=
  if p.reading.isFailed || p.unknown || p.stillRunning then
    (Probed.failed, [.failed name])
  else
    let fresh := { p with
      observedAt := some finished
      carried := false }
    (fresh, FreshLine.stale name old fresh ::
      (if damped && !SwapBack.hasSlack p.reading settings then
        [.stillDamped name]
      else []))

-- The Gate And Its State

/- `rest` is what the gate carries and does not read. -/
structure Measurement (ρ : Type) where
  decision : Decision
  measuredAt : ℤ
  probed : Option Probes
  freshLines : List FreshLine
  rest : ρ

/- What one pass meets: clocks, a stop, time, and a re-read. -/
structure Moment where
  now : ℤ
  stopping : Bool
  left : ℕ
  reread : Probed
  finished : ℤ

inductive GateError (ε : Type) where
| unsettled
| other (e : ε)

/- The context; `decide` and the moments go by the pass. -/
structure Gate (ρ ε : Type) where
  settings : Settings
  mode : Reread
  canReread : Bool
  ledger : Except ε (Option Ledger)
  moments : ℕ → Moment
  decide : ℕ → Probed → List (ProfileName × Probed) → ℤ →
    Except ε (Measurement ρ)

structure GateState (ρ : Type) where
  m : Measurement ρ
  probes : List (ProfileName × Probed)
  lines : List FreshLine
  done : List ProfileName
  reads : ℕ
  asked : List ProfileName
  passes : ℕ

namespace GateState

variable {ρ : Type}

/- The probe that is found under a name. -/
def probe
    (st : GateState ρ) (name : ProfileName) :
    Option (ProfileName × Probed) :=
  st.probes.find? fun e => e.1 == name

/- The measurement with the lines of the gate. -/
def finish (st : GateState ρ) : Measurement ρ :=
  { st.m with freshLines := st.lines }

end GateState

-- One Stale Target

/- The new probe of a target, its lines, and if it was read. -/
structure Handling where
  probe : Probed
  lines : List FreshLine
  asked : Bool

namespace Gate

variable {ρ ε : Type}

/- `none` when a stop is requested. -/
def handle
    (g : Gate ρ ε) (st : GateState ρ) (moment : Moment)
    (target : ProfileName) (old : Probed) (damped : Bool) :
    Option Handling :=
  if st.done.contains target || g.mode == .never then
    some ⟨.failed, [], false⟩
  else if maxRereadsPerCycle ≤ st.reads then
    some ⟨.failed, [.limit target], false⟩
  else if g.canReread then
    if moment.stopping then none
    else if moment.left == 0 then
      some ⟨.failed, [.timeLimit target], false⟩
    else
      let fresh := freshProbe g.settings target old
        moment.reread moment.finished damped
      some ⟨fresh.1, fresh.2, true⟩
  else some ⟨.failed, [], false⟩

/- The state with the target's new probe in place. -/
def handled
    (st : GateState ρ) (target : ProfileName) (h : Handling) :
    GateState ρ :=
  { st with
    probes := updateFirst (fun e => e.1 == target)
      (fun e => (e.1, h.probe)) st.probes
    lines := st.lines ++ h.lines
    done := if st.done.contains target then st.done
      else st.done ++ [target]
    reads := if h.asked then st.reads + 1 else st.reads
    asked := if h.asked then st.asked ++ [target]
      else st.asked }

-- The Loop

/- What the whole loop looks at: the damping and the live login. -/
structure Live where
  damped : Dict String Int64
  probe : Probed
  readAt : Option ℤ

def Live.dampedAt (live : Live) (target : ProfileName) :
    Option ℤ :=
  (live.damped.get? target.text).map Int64.toInt

/- The target's reading is stale at this moment. -/
def staleAt
    (live : Live) (st : GateState ρ) (moment : Moment)
    (target : ProfileName) (p : Probed) :
    Bool :=
  stale (readAt p st.m.measuredAt) live.readAt
    (live.dampedAt target) moment.now

/-
  The passes, with as many stale targets left to handle; the
  state after the last pass, and what is returned.
-/
def loop (g : Gate ρ ε) (live : Live) :
    ℕ → GateState ρ → GateState ρ × Except (GateError ε) (Measurement ρ)
| left, before =>
  let moment := g.moments before.passes
  let st := { before with passes := before.passes + 1 }
  match gatedTarget st.m.decision with
  | none => (st, .ok st.finish)
  | some target =>
    match st.probe target with
    | none => (st, .ok st.finish)
    | some (_, old) =>
      if !staleAt live st moment target old then
        (st, .ok st.finish)
      else
        match left with
        | 0 => (st, .error .unsettled)
        | left + 1 =>
          match g.handle st moment target old
              (live.dampedAt target).isSome with
          | none =>
            (st, .ok { st.finish with
              decision := .stay })
          | some h =>
            let next := handled st target h
            match g.decide before.passes live.probe
                next.probes st.m.measuredAt with
            | .error e => (next, .error (.other e))
            | .ok again =>
              loop g live left { next with m := again }

/- The state before the first pass. -/
def begin_
    (m : Measurement ρ) (probes : List (ProfileName × Probed)) :
    GateState ρ where
  m := m
  probes := probes
  lines := m.freshLines
  done := []
  reads := 0
  asked := []
  passes := 0

def live
    (m : Measurement ρ) (probe : Probed) (ledger : Option Ledger) :
    Live where
  damped := (ledger.map Ledger.swappedAway).getD .empty
  probe := probe
  readAt := readAt probe m.measuredAt

def settle (g : Gate ρ ε) (m : Measurement ρ) :
    GateState ρ × Except (GateError ε) (Measurement ρ) :=
  match gatedTarget m.decision with
  | none => (begin_ m [], .ok m)
  | some _ =>
    match m.probed with
    | none => (begin_ m [], .ok m)
    | some (probe, probes) =>
      match g.ledger with
      | .error e => (begin_ m probes, .error (.other e))
      | .ok ledger =>
        loop g (live m probe ledger) (2 * probes.length) (begin_ m probes)

end Gate

end Fresh

end Rotate
