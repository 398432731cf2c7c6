import Mathlib.Algebra.Order.BigOperators.Group.List
import Amplihack.Rotate.Gate

/-
  The gate settles: every name can be handled twice, and what
  is handled loses a credit, whatever target comes next.
-/

-- Credits

namespace Rotate

open Base Profile

namespace Fresh

variable {ρ ε : Type}
variable {g : Gate ρ ε}
variable {st : GateState ρ}
variable {names : List ProfileName}
variable {target name : ProfileName}
variable {h : Handling}

/- How often a name can still be handled. -/
def credit (st : GateState ρ) (name : ProfileName) : ℕ :=
  if st.done.contains name then
    match st.probe name with
    | some e => if e.2.reading.isFailed then 0 else 1
    | none => 0
  else 2

theorem map_fst_updateFirst
    (target : ProfileName) (p : Probed)
    (probes : List (ProfileName × Probed)) :
    (updateFirst (fun e => e.1 == target)
      (fun e => (e.1, p)) probes).map Prod.fst = probes.map Prod.fst := by
  induction probes with
  | nil => rfl
  | cons e probes ih =>
    unfold updateFirst
    split
    · rfl
    · rw [List.map_cons, List.map_cons, ih]

theorem probe_handled_self :
    (Gate.handled st target h).probe target =
      (st.probe target).map fun e => (e.1, h.probe) :=
  find?_updateFirst_self
    (p := fun e : ProfileName × Probed => e.1 == target)
    (f := fun e => (e.1, h.probe)) (fun _ hHere => hHere)
    st.probes

theorem probe_handled_other (hOther : name ≠ target) :
    (Gate.handled st target h).probe name = st.probe name := by
  apply find?_updateFirst_other
  · intro e hHere
    rw [eq_of_beq hHere, beq_eq_false_iff_ne]
    exact hOther.symm
  · intro e hHere
    rw [eq_of_beq hHere, beq_eq_false_iff_ne]
    exact hOther.symm

theorem mem_done_handled :
    name ∈ (Gate.handled st target h).done ↔
      name ∈ st.done ∨ name = target := by
  unfold Gate.handled
  dsimp only
  split
  next hIn =>
    rw [List.contains_iff_mem] at hIn
    constructor
    · exact Or.inl
    · rintro (hDone | rfl)
      · exact hDone
      · exact hIn
  next => rw [List.mem_append, List.mem_singleton]

theorem credit_handled_other (hOther : name ≠ target) :
    credit (Gate.handled st target h) name = credit st name := by
  unfold credit
  rw [probe_handled_other hOther]
  have hSame : (Gate.handled st target h).done.contains name =
      st.done.contains name := by
    rw [Bool.eq_iff_iff, List.contains_iff_mem,
      List.contains_iff_mem, mem_done_handled]
    exact or_iff_left hOther
  rw [hSame]

variable {e : ProfileName × Probed}

/- A target that is handled loses a credit. -/
theorem credit_handled_self_lt
    (hProbe : st.probe target = some e)
    (hRead : target ∈ st.done → e.2.reading ≠ .failed)
    (hAgain : target ∈ st.done → h.probe.reading = .failed) :
    credit (Gate.handled st target h) target < credit st target := by
  have hNow : target ∈ (Gate.handled st target h).done :=
    mem_done_handled.mpr (Or.inr rfl)
  unfold credit
  rw [if_pos (List.contains_iff_mem.mpr hNow), probe_handled_self, hProbe]
  dsimp only [Option.map_some]
  by_cases hDone : target ∈ st.done
  · rw [if_pos (List.contains_iff_mem.mpr hDone), hAgain hDone,
      Reading.isFailed_eq_false_iff.mpr (hRead hDone)]
    exact Nat.zero_lt_one
  · rw [if_neg (mt List.contains_iff_mem.mp hDone)]
    split
    · exact Nat.two_pos
    · exact Nat.one_lt_two

theorem sum_credit_handled_lt
    (hIn : target ∈ names) (hProbe : st.probe target = some e)
    (hRead : target ∈ st.done → e.2.reading ≠ .failed)
    (hAgain : target ∈ st.done → h.probe.reading = .failed) :
    (names.map (credit (Gate.handled st target h))).sum <
      (names.map (credit st)).sum := by
  have hLess := credit_handled_self_lt hProbe hRead hAgain
  apply List.sum_lt_sum
  · intro name _
    by_cases hSame : name = target
    · rw [hSame]
      exact hLess.le
    · exact (credit_handled_other hSame).le
  · exact ⟨target, hIn, hLess⟩

-- What Every Pass Keeps

/-
  No decision targets a login whose probe failed, as long as
  the probes are those of the given names.
-/
def NeverFailed (g : Gate ρ ε) (names : List ProfileName) : Prop :=
  ∀ pass live probes measuredAt m,
    probes.map Prod.fst = names →
      g.decide pass live probes measuredAt = .ok m →
        ∀ target e, gatedTarget m.decision = some target →
          probes.find? (fun e => e.1 == target) = some e →
            e.2.reading ≠ .failed

structure GateInvariant
    (g : Gate ρ ε) (names : List ProfileName) (st : GateState ρ) :
    Prop where
  names : st.probes.map Prod.fst = names
  reads : st.reads = st.asked.length
  few : st.asked.length ≤ maxRereadsPerCycle
  once : st.asked.Nodup
  done : st.asked ⊆ st.done
  never : g.mode = .never → st.asked = []
  target : st.done ≠ [] → ∀ target e,
    gatedTarget st.m.decision = some target →
      st.probe target = some e → e.2.reading ≠ .failed

theorem mem_names_of_probe
    (hNames : st.probes.map Prod.fst = names)
    (hProbe : st.probe target = some e) :
    target ∈ names := by
  have hName := List.find?_some hProbe
  rw [← eq_of_beq hName, ← hNames]
  exact List.mem_map_of_mem (List.mem_of_find?_eq_some hProbe)

/- A read is the first of its name; a second time is a failure. -/
theorem handle_eq_some
    {moment : Moment} {old : Probed} {damped : Bool}
    (hHandle : g.handle st moment target old damped = some h) :
    (h.asked = true → target ∉ st.done ∧ g.mode ≠ .never ∧
        st.reads < maxRereadsPerCycle) ∧
      (target ∈ st.done → h.probe.reading = .failed) := by
  unfold Gate.handle at hHandle
  split at hHandle
  next =>
    cases hHandle
    exact ⟨fun hAsked => absurd hAsked Bool.false_ne_true, fun _ => rfl⟩
  next hFirst =>
    rw [Bool.or_eq_true, not_or, List.contains_iff_mem, beq_iff_eq] at hFirst
    refine ⟨?_, fun hDone => absurd hDone hFirst.1⟩
    split at hHandle
    next =>
      cases hHandle
      exact fun hAsked => absurd hAsked Bool.false_ne_true
    next hLimit =>
      exact fun _ => ⟨hFirst.1, hFirst.2, not_le.mp hLimit⟩

/- A pass that begins changes nothing but its own number. -/
theorem GateInvariant.begin_pass
    (hInv : GateInvariant g names st) :
    GateInvariant g names { st with passes := st.passes + 1 } :=
  ⟨hInv.names, hInv.reads, hInv.few, hInv.once, hInv.done,
    hInv.never, hInv.target⟩

/- The limits on reads, after a target is handled. -/
structure ReadOnce
    (g : Gate ρ ε) (st : GateState ρ) :
    Prop where
  few : st.asked.length ≤ maxRereadsPerCycle
  once : st.asked.Nodup
  never : g.mode = .never → st.asked = []

theorem GateInvariant.readOnce
    (hInv : GateInvariant g names st) :
    ReadOnce g st :=
  ⟨hInv.few, hInv.once, hInv.never⟩

theorem GateInvariant.handled
    {again : Measurement ρ} (hInv : GateInvariant g names st)
    (hAsked : h.asked = true → target ∉ st.done ∧
      g.mode ≠ .never ∧ st.reads < maxRereadsPerCycle)
    (hTarget : ∀ name e, gatedTarget again.decision = some name →
      (Gate.handled st target h).probe name = some e →
        e.2.reading ≠ .failed) :
    GateInvariant g names { Gate.handled st target h with m := again } := by
  have hDone : st.done ⊆ (Gate.handled st target h).done :=
    fun name hIn => mem_done_handled.mpr (Or.inl hIn)
  have hSelf : target ∈ (Gate.handled st target h).done :=
    mem_done_handled.mpr (Or.inr rfl)
  have hNames : (Gate.handled st target h).probes.map Prod.fst = names :=
    (map_fst_updateFirst target h.probe st.probes).trans hInv.names
  cases hRead : h.asked with
  | false =>
    have hReads : (Gate.handled st target h).reads = st.reads := by
      unfold Gate.handled
      rw [hRead]
      rfl
    have hSame : (Gate.handled st target h).asked = st.asked := by
      unfold Gate.handled
      rw [hRead]
      rfl
    constructor
    case names => exact hNames
    case reads =>
      dsimp only
      rw [hReads, hSame, hInv.reads]
    case few =>
      dsimp only
      rw [hSame]
      exact hInv.few
    case once =>
      dsimp only
      rw [hSame]
      exact hInv.once
    case done =>
      dsimp only
      rw [hSame]
      exact fun name hIn => hDone (hInv.done hIn)
    case never =>
      dsimp only
      rw [hSame]
      exact hInv.never
    case target => exact fun _ => hTarget
  | true =>
    obtain ⟨hNew, hMode, hFew⟩ := hAsked hRead
    have hReads : (Gate.handled st target h).reads = st.reads + 1 := by
      unfold Gate.handled
      rw [hRead]
      rfl
    have hMore : (Gate.handled st target h).asked = st.asked ++ [target] := by
      unfold Gate.handled
      rw [hRead]
      rfl
    constructor
    case names => exact hNames
    case reads =>
      dsimp only
      rw [hReads, hMore, List.length_append, hInv.reads]
      rfl
    case few =>
      dsimp only
      rw [hMore, List.length_append, ← hInv.reads]
      exact hFew
    case once =>
      dsimp only
      rw [hMore, List.nodup_append]
      refine ⟨hInv.once, List.nodup_singleton _, ?_⟩
      rintro name hIn other hOther rfl
      rw [List.mem_singleton.mp hOther] at hIn
      exact hNew (hInv.done hIn)
    case done =>
      dsimp only
      rw [hMore]
      intro name hIn
      rcases List.mem_append.mp hIn with hOld | hLast
      · exact hDone (hInv.done hOld)
      · rw [List.mem_singleton.mp hLast]
        exact hSelf
    case never => exact fun hNever => absurd hNever hMode
    case target => exact fun _ => hTarget

-- The End Of The Loop

/- The target that is returned was not stale when checked. -/
def FreshAtEnd
    (g : Gate ρ ε) (live : Gate.Live)
    (out : GateState ρ × Except (GateError ε) (Measurement ρ)) :
    Prop :=
  ∀ m target e, out.2 = .ok m →
    gatedTarget m.decision = some target →
      out.1.probe target = some e →
        stale (readAt e.2 m.measuredAt) live.readAt
          (live.dampedAt target)
          (g.moments (out.1.passes - 1)).now = false

structure Ended
    (g : Gate ρ ε) (live : Gate.Live) (names : List ProfileName) (most : ℕ)
    (out : GateState ρ × Except (GateError ε) (Measurement ρ)) :
    Prop where
  names : out.1.probes.map Prod.fst = names
  passes : out.1.passes ≤ most
  settled : out.2 ≠ .error .unsettled
  reads : ReadOnce g out.1
  fresh : FreshAtEnd g live out

variable {live : Gate.Live} {most : ℕ}

theorem ended_of_ok
    {m : Measurement ρ} (hInv : GateInvariant g names st)
    (hMost : st.passes + 1 ≤ most)
    (hFresh : ∀ target e, gatedTarget m.decision = some target →
      st.probe target = some e →
        stale (readAt e.2 m.measuredAt) live.readAt
          (live.dampedAt target) (g.moments st.passes).now = false) :
    Ended g live names most
      ({ st with passes := st.passes + 1 }, .ok m) where
  names := hInv.names
  passes := hMost
  settled := by
    intro hSame
    cases hSame
  reads := hInv.begin_pass.readOnce
  fresh := by
    intro other target e hSame hTarget hProbe
    cases hSame
    exact hFresh target e hTarget hProbe

theorem ended_of_other
    {e : ε} (hNames : st.probes.map Prod.fst = names)
    (hReads : ReadOnce g st) (hMost : st.passes ≤ most) :
    Ended g live names most (st, .error (.other e)) where
  names := hNames
  passes := hMost
  settled := by
    intro hSame
    cases hSame
  reads := hReads
  fresh := by
    intro m target p hSame
    cases hSame

/- A stale target has a credit left. -/
theorem credit_pos_of_target
    (hInv : GateInvariant g names st)
    (hTarget : gatedTarget st.m.decision = some target)
    (hProbe : st.probe target = some e) :
    0 < (names.map (credit st)).sum := by
  have hIn := mem_names_of_probe hInv.names hProbe
  have hOne : 0 < credit st target := by
    unfold credit
    rw [hProbe]
    dsimp only
    by_cases hDone : target ∈ st.done
    · have hRead := hInv.target (List.ne_nil_of_mem hDone)
        target e hTarget hProbe
      rw [if_pos (List.contains_iff_mem.mpr hDone),
        Reading.isFailed_eq_false_iff.mpr hRead]
      exact Nat.zero_lt_one
    · rw [if_neg (mt List.contains_iff_mem.mp hDone)]
      exact Nat.two_pos
  exact hOne.trans_le (List.le_sum_of_mem (List.mem_map_of_mem hIn))

/- No target, none among the probes, or one that is fresh. -/
def Settles
    (g : Gate ρ ε) (live : Gate.Live) (st : GateState ρ) :
    Prop :=
  ∀ target e, gatedTarget st.m.decision = some target →
    st.probe target = some e →
      Gate.staleAt live st (g.moments st.passes) target e.2 = false

theorem loop_of_settles
    {left : ℕ} (hSettles : Settles g live st) :
    g.loop live left st =
      ({ st with passes := st.passes + 1 }, .ok st.finish) := by
  unfold Gate.loop
  dsimp only
  split
  next => rfl
  next target hTarget =>
    split
    next => rfl
    next name old hProbe =>
      have hFresh := hSettles target (name, old) hTarget hProbe
      rw [if_pos]
      · rfl
      · rw [Bool.not_eq_true']
        exact hFresh

/- The state in which a pass looks at its target. -/
def begun (st : GateState ρ) : GateState ρ :=
  { st with passes := st.passes + 1 }

section Stale

variable {live : Gate.Live}
variable {left : ℕ}
variable {e : ProfileName × Probed}

/- A stop ends the loop; the decision is then to stay. -/
theorem loop_of_stop
    (hTarget : gatedTarget st.m.decision = some target)
    (hProbe : (begun st).probe target = some e)
    (hStale : Gate.staleAt live (begun st) (g.moments st.passes)
      target e.2 = true)
    (hHandle : g.handle (begun st) (g.moments st.passes) target
      e.2 (live.dampedAt target).isSome = none) :
    g.loop live (left + 1) st =
      (begun st, .ok { st.finish with decision := .stay }) := by
  unfold begun at *
  unfold Gate.loop
  dsimp only
  rw [hTarget]
  dsimp only
  rw [hProbe]
  dsimp only
  rw [hStale, if_neg (by simp), hHandle]
  rfl

theorem loop_of_error
    {err : ε} (hTarget : gatedTarget st.m.decision = some target)
    (hProbe : (begun st).probe target = some e)
    (hStale : Gate.staleAt live (begun st) (g.moments st.passes)
      target e.2 = true)
    (hHandle : g.handle (begun st) (g.moments st.passes) target
      e.2 (live.dampedAt target).isSome = some h)
    (hDecide : g.decide st.passes live.probe
      (Gate.handled (begun st) target h).probes st.m.measuredAt =
        .error err) :
    g.loop live (left + 1) st =
      (Gate.handled (begun st) target h, .error (.other err)) := by
  unfold begun at *
  unfold Gate.loop
  dsimp only
  rw [hTarget]
  dsimp only
  rw [hProbe]
  dsimp only
  rw [hStale, if_neg (by simp), hHandle]
  dsimp only
  rw [hDecide]

/- A stale target is handled, and the loop goes on. -/
theorem loop_of_again
    {again : Measurement ρ}
    (hTarget : gatedTarget st.m.decision = some target)
    (hProbe : (begun st).probe target = some e)
    (hStale : Gate.staleAt live (begun st) (g.moments st.passes)
      target e.2 = true)
    (hHandle : g.handle (begun st) (g.moments st.passes) target
      e.2 (live.dampedAt target).isSome = some h)
    (hDecide : g.decide st.passes live.probe
      (Gate.handled (begun st) target h).probes st.m.measuredAt = .ok again) :
    g.loop live (left + 1) st =
      g.loop live left
        { Gate.handled (begun st) target h with
          m := again } := by
  unfold begun at *
  conv_lhs => unfold Gate.loop
  dsimp only
  rw [hTarget]
  dsimp only
  rw [hProbe]
  dsimp only
  rw [hStale, if_neg (by simp), hHandle]
  dsimp only
  rw [hDecide]

end Stale

/- A pass ends the loop or uses up a credit. -/
theorem ended_loop
    (live : Gate.Live) (hDecide : NeverFailed g names)
    (left : ℕ) (hInv : GateInvariant g names st)
    (hCredit : (names.map (credit st)).sum ≤ left) :
    Ended g live names (st.passes + left + 1) (g.loop live left st) := by
  induction left generalizing st with
  | zero =>
    have hSettles : Settles g live st := by
      intro target e hTarget hProbe
      have hLeft := credit_pos_of_target hInv hTarget hProbe
      omega
    rw [loop_of_settles hSettles]
    exact ended_of_ok hInv (le_refl _) hSettles
  | succ left ih =>
    by_cases hSettles : Settles g live st
    · rw [loop_of_settles hSettles]
      exact ended_of_ok hInv (by omega) hSettles
    unfold Settles at hSettles
    push Not at hSettles
    obtain ⟨target, e, hTarget, hProbe, hNot⟩ := hSettles
    have hStale : Gate.staleAt live (begun st)
        (g.moments st.passes) target e.2 = true := Bool.not_eq_false _ ▸ hNot
    have hBegun : GateInvariant g names (begun st) := hInv.begin_pass
    cases hHandle : g.handle (begun st) (g.moments st.passes)
        target e.2 (live.dampedAt target).isSome with
    | none =>
      rw [loop_of_stop hTarget hProbe hStale hHandle]
      refine ended_of_ok hInv (by omega) ?_
      intro other p hStay
      cases hStay
    | some h =>
      obtain ⟨hAsked, hFailed⟩ := handle_eq_some hHandle
      cases hAgain : g.decide st.passes live.probe
          (Gate.handled (begun st) target h).probes
          st.m.measuredAt with
      | error err =>
        have hNext : GateInvariant g names
            { Gate.handled (begun st) target h with
              m := { st.m with decision := .stay } } := by
          apply hBegun.handled hAsked
          intro other p hStay
          cases hStay
        have hReads : ReadOnce g (Gate.handled (begun st) target h) :=
          ⟨hNext.few, hNext.once, hNext.never⟩
        have hPasses :
            (Gate.handled (begun st) target h).passes = st.passes + 1 := rfl
        rw [loop_of_error hTarget hProbe hStale hHandle hAgain]
        exact ended_of_other hNext.names hReads (by omega)
      | ok again =>
        have hIn := mem_names_of_probe hBegun.names hProbe
        have hLess : (names.map (credit
            (Gate.handled (begun st) target h))).sum <
              (names.map (credit (begun st))).sum := by
          refine sum_credit_handled_lt hIn hProbe ?_ hFailed
          exact fun hDone => hBegun.target
            (List.ne_nil_of_mem hDone) target e hTarget hProbe
        have hNext : GateInvariant g names
            { Gate.handled (begun st) target h with
              m := again } := by
          apply hBegun.handled hAsked
          refine hDecide _ _ _ _ _ ?_ hAgain
          exact (map_fst_updateFirst target h.probe
            (begun st).probes).trans hBegun.names
        have hRest := ih hNext (Nat.le_of_lt_succ (hLess.trans_le hCredit))
        have hPasses : st.passes + (left + 1) + 1 =
            st.passes + 1 + left + 1 := by omega
        rw [loop_of_again hTarget hProbe hStale hHandle hAgain, hPasses]
        exact hRest

-- The Gate Settles

def Measurement.probedNames (m : Measurement ρ) : List ProfileName :=
  match m.probed with
  | some (_, probes) => probes.map Prod.fst
  | none => []

/-
  How the gate ends on `m`: the passes, the reads, and that
  the target it returns was fresh at the last check.
-/
structure Settled
    (g : Gate ρ ε) (m : Measurement ρ)
    (out : GateState ρ × Except (GateError ε) (Measurement ρ)) :
    Prop where
  passes : out.1.passes ≤ 2 * m.probedNames.length + 1
  settled : out.2 ≠ .error .unsettled
  few : out.1.asked.length ≤ maxRereadsPerCycle
  once : out.1.asked.Nodup
  never : g.mode = .never → out.1.asked = []
  fresh : ∀ result target, out.2 = .ok result →
    gatedTarget result.decision = some target →
      target ∈ m.probedNames →
        ∃ live others ledger e read_, m.probed = some (live, others) ∧
          g.ledger = .ok ledger ∧
          out.1.probe target = some e ∧
          readAt e.2 result.measuredAt = some read_ ∧
          saturatingSub (g.moments (out.1.passes - 1)).now
            read_ ≤ maxReadingAgeSecs ∧
          (∀ t ∈ readAt live m.measuredAt, t ≤ read_) ∧
          ∀ t ∈ (Gate.live m live ledger).dampedAt target, t < read_

theorem stale_eq_false_iff
    {readAt liveReadAt dampedAt : Option ℤ} {now : ℤ} :
    stale readAt liveReadAt dampedAt now = false ↔
      ∃ t, readAt = some t ∧
        saturatingSub now t ≤ maxReadingAgeSecs ∧
        (∀ live ∈ liveReadAt, live ≤ t) ∧ ∀ d ∈ dampedAt, d < t := by
  cases readAt with
  | none =>
    refine iff_of_false Bool.true_eq_false.mp ?_
    rintro ⟨t, hNone, -⟩
    cases hNone
  | some t =>
    cases liveReadAt <;> cases dampedAt <;>
      simp [stale, and_assoc]

theorem invariant_begin
    (g : Gate ρ ε) (m : Measurement ρ)
    (probes : List (ProfileName × Probed)) :
    GateInvariant g (probes.map Prod.fst)
      (Gate.begin_ m probes) where
  names := rfl
  reads := rfl
  few := Nat.zero_le _
  once := List.nodup_nil
  done := List.Subset.refl _
  never := fun _ => rfl
  target := fun hSome => absurd rfl hSome

theorem sum_credit_begin
    (m : Measurement ρ) (probes : List (ProfileName × Probed))
    (names : List ProfileName) :
    (names.map (credit (Gate.begin_ m probes))).sum = 2 * names.length := by
  have hTwo : credit (Gate.begin_ m probes) = fun _ => 2 := rfl
  rw [hTwo, List.map_const', List.sum_replicate_nat, mul_comm]

theorem exists_probe
    (hNames : st.probes.map Prod.fst = names) (hIn : target ∈ names) :
    ∃ e, st.probe target = some e := by
  rw [← hNames, List.mem_map] at hIn
  obtain ⟨e, hE, rfl⟩ := hIn
  apply Option.isSome_iff_exists.mp
  unfold GateState.probe
  rw [List.find?_isSome]
  exact ⟨e, hE, BEq.rfl⟩

/-
  Whatever the passes meet, the gate ends in time, within its
  reads, and with a target that is fresh.
-/
theorem settle_settles
    (g : Gate ρ ε) (m : Measurement ρ)
    (hDecide : NeverFailed g m.probedNames) :
    Settled g m (g.settle m) := by
  unfold Gate.settle
  split
  next hNone =>
    refine ⟨Nat.zero_le _, ?_, Nat.zero_le _, List.nodup_nil,
      fun _ => rfl, ?_⟩
    · intro hSame
      cases hSame
    · intro result target hSame hTarget
      cases hSame
      rw [hNone] at hTarget
      cases hTarget
  next first hFirst =>
    split
    next hProbed =>
      refine ⟨Nat.zero_le _, ?_, Nat.zero_le _, List.nodup_nil,
        fun _ => rfl, ?_⟩
      · intro hSame
        cases hSame
      · intro result target hSame hTarget hIn
        unfold Measurement.probedNames at hIn
        rw [hProbed] at hIn
        cases hIn
    next live others hProbed =>
      have hNames : m.probedNames = others.map Prod.fst := by
        unfold Measurement.probedNames
        rw [hProbed]
      split
      next e hLedger =>
        refine ⟨Nat.zero_le _, ?_, Nat.zero_le _, List.nodup_nil,
          fun _ => rfl, ?_⟩
        · intro hSame
          cases hSame
        · intro result target hSame
          cases hSame
      next ledger hLedger =>
        rw [hNames] at hDecide
        have hEnded := ended_loop (Gate.live m live ledger)
          hDecide (2 * others.length)
          (invariant_begin g m others) (by
            rw [sum_credit_begin, List.length_map])
        have hStart : (Gate.begin_ m others).passes = 0 := rfl
        refine ⟨?_, hEnded.settled, hEnded.reads.few,
          hEnded.reads.once, hEnded.reads.never, ?_⟩
        · have hPasses := hEnded.passes
          rw [hNames, List.length_map]
          omega
        · intro result target hSame hTarget hIn
          rw [hNames] at hIn
          obtain ⟨e, hProbe⟩ := exists_probe hEnded.names hIn
          have hFresh := hEnded.fresh result target e hSame hTarget hProbe
          obtain ⟨t, hRead, hAge, hLive, hDamped⟩ :=
            stale_eq_false_iff.mp hFresh
          exact ⟨live, others, ledger, e, t, hProbed, hLedger,
            hProbe, hRead, hAge, hLive, hDamped⟩

-- The Decision Rule

theorem eq_swap_of_gatedTarget
    {d : Decision} (hTarget : gatedTarget d = some target) :
    ∃ reason, d = .swap target reason := by
  cases d with
  | stay | alert => cases hTarget
  | swap to_ reason =>
    cases reason with
    | overflowIn => cases hTarget
    | _ =>
      cases hTarget
      exact ⟨_, rfl⟩

/- The rule never chooses a login whose probe failed. -/
theorem decide_not_failed
    {s : Settings} {live : Reading} {probes : List (ProfileName × Probed)}
    {swappedAt : Option ℤ} {now : ℤ} (hNodup : (probes.map Prod.fst).Nodup)
    (hTarget : gatedTarget (Rotate.decide s live
      (probes.map fun p => Measured.new p.1 p.2) swappedAt now) = some target)
    (hProbe : probes.find? (fun e => e.1 == target) = some e) :
    e.2.reading ≠ .failed := by
  obtain ⟨reason, hSwap⟩ := eq_swap_of_gatedTarget hTarget
  obtain ⟨room, hBest, -⟩ := decide_eq_swap_iff.mp hSwap
  obtain ⟨c, hC, hName, hRoom⟩ := best_mem hBest
  obtain ⟨p, hP, rfl⟩ := List.mem_map.mp hC
  have hIs : e.1 = target := by simpa using List.find?_some hProbe
  have hKey : e.1 = p.1 := hIs.trans hName.symm
  have hSame := List.inj_on_of_nodup_map hNodup
    (List.mem_of_find?_eq_some hProbe) hP hKey
  rw [hSame]
  intro hFailed
  have hNone : p.2.reading.headroom = none := by
    rw [hFailed]
    rfl
  exact absurd (hNone.symm.trans hRoom) (by simp)

theorem spare_valid : validLiveName "spare" = true := by decide

def spare : ProfileName := ⟨"spare", spare_valid⟩

def seen (used : Float) (observedAt : Option ℤ) : Probed where
  reading := .measured used used
  windows :=
    { session := none
      week := none
      noSessionLimit := false }
  spendLimit := false
  unknown := false
  stillRunning := false
  observedAt := observedAt
  carried := false

/- The live login is full; the spare's reading is old. -/
def oldSpare : Measurement Unit where
  decision := .swap spare .threshold
  measuredAt := 1000
  probed := some (seen 90 none, [(spare, seen 10 (some 0))])
  freshLines := []
  rest := ()

/- A gate that decides by the rule and may read again. -/
def ruleGate : Gate Unit Unit where
  settings := Settings.default
  mode := .allowed
  canReread := true
  ledger := .ok none
  moments := fun _ =>
    { now := 1010
      stopping := false
      left := 120
      reread := seen 20 none
      finished := 1012 }
  decide := fun _ live probes measuredAt => .ok
    { decision := Rotate.decide Settings.default live.reading
        (probes.map fun p => Measured.new p.1 p.2) none
        measuredAt
      measuredAt := measuredAt
      probed := some (live, probes)
      freshLines := []
      rest := () }

theorem settle_settles_of_oldSpare :
    Settled ruleGate oldSpare (ruleGate.settle oldSpare) := by
  apply settle_settles
  intro pass live probes measuredAt m hNames hDecide target e hTarget hProbe
  cases hDecide
  refine decide_not_failed ?_ hTarget hProbe
  rw [hNames]
  decide

end Fresh

end Rotate
