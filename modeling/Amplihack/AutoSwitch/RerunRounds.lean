import Amplihack.AutoSwitch.Rerun

/-
  What one round of the supervisor can do.
-/

-- The wait

namespace AutoSwitch

open Base Profile

/- The step was told to stop in this round. -/
def Rerun.Told (r : Rerun.Round) (sig : ℕ) : Prop :=
  r.stop = some sig ∨ r.wait.signal = some sig ∨ r.wait.ending = .signal sig

/- A wait is only ever started by a step that did not wait. -/
theorem afterLimit_cases
    (w : Waiter) (inherited : WaitFor) (a : WaitAnswers) :
    (∃ code, (afterLimit w inherited a).1 = .finish code ∧
      ∀ c, code = some c → ∃ sig : ℕ, c = 128 + sig ∧
        (a.signal = some sig ∨ a.ending = .signal sig)) ∧
      ((afterLimit w inherited a).2 = w ∨
        (w.used = false ∧ (afterLimit w inherited a).2.used = true)) ∨
    (afterLimit w inherited a).1 = .retry ∧
      w.used = false ∧
      (afterLimit w inherited a).2.used = true := by
  have hEnd : (∃ code, afterEnd a.ending = .finish code ∧
      ∀ c, code = some c → ∃ sig : ℕ, c = 128 + sig ∧
        (a.signal = some sig ∨ a.ending = .signal sig)) ∨
      afterEnd a.ending = .retry := by
    cases hEnding : a.ending with
    | signal sig =>
      exact Or.inl ⟨_, rfl, fun c hc =>
        ⟨sig, (Option.some.inj hc).symm, Or.inr rfl⟩⟩
    | sessionEnded => exact Or.inl ⟨none, rfl, by simp⟩
    | stepTimeout => exact Or.inl ⟨none, rfl, by simp⟩
    | capacityExpired => exact Or.inl ⟨none, rfl, by simp⟩
    | resetReached => exact Or.inr rfl
    | maxReached => exact Or.inr rfl
    | loginChanged => exact Or.inr rfl
    | rotatorCapacity => exact Or.inr rfl
    | otherCapacity => exact Or.inr rfl
  rw [afterLimit]
  cases w.enabled with
  | none => exact Or.inl ⟨⟨none, rfl, by simp⟩, Or.inl rfl⟩
  | some enabled =>
    cases hSignal : a.signal with
    | some sig =>
      exact Or.inl ⟨⟨_, rfl, fun c hc =>
        ⟨sig, (Option.some.inj hc).symm, Or.inl rfl⟩⟩, Or.inl rfl⟩
    | none =>
      simp only
      split
      · exact Or.inl ⟨⟨none, rfl, by simp⟩, Or.inl rfl⟩
      · next hMay =>
          have hUnused : w.used = false := by
            simp only [Bool.or_eq_true, not_or] at hMay
            simpa using hMay.2
          rw [hSignal] at hEnd
          split
          · exact Or.inl ⟨⟨none, rfl, by simp⟩, Or.inl rfl⟩
          · rcases hEnd with hFinish | hRetry
            · exact Or.inl ⟨hFinish, Or.inr ⟨hUnused, rfl⟩⟩
            · exact Or.inr ⟨hRetry, hUnused, rfl⟩
          · rcases hEnd with hFinish | hRetry
            · exact Or.inl ⟨hFinish, Or.inr ⟨hUnused, rfl⟩⟩
            · exact Or.inr ⟨hRetry, hUnused, rfl⟩

namespace Rerun

variable {setup : Setup}
variable {l m : Loop}
variable {r : Round}
variable {a : Attempt}

-- After an attempt

/- The loop later in a round, with its attempt made. -/
structure During (l m : Loop) (a : Attempt) : Prop where
  made : m.made = (l.record (some a)).made
  waiter : m.waiter = l.waiter
  waits : m.waits = l.waits
  profile : m.profile = l.profile
  capacity : m.inheritedHasCapacity = true → l.inheritedHasCapacity = true

/- What the supervisor passes up of an attempt. -/
structure PassedUp (r : Round) (a : Attempt) (e : Ended) :
    Prop where
  result : ∃ code, e = .finished a.stdout code ∧
    (code = a.code ∨ ∃ sig : ℕ, Told r sig ∧ code = 128 + sig)

/- All that a round whose attempt was limited can do. -/
inductive After
    (setup : Setup) (l : Loop) (r : Round) (a : Attempt) :
    State → Prop
| finished (m : Loop) (e : Ended)
    (made : m.made = (l.record (some a)).made)
    (waits : m.waits = l.waits ∨
      (l.waiter.used = false ∧ m.waits = l.waits + 1))
    (result : PassedUp r a e) :
    After setup l r a (.ended m e)
| candidate (m : Loop) (i p : ProfileName)
    (switch : setup.switch = some i)
    (unused : l.waiter.used = false)
    (pick : r.pick = some p)
    (during : During l { m with profile := l.profile } a)
    (tried : m.tried = l.tried ++ [l.profile.getD i])
    (profile : m.profile = if p = i then none else some p)
    (why : m.why = .candidate)
    (capacity : m.inheritedHasCapacity = l.inheritedHasCapacity) :
    After setup l r a (.running m)
| back (m : Loop) (i : ProfileName)
    (switch : setup.switch = some i)
    (had : l.inheritedHasCapacity = true)
    (away : l.profile.isSome = true)
    (none_left : nextProfile l r = none)
    (during : During l { m with profile := l.profile } a)
    (tried : m.tried = l.tried ++ [l.profile.getD i])
    (profile : m.profile = none)
    (why : m.why = .back)
    (capacity : m.inheritedHasCapacity = false) :
    After setup l r a (.running m)
| retry (m : Loop)
    (unused : l.waiter.used = false)
    (used : m.waiter.used = true)
    (made : m.made = (l.record (some a)).made)
    (waits : m.waits = l.waits + 1)
    (profile : ∀ p, m.profile = some p →
      setup.switch.isSome = true ∧ r.capacityPick = some p)
    (why : m.why = .retry)
    (capacity : m.inheritedHasCapacity = true →
      l.inheritedHasCapacity = true) :
    After setup l r a (.running m)

theorem passedUp_code :
    PassedUp r a (.finished a.stdout a.code) :=
  ⟨a.code, rfl, Or.inl rfl⟩

theorem passedUp_stop
    {sig : ℕ} (hTold : Told r sig) :
    PassedUp r a (.finished a.stdout (128 + sig)) :=
  ⟨128 + sig, rfl, Or.inr ⟨sig, hTold, rfl⟩⟩

theorem waitOrFinish_after
    (hDuring : During l m a) :
    After setup l r a (waitOrFinish setup m a r) := by
  rw [waitOrFinish]
  split
  · exact .finished m _ hDuring.made (Or.inl hDuring.waits) passedUp_code
  · next wait _ =>
      have hCases := afterLimit_cases m.waiter wait r.wait
      generalize afterLimit m.waiter wait r.wait = result
        at hCases
      rcases result with ⟨what, waiter⟩
      simp only at hCases ⊢
      rcases hCases with ⟨⟨code, rfl, hCode⟩, hUsed⟩ | ⟨rfl, hUnused, hUsed⟩
      · refine .finished _ _ hDuring.made ?_ ?_
        · rcases hUsed with rfl | ⟨hUnused, hUsed⟩
          · refine Or.inl ?_
            simp only [Bool.and_not_self, Bool.false_eq_true, if_false]
            exact hDuring.waits
          · refine Or.inr ⟨?_, ?_⟩
            · rw [← hDuring.waiter]
              exact hUnused
            · simp only [hUsed, hUnused, Bool.not_false,
                Bool.and_self, if_true, hDuring.waits]
        · cases code with
          | none => exact passedUp_code
          | some c =>
            rcases hCode c rfl with ⟨sig, rfl, hTold⟩
            exact passedUp_stop (Or.inr hTold)
      · refine .retry _ ?_ hUsed hDuring.made ?_ ?_ rfl hDuring.capacity
        · rw [← hDuring.waiter]
          exact hUnused
        · simp only [hUsed, hUnused, Bool.not_false,
            Bool.and_self, if_true, hDuring.waits]
        · intro p hProfile
          simp only [retryProfile] at hProfile
          split at hProfile
          · next hSwitch _ => exact ⟨by simp [hSwitch], hProfile⟩
          · cases hProfile

theorem During.dropCapacity
    (hDuring : During l m a) :
    During l { m with inheritedHasCapacity := false } a where
  made := hDuring.made
  waiter := hDuring.waiter
  waits := hDuring.waits
  profile := hDuring.profile
  capacity := by
    intro hTrue
    cases hTrue

theorem backOrWait_after
    {i : ProfileName} (hSwitch : setup.switch = some i)
    (hTried : m.tried = l.tried ++ [l.profile.getD i])
    (hDuring : During l m a)
    (hNone : setup.pipedPrompt = false → nextProfile l r = none) :
    After setup l r a (backOrWait setup m a r) := by
  rw [backOrWait]
  split
  · next hBack =>
      rw [Bool.and_eq_true] at hBack
      simp only
      split
      · exact waitOrFinish_after hDuring.dropCapacity
      · next hPipe =>
          split
          · next sig hStop =>
              exact .finished _ _ hDuring.made
                (Or.inl hDuring.waits)
                (passedUp_stop (Or.inl hStop))
          · refine .back _ i hSwitch
              (hDuring.capacity hBack.1) ?_
              (hNone (by simpa using hPipe)) ?_ hTried rfl rfl
              rfl
            · rw [← hDuring.profile]
              exact hBack.2
            · exact
                { made := hDuring.made
                  waiter := hDuring.waiter
                  waits := hDuring.waits
                  profile := rfl
                  capacity := by
                    intro hTrue
                    cases hTrue }
  · exact waitOrFinish_after hDuring

theorem switchOrWait_after
    {i : ProfileName} (hSwitch : setup.switch = some i)
    (hTried : m.tried = l.tried) (hDuring : During l m a)
    (hCapacity : m.inheritedHasCapacity = l.inheritedHasCapacity) :
    After setup l r a (switchOrWait setup i m a r) := by
  have hNow : During l { m with tried := m.tried ++ [m.profile.getD i] } a :=
    { made := hDuring.made
      waiter := hDuring.waiter
      waits := hDuring.waits
      profile := hDuring.profile
      capacity := hDuring.capacity }
  have hTriedNow : m.tried ++ [m.profile.getD i] =
      l.tried ++ [l.profile.getD i] := by rw [hTried, hDuring.profile]
  have hNext : nextProfile
      { m with tried := m.tried ++ [m.profile.getD i] } r =
        nextProfile l r := by rw [nextProfile, nextProfile, hDuring.waiter]
  rw [switchOrWait]
  simp only [hNext]
  split
  · next hNone =>
      exact backOrWait_after hSwitch hTriedNow hNow fun _ => hNone
  · next p hSome =>
      split
      · next hPipe =>
          refine backOrWait_after hSwitch hTriedNow hNow ?_
          intro hNot
          rw [hPipe] at hNot
          cases hNot
      · split
        · next sig hStop =>
            exact .finished _ _ hDuring.made
              (Or.inl hDuring.waits)
              (passedUp_stop (Or.inl hStop))
        · rw [nextProfile] at hSome
          split at hSome
          · next hMay =>
              simp only [Bool.and_eq_true, Bool.not_eq_true'] at hMay
              exact .candidate _ i p hSwitch hMay.2 hSome
                { made := hDuring.made
                  waiter := hDuring.waiter
                  waits := hDuring.waits
                  profile := rfl
                  capacity := hDuring.capacity }
                hTriedNow rfl rfl hCapacity
          · cases hSome

theorem afterLimited_after
    (limited : Limited) :
    After setup l r a
      (afterLimited setup (l.record (some a)) a limited r) := by
  have hDuring : ∀ w, During l
      (if (l.record (some a)).profile = none then
        { l.record (some a) with inheritedWait := w }
      else l.record (some a)) a := by
    intro w
    split
    · exact ⟨rfl, rfl, rfl, rfl, id⟩
    · exact ⟨rfl, rfl, rfl, rfl, id⟩
  rw [afterLimited]
  rcases hSwitch : setup.switch with _ | i
  · exact waitOrFinish_after (hDuring _)
  · refine switchOrWait_after hSwitch ?_ (hDuring _) ?_
    · split
      · rfl
      · rfl
    · split
      · rfl
      · rfl

/- A round ends the run, or goes on in one of three ways. -/
theorem round_cases (setup : Setup) (l : Loop) (r : Round) :
    (∃ e, (e = .unsupervised ∨ e = .failed) ∧
      round setup l r = .ended (l.record none) e) ∨
    ∃ a, After setup l r a (round setup l r) := by
  rw [round]
  split
  · refine Or.inl ?_
    split
    · exact ⟨_, Or.inl rfl, rfl⟩
    · exact ⟨_, Or.inr rfl, rfl⟩
  · next a _ =>
      exact Or.inr ⟨a, .finished _ _ rfl (Or.inl rfl) passedUp_code⟩
  · next a limited _ =>
      exact Or.inr ⟨a, afterLimited_after limited⟩

end Rerun

end AutoSwitch
