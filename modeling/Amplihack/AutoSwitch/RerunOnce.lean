import Amplihack.AutoSwitch.RerunRounds
import Amplihack.Base.Runs
import Mathlib.Data.Finset.Card

/-
  The supervisor ends, waits at most once, and runs a profile
  again only after the wait.
-/

-- The Invariant

namespace AutoSwitch

namespace Rerun

open Base Profile

/- The profiles of the attempts made and of the next one. -/
def Loop.envs (l : Loop) : List (Option ProfileName) :=
  l.made.map (·.profile) ++ [l.profile]

def Loop.afterWait (l : Loop) : List Why :=
  (l.made.filter (·.waited)).map (·.why)

def asOne (b : Bool) : ℕ :=
  if b then 1 else 0

structure Invariant (setup : Setup) (l : Loop) : Prop where
  tried : ∀ i, setup.switch = some i →
    l.waiter.used = false →
    l.tried = l.made.map (·.profile.getD i)
  listed : ∀ e ∈ l.envs, e ∈ none :: setup.profiles.map some
  others : ∀ i, setup.switch = some i → some i ∉ l.envs
  /- Only the way back runs a profile again before a wait. -/
  count : l.envs.length + asOne l.inheritedHasCapacity ≤
    l.envs.toFinset.card + 1 + asOne l.waiter.used
  waits : l.waits = asOne l.waiter.used
  before : l.waiter.used = false → l.afterWait = []
  after : l.waiter.used = true →
    (l.afterWait = [] ∧ l.why = .retry) ∨
    (l.afterWait = [.retry] ∧ l.why = .back ∧
      l.inheritedHasCapacity = false)
  backs : ∀ m ∈ l.made, m.why = .back → m.profile = none
  back : l.why = .back → l.profile = none

section Steps

variable {setup : Setup}
variable {l m : Loop}
variable {r : Round}
variable {a : Attempt}

theorem invariant_first
    (hMade : l.made = []) (hTried : l.tried = [])
    (hUsed : l.waiter.used = false) (hWaits : l.waits = 0)
    (hWhy : l.why = .first)
    (hListed : l.profile ∈ none :: setup.profiles.map some)
    (hOther : ∀ i, setup.switch = some i → l.profile ≠ some i) :
    Invariant setup l where
  tried := by
    intro i _ _
    rw [hTried, hMade]
    rfl
  listed := by
    simpa [Loop.envs, hMade] using hListed
  others := by
    intro i hSwitch hMem
    simp only [Loop.envs, hMade, List.map_nil, List.nil_append,
      List.mem_singleton] at hMem
    exact hOther i hSwitch hMem.symm
  count := by
    have hOne : asOne l.inheritedHasCapacity ≤ 1 := by
      rw [asOne]
      split <;> omega
    simp only [Loop.envs, hMade, List.map_nil, List.nil_append,
      List.toFinset_cons, List.toFinset_nil, LawfulSingleton.insert_empty_eq,
      Finset.card_singleton, List.length_singleton]
    omega
  waits := by
    rw [hWaits, hUsed]
    rfl
  before := by
    intro _
    rw [Loop.afterWait, hMade]
    rfl
  after := by
    intro hTrue
    rw [hUsed] at hTrue
    cases hTrue
  backs := by
    intro x hx
    rw [hMade] at hx
    cases hx
  back := by
    intro hBack
    rw [hWhy] at hBack
    cases hBack

theorem invariant_start
    {b : Begin} (hOffered : b.Offered setup) :
    Invariant setup (start setup b) := by
  have hAway : ∀ p reset, b.substitute = some (p, reset) →
      some p ∈ none :: setup.profiles.map some ∧
      ∀ i, setup.switch = some i → some p ≠ some i := by
    intro p reset hSub
    have hPick := hOffered p reset hSub
    refine ⟨by simp [hPick.1], ?_⟩
    rintro i hSwitch hSame
    exact hPick.2 (hSwitch.trans hSame.symm)
  rw [start]
  split
  · next hSub =>
      have hPick := hAway _ _ hSub
      exact invariant_first rfl rfl rfl rfl rfl hPick.1 hPick.2
  · next hSub =>
      have hPick := hAway _ _ hSub
      exact invariant_first rfl rfl rfl rfl rfl hPick.1 hPick.2
  · exact invariant_first rfl rfl rfl rfl rfl (by simp [firstLoop])
      (by simp [firstLoop])

theorem envs_record
    (l : Loop) (attempt : Option Attempt) :
    (l.record attempt).made.map (·.profile) = l.envs := by
  simp [Loop.record, Loop.envs]

theorem afterWait_record
    (l : Loop) (attempt : Option Attempt) :
    (l.record attempt).afterWait =
      l.afterWait ++ if l.waiter.used then [l.why] else [] := by
  cases hUsed : l.waiter.used with
  | false => simp [Loop.record, Loop.afterWait, hUsed]
  | true => simp [Loop.record, Loop.afterWait, hUsed]

theorem envs_of_made
    (hMade : m.made = (l.record (some a)).made) :
    m.envs = l.envs ++ [m.profile] := by
  rw [Loop.envs, hMade, envs_record]

theorem afterWait_of_made
    (hMade : m.made = (l.record (some a)).made) :
    m.afterWait =
      l.afterWait ++ if l.waiter.used then [l.why] else [] := by
  rw [← afterWait_record l (some a), Loop.afterWait, hMade, Loop.afterWait]

theorem backs_of_made
    (hInv : Invariant setup l) (hMade : m.made = (l.record (some a)).made) :
    ∀ x ∈ m.made, x.why = .back → x.profile = none := by
  intro x hx hBack
  rw [hMade] at hx
  rcases List.mem_append.mp hx with hOld | hNew
  · exact hInv.backs x hOld hBack
  · rw [List.mem_singleton.mp hNew] at hBack ⊢
    exact hInv.back hBack

/- The profiles so far, and what the next one may be. -/
theorem listed_of_made
    (hInv : Invariant setup l) (hMade : m.made = (l.record (some a)).made)
    (hNew : m.profile ∈ none :: setup.profiles.map some) :
    ∀ e ∈ m.envs, e ∈ none :: setup.profiles.map some := by
  intro e he
  rw [envs_of_made hMade] at he
  rcases List.mem_append.mp he with hOld | hLast
  · exact hInv.listed e hOld
  · rw [List.mem_singleton.mp hLast]
    exact hNew

theorem others_of_made
    (hInv : Invariant setup l) (hMade : m.made = (l.record (some a)).made)
    (hNew : ∀ i, setup.switch = some i → m.profile ≠ some i) :
    ∀ i, setup.switch = some i → some i ∉ m.envs := by
  intro i hSwitch hMem
  rw [envs_of_made hMade] at hMem
  rcases List.mem_append.mp hMem with hOld | hLast
  · exact hInv.others i hSwitch hOld
  · exact hNew i hSwitch (List.mem_singleton.mp hLast).symm

theorem card_le_of_made
    (hMade : m.made = (l.record (some a)).made) :
    m.envs.length = l.envs.length + 1 ∧
      l.envs.toFinset.card ≤ m.envs.toFinset.card := by
  rw [envs_of_made hMade]
  refine ⟨by simp, Finset.card_le_card ?_⟩
  rw [List.toFinset_append]
  exact Finset.subset_union_left

theorem card_of_notMem
    (hMade : m.made = (l.record (some a)).made) (hNew : m.profile ∉ l.envs) :
    m.envs.toFinset.card = l.envs.toFinset.card + 1 := by
  rw [envs_of_made hMade, List.toFinset_append]
  exact Finset.card_union_of_disjoint (by simpa using hNew)

/- A candidate was not run before. -/
theorem candidate_notMem
    {i p : ProfileName} (hInv : Invariant setup l)
    (hSwitch : setup.switch = some i) (hUnused : l.waiter.used = false)
    (hPick : p ∉ l.tried ++ [l.profile.getD i]) :
    (if p = i then none else some p) ∉ l.envs := by
  have hNames : l.tried ++ [l.profile.getD i] =
      l.envs.map (·.getD i) := by
    rw [hInv.tried i hSwitch hUnused]
    simp [Loop.envs]
  rw [hNames] at hPick
  intro hMem
  refine hPick (List.mem_map.mpr ⟨_, hMem, ?_⟩)
  split
  · next hSame => exact hSame.symm
  · rfl

theorem tried_of_made
    {i : ProfileName} (hInv : Invariant setup l)
    (hSwitch : setup.switch = some i)
    (hMade : m.made = (l.record (some a)).made)
    (hTried : m.tried = l.tried ++ [l.profile.getD i])
    (hUsed : m.waiter.used = l.waiter.used) :
    ∀ j, setup.switch = some j → m.waiter.used = false →
      m.tried = m.made.map (·.profile.getD j) := by
  intro j hj hUnused
  rw [hSwitch] at hj
  rw [← Option.some.inj hj, hTried, hMade,
    hInv.tried i hSwitch (hUsed ▸ hUnused)]
  simp [Loop.record]

theorem After.invariant
    (hInv : Invariant setup l) (hOffered : Offered setup (.running l) r)
    (hAfter : After setup l r a (.running m)) :
    Invariant setup m := by
  cases hAfter with
  | candidate _ i p hSwitch hUnused hPick hDuring hTried
      hProfile hWhy hCapacity =>
      have hMade : m.made = (l.record (some a)).made := hDuring.made
      have hUsed : m.waiter.used = l.waiter.used :=
        congrArg Waiter.used hDuring.waiter
      have hPicked := hOffered.1 p hPick
      have hNew := candidate_notMem hInv hSwitch hUnused
        (hPicked.2 i hSwitch)
      rw [← hProfile] at hNew
      have hCard := card_of_notMem hMade hNew
      have hLength := (card_le_of_made hMade).1
      exact
        { tried :=
            tried_of_made hInv hSwitch hMade hTried hUsed
          listed := by
            refine listed_of_made hInv hMade ?_
            rw [hProfile]
            split
            · exact List.mem_cons_self
            · simp [hPicked.1]
          others := by
            refine others_of_made hInv hMade ?_
            intro j hj
            rw [hProfile]
            split
            · simp
            · next hOther =>
                rw [hSwitch] at hj
                rw [← Option.some.inj hj]
                simpa using hOther
          count := by
            rw [hLength, hCard, hCapacity, hUsed]
            have hCount := hInv.count
            omega
          waits := by
            rw [hUsed, ← hInv.waits]
            exact hDuring.waits
          before := by
            intro _
            rw [afterWait_of_made hMade, hUnused, hInv.before hUnused]
            rfl
          after := by
            intro hTrue
            rw [hUsed, hUnused] at hTrue
            cases hTrue
          backs := backs_of_made hInv hMade
          back := by
            intro hBack
            rw [hWhy] at hBack
            cases hBack }
  | back _ i hSwitch hHad hAway hNone hDuring hTried hProfile
      hWhy hCapacity =>
      have hMade : m.made = (l.record (some a)).made := hDuring.made
      have hUsed : m.waiter.used = l.waiter.used :=
        congrArg Waiter.used hDuring.waiter
      have hCard := card_le_of_made hMade
      exact
        { tried :=
            tried_of_made hInv hSwitch hMade hTried hUsed
          listed := by
            refine listed_of_made hInv hMade ?_
            rw [hProfile]
            exact List.mem_cons_self
          others := by
            refine others_of_made hInv hMade ?_
            intro j _
            rw [hProfile]
            exact Option.some_ne_none j |>.symm
          count := by
            have hCount := hInv.count
            rw [hHad] at hCount
            rw [hCapacity, hUsed]
            simp only [asOne, if_true, Bool.false_eq_true,
              if_false] at hCount ⊢
            omega
          waits := by
            rw [hUsed, ← hInv.waits]
            exact hDuring.waits
          before := by
            intro hUnused
            rw [hUsed] at hUnused
            rw [afterWait_of_made hMade, hUnused, hInv.before hUnused]
            rfl
          after := by
            intro hTrue
            rw [hUsed] at hTrue
            rcases hInv.after hTrue with ⟨hNil, hRetry⟩ | ⟨_, _, hLost⟩
            · refine Or.inr ⟨?_, hWhy, hCapacity⟩
              rw [afterWait_of_made hMade, hNil, hTrue, hRetry]
              rfl
            · rw [hHad] at hLost
              cases hLost
          backs := backs_of_made hInv hMade
          back := fun _ => hProfile }
  | retry _ hUnused hUsed hMade hWaits hProfile hWhy
      hCapacity =>
      have hCard := card_le_of_made hMade
      have hKind : ∀ p, m.profile = some p →
          p ∈ setup.profiles ∧ setup.switch ≠ some p := by
        intro p hp
        exact hOffered.2 p (hProfile p hp).2
      have hAfterWait : m.afterWait = [] := by
        rw [afterWait_of_made hMade, hUnused, hInv.before hUnused]
        rfl
      exact
        { tried := by
            intro i _ hFalse
            rw [hUsed] at hFalse
            cases hFalse
          listed := by
            refine listed_of_made hInv hMade ?_
            cases hEnv : m.profile with
            | none => exact List.mem_cons_self
            | some p => simp [(hKind p hEnv).1]
          others := by
            refine others_of_made hInv hMade ?_
            intro i hSwitch hSame
            exact (hKind i hSame).2 hSwitch
          count := by
            have hCount := hInv.count
            have hFlag : asOne m.inheritedHasCapacity ≤
                asOne l.inheritedHasCapacity := by
              cases hNow : m.inheritedHasCapacity with
              | false => exact Nat.zero_le _
              | true => rw [hCapacity hNow]
            rw [hUnused] at hCount
            rw [hUsed]
            simp only [asOne, if_true, Bool.false_eq_true,
              if_false] at hCount hFlag ⊢
            omega
          waits := by
            rw [hWaits, hInv.waits, hUnused, hUsed]
            rfl
          before := by
            intro hFalse
            rw [hUsed] at hFalse
            cases hFalse
          after := fun _ => Or.inl ⟨hAfterWait, hWhy⟩
          backs := backs_of_made hInv hMade
          back := by
            intro hBack
            rw [hWhy] at hBack
            cases hBack }

end Steps

-- Supervised Runs

/-
  The way back is taken before the wait although the inherited
  profile was run as a candidate since.
-/
def StaleReturn (setup : Setup) (l : Loop) (r : Round) : Prop :=
  ∃ i, setup.switch = some i ∧
    l.inheritedHasCapacity = true ∧
    l.profile.isSome = true ∧
    l.waiter.used = false ∧
    nextProfile l r = none ∧
    i ∈ l.tried

def NotStale (setup : Setup) : State → Round → Prop
| .running l, r => ¬StaleReturn setup l r
| .ended _ _, _ => True

def Loop.beforeWait (l : Loop) : List (Option ProfileName) :=
  (l.made.filter (!·.waited)).map (·.profile)

/- No profile is attempted twice before the wait. -/
def Once (setup : Setup) (l : Loop) : Prop :=
  (l.beforeWait.map (·.or setup.switch)).Nodup

/- What holds of every run: it ends, and waits once. -/
structure Supervised
    (setup : Setup) (rounds : List Round) (s : State) :
    Prop where
  bound : s.loop.made.length ≤ setup.profiles.length + 3
  ends : setup.profiles.length + 3 ≤ rounds.length → ∃ l e, s = .ended l e
  waits : s.loop.waits ≤ 1
  afterWait : s.loop.afterWait.Sublist [.retry, .back]
  backs : ∀ m ∈ s.loop.made, m.why = .back → m.profile = none
  passedUp : ∀ l stdout code, s = .ended l (.finished stdout code) →
    ∃ m a, l.made.getLast? = some m ∧ m.attempt = some a ∧
      stdout = a.stdout ∧
      (code = a.code ∨ ∃ r ∈ rounds, ∃ sig : ℕ,
        Told r sig ∧ code = 128 + sig)

/- A run that ended, as far as no round was told but by `T`. -/
structure Closed
    (setup : Setup) (T : ℕ → Prop) (l : Loop) (e : Ended) :
    Prop where
  bound : l.made.length ≤ setup.profiles.length + 3
  waits : l.waits ≤ 1
  afterWait : l.afterWait.Sublist [.retry, .back]
  backs : ∀ m ∈ l.made, m.why = .back → m.profile = none
  others : ∀ i, setup.switch = some i → some i ∉ l.made.map (·.profile)
  passedUp : ∀ stdout code, e = .finished stdout code →
    ∃ m a, l.made.getLast? = some m ∧ m.attempt = some a ∧
      stdout = a.stdout ∧
      (code = a.code ∨ ∃ sig : ℕ, T sig ∧ code = 128 + sig)

def Kept (setup : Setup) (T : ℕ → Prop) : State → Prop
| .running l => Invariant setup l
| .ended l e => Closed setup T l e

section Runs

variable {setup : Setup}
variable {l m : Loop}
variable {r : Round}
variable {T : ℕ → Prop}

theorem asOne_le_one (b : Bool) : asOne b ≤ 1 := by
  rw [asOne]
  split <;> omega

theorem Invariant.length_envs_le (hInv : Invariant setup l) :
    l.envs.length ≤ setup.profiles.length + 3 := by
  have hSubset : l.envs.toFinset ⊆
      (none :: setup.profiles.map some).toFinset := by
    intro e he
    rw [List.mem_toFinset] at he ⊢
    exact hInv.listed e he
  have hCard := (Finset.card_le_card hSubset).trans
    (List.toFinset_card_le _)
  rw [List.length_cons, List.length_map] at hCard
  have hCount := hInv.count
  have hUsed := asOne_le_one l.waiter.used
  omega

/- What an attempt adds to those after the wait. -/
theorem Invariant.afterWait_sublist
    (hInv : Invariant setup l) :
    (l.afterWait ++ if l.waiter.used then [l.why]
      else []).Sublist [.retry, .back] := by
  cases hUsed : l.waiter.used with
  | false =>
    rw [hInv.before hUsed]
    exact List.nil_sublist _
  | true =>
    rcases hInv.after hUsed with ⟨hNil, hWhy⟩ | ⟨hOne, hWhy, _⟩
    · rw [hNil, hWhy]
      decide
    · rw [hOne, hWhy]
      decide

theorem Invariant.closed
    {attempt : Option Attempt} {e : Ended} (hInv : Invariant setup l)
    (hMade : m.made = (l.record attempt).made)
    (hWaits : m.waits = l.waits ∨
      (l.waiter.used = false ∧ m.waits = l.waits + 1))
    (hPassed : ∀ stdout code, e = .finished stdout code →
      ∃ a, attempt = some a ∧ stdout = a.stdout ∧
        (code = a.code ∨ ∃ sig : ℕ, T sig ∧ code = 128 + sig)) :
    Closed setup T m e where
  bound := by
    have hLength := hInv.length_envs_le
    rw [← envs_record l attempt, ← hMade, List.length_map] at hLength
    exact hLength
  waits := by
    have hOld := hInv.waits
    rcases hWaits with hSame | ⟨hUnused, hMore⟩
    · rw [hSame, hOld]
      exact asOne_le_one _
    · rw [hMore, hOld, hUnused]
      exact le_rfl
  afterWait := by
    have hAdded := afterWait_record l attempt
    rw [Loop.afterWait, ← hMade] at hAdded
    rw [Loop.afterWait, hAdded]
    exact hInv.afterWait_sublist
  backs := by
    intro x hx hBack
    rw [hMade] at hx
    rcases List.mem_append.mp hx with hOld | hNew
    · exact hInv.backs x hOld hBack
    · rw [List.mem_singleton.mp hNew] at hBack ⊢
      exact hInv.back hBack
  others := by
    rw [hMade, envs_record]
    exact hInv.others
  passedUp := by
    intro stdout code hFinished
    rcases hPassed stdout code hFinished with ⟨a, hAttempt, hRest⟩
    have hLast : m.made.getLast? =
        some ⟨l.profile, l.why, l.waiter.used, attempt⟩ := by
      rw [hMade, Loop.record]
      exact List.getLast?_concat
    exact ⟨_, a, hLast, hAttempt, hRest⟩

theorem kept_step
    (s : State) (r : Round) (hKept : Kept setup T s)
    (hAllowed : Offered setup s r ∧ ∀ sig, Told r sig → T sig) :
    Kept setup T (step setup s r) := by
  cases s with
  | ended l e => exact hKept
  | running l =>
    have hInv : Invariant setup l := hKept
    change Kept setup T (round setup l r)
    rcases round_cases setup l r with ⟨e, hEnd, hRound⟩ | ⟨a, hAfter⟩
    · rw [hRound]
      refine hInv.closed rfl (Or.inl rfl) ?_
      intro stdout code hFinished
      rcases hEnd with rfl | rfl
      · cases hFinished
      · cases hFinished
    · cases hNext : round setup l r with
      | running m =>
        rw [hNext] at hAfter
        exact hAfter.invariant hInv hAllowed.1
      | ended m e =>
        rw [hNext] at hAfter
        cases hAfter with
        | finished _ _ hMade hWaits hResult =>
          refine hInv.closed hMade hWaits ?_
          intro stdout code hFinished
          rcases hResult.result with ⟨c, rfl, hCode⟩
          cases hFinished
          refine ⟨a, rfl, rfl, ?_⟩
          rcases hCode with rfl | ⟨sig, hTold, rfl⟩
          · exact Or.inl rfl
          · exact Or.inr ⟨sig, hAllowed.2 sig hTold, rfl⟩

-- No Profile Twice

/- The attempts before the wait, with the next one. -/
def Loop.planned (l : Loop) : List (Option ProfileName) :=
  l.beforeWait ++ if l.waiter.used then [] else [l.profile]

theorem beforeWait_record
    (l : Loop) (attempt : Option Attempt) :
    (l.record attempt).beforeWait = l.planned := by
  cases hUsed : l.waiter.used with
  | false => simp [Loop.record, Loop.beforeWait, Loop.planned, hUsed]
  | true => simp [Loop.record, Loop.beforeWait, Loop.planned, hUsed]

theorem planned_subset_envs (l : Loop) : l.planned ⊆ l.envs := by
  intro e he
  rcases List.mem_append.mp he with hMade | hNext
  · rcases List.mem_map.mp hMade with ⟨x, hx, rfl⟩
    exact List.mem_append_left _
      (List.mem_map_of_mem (List.mem_of_mem_filter hx))
  · split at hNext
    · cases hNext
    · exact List.mem_append_right _ hNext

/- On the way back the inherited profile was not run before. -/
theorem none_notMem_planned
    {i : ProfileName} (hInv : Invariant setup l)
    (hSwitch : setup.switch = some i) (hUnused : l.waiter.used = false)
    (hAway : l.profile.isSome = true) (hFresh : i ∉ l.tried) :
    none ∉ l.planned := by
  intro hMem
  rcases List.mem_append.mp (planned_subset_envs l hMem) with
    hMade | hNext
  · rcases List.mem_map.mp hMade with ⟨x, hx, hNone⟩
    refine hFresh ?_
    rw [hInv.tried i hSwitch hUnused]
    exact List.mem_map.mpr ⟨x, hx, by rw [hNone]; rfl⟩
  · rw [← List.mem_singleton.mp hNext] at hAway
    cases hAway

theorem After.planned
    {a : Attempt} (hInv : Invariant setup l)
    (hOffered : Offered setup (.running l) r)
    (hFresh : ¬StaleReturn setup l r)
    (hAfter : After setup l r a (.running m)) (hNodup : l.planned.Nodup) :
    m.planned.Nodup := by
  have hBefore : ∀ m : Loop, m.made = (l.record (some a)).made →
      m.beforeWait = l.planned := by
    intro m hMade
    rw [← beforeWait_record l (some a), Loop.beforeWait,
      hMade, Loop.beforeWait]
  have hOneMore : ∀ m : Loop, m.made = (l.record (some a)).made →
      (m.waiter.used = false → m.profile ∉ l.planned) →
      m.planned.Nodup := by
    intro m hMade hNew
    rw [Loop.planned, hBefore m hMade]
    split
    · simpa using hNodup
    · next hUsed =>
        rw [List.nodup_append_comm]
        have hNotMem := hNew (by simpa using hUsed)
        exact List.nodup_cons.mpr ⟨hNotMem, hNodup⟩
  cases hAfter with
  | candidate _ i p hSwitch hUnused hPick hDuring hTried
      hProfile hWhy hCapacity =>
      refine hOneMore m hDuring.made fun _ hMem => ?_
      have hNew := candidate_notMem hInv hSwitch hUnused
        ((hOffered.1 p hPick).2 i hSwitch)
      rw [← hProfile] at hNew
      exact hNew (planned_subset_envs l hMem)
  | back _ i hSwitch hHad hAway hNone hDuring hTried hProfile
      hWhy hCapacity =>
      refine hOneMore m hDuring.made fun hUnused => ?_
      have hUsed : m.waiter.used = l.waiter.used :=
        congrArg Waiter.used hDuring.waiter
      rw [hUsed] at hUnused
      rw [hProfile]
      refine none_notMem_planned hInv hSwitch hUnused hAway ?_
      intro hTriedBefore
      exact hFresh ⟨i, hSwitch, hHad, hAway, hUnused, hNone, hTriedBefore⟩
  | retry _ hUnused hUsed hMade hWaits hProfile hWhy
      hCapacity =>
      refine hOneMore m hMade fun hFalse => ?_
      rw [hUsed] at hFalse
      cases hFalse

def OnceKept (setup : Setup) : State → Prop
| .running l => Invariant setup l ∧ l.planned.Nodup
| .ended l _ => l.beforeWait.Nodup

theorem onceKept_step
    (s : State) (r : Round) (hKept : OnceKept setup s)
    (hAllowed : Offered setup s r ∧ NotStale setup s r) :
    OnceKept setup (step setup s r) := by
  cases s with
  | ended l e => exact hKept
  | running l =>
    rcases hKept with ⟨hInv, hNodup⟩
    change OnceKept setup (round setup l r)
    have hClosed : ∀ (m : Loop) (attempt : Option Attempt),
        m.made = (l.record attempt).made →
        m.beforeWait.Nodup := by
      intro m attempt hMade
      rw [Loop.beforeWait, hMade]
      have hRecord := beforeWait_record l attempt
      rw [Loop.beforeWait] at hRecord
      rw [hRecord]
      exact hNodup
    rcases round_cases setup l r with ⟨e, _, hRound⟩ | ⟨a, hAfter⟩
    · rw [hRound]
      exact hClosed _ none rfl
    · cases hNext : round setup l r with
      | running m =>
        rw [hNext] at hAfter
        exact ⟨hAfter.invariant hInv hAllowed.1,
          hAfter.planned hInv hAllowed.1 hAllowed.2 hNodup⟩
      | ended m e =>
        rw [hNext] at hAfter
        cases hAfter with
        | finished _ _ hMade _ _ => exact hClosed m _ hMade

theorem once_of_nodup
    (hOthers : ∀ i, setup.switch = some i → some i ∉ l.made.map (·.profile))
    (hNodup : l.beforeWait.Nodup) :
    Once setup l := by
  refine hNodup.map_on ?_
  have hMade : ∀ e ∈ l.beforeWait,
      ∀ i, setup.switch = some i → e ≠ some i := by
    rintro e he i hSwitch rfl
    rcases List.mem_map.mp he with ⟨x, hx, hSome⟩
    exact hOthers i hSwitch (List.mem_map.mpr
      ⟨x, List.mem_of_mem_filter hx, hSome⟩)
  intro e he e' he' hSame
  cases hSwitch : setup.switch with
  | none => simpa [hSwitch] using hSame
  | some i =>
    rw [hSwitch] at hSame
    have hLeft := hMade e he i hSwitch
    have hRight := hMade e' he' i hSwitch
    cases e with
    | none =>
      cases e' with
      | none => rfl
      | some p => exact absurd hSame.symm hRight
    | some p =>
      cases e' with
      | none => exact absurd hSame hLeft
      | some q => exact hSame

-- Every Run

/- A round ends the run or makes one more attempt. -/
theorem ended_or_length
    (s : State) (r : Round) :
    (∃ l e, step setup s r = .ended l e) ∨
      (step setup s r).loop.made.length =
        s.loop.made.length + 1 := by
  cases s with
  | ended l e => exact Or.inl ⟨l, e, rfl⟩
  | running l =>
    change (∃ m e, round setup l r = .ended m e) ∨ _
    cases hNext : step setup (.running l) r with
    | ended m e => exact Or.inl ⟨m, e, hNext⟩
    | running m =>
      refine Or.inr ?_
      have hRound : round setup l r = .running m := hNext
      rcases round_cases setup l r with ⟨e, _, hEnded⟩ | ⟨a, hAfter⟩
      · rw [hRound] at hEnded
        cases hEnded
      · rw [hRound] at hAfter
        have hMade : m.made = (l.record (some a)).made := by
          cases hAfter with
          | candidate _ _ _ _ _ _ hDuring => exact hDuring.made
          | back _ _ _ _ _ _ hDuring => exact hDuring.made
          | retry _ _ _ hMade => exact hMade
        change m.made.length = l.made.length + 1
        rw [hMade]
        simp [Loop.record]

theorem kept_run
    {b : Begin} {rounds : List Round} (hBegin : b.Offered setup)
    (hOffered : Admits (step setup) (Offered setup)
      (.running (start setup b)) rounds) :
    Kept setup (fun sig => ∃ r ∈ rounds, Told r sig)
      (rounds.foldl (step setup)
        (.running (start setup b))) := by
  have hTold : Admits (step setup)
      (fun _ r => ∀ sig, Told r sig → ∃ r ∈ rounds, Told r sig)
      (.running (start setup b)) rounds :=
    Admits.of_forall (fun _ r hMem _ hSig => ⟨r, hMem, hSig⟩) _
  exact (hOffered.and hTold).invariant _ kept_step (invariant_start hBegin)

theorem made_start (setup : Setup) (b : Begin) :
    (start setup b).made = [] := by
  rw [start]
  split <;> rfl

theorem once_run
    {b : Begin} {rounds : List Round} (hBegin : b.Offered setup)
    (hOffered : Admits (step setup) (Offered setup)
      (.running (start setup b)) rounds)
    (hFresh : Admits (step setup) (NotStale setup)
      (.running (start setup b)) rounds) :
    OnceKept setup (rounds.foldl (step setup)
      (.running (start setup b))) := by
  refine (hOffered.and hFresh).invariant _ onceKept_step
    ⟨invariant_start hBegin, ?_⟩
  rw [Loop.planned, Loop.beforeWait, made_start]
  split
  · exact List.nodup_nil
  · exact List.nodup_singleton _

/-
  Every run of the supervisor ends, within three attempts more
  than there are profiles, and waits at most once.  If no way
  back is stale, no profile runs twice before the wait.
-/
theorem supervised_once
    {b : Begin} {rounds : List Round} (hBegin : b.Offered setup)
    (hOffered : Admits (step setup) (Offered setup)
      (.running (start setup b)) rounds) :
    let s := rounds.foldl (step setup)
      (.running (start setup b))
    Supervised setup rounds s ∧
      (Admits (step setup) (NotStale setup)
          (.running (start setup b)) rounds →
        Once setup s.loop) := by
  intro s
  have hKept := kept_run hBegin hOffered
  have hCount : (∃ l e, s = .ended l e) ∨
      s.loop.made.length =
        (start setup b).made.length + rounds.length := by
    refine Admits.done_or_measure
      (fun s => ∃ l e, s = State.ended l e)
      (fun s => s.loop.made.length) ?_ ended_or_length _ _
    rintro s r ⟨l, e, rfl⟩
    exact ⟨l, e, rfl⟩
  rw [made_start, List.length_nil, Nat.zero_add] at hCount
  change Kept setup _ s at hKept
  cases hState : s with
  | running l =>
    rw [hState] at hKept hCount
    have hInv : Invariant setup l := hKept
    have hLength := hInv.length_envs_le
    have hEnvs : l.envs.length = l.made.length + 1 := by simp [Loop.envs]
    refine ⟨?_, ?_⟩
    · exact
        { bound := by
            change l.made.length ≤ _
            omega
          ends := by
            intro hLong
            rcases hCount with hEnded | hCount
            · exact hEnded
            · change l.made.length = _ at hCount
              omega
          waits := by
            change l.waits ≤ 1
            rw [hInv.waits]
            exact asOne_le_one _
          afterWait :=
            (List.sublist_append_left _ _).trans hInv.afterWait_sublist
          backs := hInv.backs
          passedUp := by
            intro m stdout code hEnded
            cases hEnded }
    · intro hFresh
      have hOnce := once_run hBegin hOffered hFresh
      change OnceKept setup s at hOnce
      rw [hState] at hOnce
      refine once_of_nodup ?_ (List.Nodup.of_append_left hOnce.2)
      intro i hSwitch hMem
      exact hInv.others i hSwitch (List.mem_append_left _ hMem)
  | ended l e =>
    rw [hState] at hKept
    have hClosed : Closed setup _ l e := hKept
    refine ⟨?_, ?_⟩
    · exact
        { bound := hClosed.bound
          ends := fun _ => ⟨l, e, rfl⟩
          waits := hClosed.waits
          afterWait := hClosed.afterWait
          backs := hClosed.backs
          passedUp := by
            intro m stdout code hEnded
            cases hEnded
            rcases hClosed.passedUp stdout code rfl with
              ⟨x, a, hLast, hAttempt, hOut, hCode⟩
            refine ⟨x, a, hLast, hAttempt, hOut, ?_⟩
            rcases hCode with
              hOwn | ⟨sig, ⟨r, hMem, hTold⟩, hStop⟩
            · exact Or.inl hOwn
            · exact Or.inr ⟨r, hMem, sig, hTold, hStop⟩ }
    · intro hFresh
      have hOnce := once_run hBegin hOffered hFresh
      change OnceKept setup s at hOnce
      rw [hState] at hOnce
      exact once_of_nodup hClosed.others hOnce

end Runs

-- A Stale Return

def alpha : ProfileName := ⟨"alpha", by decide⟩
def beta : ProfileName := ⟨"beta", by decide⟩
def gamma : ProfileName := ⟨"gamma", by decide⟩

def threeProfiles : Setup where
  switch := some alpha
  profiles := [alpha, beta, gamma]
  waitEnabled := some true
  pipedPrompt := false

def moved (substitute : Option (ProfileName × Option ℤ)) :
    Begin where
  substitute := substitute
  waitNow := 0
  now := 0
  takeover := false

def answered (answer : Answer) (pick : Option ProfileName) :
    Round where
  answer := answer
  takeover := false
  on := true
  ledgerReads := true
  pick := pick
  stop := none
  wait := ⟨none, 0, .resetReached⟩
  capacityPick := none

def limitedRound (pick : Option ProfileName) : Round :=
  answered (.done ⟨1, ""⟩ (some ⟨.skip .noLimitMessage, none⟩)) pick

/- The step was moved off the inherited profile to `beta`. -/
def movedStart : State :=
  .running (start threeProfiles (moved (some (beta, none))))

/- The inherited profile is picked, then left, then run again. -/
def staleRounds : List Round :=
  [limitedRound (some alpha), limitedRound (some gamma),
    limitedRound none, limitedRound none]

theorem offered_of_pick
    {setup : Setup} {l : Loop} {p i : ProfileName}
    (hSwitch : setup.switch = some i) (answer : Answer)
    (hListed : p ∈ setup.profiles)
    (hNew : p ∉ l.tried ++ [l.profile.getD i]) :
    Offered setup (.running l) (answered answer (some p)) := by
  refine ⟨?_, ?_⟩
  · rintro q ⟨rfl⟩
    refine ⟨hListed, ?_⟩
    intro j hj
    rw [hSwitch] at hj
    rw [← Option.some.inj hj]
    exact hNew
  · intro q hq
    cases hq

theorem offered_of_none
    (setup : Setup) (s : State) (answer : Answer) :
    Offered setup s (answered answer none) := by
  cases s with
  | running l =>
    refine ⟨?_, ?_⟩
    · intro q hq
      cases hq
    · intro q hq
      cases hq
  | ended l e => exact trivial

theorem offered_staleRounds :
    Admits (step threeProfiles) (Offered threeProfiles)
      movedStart staleRounds :=
  ⟨offered_of_pick rfl _ (by decide) (by decide),
    offered_of_pick rfl _ (by decide) (by decide),
    offered_of_none _ _ _, offered_of_none _ _ _, trivial⟩

theorem offered_moved : (moved (some (beta, none))).Offered
    threeProfiles := by
  rintro p reset ⟨rfl⟩
  decide

/- The inherited profile is run twice and no wait is between. -/
theorem stale_return_runs_twice :
    (moved (some (beta, none))).Offered threeProfiles ∧
    Admits (step threeProfiles) (Offered threeProfiles)
      movedStart staleRounds ∧
    ¬Once threeProfiles (staleRounds.foldl
      (step threeProfiles) movedStart).loop := by
  refine ⟨offered_moved, offered_staleRounds, ?_⟩
  unfold Once
  decide

/- A limited step that finishes under another profile. -/
def rerunRounds : List Round :=
  [limitedRound (some gamma), answered (.done ⟨0, "done"⟩ none) none]

theorem supervised_once_of_rerun :
    Supervised threeProfiles rerunRounds
      (rerunRounds.foldl (step threeProfiles) movedStart) ∧
    (Admits (step threeProfiles) (NotStale threeProfiles)
        movedStart rerunRounds →
      Once threeProfiles (rerunRounds.foldl
        (step threeProfiles) movedStart).loop) :=
  supervised_once offered_moved
    ⟨offered_of_pick rfl _ (by decide) (by decide),
      offered_of_none _ _ _, trivial⟩

end Rerun

end AutoSwitch
