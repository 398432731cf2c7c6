import Amplihack.AutoSwitch.Transfer

/-
  Where logins may be while no transfer is under way, and at
  each stage of one.

  The ledger is seen here as a function: the account that
  each directory hosts.
-/

-- Hosts

namespace AutoSwitch

open Base Profile

abbrev Logins : Type := Place → Option ProfileName

abbrev Hosts : Type := ProfileName → Option ProfileName

/- The account that the ledger has in a directory. -/
def Ledger.hostOf (ledger : Ledger) : Hosts := fun dir =>
  (ledger.hosts.get? dir).map HostEntry.live

def home (hosts : Hosts) (a : ProfileName) : Place :=
  if (hosts a).isSome then .parked a else .live a

def slotOf (hosts : Hosts) (dir a : ProfileName) : Place :=
  if a = dir then .parked dir else home hosts a

def account (hosts : Hosts) (dir : ProfileName) : ProfileName :=
  (hosts dir).getD dir

/- The hosts once the move of `j` is recorded. -/
def finished (hosts : Hosts) (j : Journal) : Hosts :=
  Function.update hosts j.dir (if j.to_ = j.dir then none else some j.to_)

theorem homeSlot_eq (ledger : Ledger) (a : ProfileName) :
    ledger.homeSlot a = home ledger.hostOf a := by
  unfold Ledger.homeSlot Ledger.hosting home Ledger.hostOf
  cases ledger.hosts.get? a <;> rfl

theorem slot_eq (ledger : Ledger) (dir a : ProfileName) :
    slot ledger dir a = slotOf ledger.hostOf dir a := by
  simp only [slot, slotOf, homeSlot_eq]

theorem hostOf_finished (ledger : Ledger) (j : Journal) :
    (ledger.finished j).hostOf = finished ledger.hostOf j := by
  funext dir
  unfold Ledger.finished Ledger.hostOf finished
  by_cases hBack : j.to_ = j.dir
  · simp only [hBack, if_true, Dict.get?_remove]
    by_cases hDir : dir = j.dir
    · simp [hDir]
    · simp [hDir]
  · simp only [hBack, if_false, Dict.get?_insert]
    by_cases hDir : dir = j.dir
    · simp [hDir]
    · simp [hDir]

theorem hostOf_unhosted (ledger : Ledger) (dir : ProfileName) :
    (unhosted ledger dir).hostOf =
      Function.update ledger.hostOf dir none := by
  funext d
  unfold unhosted Ledger.hostOf
  rw [Dict.get?_remove]
  by_cases hDir : d = dir
  · simp [hDir]
  · simp [hDir]

theorem leasedTo_eq_none_iff {ledger : Ledger} {a : ProfileName} :
    ledger.leasedTo a = none ↔
      ∀ dir, ledger.hostOf dir = some a → dir = a := by
  unfold Ledger.leasedTo Ledger.hostOf
  rw [Option.map_eq_none_iff, List.find?_eq_none]
  constructor
  · intro hNone dir hHost
    rcases Option.map_eq_some_iff.1 hHost with ⟨h, hGet, hLive⟩
    have hEntry := hNone (dir, h) (Dict.mem_entries_of_get? hGet)
    by_contra hOther
    simp [hLive, hOther] at hEntry
  · rintro hAll ⟨dir, h⟩ hMem hFound
    simp only [Bool.and_eq_true, decide_eq_true_eq, bne_iff_ne] at hFound
    have hHost := hAll dir
    rw [Dict.get?_of_mem_entries hMem] at hHost
    exact hFound.2 (hHost (congrArg some hFound.1))

@[simp]
theorem finished_finished (hosts : Hosts) (j : Journal) :
    finished (finished hosts j) j = finished hosts j :=
  Function.update_idem ..

variable {hosts : Hosts}
variable {dir a b : ProfileName}

theorem parked_ne_live : Place.parked a ≠ .live b := by
  intro hSame
  cases hSame

theorem slotOf_ne_live : slotOf hosts dir a ≠ .live dir := by
  unfold slotOf home
  split
  next => exact parked_ne_live
  next hOther =>
    split
    · exact parked_ne_live
    · intro hSame
      exact hOther (Place.live.inj hSame)

theorem slotOf_injective
    (hSame : slotOf hosts dir a = slotOf hosts dir b) :
    a = b := by
  unfold slotOf home at hSame
  by_cases ha : a = dir
  · by_cases hb : b = dir
    · rw [ha, hb]
    · rw [if_pos ha, if_neg hb] at hSame
      split at hSame
      · rw [ha]
        exact Place.parked.inj hSame
      · cases hSame
  · by_cases hb : b = dir
    · rw [if_neg ha, if_pos hb] at hSame
      split at hSame
      · rw [hb]
        exact Place.parked.inj hSame
      · cases hSame
    · rw [if_neg ha, if_neg hb] at hSame
      split at hSame <;> split at hSame <;> cases hSame <;> rfl

/- Recording a move of `dir` leaves the slots of its accounts. -/
theorem slotOf_finished (j : Journal) :
    slotOf (finished hosts j) j.dir a = slotOf hosts j.dir a := by
  unfold slotOf
  split
  next => rfl
  next hOther =>
    unfold home finished
    rw [Function.update_of_ne hOther]

-- Settled logins

/-
  Each login is in one place, and a place has only the login
  that the ledger lets it have. A directory that hosts an
  account may be empty: the account is at home then.
-/
structure Settled
    (owners : Set ProfileName) (login : Logins) (hosts : Hosts) :
    Prop where
  each : OneEach owners login
  live : ∀ d a, login (.live d) = some a → a = account hosts d
  parked : ∀ d a, login (.parked d) = some a → a = d ∧ (hosts d).isSome
  other : ∀ d a, hosts d = some a → a ≠ d
  distinct : ∀ d e a, hosts d = some a → hosts e = some a → d = e
  hosted : ∀ d a, hosts d = some a → a ∈ owners

variable {owners : Set ProfileName}
variable {login : Logins}

namespace Settled

theorem slot_holds
    (hSettled : Settled owners login hosts)
    (hHeld : login (slotOf hosts dir a) = some b) :
    b = a := by
  unfold slotOf home at hHeld
  split at hHeld
  next hSame =>
    rw [hSame]
    exact (hSettled.parked dir b hHeld).1
  next =>
    split at hHeld
    next => exact (hSettled.parked a b hHeld).1
    next hFree =>
      have hAccount := hSettled.live a b hHeld
      rw [Option.not_isSome_iff_eq_none] at hFree
      rw [hAccount, account, hFree]
      rfl

/- The slot of the account that is in `dir` is empty. -/
theorem slot_empty
    (hSettled : Settled owners login hosts)
    (hLive : login (.live dir) = some a) :
    login (slotOf hosts dir a) = none := by
  by_contra hFull
  rcases Option.ne_none_iff_exists'.1 hFull with ⟨b, hHeld⟩
  have hSame := hSettled.slot_holds hHeld
  rw [hSame] at hHeld
  exact slotOf_ne_live (hSettled.each.one_place a _ _ hHeld hLive)

end Settled

-- A planned transfer

/- What a transfer relies on when its journal is written. -/
structure Planned
    (login : Logins) (hosts : Hosts) (j : Journal) :
    Prop where
  outgoing : j.from_ = account hosts j.dir
  apart : j.to_ ≠ j.from_
  present : j.fromPresent = (login (.live j.dir)).isSome
  absent : j.fromPresent = false → j.to_ = j.dir
  incoming : login (slotOf hosts j.dir j.to_) = some j.to_
  free : j.to_ ≠ j.dir → ∀ d, hosts d ≠ some j.to_

def outgone (login : Logins) (hosts : Hosts) (j : Journal) :
    Logins :=
  if j.fromPresent then
    moved login (.live j.dir) (slotOf hosts j.dir j.from_)
  else login

def arrived (login : Logins) (hosts : Hosts) (j : Journal) :
    Logins :=
  moved (outgone login hosts j) (slotOf hosts j.dir j.to_) (.live j.dir)

/- How far a transfer has come, by the files. -/
inductive Stage
    (login : Logins) (hosts : Hosts) (j : Journal) :
    Logins → Hosts → Prop
where
| planned : Stage login hosts j login hosts
| outgone : Stage login hosts j (outgone login hosts j) hosts
| arrived : Stage login hosts j (arrived login hosts j) hosts
| recorded :
    Stage login hosts j (arrived login hosts j) (finished hosts j)

variable {j : Journal}

namespace Planned

variable (hSettled : Settled owners login hosts)
variable (hPlanned : Planned login hosts j)

include hSettled hPlanned

theorem live_dir (hPresent : j.fromPresent = true) :
    login (.live j.dir) = some j.from_ := by
  have hThere := hPlanned.present
  rw [hPresent] at hThere
  rcases Option.isSome_iff_exists.1 hThere.symm with ⟨a, hLive⟩
  have hAccount := hSettled.live j.dir a hLive
  rw [hLive, hAccount, hPlanned.outgoing]

theorem fromSlot_empty (hPresent : j.fromPresent = true) :
    login (slotOf hosts j.dir j.from_) = none :=
  hSettled.slot_empty (hPlanned.live_dir hSettled hPresent)

omit hSettled in
theorem outgone_live :
    outgone login hosts j (.live j.dir) = none := by
  unfold outgone
  split
  next => exact moved_src
  next hAbsent =>
    have hThere := hPlanned.present
    rw [Bool.eq_false_iff.2 hAbsent] at hThere
    simpa using hThere.symm

omit hSettled in
theorem outgone_toSlot :
    outgone login hosts j (slotOf hosts j.dir j.to_) = some j.to_ := by
  unfold outgone
  split
  · rw [moved_other slotOf_ne_live]
    · exact hPlanned.incoming
    · exact fun hSame =>
        hPlanned.apart (slotOf_injective hSame)
  · exact hPlanned.incoming

theorem outgone_each :
    OneEach owners (outgone login hosts j) := by
  unfold outgone
  split
  next hPresent =>
    exact hSettled.each.moved slotOf_ne_live.symm
      (hPlanned.fromSlot_empty hSettled hPresent)
  next => exact hSettled.each

theorem arrived_each :
    OneEach owners (arrived login hosts j) :=
  (hPlanned.outgone_each hSettled).moved slotOf_ne_live hPlanned.outgone_live

end Planned

-- A finished transfer

/- Where a login is once the transfer has been made. -/
theorem arrived_eq_some_iff
    {p : Place} (hPlanned : Planned login hosts j) :
    arrived login hosts j p = some a ↔
      p = .live j.dir ∧ a = j.to_ ∨
        p ≠ .live j.dir ∧ p ≠ slotOf hosts j.dir j.to_ ∧
          outgone login hosts j p = some a := by
  unfold arrived
  rw [moved_eq_some_iff slotOf_ne_live, hPlanned.outgone_toSlot]
  constructor
  · rintro (⟨hLive, hSame⟩ | ⟨hSlot, hLive, hHeld⟩)
    · exact .inl ⟨hLive, (Option.some.inj hSame).symm⟩
    · exact .inr ⟨hLive, hSlot, hHeld⟩
  · rintro (⟨hLive, hSame⟩ | ⟨hLive, hSlot, hHeld⟩)
    · exact .inl ⟨hLive, congrArg some hSame.symm⟩
    · exact .inr ⟨hSlot, hLive, hHeld⟩

/- Off the live place, the outgoing login has changed slots. -/
theorem outgone_eq_some
    {p : Place} (hSettled : Settled owners login hosts)
    (hPlanned : Planned login hosts j)
    (hHeld : outgone login hosts j p = some a) :
    login p = some a ∨ p = slotOf hosts j.dir j.from_ ∧ a = j.from_ := by
  unfold outgone at hHeld
  split at hHeld
  next hPresent =>
    rw [moved_eq_some_iff slotOf_ne_live.symm,
      hPlanned.live_dir hSettled hPresent] at hHeld
    rcases hHeld with ⟨hSlot, hSame⟩ | ⟨-, -, hHeld⟩
    · exact .inr ⟨hSlot, (Option.some.inj hSame).symm⟩
    · exact .inl hHeld
  next => exact .inl hHeld

/- A hosted account's directory hosts another, or is its own. -/
theorem finished_other_dir (hOther : a ≠ j.dir) :
    finished hosts j a = hosts a :=
  Function.update_of_ne hOther ..

theorem finished_dir (hMoved : j.to_ ≠ j.dir) :
    finished hosts j j.dir = some j.to_ := by
  unfold finished
  rw [Function.update_self, if_neg hMoved]

theorem finished_back (hBack : j.to_ = j.dir) :
    finished hosts j j.dir = none := by
  unfold finished
  rw [Function.update_self, if_pos hBack]

/- `dir` hosts the new account, unless it is its own. -/
theorem finished_eq_some_iff :
    finished hosts j dir = some a ↔
      dir = j.dir ∧ j.to_ ≠ j.dir ∧ a = j.to_ ∨
        dir ≠ j.dir ∧ hosts dir = some a := by
  by_cases hDir : dir = j.dir
  · subst hDir
    by_cases hBack : j.to_ = j.dir
    · simp [finished_back hBack, hBack]
    · simp [finished_dir hBack, hBack, eq_comm]
  · simp [finished_other_dir hDir, hDir]

theorem account_finished :
    account (finished hosts j) j.dir = j.to_ := by
  unfold account
  by_cases hBack : j.to_ = j.dir
  · rw [finished_back hBack, hBack]
    rfl
  · rw [finished_dir hBack]
    rfl

theorem account_finished_of_ne (hOther : a ≠ j.dir) :
    account (finished hosts j) a = account hosts a := by
  unfold account
  rw [finished_other_dir hOther]

/- The account that was in `dir` fits the slot it moved to. -/
theorem fromSlot_fits
    {p : Place} (hPlanned : Planned login hosts j)
    (hSlot : p = slotOf hosts j.dir j.from_) :
    (∀ d, p = .live d →
        j.from_ = account (finished hosts j) d) ∧
      ∀ d, p = .parked d → j.from_ = d ∧ (finished hosts j d).isSome := by
  subst hSlot
  unfold slotOf home
  by_cases hOwn : j.from_ = j.dir
  · rw [if_pos hOwn]
    refine ⟨nofun, ?_⟩
    intro d hSame
    rw [← Place.parked.inj hSame]
    refine ⟨hOwn, ?_⟩
    rw [finished_dir (hOwn ▸ hPlanned.apart)]
    rfl
  · rw [if_neg hOwn]
    split
    next hHosting =>
      refine ⟨nofun, ?_⟩
      intro d hSame
      rw [← Place.parked.inj hSame, finished_other_dir hOwn]
      exact ⟨rfl, hHosting⟩
    next hFree =>
      refine ⟨?_, nofun⟩
      intro d hSame
      rw [← Place.live.inj hSame, account_finished_of_ne hOwn]
      rw [Option.not_isSome_iff_eq_none] at hFree
      unfold account
      rw [hFree]
      rfl

/- A transfer that was made and recorded is settled. -/
theorem arrived_settled
    (hSettled : Settled owners login hosts)
    (hPlanned : Planned login hosts j) :
    Settled owners (arrived login hosts j)
      (finished hosts j) where
  each := hPlanned.arrived_each hSettled
  live := by
    intro d a hHeld
    rcases (arrived_eq_some_iff hPlanned).1 hHeld with
      ⟨hDir, hSame⟩ | ⟨hDir, -, hHeld⟩
    · rw [Place.live.inj hDir, account_finished, hSame]
    · have hOther : d ≠ j.dir := fun hSame => hDir (by rw [hSame])
      rcases outgone_eq_some hSettled hPlanned hHeld with
        hKept | ⟨hSlot, hSame⟩
      · rw [account_finished_of_ne hOther]
        exact hSettled.live d a hKept
      · rw [hSame]
        exact (fromSlot_fits hPlanned hSlot).1 d rfl
  parked := by
    intro d a hHeld
    rcases (arrived_eq_some_iff hPlanned).1 hHeld with
      ⟨hDir, -⟩ | ⟨hDir, hToSlot, hHeld⟩
    · cases hDir
    · rcases outgone_eq_some hSettled hPlanned hHeld with
        hKept | ⟨hSlot, hSame⟩
      · have hOld := hSettled.parked d a hKept
        refine ⟨hOld.1, ?_⟩
        by_cases hOwn : d = j.dir
        · -- The parked login of `dir` has not been moved in.
          have hMoved : j.to_ ≠ j.dir := by
            intro hBack
            apply hToSlot
            rw [hBack, hOwn]
            simp [slotOf]
          rw [hOwn, finished_dir hMoved]
          rfl
        · rw [finished_other_dir hOwn]
          exact hOld.2
      · rw [hSame]
        exact (fromSlot_fits hPlanned hSlot).2 d rfl
  other := by
    intro d a hHost
    rcases finished_eq_some_iff.1 hHost with
      ⟨hDir, hMoved, hSame⟩ | ⟨-, hKept⟩
    · rw [hDir, hSame]
      exact hMoved
    · exact hSettled.other d a hKept
  distinct := by
    intro d e a hd he
    rcases finished_eq_some_iff.1 hd with ⟨hdDir, hMoved, hSame⟩ | ⟨-, hdKept⟩
    · rcases finished_eq_some_iff.1 he with
        ⟨heDir, -, -⟩ | ⟨-, heKept⟩
      · rw [hdDir, heDir]
      · rw [hSame] at heKept
        exact absurd heKept (hPlanned.free hMoved e)
    · rcases finished_eq_some_iff.1 he with
        ⟨-, hMoved, hSame⟩ | ⟨-, heKept⟩
      · rw [hSame] at hdKept
        exact absurd hdKept (hPlanned.free hMoved d)
      · exact hSettled.distinct d e a hdKept heKept
  hosted := by
    intro d a hHost
    rcases finished_eq_some_iff.1 hHost with ⟨-, -, hSame⟩ | ⟨-, hKept⟩
    · rw [hSame]
      exact hSettled.each.listed _ _ hPlanned.incoming
    · exact hSettled.hosted d a hKept

/- A directory that hosts is no account's home slot. -/
theorem live_ne_slotOf
    {other : ProfileName} (hHosting : (hosts dir).isSome) :
    Place.live dir ≠ slotOf hosts other a := by
  intro hSame
  unfold slotOf home at hSame
  split at hSame
  next => cases hSame
  next =>
    split at hSame
    next => cases hSame
    next hFree =>
      rw [Place.live.inj hSame] at hHosting
      exact hFree hHosting

/- A hosting directory's login is left alone by others. -/
theorem outgone_live_of_ne
    (hOther : dir ≠ j.dir) (hHosting : (hosts dir).isSome) :
    outgone login hosts j (.live dir) = login (.live dir) := by
  have hLive : Place.live dir ≠ .live j.dir := by
    intro hSame
    exact hOther (Place.live.inj hSame)
  unfold outgone
  split
  · exact moved_other hLive (live_ne_slotOf hHosting)
  · rfl

theorem arrived_live_of_ne
    (hOther : dir ≠ j.dir) (hHosting : (hosts dir).isSome) :
    arrived login hosts j (.live dir) = login (.live dir) := by
  have hLive : Place.live dir ≠ .live j.dir := by
    intro hSame
    exact hOther (Place.live.inj hSame)
  unfold arrived
  rw [moved_other (live_ne_slotOf hHosting) hLive]
  exact outgone_live_of_ne hOther hHosting

theorem arrived_live_dir (hPlanned : Planned login hosts j) :
    arrived login hosts j (.live j.dir) = some j.to_ :=
  (arrived_eq_some_iff hPlanned).2 (.inl ⟨rfl, rfl⟩)

-- A return without a journal

/- The hosted login is at home, and the ledger not written. -/
theorem homed_settled
    {x : ProfileName} (hSettled : Settled owners login hosts)
    (hHost : hosts dir = some x) (hLive : login (.live dir) = some x) :
    Settled owners (moved login (.live dir) (home hosts x))
      hosts := by
  have hSlot : slotOf hosts dir x = home hosts x := by
    unfold slotOf
    rw [if_neg (hSettled.other dir x hHost)]
  have hApart : Place.live dir ≠ home hosts x := by
    rw [← hSlot]
    exact slotOf_ne_live.symm
  have hEmpty : login (home hosts x) = none := by
    rw [← hSlot]
    exact hSettled.slot_empty hLive
  refine ⟨hSettled.each.moved hApart hEmpty, ?_, ?_,
    hSettled.other, hSettled.distinct, hSettled.hosted⟩
  · intro d a hHeld
    rcases (moved_eq_some_iff hApart).1 hHeld with
      ⟨hHome, hMoved⟩ | ⟨-, -, hKept⟩
    · rw [hLive] at hMoved
      rw [← Option.some.inj hMoved]
      unfold home at hHome
      split at hHome
      next => cases hHome
      next hFree =>
        rw [Place.live.inj hHome, account,
          Option.not_isSome_iff_eq_none.1 hFree]
        rfl
    · exact hSettled.live d a hKept
  · intro d a hHeld
    rcases (moved_eq_some_iff hApart).1 hHeld with
      ⟨hHome, hMoved⟩ | ⟨-, -, hKept⟩
    · rw [hLive] at hMoved
      rw [← Option.some.inj hMoved]
      unfold home at hHome
      split at hHome
      next hHosting =>
        rw [Place.parked.inj hHome]
        exact ⟨rfl, hHosting⟩
      next => cases hHome
    · exact hSettled.parked d a hKept

/- A directory with no login in it stops hosting. -/
theorem unhosted_settled
    (hSettled : Settled owners login hosts) (hLive : login (.live dir) = none)
    (hParked : login (.parked dir) = none) :
    Settled owners login (Function.update hosts dir none) where
  each := hSettled.each
  live := by
    intro d a hHeld
    have hOther : d ≠ dir := by
      rintro rfl
      rw [hLive] at hHeld
      cases hHeld
    unfold account
    rw [Function.update_of_ne hOther]
    exact hSettled.live d a hHeld
  parked := by
    intro d a hHeld
    have hOther : d ≠ dir := by
      rintro rfl
      rw [hParked] at hHeld
      cases hHeld
    rw [Function.update_of_ne hOther]
    exact hSettled.parked d a hHeld
  other := by
    intro d a hHost
    by_cases hDir : d = dir
    · simp [hDir] at hHost
    · rw [Function.update_of_ne hDir] at hHost
      exact hSettled.other d a hHost
  distinct := by
    intro d e a hd he
    by_cases hdDir : d = dir
    · simp [hdDir] at hd
    · by_cases heDir : e = dir
      · simp [heDir] at he
      · rw [Function.update_of_ne hdDir] at hd
        rw [Function.update_of_ne heDir] at he
        exact hSettled.distinct d e a hd he
  hosted := by
    intro d a hHost
    by_cases hDir : d = dir
    · simp [hDir] at hHost
    · rw [Function.update_of_ne hDir] at hHost
      exact hSettled.hosted d a hHost

end AutoSwitch
