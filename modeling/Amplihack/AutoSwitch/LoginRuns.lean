import Amplihack.AutoSwitch.Recovery
import Amplihack.Base.Runs

/-
  Runs of swap checks and recoveries, each of which may stop
  after any of its file operations.
-/

-- Runs

namespace AutoSwitch

open Base Profile

/- What holds the lock, and the fault of each operation. -/
inductive Run
| recover (scan : Scan) (faults : List Fault)
| swap (inputs : SwapInputs) (faults : List Fault)

/- A run stops where its faults end. -/
def step (w : World) : Run → World
| .recover scan faults =>
  ((recover scan).execute files faults w).1
| .swap inputs faults =>
  ((swapCheck inputs).execute files faults w).1

def InSync (w : World) : Run → Prop
| .recover scan faults =>
  (recover scan).Within files Synced faults w
| .swap inputs faults =>
  (swapCheck inputs).Within files Synced faults w

/- The runs in which nothing fails, but which may stop. -/
def OnlyStops (_ : World) : Run → Prop
| .recover _ faults => ∀ fault ∈ faults, fault = .none
| .swap _ faults => ∀ fault ∈ faults, fault = .none

/- No swap yet: each login is in its own directory. -/
structure Fresh (owners : Set ProfileName) (w : World) : Prop
where
  ledger : w.ledger = none
  journal : w.journal = none
  live : ∀ d a, w.login (.live d) = some a ↔ a = d ∧ d ∈ owners
  parked : ∀ d, w.login (.parked d) = none

variable {owners : Set ProfileName}
variable {start w v : World}
variable {scan : Scan}

theorem within_of_noFault
    {α : Type} {faults : List Fault}
    (hFaults : ∀ fault ∈ faults, fault = .none) (p : Files α) :
    p.Within files Synced faults w := by
  induction p generalizing faults w with
  | ret a => exact trivial
  | call op next ih =>
    cases faults with
    | nil => exact trivial
    | cons fault rest =>
      have hFault := hFaults fault List.mem_cons_self
      refine ⟨?_, ih _ ?_⟩
      · intro hAfter
        rw [hFault] at hAfter
        cases hAfter
      · intro other hMem
        exact hFaults other (List.mem_cons_of_mem _ hMem)

/- Where nothing fails, no sync fails. -/
theorem inSync_of_onlyStops
    (w : World) (run : Run) (hStops : OnlyStops w run) :
    InSync w run := by
  cases run with
  | recover scan faults => exact within_of_noFault hStops _
  | swap inputs faults => exact within_of_noFault hStops _

theorem Fresh.hosts (hFresh : Fresh owners w) :
    w.hosts = fun _ => none := by
  unfold World.hosts
  rw [hFresh.ledger]
  rfl

theorem Fresh.recoverable (hFresh : Fresh owners w) :
    w.Recoverable owners := by
  unfold World.Recoverable
  rw [hFresh.journal, hFresh.hosts]
  exact
    { each :=
        { some_place := fun a hOwner =>
            ⟨.live a, (hFresh.live a a).2 ⟨rfl, hOwner⟩⟩
          one_place := by
            intro a p q hp hq
            cases p with
            | parked d =>
              rw [hFresh.parked d] at hp
              cases hp
            | live d =>
              cases q with
              | parked e =>
                rw [hFresh.parked e] at hq
                cases hq
              | live e =>
                rw [← ((hFresh.live d a).1 hp).1,
                  ← ((hFresh.live e a).1 hq).1]
          listed := by
            intro a p hHeld
            cases p with
            | parked d =>
              rw [hFresh.parked d] at hHeld
              cases hHeld
            | live d =>
              have hOwn := (hFresh.live d a).1 hHeld
              rw [hOwn.1]
              exact hOwn.2 }
      live := fun d a hHeld => ((hFresh.live d a).1 hHeld).1
      parked := by
        intro d a hHeld
        rw [hFresh.parked d] at hHeld
        cases hHeld
      other := nofun
      distinct := nofun
      hosted := nofun }

theorem step_recoverable
    (w : World) (run : Run) (hInv : w.Recoverable owners)
    (hInSync : InSync w run) :
    (step w run).Recoverable owners := by
  cases run with
  | recover scan faults =>
    exact ((recover_safe scan hInv).execute hInv hInSync).1
  | swap inputs faults =>
    exact ((swapCheck_safe inputs hInv).execute hInv hInSync).1

theorem reaches_recoverable
    (hStart : Fresh owners start) (hRun : Reaches step InSync start w) :
    w.Recoverable owners :=
  hRun.invariant (World.Recoverable owners) step_recoverable
    hStart.recoverable

-- Where the logins are

/- Its directory, its slot, or the one it is to be live in. -/
def Placed
    (hosts : Hosts) (journal : Option Journal) (a : ProfileName) (p : Place) :
    Prop :=
  p = .live a ∨ p = .parked a ∨
    ∃ d, p = .live d ∧
      (hosts d = some a ∨ ∃ j, journal = some j ∧ j.dir = d ∧ j.to_ = a)

/- One place for each login, and one host for an account. -/
structure Kept (owners : Set ProfileName) (w : World) : Prop
where
  each : ∀ a ∈ owners, ∃! p, w.login p = some a
  placed : ∀ p a, w.login p = some a →
    a ∈ owners ∧ Placed w.hosts w.journal a p
  other : ∀ d a, w.hosts d = some a → a ≠ d
  distinct : ∀ d e a, w.hosts d = some a → w.hosts e = some a → d = e

/- Every login is where the ledger says. -/
structure Agrees (w : World) : Prop where
  hosted : ∀ d a, w.hosts d = some a → w.login (.live d) = some a
  placed : ∀ p a, w.login p = some a →
    (∃ d, p = .live d ∧ w.hosts d = some a) ∨
      p = home w.hosts a ∧ ∀ d, w.hosts d ≠ some a

variable {login : Logins}
variable {hosts : Hosts}
variable {journal : Option Journal}
variable {j : Journal}
variable {a : ProfileName}
variable {p : Place}

theorem Settled.placed
    (hSettled : Settled owners login hosts) (hHeld : login p = some a) :
    Placed hosts journal a p := by
  cases p with
  | parked d =>
    rw [(hSettled.parked d a hHeld).1]
    exact .inr (.inl rfl)
  | live d =>
    have hAccount := hSettled.live d a hHeld
    unfold account at hAccount
    cases hHost : hosts d with
    | none =>
      rw [hHost] at hAccount
      rw [hAccount]
      exact .inl rfl
    | some x =>
      rw [hHost] at hAccount
      rw [hAccount]
      exact .inr (.inr ⟨d, rfl, .inl hHost⟩)

theorem slotOf_placed
    (dir : ProfileName) (hSlot : p = slotOf hosts dir a) :
    Placed hosts journal a p := by
  rw [hSlot]
  unfold slotOf home
  split
  next hOwn =>
    rw [hOwn]
    exact .inr (.inl rfl)
  next =>
    split
    · exact .inr (.inl rfl)
    · exact .inl rfl

/- The outgoing login has gone to its slot. -/
theorem outgone_placed
    (hSettled : Settled owners login hosts) (hPlanned : Planned login hosts j)
    (hHeld : outgone login hosts j p = some a) :
    Placed hosts journal a p := by
  rcases outgone_eq_some hSettled hPlanned hHeld with
    hOld | ⟨hSlot, hSame⟩
  · exact hSettled.placed hOld
  · rw [← hSame] at hSlot
    exact slotOf_placed j.dir hSlot

theorem World.Recoverable.placed
    (hInv : w.Recoverable owners) (hHeld : w.login p = some a) :
    Placed w.hosts w.journal a p := by
  unfold World.Recoverable at hInv
  cases hJournal : w.journal with
  | none =>
    rw [hJournal] at hInv
    exact Settled.placed hInv hHeld
  | some j =>
    rw [hJournal] at hInv
    rcases hInv with ⟨login₀, hosts₀, hSettled, hPlanned, hStage⟩
    generalize w.login = login' at hStage hHeld
    generalize w.hosts = hosts' at hStage
    cases hStage with
    | planned => exact hSettled.placed hHeld
    | outgone => exact outgone_placed hSettled hPlanned hHeld
    | recorded => exact (arrived_settled hSettled hPlanned).placed hHeld
    | arrived =>
      rcases (arrived_eq_some_iff hPlanned).1 hHeld with
        ⟨hLive, hSame⟩ | ⟨-, -, hOut⟩
      · exact .inr (.inr ⟨j.dir, hLive, .inr ⟨j, rfl, rfl, hSame.symm⟩⟩)
      · exact outgone_placed hSettled hPlanned hOut

/- The logins and hosts of some settled files. -/
theorem World.Recoverable.each
    (hInv : w.Recoverable owners) :
    OneEach owners w.login ∧
      ∃ settled, Settled owners settled w.hosts := by
  unfold World.Recoverable at hInv
  cases hJournal : w.journal with
  | none =>
    rw [hJournal] at hInv
    exact ⟨hInv.each, w.login, hInv⟩
  | some j =>
    rw [hJournal] at hInv
    rcases hInv with ⟨login₀, hosts₀, hSettled, hPlanned, hStage⟩
    generalize w.login = login' at hStage
    generalize w.hosts = hosts' at hStage
    cases hStage with
    | planned => exact ⟨hSettled.each, login₀, hSettled⟩
    | outgone => exact ⟨hPlanned.outgone_each hSettled, login₀, hSettled⟩
    | arrived => exact ⟨hPlanned.arrived_each hSettled, login₀, hSettled⟩
    | recorded =>
      exact ⟨hPlanned.arrived_each hSettled, _,
        arrived_settled hSettled hPlanned⟩

theorem kept_of_recoverable (hInv : w.Recoverable owners) :
    Kept owners w := by
  rcases hInv.each with ⟨hEach, settled, hSettled⟩
  exact
    { each := fun a hOwner => hEach.unique_place hOwner
      placed := fun p a hHeld =>
        ⟨hEach.listed a p hHeld, hInv.placed hHeld⟩
      other := hSettled.other
      distinct := hSettled.distinct }

/- Settled files agree once no host's directory is empty. -/
theorem agrees_of_settled
    (hSettled : Settled owners w.login w.hosts)
    (hFull : ∀ d, (w.hosts d).isSome → (w.login (.live d)).isSome) :
    Agrees w := by
  have hHosted : ∀ d a, w.hosts d = some a →
      w.login (.live d) = some a := by
    intro d a hHost
    have hThere := hFull d (by rw [hHost]; rfl)
    rcases Option.isSome_iff_exists.1 hThere with ⟨b, hHeld⟩
    have hAccount := hSettled.live d b hHeld
    rw [account, hHost] at hAccount
    rw [hHeld, hAccount]
    rfl
  refine ⟨hHosted, ?_⟩
  intro p a hHeld
  cases p with
  | parked d =>
    rcases hSettled.parked d a hHeld with ⟨hOwn, hHosting⟩
    rw [← hOwn] at hHosting hHeld ⊢
    refine .inr ⟨(if_pos hHosting).symm, ?_⟩
    intro e hHost
    have hSame := hSettled.each.one_place a _ _ hHeld (hHosted e a hHost)
    cases hSame
  | live d =>
    have hAccount := hSettled.live d a hHeld
    unfold account at hAccount
    cases hHost : w.hosts d with
    | some x =>
      rw [hHost] at hAccount
      rw [hAccount]
      exact .inl ⟨d, rfl, hHost⟩
    | none =>
      rw [hHost] at hAccount
      change a = d at hAccount
      rw [← hAccount] at hHost hHeld ⊢
      have hOwn : ¬(w.hosts a).isSome := by
        rw [hHost]
        exact Bool.false_ne_true
      refine .inr ⟨(if_neg hOwn).symm, ?_⟩
      intro e hHosting
      have hSame := hSettled.each.one_place a _ _ hHeld
        (hHosted e a hHosting)
      rw [Place.live.inj hSame] at hHost
      rw [hHost] at hHosting
      cases hHosting

/- A recovery that finds no live directory stale. -/
theorem recover_agrees
    {faults : List Fault} {ledger : Ledger} (hInv : w.Recoverable owners)
    (hWithin : (recover scan).Within files Synced faults w)
    (hLive : ∀ d, scan.live d = true → ¬ Stale w d)
    (hDone : (recover scan).execute files faults w =
      (v, some (.ok ledger))) :
    v.journal = none ∧ ledger.hostOf = v.hosts ∧ Agrees v := by
  have hRecovered :=
    ((recover_safe scan hInv).execute hInv hWithin).2
      (.ok ledger) (by rw [hDone])
  rw [hDone] at hRecovered
  rcases hRecovered with ⟨⟨hJournal, hSettled, hLedger, hStale⟩, hHosts⟩
  refine ⟨hJournal, hLedger, agrees_of_settled hSettled ?_⟩
  intro d hHosting
  rw [← Option.ne_none_iff_isSome]
  intro hEmpty
  exact hLive d (hHosts ledger rfl d hHosting) (hStale d hHosting hEmpty)

-- Crash safety

/-
  At every moment each login is in one place, and a recovery
  that finds no live directory stale settles the journal and
  leaves a ledger that agrees with the logins.
-/
theorem logins_crash_safe
    (owners : Set ProfileName) (start w : World)
    (hStart : Fresh owners start) (hRun : Reaches step InSync start w) :
    Kept owners w ∧
      ∀ scan faults ledger v,
        (recover scan).Within files Synced faults w →
        (∀ d, scan.live d = true → ¬ Stale w d) →
        (recover scan).execute files faults w = (v, some (.ok ledger)) →
        v.journal = none ∧ ledger.hostOf = v.hosts ∧
          Agrees v := by
  have hInv := reaches_recoverable hStart hRun
  refine ⟨kept_of_recoverable hInv, ?_⟩
  intro scan faults ledger v hWithin hLive hDone
  exact recover_agrees hInv hWithin hLive hDone

-- A return that stops half way

def everyone : Set ProfileName :=
  fun a => a ∈ [workName, spareName, creditsName]

def freshWorld : World where
  login
  | .live d =>
    if d ∈ [workName, spareName, creditsName] then some d
    else none
  | .parked _ => none
  ledger := none
  journal := none
  disabled := fun _ => false
  refresh := fun _ => none
  nextIno := 1

theorem freshWorld_fresh : Fresh everyone freshWorld where
  ledger := rfl
  journal := rfl
  live := by
    intro d a
    change (if _ then _ else _) = _ ↔ _
    split
    next hMem =>
      rw [Option.some.injEq]
      exact ⟨fun hSame => ⟨hSame.symm, hMem⟩, fun hSame => hSame.1.symm⟩
    next hAbsent => exact ⟨nofun, fun hOwn => absurd hOwn.2 hAbsent⟩
  parked := fun _ => rfl

def liveScan (live : List ProfileName) : Scan where
  live := fun d => live.contains d
  now := 1000
  pid := 7

def noOverflow : OverflowPool where
  order := []
  blocked := []
  gate := none
  platform := none
  notPlan := []
  noLogin := []
  kindsUnknown := false

/- A session of `owner`, and the one profile to move to. -/
def swapOf (owner target : ProfileName) : SwapInputs where
  scan := liveScan [workName, creditsName]
  owner := owner
  supported := true
  exhausted := true
  fingerprint := "reading"
  pool :=
    { profiles := [target]
      readings := .empty
      threshold := 90
      exclude := []
      now := 1000 }
  overflow := noOverflow

/-
  The spare login goes to the office directory, and the
  office login to the prepaid one. The office session ends;
  the return of the spare login stops after its rename.
-/
def stoppedReturn : List Run :=
  [.swap (swapOf workName spareName)
      (List.replicate 20 .none),
    .swap (swapOf creditsName workName) (List.replicate 20 .none),
    .recover (liveScan [creditsName]) (List.replicate 5 .none)]

/- The next recovery, with the office directory in use. -/
def nextRecovery : Files (Except SwapError Ledger) :=
  recover (liveScan [workName, creditsName])

def stoppedWorld : World :=
  stoppedReturn.foldl step freshWorld

theorem stoppedWorld_reached :
    Reaches step OnlyStops freshWorld stoppedWorld := by
  apply Reaches.foldl
  intro w run hMem
  simp only [stoppedReturn, List.mem_cons, List.not_mem_nil, or_false] at hMem
  rcases hMem with rfl | rfl | rfl <;>
    exact fun fault hFault => List.eq_of_mem_replicate hFault

/- The return is done by a recovery while the office is idle. -/
def idleRecovered : World × Option (Except SwapError Ledger) :=
  (recover (liveScan [creditsName])).execute files
    (List.replicate 12 .none) stoppedWorld

theorem logins_crash_safe_of_stopped :
    Kept everyone stoppedWorld ∧ Agrees idleRecovered.1 := by
  have hSafe := logins_crash_safe everyone freshWorld
    stoppedWorld freshWorld_fresh
    (stoppedWorld_reached.mono inSync_of_onlyStops)
  refine ⟨hSafe.1, ?_⟩
  have hWithin :
      (recover (liveScan [creditsName])).Within files Synced
        (List.replicate 12 .none) stoppedWorld :=
    within_of_noFault (fun _ hFault => List.eq_of_mem_replicate hFault) _
  refine (hSafe.2 (liveScan [creditsName])
    (List.replicate 12 .none)
    ((idleRecovered.1.ledger).getD .default) idleRecovered.1
    hWithin ?_ rfl).2.2
  intro d hLive hStale
  have hDir : d = creditsName := by simpa [liveScan] using hLive
  have hEmpty := hStale.2.1
  rw [hDir] at hEmpty
  exact absurd hEmpty (by decide)

/-
  Runs in which nothing fails: the next recovery reports no
  error, but the ledger has the spare login in a directory
  that is empty.
-/
theorem stopped_return_disagrees :
    Fresh everyone freshWorld ∧
      Reaches step OnlyStops freshWorld stoppedWorld ∧
      ∃ ledger v,
        nextRecovery.execute files (List.replicate 2 .none)
            stoppedWorld = (v, some (.ok ledger)) ∧
          ¬ Agrees v := by
  refine ⟨freshWorld_fresh, stoppedWorld_reached,
    stoppedWorld.ledger.getD .default, stoppedWorld, rfl, ?_⟩
  intro hAgrees
  have hHosted := hAgrees.hosted workName spareName (by decide)
  exact absurd hHosted (by decide)

end AutoSwitch
