import Amplihack.AutoSwitch.CrashSafe
import Amplihack.AutoSwitch.LastResort

/-
  Recovery settles an interrupted transfer by where the
  logins are, and returns what is hosted and no longer live.
-/

-- An interrupted transfer

namespace AutoSwitch

open Base Profile

/-
  The directory is empty though the ledger has it host an
  account, and no journal will bring that login back.
-/
def Stale (w : World) (dir : ProfileName) : Prop :=
  (w.hosts dir).isSome ∧ w.login (.live dir) = none ∧
    ∀ j, w.journal = some j → j.dir = dir → j.fromPresent = false

/- Settled, with no stale directory that was not in `stale`. -/
def SettledAs
    (owners : Set ProfileName) (stale : ProfileName → Prop) :
    Except SwapError Ledger → World → Prop
| .ok ledger, w =>
  w.journal = none ∧ Settled owners w.login w.hosts ∧
    ledger.hostOf = w.hosts ∧
    ∀ d, (w.hosts d).isSome → w.login (.live d) = none → stale d
| .error _, _ => True

variable {owners : Set ProfileName}
variable {stale : ProfileName → Prop}
variable {ledger : Ledger}
variable {j : Journal}
variable {w : World}

/- The journal goes once the logins are settled. -/
theorem settleJournal_safe
    (hInv : w.Recoverable owners) (hSettled : Settled owners w.login w.hosts)
    (hLedger : ledger.hostOf = w.hosts)
    (hStale : ∀ d, (w.hosts d).isSome → w.login (.live d) = none → stale d) :
    Safe owners (SettledAs owners stale) (settleJournal ledger j) w := by
  unfold settleJournal releaseRefreshLock
  cases j.refreshLockIno with
  | none =>
    refine deleteJournal_safe hInv hSettled ?_
      (fun _ => trivial) fun _ => trivial
    exact ⟨rfl, hSettled, hLedger, hStale⟩
  | some ino =>
    refine aside_safe hInv (releaseRefreshLock_aside _ _) ?_
    intro reply v hLogin hFile hJournal
    have hHosts : v.hosts = w.hosts := by
      unfold World.hosts
      rw [hFile]
    have hInvAt : v.Recoverable owners := by
      unfold World.Recoverable at hInv ⊢
      rw [hLogin, hHosts, hJournal]
      exact hInv
    have hSettledAt : Settled owners v.login v.hosts := by
      rw [hLogin, hHosts]
      exact hSettled
    refine deleteJournal_safe hInvAt hSettledAt ?_
      (fun _ => trivial) fun _ => trivial
    refine ⟨rfl, hSettledAt, hLedger.trans hHosts.symm, ?_⟩
    intro d hHosting hEmpty
    change (v.hosts d).isSome at hHosting
    change v.login (.live d) = none at hEmpty
    rw [hHosts] at hHosting
    rw [hLogin] at hEmpty
    exact hStale d hHosting hEmpty

section Resolve

variable {login : Logins}
variable {hosts : Hosts}
variable (hSettled : Settled owners login hosts)
variable (hPlanned : Planned login hosts j)
variable (hJournal : w.journal = some j)

include hSettled hPlanned hJournal

/- Nothing has moved: the journal goes. -/
theorem resolve_planned_safe
    (hLogin : w.login = login) (hHosts : w.hosts = hosts)
    (hLedger : ledger.hostOf = w.hosts) :
    Safe owners (SettledAs owners (Stale w))
      (rollBack ledger j (w.login (.live j.dir)).isSome
        (w.login (slot ledger j.dir j.from_)).isSome) w := by
  have hStage : Stage login hosts j w.login w.hosts := by
    rw [hLogin, hHosts]
    exact .planned
  have hInv := recoverable_of_stage hSettled hPlanned hJournal hStage
  have hThere : (w.login (.live j.dir)).isSome =
      j.fromPresent := by rw [hLogin, hPlanned.present]
  have hSlot : slot ledger j.dir j.from_ = slotOf hosts j.dir j.from_ := by
    rw [slot_eq, hLedger, hHosts]
  have hSettle : Safe owners (SettledAs owners (Stale w))
      (settleJournal ledger j) w := by
    apply settleJournal_safe hInv ?_ hLedger
    · intro d hHosting hEmpty
      refine ⟨hHosting, hEmpty, ?_⟩
      intro j' hSame hDir
      rw [hJournal] at hSame
      rw [← Option.some.inj hSame] at hDir ⊢
      rw [← hThere, hDir, hEmpty]
      rfl
    · rw [hLogin, hHosts]
      exact hSettled
  rw [hThere]
  unfold rollBack
  cases hPresent : j.fromPresent with
  | true =>
    rw [hLogin, hSlot, hPlanned.fromSlot_empty hSettled hPresent]
    exact hSettle
  | false => exact hSettle

/- The outgoing login had left: it goes back. -/
theorem resolve_outgone_safe
    (hPresent : j.fromPresent = true)
    (hLogin : w.login = outgone login hosts j) (hHosts : w.hosts = hosts)
    (hLedger : ledger.hostOf = w.hosts) :
    Safe owners (SettledAs owners (Stale w))
      (rollBack ledger j (w.login (.live j.dir)).isSome
        (w.login (slot ledger j.dir j.from_)).isSome) w := by
  have hStage : Stage login hosts j w.login w.hosts := by
    rw [hLogin, hHosts]
    exact .outgone
  have hInv := recoverable_of_stage hSettled hPlanned hJournal hStage
  have hSlot : slot ledger j.dir j.from_ = slotOf hosts j.dir j.from_ := by
    rw [slot_eq, hLedger, hHosts]
  have hEmpty := hPlanned.fromSlot_empty hSettled hPresent
  have hLive := hPlanned.live_dir hSettled hPresent
  have hOut : w.login = moved login (.live j.dir)
      (slotOf hosts j.dir j.from_) := by rw [hLogin, outgone, if_pos hPresent]
  have hBack :
      moved w.login (slot ledger j.dir j.from_) (.live j.dir) = login := by
    rw [hOut, hSlot]
    exact moved_back slotOf_ne_live.symm hEmpty
  have hFrom : w.login (slot ledger j.dir j.from_) = some j.from_ := by
    rw [hOut, hSlot, moved_dst slotOf_ne_live.symm, hLive]
  have hFree : w.login (.live j.dir) = none := by
    rw [hOut]
    exact moved_src
  have hStageAt : Stage login hosts j
      (moved w.login (slot ledger j.dir j.from_) (.live j.dir)) w.hosts := by
    rw [hBack, hHosts]
    exact .planned
  have hInvAt := recoverable_moved hSettled hPlanned hJournal hStageAt
  have hSettledAt : Settled owners
      (moved w.login (slot ledger j.dir j.from_) (.live j.dir)) w.hosts := by
    rw [hBack, hHosts]
    exact hSettled
  unfold rollBack
  rw [hFree, hFrom, hPresent]
  refine moveLogin_safe hInv (by rw [hFrom]; rfl) hFree hInvAt
    ?_ (fun _ _ => trivial) fun _ => trivial
  apply settleJournal_safe hInvAt hSettledAt hLedger
  intro d hHosting hGone
  change (w.hosts d).isSome at hHosting
  change moved w.login _ _ (.live d) = none at hGone
  rw [hBack] at hGone
  have hOther : d ≠ j.dir := by
    rintro rfl
    rw [hLive] at hGone
    cases hGone
  refine ⟨hHosting, ?_, ?_⟩
  · rw [hHosts] at hHosting
    rw [hLogin, outgone_live_of_ne hOther hHosting]
    exact hGone
  · intro j' hSame hDir
    rw [hJournal] at hSame
    rw [← Option.some.inj hSame] at hDir
    exact absurd hDir.symm hOther

/- The incoming login had arrived: the rest is done. -/
theorem resolve_arrived_safe
    (hLogin : w.login = arrived login hosts j)
    (hHosts : w.hosts = hosts ∨ w.hosts = finished hosts j)
    (hLedger : ledger.hostOf = w.hosts) :
    Safe owners (SettledAs owners (Stale w))
      ((finish ledger j).bind fun result =>
        match result with
        | .error e => .ret (.error e)
        | .ok ledger => settleJournal ledger j) w := by
  have hLedgerAt : finished ledger.hostOf j = finished hosts j := by
    rw [hLedger]
    rcases hHosts with hHosts | hHosts
    · rw [hHosts]
    · rw [hHosts, finished_finished]
  have hFinish := finish_safe hSettled hPlanned hJournal hLogin
    hHosts hLedgerAt
  refine Program.Upholds.bind hFinish ?_
  intro result v hResult
  cases result with
  | error e => exact trivial
  | ok l =>
    rcases hResult l rfl with ⟨hAfter, hRecorded⟩
    have hLoginAt : v.login = arrived login hosts j := by
      rw [hAfter]
      exact hLogin
    have hHostsAt : v.hosts = finished hosts j := by
      rw [hAfter]
      exact hRecorded
    have hJournalAt : v.journal = some j := by
      rw [hAfter]
      exact hJournal
    have hStage : Stage login hosts j v.login v.hosts := by
      rw [hLoginAt, hHostsAt]
      exact .recorded
    have hInv := recoverable_of_stage hSettled hPlanned hJournalAt hStage
    have hSettledAt : Settled owners v.login v.hosts := by
      rw [hLoginAt, hHostsAt]
      exact arrived_settled hSettled hPlanned
    apply settleJournal_safe hInv hSettledAt (hRecorded.trans hHostsAt.symm)
    intro d hHosting hEmpty
    rw [hHostsAt] at hHosting
    rw [hLoginAt] at hEmpty
    have hOther : d ≠ j.dir := by
      rintro rfl
      rw [arrived_live_dir hPlanned] at hEmpty
      cases hEmpty
    refine ⟨?_, ?_, ?_⟩
    · rcases hHosts with hHosts | hHosts
      · rw [finished_other_dir hOther] at hHosting
        rw [hHosts]
        exact hHosting
      · rw [hHosts]
        exact hHosting
    · rw [hLogin]
      exact hEmpty
    · intro j' hSame hDir
      rw [hJournal] at hSame
      rw [← Option.some.inj hSame] at hDir
      exact absurd hDir.symm hOther

/- Recovery decides by where the logins are. -/
theorem resolveBy_safe
    (hStage : Stage login hosts j w.login w.hosts)
    (hLedger : ledger.hostOf = w.hosts) :
    Safe owners (SettledAs owners (Stale w))
      (resolveBy ledger j (w.login (.live j.dir)).isSome
        (w.login (slot ledger j.dir j.from_)).isSome
        (w.login (slot ledger j.dir j.to_)).isSome) w := by
  have hSlot : slot ledger j.dir j.to_ = slotOf hosts j.dir j.to_ := by
    rw [slot_eq, hLedger]
    generalize w.login = login' at hStage
    generalize w.hosts = hosts' at hStage
    cases hStage with
    | planned | outgone | arrived => rfl
    | recorded => exact slotOf_finished j
  generalize hLogin : w.login = login' at hStage
  generalize hHosts : w.hosts = hosts' at hStage
  unfold resolveBy
  rw [hSlot]
  cases hStage with
  | planned =>
    have hTo : (w.login (slotOf hosts j.dir j.to_)).isSome := by
      rw [hLogin, hPlanned.incoming]
      rfl
    rw [← hLogin, if_pos hTo]
    exact resolve_planned_safe hSettled hPlanned hJournal
      hLogin hHosts hLedger
  | outgone =>
    have hTo : (w.login (slotOf hosts j.dir j.to_)).isSome := by
      rw [hLogin, hPlanned.outgone_toSlot]
      rfl
    rw [← hLogin, if_pos hTo]
    by_cases hPresent : j.fromPresent
    · exact resolve_outgone_safe hSettled hPlanned hJournal
        hPresent hLogin hHosts hLedger
    · apply resolve_planned_safe hSettled hPlanned hJournal ?_ hHosts hLedger
      rw [hLogin, outgone, if_neg hPresent]
  | arrived =>
    have hTo : arrived login hosts j (slotOf hosts j.dir j.to_) = none :=
      moved_src
    rw [hTo, arrived_live_dir hPlanned]
    exact resolve_arrived_safe hSettled hPlanned hJournal
      hLogin (.inl hHosts) hLedger
  | recorded =>
    have hTo : arrived login hosts j (slotOf hosts j.dir j.to_) = none :=
      moved_src
    rw [hTo, arrived_live_dir hPlanned]
    exact resolve_arrived_safe hSettled hPlanned hJournal
      hLogin (.inr hHosts) hLedger

end Resolve

theorem resolveJournal_safe
    (hInv : w.Recoverable owners) (hJournal : w.journal = some j)
    (hLedger : ledger.hostOf = w.hosts) :
    Safe owners (SettledAs owners (Stale w)) (resolveJournal ledger j) w := by
  have hStages := hInv
  unfold World.Recoverable at hStages
  rw [hJournal] at hStages
  rcases hStages with ⟨login, hosts, hSettled, hPlanned, hStage⟩
  unfold resolveJournal
  split
  next => exact trivial
  next =>
    refine exists_safe hInv ?_
    refine exists_safe hInv ?_
    refine exists_safe hInv ?_
    exact resolveBy_safe hSettled hPlanned hJournal hStage hLedger

-- Returns

/- `dir` hosts nothing, and other hosts are as they were. -/
def ReturnedFrom
    (owners : Set ProfileName) (w : World) (dir : ProfileName) :
    Except SwapError Ledger → World → Prop
| .ok ledger, v =>
  v.journal = none ∧ Settled owners v.login v.hosts ∧
    ledger.hostOf = v.hosts ∧
    v.hosts = Function.update w.hosts dir none ∧
    ∀ d, d ≠ dir → (w.hosts d).isSome → v.login (.live d) = w.login (.live d)
| .error _, _ => True

section Return

variable {scan : Scan}
variable {dir : ProfileName}
variable {host : HostEntry}
variable (hJournal : w.journal = none)
variable (hSettled : Settled owners w.login w.hosts)
variable (hLedger : ledger.hostOf = w.hosts)
variable (hHost : w.hosts dir = some host.live)

include hJournal hSettled

theorem recoverable_of_settled : w.Recoverable owners := by
  unfold World.Recoverable
  rw [hJournal]
  exact hSettled

include hLedger

/- The ledger forgets a host whose directory is empty. -/
theorem unhost_safe
    (hLive : w.login (.live dir) = none)
    (hParked : w.login (.parked dir) = none) :
    Safe owners (ReturnedFrom owners w dir)
      (do
        match ← perform (.saveLedger (unhosted ledger dir)) with
        | .error e => return .error e
        | .ok () => return .ok (unhosted ledger dir)) w := by
  have hHosts : (unhosted ledger dir).hostOf =
      Function.update w.hosts dir none := by rw [hostOf_unhosted, hLedger]
  have hSettledAt : Settled owners w.login (unhosted ledger dir).hostOf := by
    rw [hHosts]
    exact unhosted_settled hSettled hLive hParked
  have hInvAt :
      { w with ledger := some (unhosted ledger dir)
        : World }.Recoverable owners := by
    exact recoverable_of_settled
      (w := { w with ledger := some (unhosted ledger dir) })
      hJournal hSettledAt
  refine saveLedger_safe
    (recoverable_of_settled hJournal hSettled) hInvAt ?_
    (fun _ => trivial) fun _ => trivial
  exact ⟨hJournal, hSettledAt, rfl, hHosts, fun _ _ _ => rfl⟩

include hHost

theorem returnHosted_safe
    (hParked : w.login (.parked dir) = none) :
    Safe owners (ReturnedFrom owners w dir)
      (returnHosted ledger dir host) w := by
  have hInv := recoverable_of_settled hJournal hSettled
  refine exists_safe hInv ?_
  cases hLive : w.login (.live dir) with
  | none => exact unhost_safe hJournal hSettled hLedger hLive hParked
  | some a =>
    have hSame : a = host.live := by
      rw [hSettled.live dir a hLive, account, hHost]
      rfl
    rw [hSame] at hLive
    have hHome : ledger.homeSlot host.live = home w.hosts host.live := by
      rw [homeSlot_eq, hLedger]
    have hSlot : slotOf w.hosts dir host.live = home w.hosts host.live := by
      unfold slotOf
      rw [if_neg (hSettled.other dir _ hHost)]
    have hFree : w.login (ledger.homeSlot host.live) =
        none := by
      rw [hHome, ← hSlot]
      exact hSettled.slot_empty hLive
    have hApart : Place.live dir ≠ ledger.homeSlot host.live := by
      rw [hHome, ← hSlot]
      exact slotOf_ne_live.symm
    have hHomed : Settled owners
        (moved w.login (.live dir) (ledger.homeSlot host.live)) w.hosts := by
      rw [hHome]
      exact homed_settled hSettled hHost hLive
    have hInvAt := recoverable_of_settled
      (w := { w with login := moved w.login (.live dir)
                       (ledger.homeSlot host.live) })
      hJournal hHomed
    refine moveLogin_safe hInv (by rw [hLive]; rfl) hFree
      hInvAt ?_ (fun _ _ => trivial) fun _ => trivial
    have hParkedAt :
        moved w.login (.live dir) (ledger.homeSlot host.live)
          (.parked dir) = none := by
      have hOtherSlot : Place.parked dir ≠ ledger.homeSlot host.live := by
        rw [hHome]
        unfold home
        split
        · intro hSameSlot
          exact hSettled.other dir _ hHost (Place.parked.inj hSameSlot).symm
        · exact parked_ne_live
      rw [moved_other parked_ne_live hOtherSlot]
      exact hParked
    have hUnhosted := unhost_safe
      (w := { w with login := moved w.login (.live dir)
                       (ledger.homeSlot host.live) })
      hJournal hHomed hLedger moved_src hParkedAt
    refine Program.Upholds.mono hUnhosted ?_
    intro result v hResult
    cases result with
    | error e => exact trivial
    | ok l =>
      rcases hResult with ⟨hGone, hSettledAt, hSame, hHosts, hKept⟩
      refine ⟨hGone, hSettledAt, hSame, hHosts, ?_⟩
      intro d hOther hHosting
      rw [hKept d hOther hHosting]
      apply moved_other
      · intro hLiveSame
        exact hOther (Place.live.inj hLiveSame)
      · rw [hHome, ← hSlot]
        exact live_ne_slotOf hHosting

/- A directory that hosts an account returns to its owner. -/
theorem returnDir_safe :
    Safe owners (ReturnedFrom owners w dir)
      (returnDir scan ledger dir host) w := by
  have hInv := recoverable_of_settled hJournal hSettled
  refine exists_safe hInv ?_
  cases hParked : w.login (.parked dir) with
  | none => exact returnHosted_safe hJournal hSettled hLedger hHost hParked
  | some a =>
    refine exists_safe hInv ?_
    have hOwn := hSettled.parked dir a hParked
    rw [hOwn.1] at hParked
    let j := returnJournal scan dir host
      (w.login (.live dir)).isSome
    have hPlanned : Planned w.login w.hosts j :=
      { outgoing := by
          change host.live = account w.hosts dir
          unfold account
          rw [hHost]
          rfl
        apart := (hSettled.other dir _ hHost).symm
        present := rfl
        absent := fun _ => rfl
        incoming := by
          change w.login (slotOf w.hosts dir dir) = _
          rw [slotOf, if_pos rfl]
          exact hParked
        free := fun hMoved => absurd rfl hMoved }
    have hTransfer := transfer_safe hJournal hSettled hPlanned hLedger
    refine Program.Upholds.mono hTransfer ?_
    intro result v hResult
    cases result with
    | error e => exact trivial
    | ok l =>
      rcases hResult with ⟨hGone, hLogin, hHosts, hSame⟩
      have hSettledAt : Settled owners v.login v.hosts := by
        rw [hLogin, hHosts]
        exact arrived_settled hSettled hPlanned
      have hUpdated : finished w.hosts j =
          Function.update w.hosts dir none := by
        unfold finished
        exact congrArg _ (if_pos rfl)
      refine ⟨hGone, hSettledAt, hSame, hHosts.trans hUpdated, ?_⟩
      intro d hOther hHosting
      rw [hLogin]
      exact arrived_live_of_ne hOther hHosting

end Return

-- Recovery

/- Every directory that still hosts an account is live. -/
def Recovered
    (owners : Set ProfileName) (stale : ProfileName → Prop)
    (live : ProfileName → Bool)
    (result : Except SwapError Ledger) (w : World) :
    Prop :=
  SettledAs owners stale result w ∧
    ∀ ledger, result = .ok ledger → ∀ d, (w.hosts d).isSome → live d = true

/- The returns of the entries that are left. -/
theorem returnAll_safe
    {scan : Scan} {entries : List (ProfileName × HostEntry)}
    (hKeys : (entries.map Prod.fst).Nodup)
    (hEntries : ∀ e ∈ entries, w.hosts e.1 = some e.2.live)
    (hLeft : ∀ d, (w.hosts d).isSome →
      scan.live d = true ∨ d ∈ entries.map Prod.fst)
    (hSettledAs : SettledAs owners stale (.ok ledger) w) :
    Safe owners (Recovered owners stale scan.live)
      (returnAll scan entries ledger) w := by
  induction entries generalizing w ledger with
  | nil =>
    refine ⟨hSettledAs, ?_⟩
    intro l _ d hHosting
    rcases hLeft d hHosting with hLive | hMem
    · exact hLive
    · cases hMem
  | cons e rest ih =>
    rcases e with ⟨dir, host⟩
    rw [List.map_cons, List.nodup_cons] at hKeys
    unfold returnAll
    by_cases hLive : scan.live dir
    · rw [if_pos hLive]
      refine ih hKeys.2
        (fun e hMem => hEntries e (List.mem_cons_of_mem _ hMem))
        ?_ hSettledAs
      intro d hHosting
      rcases hLeft d hHosting with hLiveAt | hMem
      · exact .inl hLiveAt
      · rw [List.map_cons, List.mem_cons] at hMem
        rcases hMem with rfl | hMem
        · exact .inl hLive
        · exact .inr hMem
    · rw [if_neg hLive]
      rcases hSettledAs with ⟨hJournal, hSettled, hLedger, hStale⟩
      have hHost : w.hosts dir = some host.live :=
        hEntries (dir, host) List.mem_cons_self
      have hReturn : Safe owners (ReturnedFrom owners w dir)
          (returnDir scan ledger dir host) w :=
        returnDir_safe hJournal hSettled hLedger hHost
      refine Program.Upholds.bind hReturn ?_
      intro result v hResult
      cases result with
      | error e => exact ⟨trivial, nofun⟩
      | ok l =>
        rcases hResult with ⟨hGone, hSettledAt, hSame, hHosts, hKept⟩
        have hOther : ∀ d, (v.hosts d).isSome →
            d ≠ dir ∧ (w.hosts d).isSome := by
          intro d hHosting
          rw [hHosts] at hHosting
          by_cases hDir : d = dir
          · simp [hDir] at hHosting
          · rw [Function.update_of_ne hDir] at hHosting
            exact ⟨hDir, hHosting⟩
        refine ih hKeys.2 ?_ ?_ ⟨hGone, hSettledAt, hSame, ?_⟩
        · intro e hMem
          have hApart : e.1 ≠ dir := by
            intro hSameDir
            have hMemKey : e.1 ∈ rest.map Prod.fst := List.mem_map_of_mem hMem
            rw [hSameDir] at hMemKey
            exact hKeys.1 hMemKey
          rw [hHosts, Function.update_of_ne hApart]
          exact hEntries e (List.mem_cons_of_mem _ hMem)
        · intro d hHosting
          have hOld := hOther d hHosting
          rcases hLeft d hOld.2 with hLiveAt | hMem
          · exact .inl hLiveAt
          · rw [List.map_cons, List.mem_cons] at hMem
            exact .inr (hMem.resolve_left hOld.1)
        · intro d hHosting hEmpty
          have hOld := hOther d hHosting
          apply hStale d hOld.2
          rw [← hKept d hOld.1 hOld.2]
          exact hEmpty

theorem recover_safe
    (scan : Scan) (hInv : w.Recoverable owners) :
    Safe owners (Recovered owners (Stale w) scan.live) (recover scan) w := by
  have hReturn : ∀ l v, SettledAs owners (Stale w) (.ok l) v →
      Safe owners (Recovered owners (Stale w) scan.live)
        (returnAll scan l.hosts.entries l) v := by
    intro l v hSettledAs
    refine returnAll_safe l.hosts.nodupKeys ?_ ?_ hSettledAs
    · intro e hMem
      rw [← hSettledAs.2.2.1]
      unfold Ledger.hostOf
      rw [Dict.get?_of_mem_entries hMem]
      rfl
    · intro d hHosting
      right
      rw [← hSettledAs.2.2.1] at hHosting
      unfold Ledger.hostOf at hHosting
      rw [Option.isSome_map] at hHosting
      by_contra hAbsent
      rw [Dict.get?_eq_none_iff.2 hAbsent] at hHosting
      cases hHosting
  refine loadLedger_safe hInv ?_ fun _ => ⟨trivial, nofun⟩
  refine loadJournal_safe hInv ?_ fun _ => ⟨trivial, nofun⟩
  cases hJournal : w.journal with
  | none =>
    have hSettled := hInv
    unfold World.Recoverable at hSettled
    rw [hJournal] at hSettled
    apply hReturn
    refine ⟨hJournal, hSettled, rfl, ?_⟩
    intro d hHosting hEmpty
    refine ⟨hHosting, hEmpty, ?_⟩
    intro j hSome
    rw [hJournal] at hSome
    cases hSome
  | some j =>
    have hResolve := resolveJournal_safe hInv hJournal
      (show (w.ledger.getD .default).hostOf = w.hosts from rfl)
    change Safe owners _
      ((resolveJournal (w.ledger.getD .default) j).bind
        fun result =>
          match result with
          | .error e => .ret (.error e)
          | .ok l => returnAll scan l.hosts.entries l) w
    refine Program.Upholds.bind hResolve ?_
    intro result v hResult
    cases result with
    | error e => exact ⟨trivial, nofun⟩
    | ok l => exact hReturn l v hResult

-- The swap in a session

/- The profiles found hold a login in their slot. -/
theorem movables_safe
    (owner : ProfileName) (profiles : List ProfileName)
    (hInv : w.Recoverable owners) :
    Safe owners
      (fun found v => v = w ∧
        ∀ p ∈ found, (w.login (slot ledger owner p)).isSome)
      (movables ledger owner profiles) w := by
  induction profiles with
  | nil => exact ⟨rfl, nofun⟩
  | cons p rest ih =>
    refine movableLogin_safe hInv ?_
    intro there hThere
    change Safe owners _
      ((movables ledger owner rest).bind fun others =>
        .ret (if there then p :: others else others)) w
    refine Program.Upholds.bind ih ?_
    rintro others v ⟨rfl, hOthers⟩
    refine ⟨rfl, ?_⟩
    intro q hMem
    cases there with
    | false => exact hOthers q hMem
    | true =>
      rcases List.mem_cons.1 hMem with rfl | hMem
      · exact hThere rfl
      · exact hOthers q hMem

/- The lock goes whether the transfer succeeded or not. -/
theorem releaseAfter_safe
    {dir : ProfileName} {ino : ℕ} {result : Except SwapError Unit}
    (hInv : w.Recoverable owners) :
    Safe owners Anything
      ((releaseRefreshLock dir (some ino)).bind fun _ =>
        .ret result) w := by
  refine aside_safe hInv (releaseRefreshLock_aside _ _) ?_
  intro _ _ _ _ _
  exact trivial

/- What a check has found out before it moves a login. -/
structure Movable
    (w : World) (ledger : Ledger) (owner current target : ProfileName) :
    Prop where
  outgoing : current = account w.hosts owner
  apart : target ≠ current
  present : (w.login (.live owner)).isSome
  incoming : (w.login (slot ledger owner target)).isSome
  free : ∀ d, w.hosts d ≠ some target

section Swap

variable {inputs : SwapInputs}
variable {current target : ProfileName}
variable (hJournal : w.journal = none)
variable (hSettled : Settled owners w.login w.hosts)
variable (hLedger : ledger.hostOf = w.hosts)

include hJournal hSettled hLedger

theorem swapTo_safe
    (hFree : Movable w ledger inputs.owner current target) :
    Safe owners Anything (swapTo inputs ledger current target) w := by
  have hInv := recoverable_of_settled hJournal hSettled
  refine aside_safe hInv (takeRefreshLock_aside _) ?_
  intro reply v hLogin hFile hJournalAt
  have hHosts : v.hosts = w.hosts := by
    unfold World.hosts
    rw [hFile]
  have hGone : v.journal = none := hJournalAt.trans hJournal
  have hSettledAt : Settled owners v.login v.hosts := by
    rw [hLogin, hHosts]
    exact hSettled
  cases reply with
  | none => exact trivial
  | some ino =>
    have hSlot : w.login
        (slotOf w.hosts inputs.owner target) = some target := by
      have hThere := hFree.incoming
      rw [slot_eq, hLedger] at hThere
      rcases Option.isSome_iff_exists.1 hThere with ⟨a, hHeld⟩
      rw [hHeld, hSettled.slot_holds hHeld]
    have hPlanned : Planned v.login v.hosts
        (swapJournal inputs current target ino) := by
      rw [hLogin, hHosts]
      exact
        { outgoing := hFree.outgoing
          apart := hFree.apart
          present := hFree.present.symm
          absent := nofun
          incoming := hSlot
          free := fun _ => hFree.free }
    have hTransfer := transfer_safe hGone hSettledAt hPlanned
      (hLedger.trans hHosts.symm)
    have hKept := Program.Upholds.keeps hTransfer
      (recoverable_of_settled hGone hSettledAt)
    change Safe owners Anything
      ((transfer ledger
          (swapJournal inputs current target ino)).bind
        fun result =>
          (releaseRefreshLock inputs.owner (some ino)).bind
            fun _ =>
              match result with
              | .error e => .ret (Except.error e)
              | .ok _ => .ret (Except.ok ())) v
    refine Program.Upholds.bind hKept ?_
    rintro result u ⟨hInvAt, -⟩
    cases result with
    | error e => exact releaseAfter_safe hInvAt
    | ok l => exact releaseAfter_safe hInvAt

theorem swapFrom_safe
    (hCurrent : current = account w.hosts inputs.owner) :
    Safe owners Anything (swapFrom inputs ledger current) w := by
  have hInv := recoverable_of_settled hJournal hSettled
  refine movableLogin_safe hInv ?_
  intro there hThere
  cases there with
  | false => exact trivial
  | true =>
    have hLive := hThere rfl
    change Safe owners Anything
      (if !inputs.exhausted && !onOverflow inputs.overflow current.text then _
      else _) w
    split
    next => exact trivial
    next =>
      refine Program.Upholds.bind
        (movables_safe inputs.owner inputs.pool.profiles hInv) ?_
      rintro movable v ⟨rfl, hMovable⟩
      split
      next => exact trivial
      next target hSelected =>
        have hAllowed := (chosen_of_selectWithOverflow hSelected).1
        have hEligible := hAllowed.eligible
        simp only [eligible, Bool.and_eq_true,
          Option.isNone_iff_eq_none] at hEligible
        rcases hEligible with ⟨⟨⟨-, hLeased⟩, hContains⟩, -⟩
        rw [leasedTo_eq_none_iff, hLedger] at hLeased
        apply swapTo_safe hJournal hSettled hLedger
        exact
          { outgoing := hCurrent
            apart := fun hSame =>
              hAllowed.other (congrArg ProfileName.text hSame)
            present := hLive
            incoming := hMovable target
              (List.contains_iff_mem.1 hContains)
            free := fun d hHost =>
              hSettled.other d _ hHost (hLeased d hHost).symm }

/- The account that a reading is attributed to is there. -/
omit hJournal hSettled hLedger in
theorem account_of_attribution
    {owner current : ProfileName} {fingerprint : String} {now : ℤ}
    (hAttributed :
      attribution owner (ledger.hosts.get? owner) fingerprint
        now = some current) :
    current = account ledger.hostOf owner := by
  unfold attribution at hAttributed
  unfold account Ledger.hostOf
  cases hHost : ledger.hosts.get? owner with
  | none =>
    rw [hHost] at hAttributed
    exact (Option.some.inj hAttributed).symm
  | some host =>
    rw [hHost] at hAttributed
    dsimp only at hAttributed
    split at hAttributed
    next => cases hAttributed
    next =>
      split at hAttributed
      next => cases hAttributed
      next => exact (Option.some.inj hAttributed).symm

theorem swapIn_safe :
    Safe owners Anything (swapIn inputs ledger) w := by
  unfold swapIn
  split
  next => exact trivial
  next current hAttributed =>
    apply swapFrom_safe hJournal hSettled hLedger
    rw [← hLedger]
    exact account_of_attribution hAttributed

end Swap

/- A swap check leaves the logins recoverable. -/
theorem swapCheck_safe
    (inputs : SwapInputs) (hInv : w.Recoverable owners) :
    Safe owners Anything (swapCheck inputs) w := by
  have hRecover := Program.Upholds.keeps (recover_safe inputs.scan hInv) hInv
  refine Program.Upholds.bind hRecover ?_
  rintro result v ⟨hInvAt, hRecovered, -⟩
  cases result with
  | error e => exact trivial
  | ok l =>
    rcases hRecovered with ⟨hJournal, hSettled, hLedger, -⟩
    refine swapsDisabled_safe hInvAt ?_
    intro disabled
    change Safe owners Anything
      (if !inputs.supported || disabled then _ else _) v
    split
    next => exact trivial
    next =>
      refine loadLedger_safe hInvAt ?_ fun _ => trivial
      exact swapIn_safe hJournal hSettled rfl

end AutoSwitch
