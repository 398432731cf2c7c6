import Amplihack.AutoSwitch.Settled
import Amplihack.Base.Program

/-
  A transfer may stop between any two file operations, and
  recovery settles it.

  One kind of failure is left out: a move that took effect
  but whose sync failed, where `fail` drops the journal of a
  login that has moved.
-/

-- What holds at every moment

namespace AutoSwitch

open Base Profile

def World.hosts (w : World) : Hosts :=
  (w.ledger.getD .default).hostOf

/- Settled, or at a stage of the journal's transfer. -/
def Recoverable
    (owners : Set ProfileName) (login : Logins) (hosts : Hosts) :
    Option Journal → Prop
| none => Settled owners login hosts
| some j =>
  ∃ login₀ hosts₀,
    Settled owners login₀ hosts₀ ∧ Planned login₀ hosts₀ j ∧
      Stage login₀ hosts₀ j login hosts

def World.Recoverable (owners : Set ProfileName) (w : World) :
    Prop :=
  AutoSwitch.Recoverable owners w.login w.hosts w.journal

/-
  No sync fails after the owner's own login left its
  directory, or after the owner's login came back to one
  that no other login had left.
-/
def Synced (w : World) (fault : Fault) (op : FileOp) : Prop :=
  fault = .after → ∀ src dst j, op = .moveLogin src dst →
    w.journal = some j →
      (src = .live j.dir → j.from_ ≠ j.dir) ∧
        (dst = .live j.dir → j.fromPresent = true)

variable {α : Type}
variable {owners : Set ProfileName}
variable {post : α → World → Prop}
variable {w : World}

/- A program keeps the logins recoverable at each operation. -/
def Safe
    (owners : Set ProfileName) (post : α → World → Prop)
    (p : Files α) (w : World) :
    Prop :=
  p.Upholds files (alone (World.Recoverable owners) Synced) post w

-- Single operations

section Operations

variable (hInv : w.Recoverable owners)

include hInv

theorem loadLedger_safe
    {next : Except SwapError Ledger → Files α}
    (hOk : Safe owners post (next (.ok (w.ledger.getD .default))) w)
    (hError : ∀ e, Safe owners post (next (.error e)) w) :
    Safe owners post (.call .loadLedger next) w := by
  apply Program.Upholds.call_alone
  intro fault _
  cases fault with
  | none => exact ⟨hInv, hOk⟩
  | before | unsupported | after => exact ⟨hInv, hError _⟩

theorem loadJournal_safe
    {next : Except SwapError (Option Journal) → Files α}
    (hOk : Safe owners post (next (.ok w.journal)) w)
    (hError : ∀ e, Safe owners post (next (.error e)) w) :
    Safe owners post (.call .loadJournal next) w := by
  apply Program.Upholds.call_alone
  intro fault _
  cases fault with
  | none => exact ⟨hInv, hOk⟩
  | before | unsupported | after => exact ⟨hInv, hError _⟩

variable {dir : ProfileName}
variable {next : Except SwapError Unit → Files α}

theorem ensureParked_safe
    (hOk : Safe owners post (next (.ok ())) w)
    (hError : ∀ e, Safe owners post (next (.error e)) w) :
    Safe owners post (.call (.ensureParked dir) next) w := by
  apply Program.Upholds.call_alone
  intro fault _
  cases fault with
  | none => exact ⟨hInv, hOk⟩
  | before | unsupported | after => exact ⟨hInv, hError _⟩

variable {p : Place}

theorem exists_safe
    {next : Bool → Files α}
    (hNext : Safe owners post (next (w.login p).isSome) w) :
    Safe owners post (.call (.exists_ p) next) w := by
  apply Program.Upholds.call_alone
  intro fault _
  cases fault <;> exact ⟨hInv, hNext⟩

theorem movableLogin_safe
    {next : Bool → Files α}
    (hNext : ∀ there : Bool,
      (there = true → (w.login p).isSome) → Safe owners post (next there) w) :
    Safe owners post (.call (.movableLogin p) next) w := by
  apply Program.Upholds.call_alone
  intro fault _
  have hReply := hNext (files.reply w fault (.movableLogin p))
    (fun hThere => (Bool.and_eq_true_iff.1 hThere).1)
  cases fault <;> exact ⟨hInv, hReply⟩

theorem swapsDisabled_safe
    {next : Bool → Files α}
    (hNext : ∀ disabled, Safe owners post (next disabled) w) :
    Safe owners post (.call (.swapsDisabled dir) next) w := by
  apply Program.Upholds.call_alone
  intro fault _
  cases fault <;> exact ⟨hInv, hNext _⟩

/- An operation on other files than logins and records. -/
theorem aside_safe
    {op : FileOp} {next : Reply op → Files α}
    (hAside : (w.apply op).login = w.login ∧
      (w.apply op).ledger = w.ledger ∧ (w.apply op).journal = w.journal)
    (hNext : ∀ reply v, v.login = w.login →
      v.ledger = w.ledger → v.journal = w.journal →
        Safe owners post (next reply) v) :
    Safe owners post (.call op next) w := by
  rcases hAside with ⟨hLogin, hLedger, hJournal⟩
  have hInvAt : (w.apply op).Recoverable owners := by
    unfold World.Recoverable World.hosts at hInv ⊢
    rw [hLogin, hLedger, hJournal]
    exact hInv
  apply Program.Upholds.call_alone
  intro fault _
  have hApplied := And.intro hInvAt
    (hNext (files.reply w fault op) _ hLogin hLedger hJournal)
  have hKept := And.intro hInv (hNext (files.reply w fault op) w rfl rfl rfl)
  cases fault with
  | none => exact hApplied
  | before | unsupported => exact hKept
  | after => exact hApplied

omit hInv in
theorem takeRefreshLock_aside (dir : ProfileName) :
    (w.apply (.takeRefreshLock dir)).login = w.login ∧
      (w.apply (.takeRefreshLock dir)).ledger = w.ledger ∧
        (w.apply (.takeRefreshLock dir)).journal =
          w.journal := by
  unfold World.apply
  dsimp only
  split <;> exact ⟨rfl, rfl, rfl⟩

omit hInv in
theorem releaseRefreshLock_aside (dir : ProfileName) (ino : ℕ) :
    (w.apply (.releaseRefreshLock dir ino)).login = w.login ∧
      (w.apply (.releaseRefreshLock dir ino)).ledger = w.ledger ∧
        (w.apply (.releaseRefreshLock dir ino)).journal =
          w.journal := by
  unfold World.apply
  dsimp only
  split <;> exact ⟨rfl, rfl, rfl⟩

/- The new content is in place, or the old one still is. -/
theorem saveJournal_safe
    {j : Journal}
    (hSaved : { w with journal := some j : World }.Recoverable owners)
    (hOk : Safe owners post (next (.ok ())) { w with journal := some j })
    (hKept : ∀ e, Safe owners post (next (.error e)) w)
    (hError : ∀ e, Safe owners post (next (.error e))
      { w with journal := some j }) :
    Safe owners post (.call (.saveJournal j) next) w := by
  apply Program.Upholds.call_alone
  intro fault _
  cases fault with
  | none => exact ⟨hSaved, hOk⟩
  | before | unsupported => exact ⟨hInv, hKept _⟩
  | after => exact ⟨hSaved, hError _⟩

theorem deleteJournal_safe
    (hDeleted : { w with journal := none : World }.Recoverable owners)
    (hOk : Safe owners post (next (.ok ())) { w with journal := none })
    (hKept : ∀ e, Safe owners post (next (.error e)) w)
    (hError : ∀ e, Safe owners post (next (.error e))
      { w with journal := none }) :
    Safe owners post (.call .deleteJournal next) w := by
  apply Program.Upholds.call_alone
  intro fault _
  cases fault with
  | none => exact ⟨hDeleted, hOk⟩
  | before | unsupported => exact ⟨hInv, hKept _⟩
  | after => exact ⟨hDeleted, hError _⟩

theorem saveLedger_safe
    {ledger : Ledger}
    (hSaved : { w with ledger := some ledger : World }.Recoverable owners)
    (hOk : Safe owners post (next (.ok ())) { w with ledger := some ledger })
    (hKept : ∀ e, Safe owners post (next (.error e)) w)
    (hError : ∀ e, Safe owners post (next (.error e))
      { w with ledger := some ledger }) :
    Safe owners post (.call (.saveLedger ledger) next) w := by
  apply Program.Upholds.call_alone
  intro fault _
  cases fault with
  | none => exact ⟨hSaved, hOk⟩
  | before | unsupported => exact ⟨hInv, hKept _⟩
  | after => exact ⟨hSaved, hError _⟩

variable {src dst : Place}

/- A move from a full place to an empty one. -/
theorem moveLogin_safe
    {next : Except MoveError Unit → Files α}
    (hSrc : (w.login src).isSome) (hDst : w.login dst = none)
    (hMoved :
      { w with login := moved w.login src dst : World }.Recoverable owners)
    (hOk : Safe owners post (next (.ok ()))
      { w with login := moved w.login src dst })
    (hKept : ∀ e, e ≠ .exists_ → Safe owners post (next (.error e)) w)
    (hError : Synced w .after (.moveLogin src dst) →
      Safe owners post (next (.error .other))
        { w with login := moved w.login src dst }) :
    Safe owners post (.call (.moveLogin src dst) next) w := by
  have hRenamed : w.renamed src dst =
      { w with login := moved w.login src dst } := by
    simp [World.renamed, hSrc, hDst]
  rcases Option.isSome_iff_exists.1 hSrc with ⟨x, hx⟩
  apply Program.Upholds.call_alone
  intro fault hAllows
  cases fault with
  | none =>
    have hReply : files.reply w .none (.moveLogin src dst) =
        (.ok () : Except MoveError Unit) := by
      change moveReply w .none src dst = _
      simp [moveReply, hx, hDst]
    have hAfter : files.after w .none (.moveLogin src dst) =
        { w with login := moved w.login src dst } := hRenamed
    rw [hReply, hAfter]
    exact ⟨hMoved, hOk⟩
  | before | unsupported => exact ⟨hInv, hKept _ (by decide)⟩
  | after =>
    have hReply : files.reply w .after (.moveLogin src dst) =
        (.error .other : Except MoveError Unit) := by
      change moveReply w .after src dst = _
      simp [moveReply, hDst]
    have hAfter : files.after w .after (.moveLogin src dst) =
        { w with login := moved w.login src dst } := hRenamed
    rw [hReply, hAfter]
    exact ⟨hMoved, hError hAllows⟩

/- A move onto a login changes nothing. -/
theorem moveLogin_blocked_safe
    {next : Except MoveError Unit → Files α} (hDst : (w.login dst).isSome)
    (hNext : ∀ e, Safe owners post (next (.error e)) w) :
    Safe owners post (.call (.moveLogin src dst) next) w := by
  have hFull : (w.login dst).isNone = false := by
    rw [Option.isNone_eq_false_iff]
    exact hDst
  have hRenamed : w.renamed src dst = w := by simp [World.renamed, hFull]
  have hReply : ∀ fault, ∃ e, moveReply w fault src dst =
      (.error e : Except MoveError Unit) := by
    intro fault
    cases fault with
    | none =>
      unfold moveReply
      dsimp only
      rw [if_pos hDst]
      split <;> exact ⟨_, rfl⟩
    | before | unsupported => exact ⟨_, rfl⟩
    | after =>
      unfold moveReply
      dsimp only
      split <;> exact ⟨_, rfl⟩
  apply Program.Upholds.call_alone
  intro fault _
  rcases hReply fault with ⟨e, hMove⟩
  have hAfter : files.after w fault (.moveLogin src dst) = w := by
    cases fault with
    | none => exact hRenamed
    | before | unsupported => rfl
    | after => exact hRenamed
  have hSame : files.reply w fault (.moveLogin src dst) =
      (.error e : Except MoveError Unit) := hMove
  rw [hAfter, hSame]
  exact ⟨hInv, hNext e⟩

end Operations

-- Failed moves

/- A run that failed promises nothing more. -/
def Anything {α : Type} (_ : α) (_ : World) : Prop :=
  True

theorem recoverable_phase
    {login : Logins} {hosts : Hosts} {j : Journal} (phase : String)
    (hInv : Recoverable owners login hosts (some j)) :
    Recoverable owners login hosts (some { j with phase := phase }) := by
  rcases hInv with ⟨login₀, hosts₀, hSettled, hPlanned, hStage⟩
  refine ⟨login₀, hosts₀, hSettled,
    ⟨hPlanned.outgoing, hPlanned.apart, hPlanned.present,
      hPlanned.absent, hPlanned.incoming, hPlanned.free⟩, ?_⟩
  cases hStage with
  | planned => exact .planned
  | outgone => exact .outgone
  | arrived => exact .arrived
  | recorded => exact .recorded

variable {j : Journal}

theorem freeze_safe
    (why : SwapError) (hInv : w.Recoverable owners)
    (hJournal : w.journal = some j) :
    Safe owners Anything (freeze j why) w := by
  refine saveJournal_safe hInv ?_ trivial (fun _ => trivial) fun _ => trivial
  unfold World.Recoverable at hInv ⊢
  rw [hJournal] at hInv
  exact recoverable_phase _ hInv

/- Where the logins are settled the journal may go. -/
theorem abandon_safe
    (e : MoveError) (hInv : w.Recoverable owners)
    (hSettled : Settled owners w.login w.hosts) :
    Safe owners Anything (abandon j e) w := by
  cases e with
  | exists_ | other =>
    exact deleteJournal_safe hInv hSettled trivial
      (fun _ => trivial) fun _ => trivial
  | unsupported =>
    refine aside_safe hInv ⟨rfl, rfl, rfl⟩ ?_
    intro reply v hLogin hLedger hJournal
    have hInvAt : v.Recoverable owners := by
      unfold World.Recoverable World.hosts at hInv ⊢
      rw [hLogin, hLedger, hJournal]
      exact hInv
    refine deleteJournal_safe hInvAt ?_ trivial
      (fun _ => trivial) fun _ => trivial
    change Settled owners v.login v.hosts
    unfold World.hosts at hSettled ⊢
    rw [hLogin, hLedger]
    exact hSettled

theorem fail_safe
    {e : MoveError} (hError : e ≠ .exists_) (hInv : w.Recoverable owners)
    (hSettled : Settled owners w.login w.hosts) :
    Safe owners Anything (fail j e []) w := by
  unfold fail
  rw [if_neg hError]
  exact abandon_safe e hInv hSettled

-- A transfer

section Transfer

variable {login : Logins}
variable {hosts : Hosts}
variable {ledger : Ledger}
variable (hSettled : Settled owners login hosts)
variable (hPlanned : Planned login hosts j)

include hSettled hPlanned

/- The files of a stage of the journal's transfer. -/
theorem recoverable_of_stage
    (hJournal : w.journal = some j)
    (hStage : Stage login hosts j w.login w.hosts) :
    w.Recoverable owners := by
  unfold World.Recoverable
  rw [hJournal]
  exact ⟨login, hosts, hSettled, hPlanned, hStage⟩

theorem recoverable_moved
    {login' : Logins} (hJournal : w.journal = some j)
    (hStage : Stage login hosts j login' w.hosts) :
    { w with login := login' : World }.Recoverable owners :=
  recoverable_of_stage hSettled hPlanned
    (w := { w with login := login' }) hJournal hStage

/- What a transfer that succeeded has done. -/
def Transferred
    (login : Logins) (hosts : Hosts) (j : Journal) :
    Except SwapError Ledger → World → Prop
| .ok ledger, w =>
  w.journal = none ∧ w.login = arrived login hosts j ∧
    w.hosts = finished hosts j ∧ ledger.hostOf = w.hosts
| .error _, _ => True

omit hSettled hPlanned in
/- A transfer that reports why it failed. -/
theorem reported_safe
    {p : Files SwapError} (hReason : Safe owners Anything p w) :
    Safe owners (Transferred login hosts j)
      (p.bind fun why => .ret (.error why)) w :=
  Program.Upholds.bind hReason fun _ _ _ => trivial

/- The ledger is written once the logins have moved. -/
theorem finish_safe
    (hJournal : w.journal = some j) (hLogin : w.login = arrived login hosts j)
    (hHosts : w.hosts = hosts ∨ w.hosts = finished hosts j)
    (hLedger : finished ledger.hostOf j = finished hosts j) :
    Safe owners
      (fun result v =>
        ∀ l, result = .ok l →
          v = { w with ledger := some l } ∧ l.hostOf = finished hosts j)
      (finish ledger j) w := by
  have hInv : w.Recoverable owners := by
    apply recoverable_of_stage hSettled hPlanned hJournal
    rcases hHosts with hHosts | hHosts
    · rw [hLogin, hHosts]
      exact .arrived
    · rw [hLogin, hHosts]
      exact .recorded
  have hRecorded : (ledger.finished j).hostOf = finished hosts j := by
    rw [hostOf_finished, hLedger]
  refine saveLedger_safe hInv ?_ ?_ (fun _ => nofun) fun _ => nofun
  · have hStage : Stage login hosts j w.login (ledger.finished j).hostOf := by
      rw [hLogin, hRecorded]
      exact .recorded
    exact recoverable_of_stage hSettled hPlanned
      (w := { w with ledger := some (ledger.finished j) })
      hJournal hStage
  · intro l hOk
    cases hOk
    exact ⟨rfl, hRecorded⟩

theorem finishTransfer_safe
    (hJournal : w.journal = some j)
    (hLogin : w.login = arrived login hosts j) (hHosts : w.hosts = hosts)
    (hLedger : ledger.hostOf = hosts) :
    Safe owners (Transferred login hosts j) (finishTransfer ledger j) w := by
  have hFinish := finish_safe hSettled hPlanned hJournal hLogin
    (.inl hHosts) (congrArg (finished · j) hLedger)
  refine Program.Upholds.bind hFinish ?_
  intro result v hResult
  cases result with
  | error e => exact trivial
  | ok l =>
    rcases hResult l rfl with ⟨hAfter, hRecorded⟩
    have hLoginAt : v.login = arrived login hosts j := by
      rw [hAfter]
      exact hLogin
    have hHostsAt : v.hosts = finished hosts j := by
      rw [hAfter]
      exact hRecorded
    have hJournalAt : v.journal = some j := by
      rw [hAfter]
      exact hJournal
    have hStage : Stage login hosts j v.login v.hosts := by
      rw [hLoginAt, hHostsAt]
      exact .recorded
    have hDone : Settled owners v.login v.hosts := by
      rw [hLoginAt, hHostsAt]
      exact arrived_settled hSettled hPlanned
    refine deleteJournal_safe
      (recoverable_of_stage hSettled hPlanned hJournalAt
        hStage) hDone ?_ (fun _ => trivial) fun _ => trivial
    exact ⟨rfl, hLoginAt, hHostsAt, hRecorded.trans hHostsAt.symm⟩

/- The incoming login did not move: the other goes back. -/
theorem failIn_safe
    {e : MoveError} (hError : e ≠ .exists_) (hJournal : w.journal = some j)
    (hLogin : w.login = outgone login hosts j) (hHosts : w.hosts = hosts)
    (hLedger : ledger.hostOf = hosts) :
    Safe owners Anything
      (fail j e
        (if j.fromPresent then
          [(slot ledger j.dir j.from_, .live j.dir)]
        else [])) w := by
  have hStage : Stage login hosts j w.login w.hosts := by
    rw [hLogin, hHosts]
    exact .outgone
  have hInv := recoverable_of_stage hSettled hPlanned hJournal hStage
  have hSlot : slot ledger j.dir j.from_ = slotOf hosts j.dir j.from_ := by
    rw [slot_eq, hLedger]
  by_cases hPresent : j.fromPresent
  · rw [if_pos hPresent, hSlot]
    have hEmpty := hPlanned.fromSlot_empty hSettled hPresent
    have hOut : w.login = moved login (.live j.dir)
        (slotOf hosts j.dir j.from_) := by
      rw [hLogin, outgone, if_pos hPresent]
    have hBack :
        moved w.login (slotOf hosts j.dir j.from_) (.live j.dir) = login := by
      rw [hOut]
      exact moved_back slotOf_ne_live.symm hEmpty
    have hThere : (w.login (slotOf hosts j.dir j.from_)).isSome := by
      rw [hOut, moved_dst slotOf_ne_live.symm,
        hPlanned.live_dir hSettled hPresent]
      rfl
    have hFree : w.login (.live j.dir) = none := by
      rw [hOut]
      exact moved_src
    have hSettledAt : Settled owners
        (moved w.login (slotOf hosts j.dir j.from_)
          (.live j.dir)) w.hosts := by
      rw [hBack, hHosts]
      exact hSettled
    have hStageAt : Stage login hosts j
        (moved w.login (slotOf hosts j.dir j.from_)
          (.live j.dir)) w.hosts := by
      rw [hBack, hHosts]
      exact .planned
    have hInvAt := recoverable_moved hSettled hPlanned hJournal hStageAt
    unfold fail
    rw [if_neg hError]
    refine moveLogin_safe hInv hThere hFree hInvAt ?_ ?_ ?_
    · exact abandon_safe e hInvAt hSettledAt
    · intro _ _
      exact freeze_safe _ hInv hJournal
    · intro _
      exact freeze_safe _ hInvAt hJournal
  · rw [if_neg hPresent]
    apply fail_safe hError hInv
    rw [hLogin, hHosts, outgone, if_neg hPresent]
    exact hSettled

/- The incoming login moved, but its sync failed: freeze. -/
theorem failedSync_safe
    (hPresent : j.fromPresent = true) (hJournal : w.journal = some j)
    (hLogin : w.login = arrived login hosts j)
    (hHosts : w.hosts = hosts) (ledger : Ledger) :
    Safe owners Anything
      (fail j .other
        (if j.fromPresent then
          [(slot ledger j.dir j.from_, .live j.dir)]
        else [])) w := by
  have hStage : Stage login hosts j w.login w.hosts := by
    rw [hLogin, hHosts]
    exact .arrived
  have hInv := recoverable_of_stage hSettled hPlanned hJournal hStage
  have hFull : (w.login (.live j.dir)).isSome := by
    rw [hLogin, arrived_live_dir hPlanned]
    rfl
  rw [if_pos hPresent]
  exact moveLogin_blocked_safe hInv hFull fun _ => freeze_safe _ hInv hJournal

theorem moveIn_safe
    (hJournal : w.journal = some j)
    (hLogin : w.login = outgone login hosts j) (hHosts : w.hosts = hosts)
    (hLedger : ledger.hostOf = hosts) :
    Safe owners (Transferred login hosts j) (moveIn ledger j) w := by
  have hStage : Stage login hosts j w.login w.hosts := by
    rw [hLogin, hHosts]
    exact .outgone
  have hInv := recoverable_of_stage hSettled hPlanned hJournal hStage
  have hSlot : slot ledger j.dir j.to_ = slotOf hosts j.dir j.to_ := by
    rw [slot_eq, hLedger]
  have hArrived :
      moved w.login (slot ledger j.dir j.to_) (.live j.dir) =
        arrived login hosts j := by
    rw [hLogin, hSlot]
    rfl
  have hThere : (w.login (slot ledger j.dir j.to_)).isSome := by
    rw [hLogin, hSlot, hPlanned.outgone_toSlot]
    rfl
  have hFree : w.login (.live j.dir) = none := by
    rw [hLogin]
    exact hPlanned.outgone_live
  refine moveLogin_safe hInv hThere hFree ?_ ?_ ?_ ?_
  · apply recoverable_moved hSettled hPlanned hJournal
    rw [hArrived, hHosts]
    exact .arrived
  · exact finishTransfer_safe hSettled hPlanned hJournal
      hArrived hHosts hLedger
  · intro e hError
    have hReported := failIn_safe hSettled hPlanned hError
      hJournal hLogin hHosts hLedger
    exact reported_safe hReported
  · intro hSynced
    have hPresent := (hSynced rfl _ _ j rfl hJournal).2 rfl
    let login' := moved w.login (slot ledger j.dir j.to_)
      (.live j.dir)
    have hReported := failedSync_safe hSettled hPlanned
      hPresent (w := { w with login := login' })
      hJournal hArrived hHosts ledger
    exact reported_safe hReported

theorem moveOut_safe
    (hJournal : w.journal = some j) (hLogin : w.login = login)
    (hHosts : w.hosts = hosts) (hLedger : ledger.hostOf = hosts) :
    Safe owners (Transferred login hosts j) (moveOut ledger j) w := by
  have hStage : Stage login hosts j w.login w.hosts := by
    rw [hLogin, hHosts]
    exact .planned
  have hInv := recoverable_of_stage hSettled hPlanned hJournal hStage
  have hSettledAt : Settled owners w.login w.hosts := by
    rw [hLogin, hHosts]
    exact hSettled
  have hSlot : slot ledger j.dir j.from_ = slotOf hosts j.dir j.from_ := by
    rw [slot_eq, hLedger]
  unfold moveOut
  by_cases hPresent : j.fromPresent
  · rw [if_pos hPresent]
    have hOut :
        moved w.login (.live j.dir) (slot ledger j.dir j.from_) =
          outgone login hosts j := by
      rw [hLogin, hSlot, outgone, if_pos hPresent]
    have hLive := hPlanned.live_dir hSettled hPresent
    have hThere : (w.login (.live j.dir)).isSome := by
      rw [hLogin, hLive]
      rfl
    have hFree : w.login (slot ledger j.dir j.from_) = none := by
      rw [hLogin, hSlot]
      exact hPlanned.fromSlot_empty hSettled hPresent
    have hStageAt : Stage login hosts j
        (moved w.login (.live j.dir)
          (slot ledger j.dir j.from_)) w.hosts := by
      rw [hOut, hHosts]
      exact .outgone
    have hInvAt := recoverable_moved hSettled hPlanned hJournal hStageAt
    refine moveLogin_safe hInv hThere hFree hInvAt ?_ ?_ ?_
    · exact moveIn_safe hSettled hPlanned hJournal hOut hHosts hLedger
    · intro e hError
      have hReported := fail_safe (j := j) hError hInv hSettledAt
      exact reported_safe hReported
    · intro hSynced
      have hBorrowed := (hSynced rfl _ _ j rfl hJournal).1 rfl
      have hHost : hosts j.dir = some j.from_ := by
        have hAccount := hPlanned.outgoing
        unfold account at hAccount
        cases hHosted : hosts j.dir with
        | none =>
          rw [hHosted] at hAccount
          exact absurd hAccount hBorrowed
        | some x =>
          rw [hHosted] at hAccount
          rw [hAccount]
          rfl
      have hHome : slot ledger j.dir j.from_ = home hosts j.from_ := by
        rw [hSlot, slotOf, if_neg hBorrowed]
      have hHomed : Settled owners
          (moved w.login (.live j.dir)
            (slot ledger j.dir j.from_)) w.hosts := by
        rw [hLogin, hHosts, hHome]
        exact homed_settled hSettled hHost hLive
      have hReported : Safe owners Anything (fail j .other []) _ :=
        fail_safe (by decide) hInvAt hHomed
      exact reported_safe hReported
  · rw [if_neg hPresent]
    apply moveIn_safe hSettled hPlanned hJournal ?_ hHosts hLedger
    rw [hLogin, outgone, if_neg hPresent]

end Transfer

/- A transfer from settled files. -/
theorem transfer_safe
    {ledger : Ledger} (hJournal : w.journal = none)
    (hSettled : Settled owners w.login w.hosts)
    (hPlanned : Planned w.login w.hosts j)
    (hLedger : ledger.hostOf = w.hosts) :
    Safe owners (Transferred w.login w.hosts j) (transfer ledger j) w := by
  have hInv : w.Recoverable owners := by
    unfold World.Recoverable
    rw [hJournal]
    exact hSettled
  let j' := { j with phase := "J0" }
  have hPlannedAt : Planned w.login w.hosts j' :=
    ⟨hPlanned.outgoing, hPlanned.apart, hPlanned.present,
      hPlanned.absent, hPlanned.incoming, hPlanned.free⟩
  have hInvAt :
      { w with journal := some j' : World }.Recoverable
        owners := recoverable_of_stage hSettled hPlannedAt rfl .planned
  refine ensureParked_safe hInv ?_ fun _ => trivial
  refine saveJournal_safe hInv hInvAt ?_ (fun _ => trivial) fun _ => trivial
  exact moveOut_safe hSettled hPlannedAt rfl rfl rfl hLedger

end AutoSwitch
