import Amplihack.Base.Calendar
import Amplihack.Rotate.Ledger
import Mathlib.Data.List.Dedup

/-
  What one cycle writes into the ledger.
-/

-- Logins With No Room

namespace Rotate

open Base Profile

/- The live login's probe, and the others' by name. -/
abbrev Probes : Type := Probed × List (ProfileName × Probed)

namespace NoRoom

/- The names of the logins measured with no room. -/
def names
    (live : Option ProfileName) (reading : Reading)
    (others : List (ProfileName × Reading)) (platform : Option ProfileName) :
    List String :=
  (((live.map fun n => (n, reading)).toList ++ others).filter
    fun e => some e.1 ≠ platform && !e.2.isFailed &&
      !hasRoom e.2).map (·.1.text)

/- Two intervals, or the limit when they do not fit. -/
def spanOf (interval : ℕ) : ℤ :=
  let twice := min (2 * interval) (UInt64.size - 1)
  if (twice : ℤ) ≤ i64Max then twice else maxSecs

/- The record of a cycle, written at `written`. -/
def ofCycle
    (live : Option ProfileName) (reading : Reading)
    (others : List (ProfileName × Reading))
    (platform : Option ProfileName) (at_ written : Int64) (interval : ℕ) :
    NoRoom :=
  let written := if written < at_ then at_ else written
  let late := saturatingAdd
    (saturatingAdd written.toInt (spanOf interval))
    (written - at_).toInt
  { at_
    until_ := .ofInt
      (min late (saturatingAdd at_.toInt maxSecs))
    profiles :=
      ((names live reading others platform).insertionSort (· ≤ ·)).dedup }

/- When a login with this reading has room again. -/
def roomBack (r : Reading) (w : Windows) : Option ℤ :=
  match r with
  | .failed => none
  | .measured session week => back (some session) (some week)
  | .exhausted _ _ =>
    back (w.session.map Win.used) (w.week.map Win.used)
where
  back (sessionUsed weekUsed : Option Float) : Option ℤ :=
    let full := fun used : Option Float =>
      used.any fun u => !room u 0
    let sessionReset := w.session.bind Win.resetsAt
    let weekReset := w.week.bind Win.resetsAt
    match full sessionUsed, full weekUsed with
    | true, false => sessionReset
    | false, true => weekReset
    | true, true => laterReset sessionReset weekReset
    | false, false => none

/- The record ended at the earliest known reset it names. -/
def untilReset
    (r : NoRoom) (probes : List (ProfileName × Reading × Windows)) :
    NoRoom :=
  let named := probes.filter fun p =>
    r.profiles.contains p.1.text
  match (named.filterMap fun p => roomBack p.2.1 p.2.2).min? with
  | none => r
  | some back =>
    { r with
      until_ := .ofInt
        (min r.until_.toInt (max back r.at_.toInt)) }

/- The readings recorded, with the windows that were probed. -/
def seen
    (name : Option ProfileName) (live : Reading)
    (others : List (ProfileName × Reading)) :
    Option Probes → List (ProfileName × Reading × Windows)
| none => []
| some (probe, probes) =>
  (name.map fun n => (n, live, probe.windows)).toList ++
    probes.map fun p =>
      let reading :=
        ((others.find? fun o => o.1 = p.1).map Prod.snd).getD p.2.reading
      (p.1, reading, p.2.windows)

/- What a measuring cycle records. -/
def record
    (l : Ledger) (interval : ℕ)
    (name platform : Option ProfileName) (live : Reading)
    (others : List (ProfileName × Reading))
    (probed : Option Probes) (at_ now : Int64) :
    Ledger :=
  let rec_ :=
    ofCycle name live others platform at_ now interval
  { l with
    noRoom := some (untilReset rec_ (seen name live others probed)) }

end NoRoom

-- Swap-Back Damping

/- When a probe was read; none for one that is no evidence. -/
def readAt (p : Probed) (measuredAt : ℤ) : Option ℤ :=
  if p.carried || p.stillRunning || p.unknown ||
      p.reading.isFailed then none
  else some (p.observedAt.getD measuredAt)

namespace SwapBack

/- An entry older than the weekly window is dropped. -/
def maxAgeSecs : ℤ := 7 * 86400

/- Exhausted, or at a threshold; a failure is unknown. -/
def full (r : Reading) (s : Settings) : Bool :=
  match r with
  | .exhausted _ _ => true
  | .measured session week =>
    Float.ofNat s.sessionAt.val ≤ session || Float.ofNat s.weekAt.val ≤ week
  | .failed => false

/- Measured below both thresholds. -/
def hasSlack (r : Reading) (s : Settings) : Bool :=
  match r with
  | .measured _ _ => !full r s
  | _ => false

/- Drop what is too old, then the oldest beyond sixteen. -/
def prune (map : Dict String Int64) (now : ℤ) :
    Dict String Int64 :=
  cap (map.retain fun _ t =>
    saturatingSub now t.toInt ≤ maxAgeSecs)

/- Lift the entry of a login that a later reading shows room for. -/
def lift
    (s : Settings) (measuredAt : ℤ) (acc : Dict String Int64 × List String)
    (p : ProfileName × Probed) :
    Dict String Int64 × List String :=
  match acc.1.get? p.1.text with
  | none => acc
  | some t =>
    let later :=
      (readAt p.2 measuredAt).any fun r => t.toInt < r
    if later && hasSlack p.2.reading s then
      (acc.1.remove p.1.text, acc.2 ++
        [s!"damp: {p.1.text} later reading shows room; " ++
          "swap-back allowed"])
    else acc

/- The record step's update, with its lines. -/
def update
    (l : Ledger) (s : Settings) (live : Option ProfileName)
    (probes : Option Probes)
    (left : Option (ProfileName × Reading)) (measuredAt : ℤ) (now : Int64) :
    Ledger × List String :=
  let named :=
    match probes with
    | none => []
    | some (probe, others) =>
      (live.map fun n => (n, probe)).toList ++ others
  let lifted :=
    named.foldl (lift s measuredAt) (l.swappedAway, [])
  let recorded :=
    match left with
    | some (source, reading) =>
      if full reading s then
        lifted.1.insert source.text now
      else lifted.1
    | none => lifted.1
  ({ l with swappedAway := prune recorded now.toInt }, lifted.2)

end SwapBack

-- Spend Blocks

/- The days from the first of January of year 1 to the epoch. -/
def epochDay : ℤ := 719162

/- The first of the next month; `t` itself outside the calendar. -/
def spendReset (t : Int64) : Int64 :=
  let day := t.toInt / 86400 + epochDay
  let next := Calendar.nextMonthStart day
  if -262143 ≤ Calendar.yearOf day ∧
      Calendar.yearOf day ≤ 262142 ∧
      Calendar.yearOf next ≤ 262142 then
    .ofInt ((next - epochDay) * 86400)
  else t

/- A spend-limit block recorded at `t`. -/
def OverflowBlock.spendLimit (t : Int64) : OverflowBlock where
  at_ := t
  until_ := spendReset t
  reason := spendLimitReason

/- Drop the blocks that have ended, the API key's included. -/
def pruneBlocks (l : Ledger) (now : ℤ) : Ledger :=
  { l with
    overflowBlocked := l.overflowBlocked.retain fun _ b =>
      now < b.until_.toInt
    platformBlock := l.platformBlock.filter fun b =>
      now < b.until_.toInt }

/- One profile's new block; whether the ledger changed. -/
def blockOne (t : Int64) (acc : Ledger × Bool)
    (n : ProfileName) :
    Ledger × Bool :=
  if active acc.1.overflowBlocked n t.toInt then acc
  else
    let l := pruneBlocks acc.1 t.toInt
    let block := OverflowBlock.spendLimit t
    if maxBlocks ≤ l.overflowBlocked.entries.length then
      (l, acc.2)
    else if block.until_ ≤ block.at_ then (l, acc.2)
    else
      ({ l with
        overflowBlocked :=
          l.overflowBlocked.insert n.text block }, true)

/- Blocks for the names that have no active one. -/
def blockWith
    (l : Ledger) (names : List ProfileName) (t : Int64) :
    Ledger × Bool :=
  names.foldl (blockOne t) (l, false)

-- Who Is Live

/- An account as the server reports it. -/
structure Account where
  uuid : Option String
  org : Option String
  email : Option String

namespace Account

/- The value stored in the ledger: the uuid, else the e-mail. -/
def key (a : Account) : String :=
  (a.uuid.or a.email).getD ""

/- The provenance stored in the ledger, its keys in order. -/
def identity (a : Account) : Identity where
  block := .obj (
    Json.unlessNone "accountUuid" .str a.uuid ++
    Json.unlessNone "emailAddress" .str a.email ++
    Json.unlessNone "organizationUuid" .str a.org)
  notNull := rfl

end Account

/- Neither alert is set. -/
def clearAlert (l : Ledger) : Ledger :=
  { l with alert := none, advisoryAlert := none }

/- The ledger's part of completing a swap. -/
def finish
    (l : Ledger) (source target : ProfileName)
    (startedAt : Int64) (incoming : Option Account) (platform : Bool) :
    Ledger :=
  clearAlert
    { l with
      live := some target.text
      previous := some source.text
      account := incoming.map Account.key
      loginIdentity := incoming.map Account.identity
      liveKind := if platform then some liveKindPlatform
        else none
      since := some startedAt
      swappedAt := some startedAt }

/- What a stay or an alert records about a known live profile. -/
def noteLive
    (l : Ledger) (n : ProfileName) (platformLive : Bool)
    (account : Option String) (t : Int64) :
    Ledger :=
  if !platformLive && account.isNone then l
  else
    let account := if platformLive then none else account
    let same : Bool := l.live = some n.text
    let l' := if same then l
      else { l with live := some n.text, since := some t }
    let l'' :=
      if !same || l'.account.isNone || account.isNone then
        { l' with account, loginIdentity := none }
      else l'
    { l'' with
      liveKind := if platformLive then some liveKindPlatform
        else none }

-- Alerts

/- The longest start of `cs` within `limit` bytes. -/
def takeBytes (limit : ℕ) : List Char → List Char
| [] => []
| c :: cs =>
  if limit < c.utf8Size then []
  else c :: takeBytes (limit - c.utf8Size) cs

/- The kind of a refusal: its reason, made short. -/
def refusalKind (reason : String) : String :=
  "refused " ++ String.ofList (takeBytes 192
    (reason.toList.filter fun c => !isControl c))

/- What a cycle ends on an alert for. -/
inductive AlertKind where
| autoSwitch
| inconsistent
| accountMismatch
| trustedIdentity
| sameAccount
| noLogin
| handChange
| homeUnreadable
| ambiguous
| keyHeld
| platformBlocked
| noCapacity
| keyCheck
| noOauth
| refused (reason : String)

def AlertKind.text : AlertKind → String
| .autoSwitch => "auto-switch"
| .inconsistent => "inconsistent"
| .accountMismatch => "account_mismatch"
| .trustedIdentity => "trusted-identity"
| .sameAccount => "same-account"
| .noLogin => "no-login"
| .handChange => "hand-change"
| .homeUnreadable => "home-unreadable"
| .ambiguous => "ambiguous"
| .keyHeld => "key-held"
| .platformBlocked => "platform-blocked"
| .noCapacity => "no-capacity"
| .keyCheck => "key_check"
| .noOauth => "no_oauth"
| .refused reason => refusalKind reason

def alertKey (kind : String) (live : Option ProfileName) :
    String :=
  kind ++ ":" ++ (live.map (·.text)).getD "-"

/- One of the two alert fields holds the key. -/
def holds (l : Ledger) (key : String) : Bool :=
  l.alert = some key || l.advisoryAlert = some key

/- Store the key; whether it is new. -/
def shouldAlert (l : Ledger) (key : String) : Ledger × Bool :=
  ({ l with alert := some key, advisoryAlert := none }, !holds l key)

def shouldAlertAdvisory (l : Ledger) (key : String) :
    Ledger × Bool :=
  ({ l with advisoryAlert := some key, alert := none }, !holds l key)

-- How A Cycle Ends

inductive CycleOutcome where
| swapped
| stayed
| stayedUnread
| alerted
| skipped
| held
| stopped
deriving DecidableEq

def CycleOutcome.asStr : CycleOutcome → String
| .swapped => "swapped"
| .stayed => "stayed"
| .stayedUnread => "stayed-unread"
| .alerted => "alerted"
| .skipped => "skipped"
| .held => "held"
| .stopped => "stopped"

/- The cycle's end, its overflow tag, and no expired block. -/
def recordCycle
    (l : Ledger) (outcome : CycleOutcome) (t : Int64)
    (measuredAt : Option Int64) (tag : Option Tag) :
    Ledger :=
  pruneBlocks
    { l with
      lastCycle := some
        { at_ := t
          measuredAt
          outcome := outcome.asStr
          overflow := tag.map Tag.asStr } }
    t.toInt

-- Updates

/- One change a cycle makes to the ledger before saving it. -/
inductive Update where
| noRoom
    (interval : ℕ)
    (name platform : Option ProfileName)
    (live : Reading)
    (others : List (ProfileName × Reading))
    (probed : Option Probes)
    (at_ now : Int64)
| swapBack
    (s : Settings)
    (live : Option ProfileName)
    (probes : Option Probes)
    (left : Option (ProfileName × Reading))
    (measuredAt : ℤ)
    (now : Int64)
| spendBlocks (names : List ProfileName) (t : Int64)
| finish
    (source target : ProfileName)
    (startedAt : Int64)
    (incoming : Option Account)
    (platform : Bool)
| noteLive
    (n : ProfileName)
    (platformLive : Bool)
    (account : Option String)
    (t : Int64)
| alert (kind : AlertKind) (live : Option ProfileName)
| advisory (live : Option ProfileName)
| clearAlert
| endCycle
    (outcome : CycleOutcome)
    (t : Int64)
    (measuredAt : Option Int64)
    (tag : Option Tag)

/- The ledger after one change. -/
def Update.apply (l : Ledger) : Update → Ledger
| .noRoom interval name platform live others probed at_ now =>
  NoRoom.record l interval name platform live others probed at_ now
| .swapBack s live probes left measuredAt now =>
  (SwapBack.update l s live probes left measuredAt now).1
| .spendBlocks names t => (blockWith l names t).1
| .finish source target startedAt incoming platform =>
  Rotate.finish l source target startedAt incoming platform
| .noteLive n platformLive account t =>
  Rotate.noteLive l n platformLive account t
| .alert kind live =>
  (shouldAlert l (alertKey kind.text live)).1
| .advisory live =>
  (shouldAlertAdvisory l (alertKey AlertKind.noCapacity.text live)).1
| .clearAlert => Rotate.clearAlert l
| .endCycle outcome t measuredAt tag =>
  recordCycle l outcome t measuredAt tag

end Rotate
