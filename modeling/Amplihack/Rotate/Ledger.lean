import Amplihack.Base.Json.Record
import Amplihack.Base.Json.RoundTrip
import Amplihack.Rotate.Overflow

/-
  The rotate ledger: what it holds, its text, and the checks
  its loader makes.
-/

-- Fields

namespace Rotate

open Base Profile

/- How a cycle ended. -/
structure LastCycle where
  at_ : Int64
  measuredAt : Option Int64
  outcome : String
  overflow : Option String

/- The first reading that another profile's login is live. -/
structure HandSuspect where
  profile : String
  firstSeen : Int64

/- The logins a cycle measured with no room. -/
structure NoRoom where
  at_ : Int64
  until_ : Int64
  profiles : List String

/- An account's provenance: any JSON value but null. -/
structure Identity where
  block : Json
  notNull : block.isNull = false

structure Ledger where
  version : UInt32
  live : Option String
  account : Option String
  loginIdentity : Option Identity
  since : Option Int64
  swappedAt : Option Int64
  previous : Option String
  alert : Option String
  advisoryAlert : Option String
  lastCycle : Option LastCycle
  overflowBlocked : Dict String OverflowBlock
  guidance : Option (List String)
  handSuspect : Option HandSuspect
  homeUnreadableSince : Option Int64
  lostLogin : List String
  liveKind : Option String
  platformBlock : Option OverflowBlock
  noRoom : Option NoRoom
  swappedAway : Dict String Int64

def ledgerVersion : UInt32 := 1

/- The ledger before anything is recorded. -/
def Ledger.default : Ledger where
  version := ledgerVersion
  live := none
  account := none
  loginIdentity := none
  since := none
  swappedAt := none
  previous := none
  alert := none
  advisoryAlert := none
  lastCycle := none
  overflowBlocked := .empty
  guidance := none
  handSuspect := none
  homeUnreadableSince := none
  lostLogin := []
  liveKind := none
  platformBlock := none
  noRoom := none
  swappedAway := .empty

-- JSON

/- An epoch second as JSON. -/
def timeJson (t : Int64) : Json := .ofInt t.toInt

namespace Identity

def ofJson (j : Json) : Option Identity :=
  if hNull : j.isNull = false then some ⟨j, hNull⟩ else none

@[simp] theorem ofJson_block (identity : Identity) :
    ofJson identity.block = some identity := by
  rcases identity with ⟨block, hNull⟩
  rw [ofJson, dif_pos hNull]

end Identity

namespace OverflowBlock

def toJson (b : OverflowBlock) : Json :=
  .obj
    [("at", timeJson b.at_),
     ("until", timeJson b.until_),
     ("reason", .str b.reason)]

def ofJson (j : Json) : Option OverflowBlock := do
  let members ← j.toObj?
  let at_ ← Json.required members "at" Json.readInt64
  let until_ ← Json.required members "until" Json.readInt64
  let reason ← Json.required members "reason" Json.toStr?
  some { at_, until_, reason }

@[simp] theorem ofJson_toJson (b : OverflowBlock) :
    ofJson b.toJson = some b := by
  simp [ofJson, toJson, Json.toObj?, Json.required,
    Json.isRepeated, Json.member?, timeJson, Json.toStr?]

end OverflowBlock

namespace LastCycle

def toJson (c : LastCycle) : Json :=
  .obj (
    [("at", timeJson c.at_)] ++
    Json.unlessNone "measured_at" timeJson c.measuredAt ++
    [("outcome", .str c.outcome)] ++
    Json.unlessNone "overflow" .str c.overflow)

def ofJson (j : Json) : Option LastCycle := do
  let members ← j.toObj?
  let at_ ← Json.required members "at" Json.readInt64
  let measuredAt ←
    Json.optional members "measured_at" Json.readInt64
  let outcome ← Json.required members "outcome" Json.toStr?
  let overflow ← Json.optional members "overflow" Json.toStr?
  some { at_, measuredAt, outcome, overflow }

@[simp] theorem ofJson_toJson (c : LastCycle) :
    ofJson c.toJson = some c := by
  rcases c with ⟨at_, measuredAt, outcome, overflow⟩
  cases measuredAt <;> cases overflow <;>
    simp [ofJson, toJson, Json.toObj?, Json.unlessNone, Json.required,
      Json.optional, Json.isRepeated, Json.member?, timeJson, Json.toStr?]

end LastCycle

namespace HandSuspect

def toJson (s : HandSuspect) : Json :=
  .obj [("profile", .str s.profile), ("first_seen", timeJson s.firstSeen)]

def ofJson (j : Json) : Option HandSuspect := do
  let members ← j.toObj?
  let profile ← Json.required members "profile" Json.toStr?
  let firstSeen ←
    Json.required members "first_seen" Json.readInt64
  some { profile, firstSeen }

@[simp] theorem ofJson_toJson (s : HandSuspect) :
    ofJson s.toJson = some s := by
  simp [ofJson, toJson, Json.toObj?, Json.required,
    Json.isRepeated, Json.member?, timeJson, Json.toStr?]

end HandSuspect

def stringsJson (items : List String) : Json :=
  .arr (items.map .str)

@[simp] theorem readList_stringsJson (items : List String) :
    Json.readList Json.toStr? (stringsJson items) = some items :=
  Json.readList_map Json.toStr? .str items fun _ _ => rfl

namespace NoRoom

def toJson (r : NoRoom) : Json :=
  .obj
    [("at", timeJson r.at_),
     ("until", timeJson r.until_),
     ("profiles", stringsJson r.profiles)]

def ofJson (j : Json) : Option NoRoom := do
  let members ← j.toObj?
  let at_ ← Json.required members "at" Json.readInt64
  let until_ ← Json.required members "until" Json.readInt64
  let profiles ← Json.required members "profiles"
    (Json.readList Json.toStr?)
  some { at_, until_, profiles }

@[simp] theorem ofJson_toJson (r : NoRoom) :
    ofJson r.toJson = some r := by
  simp [ofJson, toJson, Json.toObj?, Json.required,
    Json.isRepeated, Json.member?, timeJson]

end NoRoom

/- A map that is left out when it is empty. -/
def unlessEmpty {α : Type}
    (write : α → Json) (d : Dict String α) : Option Json :=
  if d.entries.isEmpty then none
  else some (.obj (d.entries.map fun e => (e.1, write e.2)))

namespace Ledger

/- The fields in the order they are written. -/
def fields (l : Ledger) : List (String × Option Json) :=
  [("version", some (.ofNat l.version.toNat)),
   ("live", l.live.map .str),
   ("account", l.account.map .str),
   ("login_identity", l.loginIdentity.map Identity.block),
   ("since", l.since.map timeJson),
   ("swapped_at", l.swappedAt.map timeJson),
   ("previous", l.previous.map .str),
   ("alert", l.alert.map .str),
   ("advisory_alert", l.advisoryAlert.map .str),
   ("last_cycle", l.lastCycle.map LastCycle.toJson),
   ("overflow_blocked", unlessEmpty OverflowBlock.toJson l.overflowBlocked),
   ("guidance", l.guidance.map stringsJson),
   ("hand_suspect", l.handSuspect.map HandSuspect.toJson),
   ("home_unreadable_since", l.homeUnreadableSince.map timeJson),
   ("lost_login",
    if l.lostLogin.isEmpty then none
    else some (stringsJson l.lostLogin)),
   ("live_kind", l.liveKind.map .str),
   ("platform_block", l.platformBlock.map OverflowBlock.toJson),
   ("no_room", l.noRoom.map NoRoom.toJson),
   ("swapped_away", unlessEmpty timeJson l.swappedAway)]

def toJson (l : Ledger) : Json :=
  .obj (Json.present l.fields)

/- Unknown fields are passed over. -/
def ofMembers (m : List (String × Json)) : Option Ledger := do
  let version ← Json.required m "version" Json.readUInt32
  let live ← Json.optional m "live" Json.toStr?
  let account ← Json.optional m "account" Json.toStr?
  let loginIdentity ←
    Json.optional m "login_identity" Identity.ofJson
  let since ← Json.optional m "since" Json.readInt64
  let swappedAt ← Json.optional m "swapped_at" Json.readInt64
  let previous ← Json.optional m "previous" Json.toStr?
  let alert ← Json.optional m "alert" Json.toStr?
  let advisoryAlert ←
    Json.optional m "advisory_alert" Json.toStr?
  let lastCycle ←
    Json.optional m "last_cycle" LastCycle.ofJson
  let overflowBlocked ←
    Json.defaulted m "overflow_blocked" .empty
      (Json.readDict OverflowBlock.ofJson)
  let guidance ←
    Json.optional m "guidance" (Json.readList Json.toStr?)
  let handSuspect ←
    Json.optional m "hand_suspect" HandSuspect.ofJson
  let homeUnreadableSince ←
    Json.optional m "home_unreadable_since" Json.readInt64
  let lostLogin ←
    Json.defaulted m "lost_login" [] (Json.readList Json.toStr?)
  let liveKind ← Json.optional m "live_kind" Json.toStr?
  let platformBlock ←
    Json.optional m "platform_block" OverflowBlock.ofJson
  let noRoom ← Json.optional m "no_room" NoRoom.ofJson
  let swappedAway ←
    Json.defaulted m "swapped_away" .empty (Json.readDict Json.readInt64)
  some { version, live, account, loginIdentity, since,
         swappedAt, previous, alert, advisoryAlert, lastCycle,
         overflowBlocked, guidance, handSuspect,
         homeUnreadableSince, lostLogin, liveKind,
         platformBlock, noRoom, swappedAway }

def ofJson (j : Json) : Option Ledger :=
  j.toObj?.bind ofMembers

theorem fields_nodup (l : Ledger) :
    (l.fields.map Prod.fst).Nodup := by
  simp [fields]

/- A map that is left out when empty is read back. -/
theorem readDict_unlessEmpty
    {α : Type} {d : Dict String α} {read : Json → Option α} {write : α → Json}
    (hRead : ∀ a, read (write a) = some a) :
    (unlessEmpty write d).elim (some Dict.empty)
      (Json.readDict read) = some d := by
  unfold unlessEmpty
  split
  · next hEmpty =>
      have hNil : Dict.empty = d :=
        Dict.ext_entries (List.isEmpty_iff.mp hEmpty).symm
      rw [Option.elim_none, hNil]
  · exact Json.readDict_entries read write d hRead

/- Every ledger is read back as it was written. -/
theorem ofJson_toJson (l : Ledger) :
    ofJson l.toJson = some l := by
  have hKeys := l.fields_nodup
  have hVersion : Json.required (Json.present l.fields)
      "version" Json.readUInt32 = some l.version := by
    rw [Json.required_present hKeys
      (j := .ofNat l.version.toNat) (by simp [fields]),
      Json.readUInt32_ofNat_toNat]
  have hStr : ∀ (key : String) (a : Option String),
      (key, a.map Json.str) ∈ l.fields →
        Json.optional (Json.present l.fields) key Json.toStr? = some a :=
    fun _ _ hMem => Json.optional_present hKeys .str hMem
      (fun _ => rfl) (fun _ => rfl)
  have hTime : ∀ (key : String) (a : Option Int64),
      (key, a.map timeJson) ∈ l.fields →
        Json.optional (Json.present l.fields) key Json.readInt64 = some a :=
    fun _ _ hMem => Json.optional_present hKeys timeJson hMem
      (fun _ => rfl) Json.readInt64_ofInt_toInt
  have hIdentity : Json.optional (Json.present l.fields)
      "login_identity" Identity.ofJson = some l.loginIdentity :=
    Json.optional_present hKeys Identity.block
      (by simp [fields]) Identity.notNull Identity.ofJson_block
  have hLastCycle : Json.optional (Json.present l.fields)
      "last_cycle" LastCycle.ofJson = some l.lastCycle :=
    Json.optional_present hKeys LastCycle.toJson
      (by simp [fields]) (fun _ => rfl) LastCycle.ofJson_toJson
  have hGuidance : Json.optional (Json.present l.fields)
      "guidance" (Json.readList Json.toStr?) = some l.guidance :=
    Json.optional_present hKeys stringsJson
      (by simp [fields]) (fun _ => rfl) readList_stringsJson
  have hSuspect : Json.optional (Json.present l.fields)
      "hand_suspect" HandSuspect.ofJson = some l.handSuspect :=
    Json.optional_present hKeys HandSuspect.toJson
      (by simp [fields]) (fun _ => rfl)
      HandSuspect.ofJson_toJson
  have hBlock : Json.optional (Json.present l.fields)
      "platform_block" OverflowBlock.ofJson = some l.platformBlock :=
    Json.optional_present hKeys OverflowBlock.toJson
      (by simp [fields]) (fun _ => rfl)
      OverflowBlock.ofJson_toJson
  have hNoRoom : Json.optional (Json.present l.fields)
      "no_room" NoRoom.ofJson = some l.noRoom :=
    Json.optional_present hKeys NoRoom.toJson
      (by simp [fields]) (fun _ => rfl) NoRoom.ofJson_toJson
  have hBlocked : Json.defaulted (Json.present l.fields)
      "overflow_blocked" .empty
        (Json.readDict OverflowBlock.ofJson) =
        some l.overflowBlocked := by
    rw [Json.defaulted_present hKeys (j :=
      unlessEmpty OverflowBlock.toJson l.overflowBlocked)
      (by simp [fields])]
    exact readDict_unlessEmpty OverflowBlock.ofJson_toJson
  have hAway : Json.defaulted (Json.present l.fields)
      "swapped_away" .empty (Json.readDict Json.readInt64) =
        some l.swappedAway := by
    rw [Json.defaulted_present hKeys
      (j := unlessEmpty timeJson l.swappedAway)
      (by simp [fields])]
    exact readDict_unlessEmpty Json.readInt64_ofInt_toInt
  have hLost : Json.defaulted (Json.present l.fields)
      "lost_login" [] (Json.readList Json.toStr?) = some l.lostLogin := by
    rw [Json.defaulted_present hKeys (j :=
      if l.lostLogin.isEmpty then none
      else some (stringsJson l.lostLogin)) (by simp [fields])]
    cases l.lostLogin <;> simp
  change ofMembers (Json.present l.fields) = some l
  rw [ofMembers, hVersion, hStr "live" l.live (by simp [fields]),
    hStr "account" l.account (by simp [fields]), hIdentity,
    hTime "since" l.since (by simp [fields]),
    hTime "swapped_at" l.swappedAt (by simp [fields]),
    hStr "previous" l.previous (by simp [fields]),
    hStr "alert" l.alert (by simp [fields]),
    hStr "advisory_alert" l.advisoryAlert (by simp [fields]), hLastCycle,
    hBlocked, hGuidance, hSuspect,
    hTime "home_unreadable_since" l.homeUnreadableSince (by simp [fields]),
    hLost, hStr "live_kind" l.liveKind (by simp [fields]), hBlock, hNoRoom,
    hAway]
  rfl

end Ledger

-- Text, Names And Alerts

/- Codes below 32, and from 127 to 159. -/
def isControl (c : Char) : Bool :=
  c.val < 0x20 || (0x7f ≤ c.val && c.val < 0xa0)

/- A control or bidirectional-override character. -/
def unprintable (c : Char) : Bool :=
  isControl c ||
    (0x202a ≤ c.val && c.val ≤ 0x202e) ||
    (0x2066 ≤ c.val && c.val ≤ 0x2069)

def maxAccount : ℕ := 320

/- A value that may be stored as an account or an alert. -/
def safeAccount (v : String) : Bool :=
  !v.isEmpty && v.utf8ByteSize ≤ maxAccount && !v.toList.any unprintable

def validName (v : Option String) : Bool :=
  v.all validLiveName

/- Each alert is safe, and only one of the two is set. -/
def validAlerts (l : Ledger) : Bool :=
  l.alert.all safeAccount && l.advisoryAlert.all safeAccount &&
    !(l.alert.isSome && l.advisoryAlert.isSome)

-- Overflow Fields

def overflowTags : List String := ["in", "out", "on"]

def spendLimitReason : String := "spend_limit"

def keyExhausted : String := "key_exhausted"

def keyRevoked : String := "key_revoked"

def keyRateLimited : String := "key_rate_limited"

def keyReasons : List String :=
  [keyExhausted, keyRevoked, keyRateLimited]

def liveKindPlatform : String := "platform"

def maxBlocks : ℕ := 256

def maxBlockSecs : ℤ := 62 * 86400

/- Made at a positive time, and ending after it in time. -/
def spanOk (b : OverflowBlock) : Bool :=
  0 < b.at_.toInt && b.at_.toInt < b.until_.toInt &&
    b.at_.toInt + maxBlockSecs ≤ i64Max &&
    b.until_.toInt ≤ b.at_.toInt + maxBlockSecs

/- One profile's spend block. -/
def spendBlockOk (name : String) (b : OverflowBlock) : Bool :=
  validLiveName name && b.reason = spendLimitReason && spanOk b

def validOverflow (l : Ledger) : Bool :=
  (l.lastCycle.bind (·.overflow)).all
      (fun t => overflowTags.contains t) &&
    l.liveKind.all (fun k => k = liveKindPlatform && l.live.isSome) &&
    l.platformBlock.all (fun b => keyReasons.contains b.reason && spanOk b) &&
    l.overflowBlocked.entries.length ≤ maxBlocks &&
    l.overflowBlocked.entries.all (fun e => spendBlockOk e.1 e.2)

-- Logins With No Room

def maxSecs : ℤ := 3600

def maxProfiles : ℕ := 256

/- Each item is below the next. -/
def strictlySorted : List String → Bool
| a :: b :: rest => a < b && strictlySorted (b :: rest)
| _ => true

/- A record the rotator could have written. -/
def NoRoom.valid (r : NoRoom) : Bool :=
  r.at_.toInt ≤ r.until_.toInt &&
    (r.until_ - r.at_).toInt ≤ maxSecs &&
    r.profiles.length ≤ maxProfiles &&
    strictlySorted r.profiles &&
    r.profiles.all validLiveName

-- Hand Changes

def maxGuidanceLines : ℕ := 16

def maxGuidanceLine : ℕ := 1024

def maxLostLogin : ℕ := 64

def validGuidance (lines : List String) : Bool :=
  lines.length ≤ maxGuidanceLines &&
    lines.all (fun line =>
      line.utf8ByteSize ≤ maxGuidanceLine && !line.toList.any unprintable)

/- Valid names, none of them twice. -/
def validLostLogin (names : List String) : Bool :=
  names.length ≤ maxLostLogin &&
    names.all validLiveName && Decidable.decide names.Nodup

def validHandSuspect (s : HandSuspect) : Bool :=
  validLiveName s.profile && 0 < s.firstSeen.toInt

-- Logins Left While Full

def maxEntries : ℕ := 16

/- The oldest reading a target may have. -/
def maxReadingAgeSecs : ℤ := 300

/- By time, then by name. -/
def ageKey (e : String × Int64) : ℤ ×ₗ String :=
  toLex (e.2.toInt, e.1)

/- The names beyond the newest sixteen. -/
def oldest (map : Dict String Int64) : List String :=
  ((map.entries.insertionSort fun a b => ageKey a ≤ ageKey b).take
    (map.entries.length - maxEntries)).map Prod.fst

/- The newest sixteen entries. -/
def cap (map : Dict String Int64) : Dict String Int64 :=
  map.retain fun name _ => !(oldest map).contains name

/- An entry that a loaded ledger may keep. -/
def swappedAwayOk (now : ℤ) (name : String) (t : Int64) : Bool :=
  validLiveName name && 0 < t.toInt &&
    t.toInt ≤ saturatingAdd now maxReadingAgeSecs

/- The entries that a loaded ledger keeps. -/
def validSwappedAway (map : Dict String Int64) (now : ℤ) :
    Dict String Int64 :=
  cap (map.retain (swappedAwayOk now))

-- Reader And Writer

/- Why a ledger is not loaded. -/
inductive LedgerFault where
| tooLarge
| unparsed
| unknownVersion
| invalidName
| invalidAccountOrAlert
| invalidOverflow
| invalidNoRoom
| invalidHandChange
deriving DecidableEq

/- The checks a parsed ledger has to pass, in order. -/
def Ledger.check (l : Ledger) : Except LedgerFault Unit :=
  if l.version ≠ ledgerVersion then .error .unknownVersion
  else if !validName l.live || !validName l.previous then
    .error .invalidName
  else if !l.account.all safeAccount || !validAlerts l then
    .error .invalidAccountOrAlert
  else if !validOverflow l then .error .invalidOverflow
  else if !l.noRoom.all NoRoom.valid then .error .invalidNoRoom
  else if !l.guidance.all validGuidance || !validLostLogin l.lostLogin ||
      !l.handSuspect.all validHandSuspect then
    .error .invalidHandChange
  else .ok ()

/- The most bytes of a state file that are read. -/
def maxState : ℕ := 64 * 1024

/- The ledger's file; `none` when there is none. -/
abbrev LedgerFile : Type := Option (List Char)

def loadLedger (now : ℤ) (file : LedgerFile) :
    Except LedgerFault (Option Ledger) :=
  match file with
  | none => .ok none
  | some text =>
    if maxState < textBytes text then .error .tooLarge
    else
      match (Json.parse text).bind Ledger.ofJson with
      | none => .error .unparsed
      | some l =>
        match l.check with
        | .error fault => .error fault
        | .ok () =>
          .ok (some { l with
            swappedAway :=
              validSwappedAway l.swappedAway now })

/- The ledger as an older binary's rotator reads it. -/
def forOlderReaders (l : Ledger) (older : Bool) : Ledger :=
  if older then
    { l with
      lastCycle := l.lastCycle.map fun c =>
        { c with measuredAt := none, overflow := none }
      overflowBlocked := .empty
      guidance := none
      homeUnreadableSince := none
      lostLogin := []
      noRoom := none
      loginIdentity := none
      swappedAway := .empty
      advisoryAlert := none }
  else l

/- The file the writer leaves; `older` while such a one runs. -/
def saveLedger (older : Bool) (l : Ledger) : LedgerFile :=
  some (Json.pretty 0 (forOlderReaders l older).toJson)

/- The bytes of a ledger's text. -/
def Ledger.bytes (l : Ledger) : ℕ :=
  textBytes (Json.pretty 0 l.toJson)

-- Reading Back What Was Written

/- What every loaded ledger satisfies, its times apart. -/
structure Ledger.Sound (l : Ledger) : Prop where
  version : l.version = ledgerVersion
  live : validName l.live = true
  previous : validName l.previous = true
  account : l.account.all safeAccount = true
  alerts : validAlerts l = true
  overflow : validOverflow l = true
  noRoom : l.noRoom.all NoRoom.valid = true
  guidance : l.guidance.all validGuidance = true
  lostLogin : validLostLogin l.lostLogin = true
  handSuspect : l.handSuspect.all validHandSuspect = true

theorem Ledger.check_eq_ok_iff {l : Ledger} :
    l.check = .ok () ↔ l.Sound := by
  unfold Ledger.check
  constructor
  · intro hOk
    split at hOk
    · cases hOk
    next hVersion =>
    split at hOk
    · cases hOk
    next hNames =>
    split at hOk
    · cases hOk
    next hAlerts =>
    split at hOk
    · cases hOk
    next hOverflow =>
    split at hOk
    · cases hOk
    next hNoRoom =>
    split at hOk
    · cases hOk
    next hHand =>
    simp only [Bool.or_eq_true, Bool.not_eq_true', not_or,
      Bool.not_eq_false] at hNames hAlerts hOverflow hNoRoom hHand
    exact
      { version := not_not.mp hVersion
        live := hNames.1
        previous := hNames.2
        account := hAlerts.1
        alerts := hAlerts.2
        overflow := hOverflow
        noRoom := hNoRoom
        guidance := hHand.1.1
        lostLogin := hHand.1.2
        handSuspect := hHand.2 }
  · intro hSound
    simp [hSound.version, hSound.live, hSound.previous, hSound.account,
      hSound.alerts, hSound.overflow, hSound.noRoom, hSound.guidance,
      hSound.lostLogin, hSound.handSuspect]

/- What the loader makes of a ledger's own text. -/
theorem loadLedger_saveLedger (l : Ledger) (now : ℤ) :
    loadLedger now (saveLedger false l) =
      if maxState < l.bytes then .error .tooLarge
      else l.check.map fun _ =>
        some { l with
          swappedAway := validSwappedAway l.swappedAway now } := by
  have hParsed :
      (Json.parse (Json.pretty 0 l.toJson)).bind Ledger.ofJson = some l := by
    rw [Json.parse_pretty, Option.bind_some, Ledger.ofJson_toJson]
  rw [saveLedger, loadLedger]
  simp only [forOlderReaders, Bool.false_eq_true, if_false, hParsed]
  change (if maxState < l.bytes then _ else _) = _
  cases l.check <;> rfl

/- A sound ledger within the limit is loaded at every clock. -/
theorem loadLedger_saveLedger_of_sound
    {l : Ledger} (hBytes : l.bytes ≤ maxState) (hSound : l.Sound) (now : ℤ) :
    loadLedger now (saveLedger false l) =
      .ok (some { l with
        swappedAway := validSwappedAway l.swappedAway now }) := by
  rw [loadLedger_saveLedger, if_neg (not_lt.mpr hBytes),
    Ledger.check_eq_ok_iff.mpr hSound]
  rfl

/- When a written ledger is read back as it is. -/
theorem loadLedger_saveLedger_iff {l : Ledger} {now : ℤ} :
    loadLedger now (saveLedger false l) = .ok (some l) ↔
      l.bytes ≤ maxState ∧ l.Sound ∧
        validSwappedAway l.swappedAway now =
          l.swappedAway := by
  constructor
  · intro hLoaded
    rw [loadLedger_saveLedger] at hLoaded
    split at hLoaded
    · cases hLoaded
    next hSmall =>
    cases hCheck : l.check with
    | error fault =>
      rw [hCheck] at hLoaded
      cases hLoaded
    | ok u =>
      rw [hCheck] at hLoaded
      simp only [Except.map, Except.ok.injEq, Option.some.injEq] at hLoaded
      exact ⟨not_lt.mp hSmall, Ledger.check_eq_ok_iff.mp hCheck,
        congrArg Ledger.swappedAway hLoaded⟩
  · rintro ⟨hBytes, hSound, hSame⟩
    rw [loadLedger_saveLedger_of_sound hBytes hSound, hSame]

/- A loaded ledger is sound, and its times are capped. -/
theorem sound_of_loadLedger
    {now : ℤ} {file : LedgerFile} {l : Ledger}
    (hLoaded : loadLedger now file = .ok (some l)) :
    l.Sound ∧ ∃ map, l.swappedAway = validSwappedAway map now := by
  unfold loadLedger at hLoaded
  split at hLoaded
  · cases hLoaded
  split at hLoaded
  · cases hLoaded
  split at hLoaded
  · cases hLoaded
  next m hParsed =>
  split at hLoaded
  · cases hLoaded
  next hCheck =>
  cases hLoaded
  refine ⟨?_, m.swappedAway, rfl⟩
  have hSound := Ledger.check_eq_ok_iff.mp hCheck
  exact
    { version := hSound.version
      live := hSound.live
      previous := hSound.previous
      account := hSound.account
      alerts := hSound.alerts
      overflow := hSound.overflow
      noRoom := hSound.noRoom
      guidance := hSound.guidance
      lostLogin := hSound.lostLogin
      handSuspect := hSound.handSuspect }

end Rotate
