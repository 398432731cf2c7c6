import Amplihack.Base.Runs
import Amplihack.Rotate.UpdatesSound

/-
  A ledger that the rotator writes is read back.

  The loader's checks bound what the writers do not: how many
  logins a record may name, which times are taken, how long
  the file may be. Within those bounds every turn of the
  rotator leaves a file that the next one loads.
-/

-- What Is Within Bounds

namespace Rotate

open Base Profile

/- The update keeps to the bounds that the loader checks. -/
def Update.Fits : Update → Prop
| .noRoom _ name platform live others _ _ _ =>
  (NoRoom.names name live others platform).dedup.length ≤ maxProfiles
| .swapBack s _ _ left _ now =>
  SwapBack.leftFull s left = true → 0 < now.toInt
| .spendBlocks names t => names ≠ [] → 0 < t.toInt
| .finish _ _ _ incoming _ =>
  ∀ a, incoming = some a → safeAccount a.key = true
| .noteLive _ platformLive account _ =>
  platformLive = false → account.all safeAccount = true
| .alert kind _ => kind.text.toList.any unprintable = false
| .advisory _ => True
| .clearAlert => True
| .endCycle .. => True

/- An entry that some loader keeps. -/
def awayOk (e : String × Int64) : Bool :=
  validLiveName e.1 && 0 < e.2.toInt

/- What a turn keeps: it loads but for its size, at a clock
   not behind its times. -/
structure Ledger.Loadable (l : Ledger) : Prop where
  sound : l.Sound
  away : ∀ e ∈ l.swappedAway.entries, awayOk e = true
  count : l.swappedAway.entries.length ≤ maxEntries

/- No swap recorded is further ahead than a reading may be. -/
def Ledger.InDate (l : Ledger) (now : ℤ) : Prop :=
  ∀ e ∈ l.swappedAway.entries, e.2.toInt ≤ saturatingAdd now maxReadingAgeSecs

/- A loadable ledger is read back at every clock its times are
   not ahead of, and only then. -/
theorem Ledger.Loadable.loadLedger_iff
    {l : Ledger} {now : ℤ} (hLoadable : l.Loadable)
    (hBytes : l.bytes ≤ maxState) :
    loadLedger now (saveLedger false l) = .ok (some l) ↔ l.InDate now := by
  rw [loadLedger_saveLedger_iff]
  constructor
  · rintro ⟨_, _, hSame⟩ e hMem
    rw [← hSame] at hMem
    have hKept := Dict.mem_of_mem_retain (mem_of_mem_cap hMem)
    simp only [swappedAwayOk, Bool.and_eq_true, decide_eq_true_eq] at hKept
    exact hKept.2.2
  · intro hDate
    refine ⟨hBytes, hLoadable.sound,
      validSwappedAway_eq_self ?_ hLoadable.count⟩
    intro e hMem
    rw [swappedAwayOk, Bool.and_eq_true]
    exact ⟨hLoadable.away e hMem, decide_eq_true (hDate e hMem)⟩

theorem loadable_of_loadLedger
    {now : ℤ} {file : LedgerFile} {l : Ledger}
    (hLoaded : loadLedger now file = .ok (some l)) :
    l.Loadable := by
  rcases sound_of_loadLedger hLoaded with ⟨hSound, map, hMap⟩
  refine ⟨hSound, ?_, ?_⟩
  · intro e hMem
    rw [hMap] at hMem
    have hKept := Dict.mem_of_mem_retain (mem_of_mem_cap hMem)
    rw [swappedAwayOk, Bool.and_eq_true] at hKept
    exact hKept.2.1
  · rw [hMap]
    exact length_cap_le _

-- One Update

variable {l : Ledger}

/- Naming a valid profile keeps every check. -/
theorem sound_live
    (hSound : l.Sound) (n : ProfileName) (t : Int64) :
    ({ l with live := some n.text, since := some t } : Ledger).Sound := by
  have hOverflow := validOverflow_iff.mp hSound.overflow
  exact { hSound with
    live := n.valid
    overflow := validOverflow_iff.mpr
      { hOverflow with
        liveKind := fun k hKind =>
          ⟨(hOverflow.liveKind k hKind).1, rfl⟩ } }

/- The kind may say so of any live login that is named. -/
theorem sound_liveKind
    (hSound : l.Sound) (hLive : l.live.isSome = true) (platformLive : Bool) :
    ({ l with
      liveKind := if platformLive then some liveKindPlatform
        else none } : Ledger).Sound := by
  have hOverflow := validOverflow_iff.mp hSound.overflow
  refine { hSound with
    overflow := validOverflow_iff.mpr
      { hOverflow with liveKind := ?_ } }
  intro k hKind
  cases platformLive with
  | false => cases hKind
  | true =>
    cases hKind
    exact ⟨rfl, hLive⟩

/- A completed swap names valid profiles and a safe account. -/
theorem sound_finish
    (hSound : l.Sound) {source target : ProfileName}
    {incoming : Option Account}
    (hAccount : ∀ a, incoming = some a → safeAccount a.key = true)
    (startedAt : Int64) (platform : Bool) :
    (finish l source target startedAt incoming platform).Sound := by
  have hLive := sound_liveKind (sound_live hSound target
    startedAt) rfl platform
  refine { hLive with
    previous := source.valid
    account := ?_
    alerts := rfl }
  cases incoming with
  | none => rfl
  | some a => exact hAccount a rfl

/- Noting who is live keeps every check. -/
theorem sound_noteLive
    (hSound : l.Sound) {platformLive : Bool} {account : Option String}
    (hAccount : platformLive = false → account.all safeAccount = true)
    (n : ProfileName) (t : Int64) :
    (noteLive l n platformLive account t).Sound := by
  unfold noteLive
  split
  · exact hSound
  let same : Bool := l.live = some n.text
  let named : Ledger :=
    if same then l
    else { l with live := some n.text, since := some t }
  have hNamed : named.Sound ∧ named.live.isSome = true := by
    change (if same = true then _ else _ : Ledger).Sound ∧
      (if same = true then _ else _ : Ledger).live.isSome = true
    split
    · next hSame =>
        exact ⟨hSound, by simp [of_decide_eq_true hSame]⟩
    · exact ⟨sound_live hSound n t, rfl⟩
  let stored := if platformLive then none else account
  have hStored : stored.all safeAccount = true := by
    cases platformLive with
    | false => exact hAccount rfl
    | true => rfl
  change Ledger.Sound
    { (if !same || named.account.isNone || stored.isNone then
          { named with account := stored, loginIdentity := none }
        else named) with
      liveKind := if platformLive then some liveKindPlatform
        else none }
  clear_value named stored
  apply sound_liveKind
  · split
    · exact { hNamed.1 with account := hStored }
    · exact hNamed.1
  · split
    · exact hNamed.2
    · exact hNamed.2

variable {key : String}

/- Storing a safe key keeps every check. -/
theorem sound_shouldAlert
    (hSound : l.Sound) (hKey : safeAccount key = true) :
    (shouldAlert l key).1.Sound :=
  { hSound with
    alerts := by simp [validAlerts, shouldAlert, hKey] }

theorem sound_shouldAlertAdvisory
    (hSound : l.Sound) (hKey : safeAccount key = true) :
    (shouldAlertAdvisory l key).1.Sound :=
  { hSound with
    alerts := by simp [validAlerts, shouldAlertAdvisory, hKey] }

theorem sound_recordCycle
    (hSound : l.Sound) (outcome : CycleOutcome) (t : Int64)
    (measuredAt : Option Int64) (tag : Option Tag) :
    (recordCycle l outcome t measuredAt tag).Sound := by
  have hOverflow := validOverflow_iff.mp hSound.overflow
  apply sound_pruneBlocks
  refine { hSound with
    overflow := validOverflow_iff.mpr
      { hOverflow with tag := ?_ } }
  intro text hText
  cases tag with
  | none => cases hText
  | some tag =>
    cases hText
    cases tag <;> decide

/- Each update that fits keeps every check. -/
theorem sound_apply
    {l : Ledger} {u : Update} (hSound : l.Sound) (hFits : u.Fits) :
    (u.apply l).Sound := by
  cases u with
  | noRoom interval name platform live others probed at_ now =>
    exact { hSound with
      noRoom :=
        NoRoom.valid_untilReset_ofCycle_iff.mpr hFits }
  | swapBack s live probes left measuredAt now => exact { hSound with }
  | spendBlocks names t =>
    cases names with
    | nil => exact hSound
    | cons n names => exact sound_blockWith (hFits (by simp)) hSound _
  | finish source target startedAt incoming platform =>
    exact sound_finish hSound hFits startedAt platform
  | noteLive n platformLive account t => exact sound_noteLive hSound hFits n t
  | alert kind live =>
    exact sound_shouldAlert hSound
      (safeAccount_alertKey kind.utf8ByteSize_text_le hFits live)
  | advisory live =>
    exact sound_shouldAlertAdvisory hSound
      (safeAccount_alertKey
        (AlertKind.utf8ByteSize_text_le _) (by decide) live)
  | clearAlert => exact { hSound with alerts := rfl }
  | endCycle outcome t measuredAt tag =>
    exact sound_recordCycle hSound outcome t measuredAt tag

theorem swappedAway_noteLive
    (l : Ledger) (n : ProfileName) (platformLive : Bool)
    (account : Option String) (t : Int64) :
    (noteLive l n platformLive account t).swappedAway =
      l.swappedAway := by
  unfold noteLive
  simp only
  split_ifs <;> rfl

/- The same swap times, however the rest has changed. -/
theorem Ledger.Loadable.of_sound
    {l m : Ledger} (hLoadable : l.Loadable) (hSound : m.Sound)
    (hAway : m.swappedAway = l.swappedAway) :
    m.Loadable where
  sound := hSound
  away := by
    rw [hAway]
    exact hLoadable.away
  count := by
    rw [hAway]
    exact hLoadable.count

/- Each update that fits keeps a ledger loadable. -/
theorem loadable_apply
    {l : Ledger} {u : Update} (hLoadable : l.Loadable) (hFits : u.Fits) :
    (u.apply l).Loadable := by
  have hSound := sound_apply hLoadable.sound hFits
  cases u with
  | swapBack s live probes left measuredAt now =>
    refine ⟨hSound, ?_, SwapBack.length_update_le ..⟩
    intro e hMem
    rcases SwapBack.entries_update hMem with
      hOld | ⟨hFull, hNow, hName⟩
    · exact hLoadable.away e hOld
    · have hPos := hFits hFull
      rw [← hNow] at hPos
      simp [awayOk, hName, hPos]
  | spendBlocks names t =>
    exact hLoadable.of_sound hSound (swappedAway_blockWith l names t)
  | noteLive n platformLive account t =>
    exact hLoadable.of_sound hSound
      (swappedAway_noteLive l n platformLive account t)
  | _ => exact hLoadable.of_sound hSound rfl

-- Turn After Turn

/- One load of the ledger, what is changed, and its save. -/
structure Turn where
  clock : ℤ
  updates : List Update

/- The ledger a turn starts from; a missing file is the default. -/
def startingLedger (read : Option Ledger) : Ledger :=
  read.getD .default

/- The ledger a turn saves. -/
def Turn.ledger (turn : Turn) (read : Option Ledger) : Ledger :=
  turn.updates.foldl Update.apply (startingLedger read)

/- A refused ledger stops the turn before it writes. -/
def nextFile (file : LedgerFile) (turn : Turn) : LedgerFile :=
  match loadLedger turn.clock file with
  | .error _ => file
  | .ok read => saveLedger false (turn.ledger read)

/- Every update fits, and the file written is not too large. -/
def TurnFits (file : LedgerFile) (turn : Turn) : Prop :=
  ∀ read, loadLedger turn.clock file = .ok read →
    (∀ u ∈ turn.updates, u.Fits) ∧ (turn.ledger read).bytes ≤ maxState

theorem loadable_default : Ledger.default.Loadable where
  sound := Ledger.check_eq_ok_iff.mp (by decide)
  away := by decide
  count := by decide

variable {clock : ℤ} {file : LedgerFile} {read : Option Ledger}

theorem loadable_startingLedger
    (hLoaded : loadLedger clock file = .ok read) :
    (startingLedger read).Loadable := by
  cases read with
  | none => exact loadable_default
  | some l => exact loadable_of_loadLedger hLoaded

/- Any number of updates that fit keeps a ledger loadable. -/
theorem loadable_foldl_apply
    {updates : List Update} :
    ∀ {l : Ledger}, l.Loadable →
      (∀ u ∈ updates, u.Fits) →
      (updates.foldl Update.apply l).Loadable := by
  induction updates with
  | nil => exact fun hLoadable _ => hLoadable
  | cons u updates ih =>
    intro l hLoadable hFits
    exact ih
      (loadable_apply hLoadable (hFits u (by simp)))
      (fun v hMem => hFits v (by simp [hMem]))

/- A file no clock makes the loader refuse. -/
def Readable (file : LedgerFile) : Prop :=
  ∀ now, ∃ read, loadLedger now file = .ok read

theorem readable_of_loaded
    (hLoaded : loadLedger clock file = .ok read) :
    Readable file := by
  intro now
  unfold loadLedger at hLoaded ⊢
  split at hLoaded
  · exact ⟨_, rfl⟩
  split at hLoaded
  · cases hLoaded
  next hSmall =>
  split at hLoaded
  · cases hLoaded
  next l hParsed =>
  split at hLoaded
  · cases hLoaded
  next hCheck =>
  rw [if_neg hSmall]
  exact ⟨_, rfl⟩

theorem readable_nextFile
    {file : LedgerFile} {turn : Turn}
    (hReadable : Readable file) (hFits : TurnFits file turn) :
    Readable (nextFile file turn) := by
  rcases hReadable turn.clock with ⟨read, hRead⟩
  rcases hFits read hRead with ⟨hUpdates, hBytes⟩
  have hLoadable := loadable_foldl_apply
    (loadable_startingLedger hRead) hUpdates
  rw [nextFile, hRead]
  exact readable_of_loaded
    (loadLedger_saveLedger_of_sound hBytes hLoadable.sound 0)

/-
  From any file the loader takes, in every run whose turns all
  fit, each turn loads its ledger, no clock refuses what it
  saves, and the same ledger is loaded again at exactly the
  clocks its swap times are not ahead of.
-/
theorem own_ledger_reloads
    {clock : ℤ} {start file : LedgerFile} {read : Option Ledger}
    (hStart : loadLedger clock start = .ok read)
    (hRun : Reaches nextFile TurnFits start file) (turn : Turn)
    (hFits : TurnFits file turn) :
    ∃ before, loadLedger turn.clock file = .ok before ∧
      nextFile file turn = saveLedger false (turn.ledger before) ∧
      ∀ now,
        (∃ after, loadLedger now (nextFile file turn) = .ok after) ∧
        (loadLedger now (nextFile file turn) =
            .ok (some (turn.ledger before)) ↔
          (turn.ledger before).InDate now) := by
  have hReadable : Readable file :=
    hRun.invariant Readable
      (fun _ _ => readable_nextFile)
      (readable_of_loaded hStart)
  rcases hReadable turn.clock with ⟨before, hBefore⟩
  rcases hFits before hBefore with ⟨hUpdates, hBytes⟩
  have hLoadable := loadable_foldl_apply
    (loadable_startingLedger hBefore) hUpdates
  have hSaved : nextFile file turn =
      saveLedger false (turn.ledger before) := by rw [nextFile, hBefore]
  refine ⟨before, hBefore, hSaved, fun now => ⟨?_, ?_⟩⟩
  · exact readable_nextFile hReadable hFits now
  · rw [hSaved]
    exact hLoadable.loadLedger_iff hBytes

/- A login without room, recorded by a cycle that ends on an
   alert. -/
def quietTurn : Turn where
  clock := 100
  updates :=
    [.noRoom 60 (some ⟨"nightly", by decide⟩) none
        (.exhausted none none) [] none 100 101,
      .alert .noCapacity (some ⟨"nightly", by decide⟩),
      .endCycle .alerted 101 none none]

set_option maxRecDepth 20000 in
/- It is loaded again a minute later. -/
theorem own_ledger_reloads_of_quiet_turn :
    loadLedger 160 (nextFile none quietTurn) =
      .ok (some (quietTurn.ledger none)) := by
  have hFits : TurnFits none quietTurn := by
    intro read hRead
    cases hRead
    refine ⟨?_, by decide⟩
    intro u hMem
    simp only [quietTurn, List.mem_cons, List.not_mem_nil, or_false] at hMem
    rcases hMem with rfl | rfl | rfl
    · change List.length _ ≤ _
      decide
    · change _ = false
      decide
    · trivial
  have hMissing : loadLedger 100 none = .ok none := rfl
  rcases own_ledger_reloads hMissing (Reaches.refl none)
    quietTurn hFits with ⟨before, hBefore, _, hNow⟩
  cases hBefore
  refine (hNow 160).2.mpr ?_
  intro e hMem
  cases hMem

-- A Crowded Record

/- A long name of plain letters. -/
theorem validLiveName_of_letters
    {cs : List Char} (hLetters : ∀ c ∈ cs, c = 'a' ∨ c = 'b')
    (hLength : cs.length < maxName) :
    validLiveName (String.ofList ('x' :: cs)) = true := by
  have hSize : ∀ ds : List Char,
      (∀ c ∈ ds, c = 'x' ∨ c = 'a' ∨ c = 'b') →
        (String.ofList ds).utf8ByteSize = ds.length := by
    intro ds hDs
    induction ds with
    | nil => rfl
    | cons d ds ih =>
      have hOne : d.utf8Size = 1 := by
        rcases hDs d (by simp) with rfl | rfl | rfl <;> decide
      rw [String.ofList_cons, String.utf8ByteSize_append,
        String.utf8ByteSize_singleton, hOne,
        ih fun c hMem => hDs c (by simp [hMem]),
        List.length_cons, Nat.add_comm]
  have hBytes := hSize ('x' :: cs) fun c hMem =>
    (List.mem_cons.mp hMem).imp id (hLetters c)
  refine validLiveName_of_alphanum ?_ ?_
  · intro c hMem
    rcases hLetters c hMem with rfl | rfl <;> decide
  · rw [hBytes, List.length_cons]
    exact hLength

/- As many profile names as a record may not hold. -/
def crowdName (n : Fin 257) : ProfileName where
  text := String.ofList ('x' ::
    (List.replicate (n.val / 17) 'a' ++ List.replicate (n.val % 17) 'b'))
  valid := by
    apply validLiveName_of_letters
    · simp only [List.mem_append, List.mem_replicate]
      rintro c (⟨_, rfl⟩ | ⟨_, rfl⟩) <;> simp
    · simp only [List.length_append, List.length_replicate, maxName]
      omega

theorem crowdName_text_injective
    {m n : Fin 257} (hText : (crowdName m).text = (crowdName n).text) :
    m = n := by
  have hList := String.ofList_injective hText
  have hA := congrArg (List.count 'a') hList
  have hB := congrArg (List.count 'b') hList
  simp [List.count_append, List.count_replicate] at hA hB
  omega

/- Every one of them at a limit. -/
def crowd : List (ProfileName × Reading) :=
  (List.finRange 257).map fun n =>
    (crowdName n, .exhausted none none)

theorem length_names_crowd :
    (NoRoom.names none .failed crowd none).dedup.length =
      257 := by
  have hNames : NoRoom.names none .failed crowd none =
      (List.finRange 257).map fun n => (crowdName n).text := by
    rw [NoRoom.names, crowd]
    simp only [Option.map_none, Option.toList_none, List.nil_append]
    rw [List.filter_eq_self.mpr, List.map_map]
    · rfl
    · intro e hMem
      rcases List.mem_map.mp hMem with ⟨n, _, rfl⟩
      rfl
  have hNodup := (List.nodup_finRange 257).map
    (fun _ _ hEq => crowdName_text_injective hEq)
  rw [hNames, hNodup.dedup, List.length_map, List.length_finRange]

/- A record of too many logins fails the loader's check. -/
theorem not_sound_of_crowded
    {l : Ledger} {interval : ℕ}
    {name platform : Option ProfileName} {live : Reading}
    {others : List (ProfileName × Reading)}
    {probed : Option Probes} {at_ now : Int64}
    (hMany : maxProfiles <
      (NoRoom.names name live others platform).dedup.length) :
    ¬ (Update.apply l (.noRoom interval name platform live
      others probed at_ now)).Sound := by
  intro hSound
  have hCount := NoRoom.valid_untilReset_ofCycle_iff.mp hSound.noRoom
  exact absurd hCount (not_le.mpr hMany)

set_option maxRecDepth 20000 in
/-
  Recorded over the default ledger, 257 logins without room
  make a ledger its own loader refuses.
-/
theorem crowded_record_not_reloaded :
    ¬ ∀ (clock now : ℤ) (start : LedgerFile)
        (l : Ledger) (u : Update),
        loadLedger clock start = .ok (some l) →
          loadLedger now (saveLedger false (u.apply l)) =
            .ok (some (u.apply l)) := by
  intro hClaim
  have hDefault : loadLedger 100 (saveLedger false .default) =
      .ok (some .default) :=
    (loadable_default.loadLedger_iff (by decide)).mpr
      fun e hMem => absurd hMem List.not_mem_nil
  have hReloaded := hClaim 100 160 _ _
    (.noRoom 60 none none .failed crowd none 100 100) hDefault
  refine not_sound_of_crowded ?_ (loadLedger_saveLedger_iff.mp hReloaded).2.1
  rw [length_names_crowd]
  decide

end Rotate
