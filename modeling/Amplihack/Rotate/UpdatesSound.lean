import Amplihack.Rotate.LedgerUpdates
import Mathlib.Data.List.Sort
import Mathlib.Data.String.Basic

/-
  Each thing a cycle writes into the ledger passes the
  loader's check for it.
-/

-- Logins With No Room

namespace Rotate

open Base Profile

namespace NoRoom

/- Twice the interval is no negative number. -/
theorem spanOf_nonneg (interval : ℕ) :
    0 ≤ spanOf interval := by
  unfold spanOf maxSecs
  simp only
  split_ifs <;> omega

/- However far apart two times are, the wrapped length between
   them never leads back before the first. -/
theorem le_add_sub_toInt
    {a b : Int64} (hLe : b.toInt ≤ a.toInt) :
    b.toInt ≤ a.toInt + (a - b).toInt := by
  have ha := toInt_range a
  have hb := toInt_range b
  simp only [i64Min, i64Max] at ha hb
  rw [Int64.toInt_sub, Int.bmod_def]
  split_ifs <;> omega

/- The record ends at or after its measurement, and at most an
   hour later. -/
theorem until_ofCycle_range
    (live : Option ProfileName) (reading : Reading)
    (others : List (ProfileName × Reading))
    (platform : Option ProfileName) (at_ written : Int64) (interval : ℕ) :
    let r := ofCycle live reading others platform at_ written
      interval
    at_.toInt ≤ r.until_.toInt ∧ r.until_.toInt ≤ at_.toInt + maxSecs := by
  intro r
  let w := if written < at_ then at_ else written
  have hAt := toInt_range at_
  have hLate : at_.toInt ≤ w.toInt := by
    change at_.toInt ≤ (if written < at_ then at_ else written).toInt
    split
    · exact le_rfl
    · next hNot =>
        rwa [Int64.lt_iff_toInt_lt, not_lt] at hNot
  have hLimitLow : at_.toInt ≤ saturatingAdd at_.toInt maxSecs :=
    le_saturate (by simp [maxSecs]) hAt.2
  have hLimitHigh : saturatingAdd at_.toInt maxSecs ≤ at_.toInt + maxSecs :=
    saturate_le (by simp only [maxSecs]; omega)
  have hSpan : w.toInt ≤ saturatingAdd w.toInt (spanOf interval) := by
    have hNonneg := spanOf_nonneg interval
    exact le_saturate (by omega) (toInt_range w).2
  have hLateLow : at_.toInt ≤
      saturatingAdd (saturatingAdd w.toInt (spanOf interval))
        (w - at_).toInt := by
    have hWrap := le_add_sub_toInt hLate
    exact le_saturate (by omega) hAt.2
  have hEnd : r.until_.toInt =
      min (saturatingAdd
          (saturatingAdd w.toInt (spanOf interval))
          (w - at_).toInt)
        (saturatingAdd at_.toInt maxSecs) := by
    have hRange := saturate_range (at_.toInt + maxSecs)
    refine toInt_ofInt_of_range ?_ ?_
    · exact le_trans hAt.1 (le_min hLateLow hLimitLow)
    · exact le_trans (min_le_right _ _) hRange.2
  rw [hEnd]
  exact ⟨le_min hLateLow hLimitLow, le_trans (min_le_right _ _) hLimitHigh⟩

/- Sorting and dropping repeats leaves each name below the
   next. -/
theorem strictlySorted_of_pairwise :
    ∀ {names : List String},
      names.Pairwise (· < ·) → strictlySorted names = true := by
  intro names hPairwise
  induction names with
  | nil => rfl
  | cons a names ih =>
    rw [List.pairwise_cons] at hPairwise
    cases names with
    | nil => rfl
    | cons b rest =>
      simp only [strictlySorted, Bool.and_eq_true]
      exact ⟨decide_eq_true (hPairwise.1 b (by simp)), ih hPairwise.2⟩

theorem strictlySorted_dedup_insertionSort
    (names : List String) :
    strictlySorted (names.insertionSort (· ≤ ·)).dedup = true := by
  apply strictlySorted_of_pairwise
  have hSorted : (names.insertionSort (· ≤ ·)).dedup.Pairwise (· ≤ ·) :=
    List.Pairwise.sublist (List.dedup_sublist _)
      (List.pairwise_insertionSort _ _)
  have hNodup := List.nodup_dedup (names.insertionSort (· ≤ ·))
  refine (hSorted.and hNodup).imp ?_
  rintro a b ⟨hLe, hNe⟩
  exact lt_of_le_of_ne hLe hNe

/- The count of names is that of the distinct ones. -/
theorem length_profiles_ofCycle
    (names : List String) :
    (names.insertionSort (· ≤ ·)).dedup.length =
      names.dedup.length :=
  (List.Perm.dedup (List.perm_insertionSort _ names)).length_eq

variable {live : Option ProfileName} {reading : Reading}
variable {others : List (ProfileName × Reading)}
variable {platform : Option ProfileName}

theorem validLiveName_of_mem_names
    {name : String} (hMem : name ∈ names live reading others platform) :
    validLiveName name = true := by
  rw [names, List.mem_map] at hMem
  rcases hMem with ⟨e, _, rfl⟩
  exact e.1.valid

variable {r : NoRoom}

/- With its span and names in order, only the count is left. -/
theorem valid_iff_length_le
    (hLow : r.at_.toInt ≤ r.until_.toInt)
    (hHigh : r.until_.toInt ≤ r.at_.toInt + maxSecs)
    (hSorted : strictlySorted r.profiles = true)
    (hNames : ∀ n ∈ r.profiles, validLiveName n = true) :
    r.valid = true ↔ r.profiles.length ≤ maxProfiles := by
  have hSpan : (r.until_ - r.at_).toInt ≤ maxSecs := by
    rw [toInt_sub_of_range]
    · omega
    · simp only [i64Min]
      omega
    · simp only [maxSecs, i64Max] at hHigh ⊢
      omega
  have hAll : r.profiles.all validLiveName = true :=
    List.all_eq_true.mpr hNames
  simp only [valid, decide_eq_true hLow, decide_eq_true hSpan, hSorted,
    hAll, Bool.true_and, Bool.and_true, decide_eq_true_eq]

@[simp] theorem untilReset_at
    (r : NoRoom) (probes : List (ProfileName × Reading × Windows)) :
    (untilReset r probes).at_ = r.at_ := by
  unfold untilReset
  simp only
  split <;> rfl

@[simp] theorem untilReset_profiles
    (r : NoRoom) (probes : List (ProfileName × Reading × Windows)) :
    (untilReset r probes).profiles = r.profiles := by
  unfold untilReset
  simp only
  split <;> rfl

/- A reset only shortens a record, and not below its start. -/
theorem until_untilReset_range
    (probes : List (ProfileName × Reading × Windows))
    (hLow : r.at_.toInt ≤ r.until_.toInt) :
    r.at_.toInt ≤ (untilReset r probes).until_.toInt ∧
      (untilReset r probes).until_.toInt ≤ r.until_.toInt := by
  unfold untilReset
  simp only
  split
  · exact ⟨hLow, le_rfl⟩
  · next back _ =>
      have hAt := toInt_range r.at_
      have hUntil := toInt_range r.until_
      have hBetween :
          r.at_.toInt ≤ min r.until_.toInt (max back r.at_.toInt) :=
        le_min hLow (le_max_right _ _)
      rw [toInt_ofInt_of_range
        (le_trans hAt.1 hBetween)
        (le_trans (min_le_left _ _) hUntil.2)]
      exact ⟨hBetween, min_le_left _ _⟩

/- What a cycle records is valid exactly when at most 256
   logins have no room. -/
theorem valid_untilReset_ofCycle_iff
    {at_ written : Int64} {interval : ℕ}
    {probes : List (ProfileName × Reading × Windows)} :
    (untilReset (ofCycle live reading others platform at_
        written interval) probes).valid = true ↔
      (names live reading others platform).dedup.length ≤
        maxProfiles := by
  rcases until_ofCycle_range live reading others platform at_
    written interval with ⟨hLow, hHigh⟩
  rcases until_untilReset_range probes hLow with ⟨hLow', hHigh'⟩
  rw [valid_iff_length_le (by rwa [untilReset_at])
      (by rw [untilReset_at]; exact le_trans hHigh' hHigh)]
  · rw [untilReset_profiles, ofCycle, length_profiles_ofCycle]
  · rw [untilReset_profiles]
    exact strictlySorted_dedup_insertionSort _
  · intro n hMem
    rw [untilReset_profiles, ofCycle, List.mem_dedup,
      (List.perm_insertionSort _ _).mem_iff] at hMem
    exact validLiveName_of_mem_names hMem

end NoRoom

-- Swap-Back Damping

/- Sixteen entries or fewer lose none. -/
theorem cap_eq_self
    {map : Dict String Int64} (hLength : map.entries.length ≤ maxEntries) :
    cap map = map := by
  have hOldest : oldest map = [] := by
    rw [oldest, Nat.sub_eq_zero_of_le hLength, List.take_zero, List.map_nil]
  rw [cap, hOldest]
  exact Dict.retain_eq_self fun e _ => by simp

/- The entries beyond sixteen are dropped, by their names. -/
theorem length_cap_le (map : Dict String Int64) :
    (cap map).entries.length ≤ maxEntries := by
  let sorted :=
    map.entries.insertionSort fun a b => ageKey a ≤ ageKey b
  let k := map.entries.length - maxEntries
  let kept := fun e : String × Int64 =>
    !(oldest map).contains e.1
  have hPerm : sorted.Perm map.entries := List.perm_insertionSort _ _
  have hTaken : (sorted.take k).filter kept = [] := by
    refine List.filter_eq_nil_iff.mpr fun e hMem => ?_
    have hOldest : e.1 ∈ oldest map := List.mem_map.mpr ⟨e, hMem, rfl⟩
    simpa [kept] using hOldest
  calc (cap map).entries.length
      = (map.entries.filter kept).length := rfl
    _ = (sorted.filter kept).length :=
        (hPerm.filter kept).length_eq.symm
    _ = ((sorted.drop k).filter kept).length := by
        rw [← List.take_append_drop k sorted, List.filter_append, hTaken,
          List.nil_append, List.take_append_drop]
    _ ≤ (sorted.drop k).length := List.length_filter_le _ _
    _ ≤ maxEntries := by
        rw [List.length_drop, hPerm.length_eq]
        omega

theorem mem_of_mem_cap
    {map : Dict String Int64} {e : String × Int64}
    (hMem : e ∈ (cap map).entries) :
    e ∈ map.entries :=
  (Dict.mem_of_mem_retain hMem).1

/- What a loader at `now` keeps as it is. -/
theorem validSwappedAway_eq_self
    {map : Dict String Int64} {now : ℤ}
    (hOk : ∀ e ∈ map.entries, swappedAwayOk now e.1 e.2 = true)
    (hLength : map.entries.length ≤ maxEntries) :
    validSwappedAway map now = map := by
  rw [validSwappedAway, Dict.retain_eq_self hOk, cap_eq_self hLength]

namespace SwapBack

theorem mem_of_mem_lift
    {s : Settings} {measuredAt : ℤ} {acc : Dict String Int64 × List String}
    {p : ProfileName × Probed} {e : String × Int64}
    (hMem : e ∈ (lift s measuredAt acc p).1.entries) :
    e ∈ acc.1.entries := by
  unfold lift at hMem
  split at hMem
  · exact hMem
  · simp only at hMem
    split at hMem
    · exact (Dict.mem_of_mem_retain hMem).1
    · exact hMem

theorem mem_of_mem_foldl_lift
    {s : Settings} {measuredAt : ℤ} {e : String × Int64} :
    ∀ {named : List (ProfileName × Probed)}
      {acc : Dict String Int64 × List String},
      e ∈ (named.foldl (lift s measuredAt) acc).1.entries →
        e ∈ acc.1.entries := by
  intro named
  induction named with
  | nil => exact fun hMem => hMem
  | cons p named ih =>
    intro acc hMem
    exact mem_of_mem_lift (ih hMem)

/- The login left while full, when there is one. -/
def leftFull
    (s : Settings)
    (left : Option (ProfileName × Reading)) : Bool :=
  left.any fun p => full p.2 s

/- An update stores the login left while full, and nothing
   else. -/
theorem entries_update
    {l : Ledger} {s : Settings} {live : Option ProfileName}
    {probes : Option Probes} {left : Option (ProfileName × Reading)}
    {measuredAt : ℤ} {now : Int64} {e : String × Int64}
    (hMem : e ∈ (update l s live probes left measuredAt
      now).1.swappedAway.entries) :
    e ∈ l.swappedAway.entries ∨
      leftFull s left = true ∧ e.2 = now ∧ validLiveName e.1 = true := by
  unfold update prune at hMem
  simp only at hMem
  have hRecorded := (Dict.mem_of_mem_retain (mem_of_mem_cap hMem)).1
  split at hRecorded
  · next source reading =>
      split at hRecorded
      · next hFull =>
          rcases Dict.mem_of_mem_insert hRecorded with
            rfl | hOld
          · exact .inr ⟨by simpa [leftFull] using hFull, rfl, source.valid⟩
          · exact .inl (mem_of_mem_foldl_lift hOld)
      · exact .inl (mem_of_mem_foldl_lift hRecorded)
  · exact .inl (mem_of_mem_foldl_lift hRecorded)

theorem length_update_le
    (l : Ledger) (s : Settings) (live : Option ProfileName)
    (probes : Option Probes) (left : Option (ProfileName × Reading))
    (measuredAt : ℤ) (now : Int64) :
    (update l s live probes left measuredAt
      now).1.swappedAway.entries.length ≤ maxEntries :=
  length_cap_le _

end SwapBack

-- Spend Blocks

/- What the loader checks of the overflow fields. -/
structure Ledger.OverflowSound (l : Ledger) : Prop where
  tag : ∀ t, (l.lastCycle.bind (·.overflow)) = some t → t ∈ overflowTags
  liveKind : ∀ k, l.liveKind = some k →
    k = liveKindPlatform ∧ l.live.isSome = true
  platformBlock : ∀ b, l.platformBlock = some b →
    b.reason ∈ keyReasons ∧ spanOk b = true
  count : l.overflowBlocked.entries.length ≤ maxBlocks
  blocks : ∀ e ∈ l.overflowBlocked.entries, spendBlockOk e.1 e.2 = true

theorem validOverflow_iff {l : Ledger} :
    validOverflow l = true ↔ l.OverflowSound := by
  simp only [validOverflow, Bool.and_eq_true, decide_eq_true_eq,
    Option.all_eq_true, List.all_eq_true, List.contains_iff_mem]
  constructor
  · rintro ⟨⟨⟨⟨hTag, hKind⟩, hBlock⟩, hCount⟩, hBlocks⟩
    exact
      { tag := hTag
        liveKind := hKind
        platformBlock := hBlock
        count := hCount
        blocks := hBlocks }
  · intro hSound
    exact ⟨⟨⟨⟨hSound.tag, hSound.liveKind⟩,
      hSound.platformBlock⟩, hSound.count⟩, hSound.blocks⟩

/- A year bounds its days. -/
theorem day_lt_of_yearOf_le
    {day year : ℤ} (hNonneg : 0 ≤ year) (hLe : Calendar.yearOf day ≤ year) :
    day < 366 * year + 366 := by
  have hDay := (Calendar.daysBeforeYear_yearOf day).2
  have hLeap := Calendar.leapDay_range (Calendar.yearOf day)
  unfold Calendar.daysBeforeYear at hDay
  omega

/- A reset after `t` is within 31 days, and far from the last
   representable time. -/
theorem spendReset_range
    {t : Int64} (hAfter : t.toInt < (spendReset t).toInt) :
    (spendReset t).toInt ≤ t.toInt + 31 * 86400 ∧
      t.toInt + maxBlockSecs ≤ i64Max := by
  have ht := toInt_range t
  unfold spendReset at hAfter ⊢
  simp only at hAfter ⊢
  split at hAfter
  · next hYears =>
      rw [if_pos hYears]
      have hNext := Calendar.nextMonthStart_range (t.toInt / 86400 + epochDay)
      have hDay :=
        day_lt_of_yearOf_le (by decide) hYears.2.1
      generalize Calendar.nextMonthStart
        (t.toInt / 86400 + epochDay) = next at *
      simp only [i64Min, i64Max, epochDay, maxBlockSecs] at *
      rw [toInt_ofInt_of_range (by simp only [i64Min]; omega)
        (by simp only [i64Max]; omega)]
      omega
  · exact absurd hAfter (lt_irrefl _)

/- A block that ends after its time is one the loader takes. -/
theorem spanOk_spendLimit
    {t : Int64} (hPos : 0 < t.toInt)
    (hAfter : ¬(OverflowBlock.spendLimit t).until_ ≤
      (OverflowBlock.spendLimit t).at_) :
    spanOk (OverflowBlock.spendLimit t) = true := by
  have hLater : t.toInt < (spendReset t).toInt := by
    rwa [OverflowBlock.spendLimit, Int64.le_iff_toInt_le, not_le] at hAfter
  rcases spendReset_range hLater with ⟨hWithin, hFar⟩
  have hEnd : (spendReset t).toInt ≤ t.toInt + maxBlockSecs := by
    simp only [maxBlockSecs]
    omega
  simp [spanOk, OverflowBlock.spendLimit, hPos, hLater, hFar, hEnd]

theorem overflowSound_pruneBlocks
    {l : Ledger} (hSound : l.OverflowSound) (now : ℤ) :
    (pruneBlocks l now).OverflowSound where
  tag := hSound.tag
  liveKind := hSound.liveKind
  platformBlock := by
    intro b hBlock
    rw [pruneBlocks, Option.filter_eq_some_iff] at hBlock
    exact hSound.platformBlock b hBlock.1
  count := le_trans (Dict.length_retain_le _ _) hSound.count
  blocks := fun e hMem =>
    hSound.blocks e (Dict.mem_of_mem_retain hMem).1

/- Dropping ended blocks changes only the blocks. -/
theorem sound_pruneBlocks
    {l : Ledger} (hSound : l.Sound) (now : ℤ) :
    (pruneBlocks l now).Sound :=
  { hSound with
    overflow := validOverflow_iff.mpr
      (overflowSound_pruneBlocks (validOverflow_iff.mp hSound.overflow) now) }

/- A new block is stored where the loader takes it. -/
theorem sound_blockOne
    {t : Int64} {acc : Ledger × Bool} (hPos : 0 < t.toInt)
    (hSound : acc.1.Sound) (n : ProfileName) :
    (blockOne t acc n).1.Sound := by
  have hPruned := sound_pruneBlocks hSound t.toInt
  have hOverflow := validOverflow_iff.mp hPruned.overflow
  unfold blockOne
  simp only
  split
  · exact hSound
  split
  · exact hPruned
  next hCount =>
  split
  · exact hPruned
  next hAfter =>
  have hBlock : spendBlockOk n.text (OverflowBlock.spendLimit t) = true := by
    have hReason : (OverflowBlock.spendLimit t).reason =
      spendLimitReason := rfl
    simp [spendBlockOk, n.valid, hReason, spanOk_spendLimit hPos hAfter]
  refine { hPruned with
    overflow := validOverflow_iff.mpr
      { hOverflow with
        count := ?_
        blocks := ?_ } }
  · have hLength := Dict.length_insert_le n.text
      (OverflowBlock.spendLimit t)
      (pruneBlocks acc.1 t.toInt).overflowBlocked
    simp only
    omega
  · intro e hMem
    rcases Dict.mem_of_mem_insert hMem with rfl | hOld
    · exact hBlock
    · exact hOverflow.blocks e hOld

theorem sound_blockWith
    {l : Ledger} {t : Int64} (hPos : 0 < t.toInt)
    (hSound : l.Sound) (names : List ProfileName) :
    (blockWith l names t).1.Sound := by
  have hFold :
      ∀ (acc : Ledger × Bool), acc.1.Sound →
        (names.foldl (blockOne t) acc).1.Sound := by
    induction names with
    | nil => exact fun _ hAcc => hAcc
    | cons n names ih =>
      intro acc hAcc
      exact ih _ (sound_blockOne hPos hAcc n)
  exact hFold (l, false) hSound

theorem swappedAway_blockOne
    (t : Int64) (acc : Ledger × Bool) (n : ProfileName) :
    (blockOne t acc n).1.swappedAway = acc.1.swappedAway := by
  unfold blockOne
  simp only
  split_ifs <;> rfl

theorem swappedAway_blockWith
    (l : Ledger) (names : List ProfileName) (t : Int64) :
    (blockWith l names t).1.swappedAway = l.swappedAway := by
  have hFold :
      ∀ acc : Ledger × Bool,
        (names.foldl (blockOne t) acc).1.swappedAway =
          acc.1.swappedAway := by
    induction names with
    | nil => exact fun _ => rfl
    | cons n names ih =>
      intro acc
      rw [List.foldl_cons, ih, swappedAway_blockOne]
  exact hFold (l, false)

-- Alerts

theorem unprintable_eq_false_of_ascii
    {c : Char} (hLow : 32 ≤ c.toNat) (hHigh : c.toNat < 127) :
    unprintable c = false := by
  have hNat : c.val.toNat = c.toNat := rfl
  simp only [unprintable, isControl, Bool.or_eq_false_iff,
    Bool.and_eq_false_iff, decide_eq_false_iff_not, UInt32.lt_iff_toNat_lt,
    UInt32.le_iff_toNat_le, UInt32.reduceToNat]
  omega

/- A character of a profile name. -/
def isNameChar (c : Char) : Bool :=
  c.isAlphanum || c = '.' || c = '_' || c = '-'

theorem unprintable_eq_false_of_isNameChar
    {c : Char} (hName : isNameChar c = true) :
    unprintable c = false := by
  have hRange : 32 ≤ c.toNat ∧ c.toNat < 127 := by
    delta isNameChar Char.isAlphanum Char.isAlpha Char.isUpper
      Char.isLower Char.isDigit at hName
    simp only [Bool.or_eq_true, Bool.and_eq_true,
      decide_eq_true_eq, UInt32.le_iff_toNat_le, ge_iff_le,
      Char.reduceVal, UInt32.reduceToNat] at hName
    have hNat : c.val.toNat = c.toNat := rfl
    rcases hName with ((hName | rfl) | rfl) | rfl
    · omega
    · decide
    · decide
    · decide
  exact unprintable_eq_false_of_ascii hRange.1 hRange.2

theorem isNameChar_of_validLiveName
    {name : String} (hValid : validLiveName name = true) :
    name.utf8ByteSize ≤ maxName ∧ ∀ c ∈ name.toList, isNameChar c = true := by
  unfold validLiveName at hValid
  split at hValid
  · cases hValid
  · next first rest hList =>
      simp only [Bool.and_eq_true, decide_eq_true_eq,
        List.all_eq_true] at hValid
      rcases hValid with ⟨⟨⟨⟨⟨hSize, hFirst⟩, hRest⟩, _⟩, _⟩, _⟩
      refine ⟨hSize, fun c hMem => ?_⟩
      rw [hList, List.mem_cons] at hMem
      rcases hMem with rfl | hMem
      · simp [isNameChar, hFirst]
      · simpa [isNameChar] using hRest c hMem

/- A short printable kind leaves room for any profile name. -/
theorem safeAccount_alertKey
    {kind : String} (hSize : kind.utf8ByteSize ≤ 255)
    (hPrintable : kind.toList.any unprintable = false)
    (live : Option ProfileName) :
    safeAccount (alertKey kind live) = true := by
  have hName :
      ((live.map (·.text)).getD "-").utf8ByteSize ≤ maxName ∧
        ∀ c ∈ ((live.map (·.text)).getD "-").toList, isNameChar c = true := by
    cases live with
    | none =>
      refine ⟨by decide, fun c hMem => ?_⟩
      rw [List.mem_singleton.mp hMem]
      rfl
    | some n => exact isNameChar_of_validLiveName n.valid
  rcases hName with ⟨hNameSize, hNameChars⟩
  have hBytes : (alertKey kind live).utf8ByteSize ≤
      maxAccount := by
    have hColon : (":" : String).utf8ByteSize = 1 := by decide
    rw [alertKey, String.utf8ByteSize_append,
      String.utf8ByteSize_append, hColon]
    simp only [maxName, maxAccount] at hNameSize ⊢
    omega
  have hNotEmpty : (alertKey kind live).isEmpty = false := by
    rw [Bool.eq_false_iff, ne_eq, String.isEmpty_iff]
    intro hEmpty
    have hList := congrArg String.toList hEmpty
    simp [alertKey] at hList
  have hChars : (alertKey kind live).toList.any unprintable = false := by
    rw [alertKey, String.toList_append, String.toList_append,
      List.any_append, List.any_append, hPrintable]
    have hName : ((live.map (·.text)).getD "-").toList.any
        unprintable = false :=
      List.any_eq_false.mpr fun c hMem => by
        simp [unprintable_eq_false_of_isNameChar (hNameChars c hMem)]
    rw [hName]
    decide
  simp [safeAccount, hBytes, hNotEmpty, hChars]

/- No more bytes are taken than allowed. -/
theorem utf8ByteSize_takeBytes_le (cs : List Char) :
    ∀ limit : ℕ,
      (String.ofList (takeBytes limit cs)).utf8ByteSize ≤
        limit := by
  induction cs with
  | nil => simp [takeBytes]
  | cons c cs ih =>
    intro limit
    unfold takeBytes
    split
    · simp
    · next hFits =>
        have hRest := ih (limit - c.utf8Size)
        rw [String.ofList_cons, String.utf8ByteSize_append,
          String.utf8ByteSize_singleton]
        omega

/- Every kind is short, a refusal's included. -/
theorem AlertKind.utf8ByteSize_text_le (kind : AlertKind) :
    kind.text.utf8ByteSize ≤ 255 := by
  cases kind with
  | refused reason =>
    have hTaken := utf8ByteSize_takeBytes_le
      (reason.toList.filter fun c => !isControl c) 192
    have hPrefix : ("refused " : String).utf8ByteSize = 8 := by decide
    simp only [text, refusalKind, String.utf8ByteSize_append, hPrefix]
    omega
  | _ => decide

end Rotate
