import Mathlib.Data.List.Basic
import Amplihack.Base.Numbers

/-
  The Bloom filter of a shard, bit by bit: items that were
  added are found, also on the other side of the wire.

  An index outside of the vector would end the program, so
  every read and write of a bit may fail.
-/

-- Bits

namespace Hive

open Base

/- The byte of a position, none outside of the vector. -/
def byteAt (bits : List UInt8) (pos : UInt64) : Option UInt8 :=
  bits[(pos >>> 3).toNat]?

def bitOf (pos : UInt64) : UInt8 := 1 <<< (pos &&& 7).toUInt8

def setBit (bits : List UInt8) (pos : UInt64) :
    Option (List UInt8) :=
  (byteAt bits pos).map fun byte =>
    bits.set (pos >>> 3).toNat (byte ||| bitOf pos)

def bitIsSet (bits : List UInt8) (pos : UInt64) : Option Bool :=
  (byteAt bits pos).map fun byte => byte &&& bitOf pos != 0

-- The Filter

structure BloomFilter where
  bits : List UInt8
  /- The number of bits. -/
  size : UInt64
  numHashes : UInt64
  count : ℕ

/- Two seeded hashes of an item. -/
abbrev SeededHash := String → UInt64 → UInt64

def goldenSeed : UInt64 := 0x9e3779b97f4a7c15

namespace BloomFilter

/- The optimal number of bits, at least 64. -/
def optimalSize
    (expectedItems : UInt64) (falsePositiveRate : Float) :
    UInt64 :=
  let n := max expectedItems 1
  let fpr :=
    Binary64.clamp 2.2250738585072014e-308 1.0 falsePositiveRate
  let ln2 := Float.log 2.0
  max 64 ((-(n.toFloat * Float.log fpr)) / (ln2 * ln2)).ceil.toUInt64

/- The optimal number of hashes, at least one. -/
def optimalHashes (expectedItems size : UInt64) : UInt64 :=
  let n := max expectedItems 1
  max 1 ((size.toFloat / n.toFloat) * Float.log 2.0).round.toUInt64

def new
    (expectedItems : UInt64) (falsePositiveRate : Float) :
    BloomFilter :=
  let size := optimalSize expectedItems falsePositiveRate
  { bits := List.replicate ((size.toNat + 7) / 8) 0
    size := size
    numHashes := optimalHashes expectedItems size
    count := 0 }

variable (hashWithSeed : SeededHash)

def getHashes (f : BloomFilter) (item : String) : List UInt64 :=
  let h1 := hashWithSeed item 0
  let h2 := hashWithSeed item goldenSeed
  (List.range f.numHashes.toNat).map fun i =>
    (h1 + UInt64.ofNat i * h2) % f.size

def add (f : BloomFilter) (item : String) : Option BloomFilter :=
  ((f.getHashes hashWithSeed item).foldlM setBit f.bits).map
    fun bits => { f with bits := bits, count := f.count + 1 }

def mightContain (f : BloomFilter) (item : String) :
    Option Bool :=
  (f.getHashes hashWithSeed item).allM (bitIsSet f.bits)

def missingFrom (f : BloomFilter) :
    List String → Option (List String)
| [] => some []
| item :: items => do
    let found ← f.mightContain hashWithSeed item
    let missing ← f.missingFrom items
    return if found then missing else item :: missing

def toBytes (f : BloomFilter) : List UInt8 := f.bits

def fromBytes
    (data : List UInt8) (expectedItems : UInt64) (falsePositiveRate : Float) :
    BloomFilter :=
  let f := new expectedItems falsePositiveRate
  let copyLen := min data.length f.bits.length
  { f with bits := data.take copyLen ++ f.bits.drop copyLen }

/- Items are added, and filters sent to be read back. -/
inductive FilterStep where
| add (item : String)
| send

section Steps

variable (expectedItems : UInt64)
variable (falsePositiveRate : Float)

def step (f : BloomFilter) : FilterStep → Option BloomFilter
| .add item => f.add hashWithSeed item
| .send =>
  some (fromBytes f.toBytes expectedItems falsePositiveRate)

def run (steps : List FilterStep) : Option BloomFilter :=
  steps.foldlM (step hashWithSeed expectedItems falsePositiveRate)
    (new expectedItems falsePositiveRate)

end Steps

end BloomFilter

-- Positions

variable {hashWithSeed : SeededHash}
variable {expectedItems : UInt64}
variable {falsePositiveRate : Float}
variable {bits : List UInt8}
variable {pos other : UInt64}
variable {f g : BloomFilter}
variable {item : String}

theorem bitOf_ne_zero (pos : UInt64) : bitOf pos ≠ 0 := by
  have hAll : ∀ k : Fin 8,
      (1 : UInt8) <<< (UInt64.ofNat k.val).toUInt8 ≠ 0 := by decide
  have hSmall : (pos &&& 7).toNat < 8 := by
    rw [UInt64.toNat_and]
    exact Nat.lt_succ_of_le Nat.and_le_right
  have hPos : UInt64.ofNat (pos &&& 7).toNat = pos &&& 7 := UInt64.ofNat_toNat
  unfold bitOf
  rw [← hPos]
  exact hAll ⟨_, hSmall⟩

/- A bit that is set stays set when others are set. -/
theorem or_and_ne_zero
    {x y m : UInt8} (hSet : x &&& m ≠ 0) :
    (x ||| y) &&& m ≠ 0 := by
  have hEither : (x ||| y) &&& m = x &&& m ||| y &&& m := by
    apply UInt8.toBitVec_inj.mp
    ext i
    simp [Bool.and_or_distrib_right]
  rw [hEither, Ne, UInt8.or_eq_zero_iff]
  exact fun hBoth => hSet hBoth.1

/- Every position below the size is in the vector. -/
theorem index_lt
    {size : UInt64} (hLength : bits.length = (size.toNat + 7) / 8)
    (hPos : pos < size) :
    (pos >>> 3).toNat < bits.length := by
  rw [hLength, UInt64.toNat_shiftRight]
  rw [UInt64.lt_iff_toNat_lt] at hPos
  change pos.toNat >>> 3 < _
  rw [Nat.shiftRight_eq_div_pow]
  omega

/- A position inside of the vector. -/
def Inside (bits : List UInt8) (pos : UInt64) : Prop :=
  (pos >>> 3).toNat < bits.length

theorem byteAt_of_inside (hInside : Inside bits pos) :
    ∃ byte, byteAt bits pos = some byte :=
  ⟨_, List.getElem?_eq_getElem hInside⟩

/- Setting one bit clears no other. -/
theorem setBit_spec (hInside : Inside bits pos) :
    ∃ set, setBit bits pos = some set ∧
      set.length = bits.length ∧
      bitIsSet set pos = some true ∧
      ∀ other, bitIsSet bits other = some true →
        bitIsSet set other = some true := by
  obtain ⟨byte, hByte⟩ := byteAt_of_inside hInside
  refine ⟨_, congrArg _ hByte, List.length_set, ?_, ?_⟩
  · unfold bitIsSet byteAt
    rw [List.getElem?_set_self hInside, Option.map_some,
      Option.some.injEq, bne_iff_ne, UInt8.or_comm]
    apply or_and_ne_zero
    rw [UInt8.and_self]
    exact bitOf_ne_zero pos
  · intro other hSet
    unfold bitIsSet byteAt at hSet ⊢
    by_cases hSame : (pos >>> 3).toNat = (other >>> 3).toNat
    · unfold byteAt at hByte
      rw [← hSame, hByte, Option.map_some, Option.some.injEq,
        bne_iff_ne] at hSet
      rw [← hSame, List.getElem?_set_self hInside,
        Option.map_some, Option.some.injEq, bne_iff_ne]
      exact or_and_ne_zero hSet
    · rw [List.getElem?_set_ne hSame]
      exact hSet

/- After setting many, each is set, and what was before. -/
theorem setBits_spec
    {positions : List UInt64} (hInside : ∀ pos ∈ positions, Inside bits pos) :
    ∃ set, positions.foldlM setBit bits = some set ∧
      set.length = bits.length ∧
      (∀ pos ∈ positions, bitIsSet set pos = some true) ∧
      ∀ other, bitIsSet bits other = some true →
        bitIsSet set other = some true := by
  induction positions generalizing bits with
  | nil =>
    exact ⟨bits, rfl, rfl, fun _ hMem => absurd hMem List.not_mem_nil,
      fun _ hSet => hSet⟩
  | cons pos positions ih =>
    rw [List.forall_mem_cons] at hInside
    obtain ⟨first, hFirst, hLength, hSet, hKeeps⟩ :=
      setBit_spec hInside.1
    have hRest : ∀ pos ∈ positions, Inside first pos := by
      intro other hOther
      unfold Inside
      rw [hLength]
      exact hInside.2 other hOther
    obtain ⟨last, hLast, hSame, hAll, hStays⟩ := ih hRest
    refine ⟨last, ?_, hSame.trans hLength, ?_, ?_⟩
    · rw [List.foldlM_cons, hFirst]
      exact hLast
    · rw [List.forall_mem_cons]
      exact ⟨hStays pos hSet, hAll⟩
    · exact fun other hOther =>
        hStays other (hKeeps other hOther)

theorem allM_bitIsSet
    {positions : List UInt64}
    (hAll : ∀ pos ∈ positions, bitIsSet bits pos = some true) :
    positions.allM (bitIsSet bits) = some true := by
  induction positions with
  | nil => rfl
  | cons pos positions ih =>
    rw [List.forall_mem_cons] at hAll
    rw [List.allM, hAll.1]
    exact ih hAll.2

theorem allM_isSome
    {positions : List UInt64} (hInside : ∀ pos ∈ positions, Inside bits pos) :
    ∃ found, positions.allM (bitIsSet bits) = some found := by
  induction positions with
  | nil => exact ⟨true, rfl⟩
  | cons pos positions ih =>
    rw [List.forall_mem_cons] at hInside
    obtain ⟨byte, hByte⟩ := byteAt_of_inside hInside.1
    obtain ⟨found, hFound⟩ := ih hInside.2
    have hSet : bitIsSet bits pos = some (byte &&& bitOf pos != 0) :=
      congrArg _ hByte
    rw [List.allM, hSet]
    cases hBit : byte &&& bitOf pos != 0 with
    | false => exact ⟨false, rfl⟩
    | true => exact ⟨found, hFound⟩

-- Filters Of One Size

namespace BloomFilter

/- The vector is as long as the size needs. -/
structure Sized
    (expectedItems : UInt64) (falsePositiveRate : Float) (f : BloomFilter) :
    Prop where
  size : f.size = optimalSize expectedItems falsePositiveRate
  hashes : f.numHashes = optimalHashes expectedItems f.size
  length : f.bits.length = (f.size.toNat + 7) / 8

theorem sized_new :
    Sized expectedItems falsePositiveRate
      (new expectedItems falsePositiveRate) :=
  ⟨rfl, rfl, List.length_replicate⟩

theorem toNat_le_max (x y : UInt64) :
    x.toNat ≤ (max x y).toNat := by
  rw [UInt64.max_def]
  split
  next hLe => exact UInt64.le_iff_toNat_le.mp hLe
  next => exact Nat.le_refl _

theorem Sized.size_pos
    (hSized : Sized expectedItems falsePositiveRate f) :
    0 < f.size.toNat := by
  rw [hSized.size]
  unfold optimalSize
  exact lt_of_lt_of_le (by decide) (toNat_le_max 64 _)

/- The positions of an item are inside of the vector. -/
theorem Sized.inside
    (hSized : Sized expectedItems falsePositiveRate f) (item : String) :
    ∀ pos ∈ f.getHashes hashWithSeed item, Inside f.bits pos := by
  intro pos hPos
  obtain ⟨i, -, rfl⟩ := List.mem_map.mp hPos
  refine index_lt hSized.length ?_
  rw [UInt64.lt_iff_toNat_lt, UInt64.toNat_mod]
  exact Nat.mod_lt _ hSized.size_pos

/- Every bit of an item is set. -/
def Held
    (hashWithSeed : SeededHash) (f : BloomFilter) (item : String) :
    Prop :=
  ∀ pos ∈ f.getHashes hashWithSeed item, bitIsSet f.bits pos = some true

theorem add_spec
    (hSized : Sized expectedItems falsePositiveRate f) (item : String) :
    ∃ g, f.add hashWithSeed item = some g ∧
      Sized expectedItems falsePositiveRate g ∧
      Held hashWithSeed g item ∧
      ∀ other, Held hashWithSeed f other → Held hashWithSeed g other := by
  obtain ⟨set, hSet, hLength, hAll, hStays⟩ :=
    setBits_spec (hSized.inside item)
  refine ⟨_, congrArg _ hSet, ?_, hAll, ?_⟩
  · exact ⟨hSized.size, hSized.hashes, hLength.trans hSized.length⟩
  · exact fun other hHeld pos hPos =>
      hStays pos (hHeld pos hPos)

/- A filter is read back as it was sent. -/
theorem fromBytes_toBytes
    (hSized : Sized expectedItems falsePositiveRate f) :
    fromBytes f.toBytes expectedItems falsePositiveRate =
      { f with count := 0 } := by
  have hNew : (new expectedItems falsePositiveRate).bits.length =
      f.bits.length := by
    rw [hSized.length, hSized.size]
    exact List.length_replicate
  unfold fromBytes toBytes
  dsimp only
  rw [hNew, Nat.min_self, List.take_length,
    ← hNew, List.drop_length, List.append_nil]
  have hSize : (new expectedItems falsePositiveRate).size =
      f.size := hSized.size.symm
  have hHashes :
      (new expectedItems falsePositiveRate).numHashes =
        f.numHashes := by
    rw [hSized.hashes, hSized.size]
    rfl
  rw [hSize, hHashes]
  rfl

theorem step_spec
    (hSized : Sized expectedItems falsePositiveRate f) (s : FilterStep) :
    ∃ g, step hashWithSeed expectedItems falsePositiveRate f s = some g ∧
      Sized expectedItems falsePositiveRate g ∧
      (∀ item, .add item = s → Held hashWithSeed g item) ∧
      ∀ item, Held hashWithSeed f item → Held hashWithSeed g item := by
  cases s with
  | add item =>
    obtain ⟨g, hAdd, hAfter, hNew, hKept⟩ :=
      add_spec hSized item
    refine ⟨g, hAdd, hAfter, ?_, hKept⟩
    intro other hSame
    rw [FilterStep.add.inj hSame]
    exact hNew
  | send =>
    refine ⟨_, rfl, ?_⟩
    rw [fromBytes_toBytes hSized]
    refine ⟨?_, ?_, fun _ hHeld => hHeld⟩
    · exact ⟨hSized.size, hSized.hashes, hSized.length⟩
    · intro item hAdd
      cases hAdd

/- A run ends, and holds what it added and held before. -/
theorem steps_spec
    (hSized : Sized expectedItems falsePositiveRate f)
    (steps : List FilterStep) :
    ∃ g, steps.foldlM
        (step hashWithSeed expectedItems falsePositiveRate) f = some g ∧
      Sized expectedItems falsePositiveRate g ∧
      (∀ item, .add item ∈ steps → Held hashWithSeed g item) ∧
      ∀ item, Held hashWithSeed f item → Held hashWithSeed g item := by
  induction steps generalizing f with
  | nil =>
    exact ⟨f, rfl, hSized, fun _ hMem => absurd hMem List.not_mem_nil,
      fun _ hHeld => hHeld⟩
  | cons s steps ih =>
    obtain ⟨g, hStep, hAfter, hNew, hKept⟩ :=
      step_spec hSized s
    obtain ⟨last, hRun, hLast, hLater, hStays⟩ := ih hAfter
    refine ⟨last, ?_, hLast, ?_, ?_⟩
    · rw [List.foldlM_cons, hStep]
      exact hRun
    · intro item hMem
      rcases List.mem_cons.mp hMem with hFirst | hRest
      · exact hStays item (hNew item hFirst)
      · exact hLater item hRest
    · exact fun item hHeld => hStays item (hKept item hHeld)

theorem mightContain_of_held (hHeld : Held hashWithSeed f item) :
    f.mightContain hashWithSeed item = some true :=
  allM_bitIsSet hHeld

/- No list of what is missing names an item that is held. -/
theorem missingFrom_spec
    (hSized : Sized expectedItems falsePositiveRate f) (items : List String) :
    ∃ missing, f.missingFrom hashWithSeed items = some missing ∧
      ∀ item, Held hashWithSeed f item → item ∉ missing := by
  induction items with
  | nil => exact ⟨[], rfl, fun _ _ => List.not_mem_nil⟩
  | cons first items ih =>
    obtain ⟨missing, hMissing, hNone⟩ := ih
    have hInside : ∀ pos ∈ f.getHashes hashWithSeed first,
        Inside f.bits pos := hSized.inside first
    obtain ⟨found, hFound⟩ := allM_isSome hInside
    have hAnswer : f.mightContain hashWithSeed first = some found := hFound
    refine ⟨if found then missing else first :: missing, ?_, ?_⟩
    · rw [missingFrom, hAnswer, hMissing]
      rfl
    · intro item hHeld hMem
      cases found with
      | true => exact hNone item hHeld hMem
      | false =>
        rcases List.mem_cons.mp hMem with rfl | hLater
        · rw [mightContain_of_held hHeld] at hAnswer
          cases hAnswer
        · exact hNone item hHeld hLater

/-
  Whatever is added, before or after filters are sent and
  read back, every item added is found from then on and no
  list of missing items names it.
-/
theorem no_false_negatives
    (hashWithSeed : SeededHash) (expectedItems : UInt64)
    (falsePositiveRate : Float) (steps : List FilterStep) :
    ∃ f, run hashWithSeed expectedItems falsePositiveRate steps = some f ∧
      (∀ item, .add item ∈ steps →
        f.mightContain hashWithSeed item = some true) ∧
      ∀ items, ∃ missing,
        f.missingFrom hashWithSeed items = some missing ∧
          ∀ item, .add item ∈ steps → item ∉ missing := by
  obtain ⟨f, hRun, hSized, hAdded, -⟩ :=
    steps_spec sized_new steps
  refine ⟨f, hRun, ?_, ?_⟩
  · exact fun item hMem => mightContain_of_held (hAdded item hMem)
  · intro items
    obtain ⟨missing, hMissing, hNone⟩ :=
      missingFrom_spec hSized items
    exact ⟨missing, hMissing, fun item hMem => hNone item (hAdded item hMem)⟩

end BloomFilter

end Hive
