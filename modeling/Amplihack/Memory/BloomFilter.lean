import Amplihack.Base.LittleEndian
import Amplihack.Hive.BloomFilter

/-
  The Bloom filter of a memory store and its wire format: a
  header of four-byte numbers, then the vector of bits.

  Two hashes of an item, given as functions, place its bits.
  A remainder by zero or an index outside of the vector would
  end the program, so every such step may fail.
-/

-- Positions

namespace Memory

open Base

structure BloomFilter where
  bits : List UInt8
  numBits : UInt64
  numHashes : UInt32
  count : ℕ

/- The first eight bytes of a digest. -/
abbrev DigestPrefix := String → UInt64

namespace BloomFilter

def optimalNumBits (n : UInt64) (fpr : Float) : UInt64 :=
  let n := (max n 1).toFloat
  let ln2 := Float.log 2.0
  ((-n * Float.log fpr) / (ln2 * ln2)).ceil.toUInt64

def optimalNumHashes (m n : UInt64) : UInt32 :=
  let n := (max n 1).toFloat
  ((m.toFloat / n) * Float.log 2.0).ceil.toUInt32

/- `n.div_ceil(8)` -/
def byteLen (n : UInt64) : ℕ :=
  (n.toNat + 7) / 8

def new (capacity : UInt64) (fpr : Float) : BloomFilter :=
  let fpr := Binary64.clamp 1e-10 0.5 fpr
  let numBits := max (optimalNumBits capacity fpr) 8
  { bits := List.replicate (byteLen numBits) 0
    numBits := numBits
    numHashes := max (optimalNumHashes numBits capacity) 1
    count := 0 }

/- `(h1 + i * h2) % num_bits`, none for a remainder by zero. -/
def hashPositionFrom
    (h1 h2 : UInt64) (i : ℕ) (numBits : UInt64) :
    Option UInt64 :=
  if numBits = 0 then none
  else some ((h1 + UInt64.ofNat i * h2) % numBits)

/- `bits[pos / 8] |= 1 << (pos % 8)` -/
def setBit (bits : List UInt8) (pos : UInt64) :
    Option (List UInt8) :=
  bits[(pos / 8).toNat]?.map fun byte =>
    bits.set (pos / 8).toNat (byte ||| 1 <<< (pos % 8).toUInt8)

/- `bits[pos / 8] & (1 << (pos % 8)) != 0` -/
def bitIsSet (bits : List UInt8) (pos : UInt64) :
    Option Bool :=
  bits[(pos / 8).toNat]?.map fun byte =>
    byte &&& 1 <<< (pos % 8).toUInt8 != 0

section Items

variable (md5 sha1 : DigestPrefix)

def add (f : BloomFilter) (item : String) :
    Option BloomFilter := do
  let bits ← (List.range f.numHashes.toNat).foldlM
    (fun bits i => do
      let pos ←
        hashPositionFrom (md5 item) (sha1 item) i f.numBits
      setBit bits pos) f.bits
  return { f with bits := bits, count := f.count + 1 }

def addAll (f : BloomFilter) (items : List String) :
    Option BloomFilter :=
  items.foldlM (add md5 sha1) f

def mightContain (f : BloomFilter) (item : String) :
    Option Bool :=
  (List.range f.numHashes.toNat).allM fun i => do
    let pos ←
      hashPositionFrom (md5 item) (sha1 item) i f.numBits
    bitIsSet f.bits pos

def missingFrom (f : BloomFilter) :
    List String → Option (List String)
| [] => some []
| item :: items => do
    let found ← f.mightContain md5 sha1 item
    let missing ← f.missingFrom items
    return if found then missing else item :: missing

end Items

-- The Wire Format

/- `ABLM` -/
def magic : List UInt8 := [65, 66, 76, 77]

def version : UInt32 := 1

def headerSize : ℕ := 20

/- `x.to_le_bytes()` -/
def u32Bytes (x : UInt32) : List UInt8 :=
  leBytes 4 x.toNat

/- The four bytes from the index on, as a number. -/
def u32At (data : List UInt8) (i : ℕ) : UInt32 :=
  UInt32.ofNat (leValue ((data.drop i).take 4))

def u32Max : ℕ := 4294967295

def toBytes (f : BloomFilter) : Except String (List UInt8) :=
  let numBits := f.numBits.toNat
  let count := f.count
  if u32Max < numBits then
    .error s!"num_bits {numBits} exceeds u32::MAX"
  else if u32Max < count then
    .error s!"count {count} exceeds u32::MAX"
  else
    .ok (magic ++ (u32Bytes version ++
      (u32Bytes (UInt32.ofNat numBits) ++
        (u32Bytes f.numHashes ++ (u32Bytes (UInt32.ofNat count) ++ f.bits)))))

def fromBytes (data : List UInt8) : Option BloomFilter :=
  if data.length < headerSize then none
  else if data.take 4 ≠ magic then none
  else if u32At data 4 ≠ version then none
  else
    let numBits := (u32At data 8).toUInt64
    let bits := data.drop headerSize
    if bits.length < byteLen numBits then none
    else
      some
        { bits := bits
          numBits := numBits
          numHashes := u32At data 12
          count := (u32At data 16).toNat }

-- Bits

variable {md5 sha1 : DigestPrefix}
variable {f g : BloomFilter}
variable {item : String}

theorem div_eight (pos : UInt64) :
    pos / (8 : UInt64) = pos >>> (3 : UInt64) := by
  apply UInt64.toNat_inj.mp
  rw [UInt64.toNat_div, UInt64.toNat_shiftRight]
  exact (Nat.shiftRight_eq_div_pow pos.toNat 3).symm

theorem mod_eight (pos : UInt64) : pos % 8 = pos &&& 7 := by
  apply UInt64.toNat_inj.mp
  rw [UInt64.toNat_mod, UInt64.toNat_and]
  exact (Nat.and_two_pow_sub_one_eq_mod pos.toNat 3).symm

/- The bits lie as those of a shard's filter. -/
theorem setBit_eq : setBit = Hive.setBit := by
  funext bits pos
  unfold setBit Hive.setBit Hive.byteAt Hive.bitOf
  rw [div_eight, mod_eight]

theorem bitIsSet_eq : bitIsSet = Hive.bitIsSet := by
  funext bits pos
  unfold bitIsSet Hive.bitIsSet Hive.byteAt Hive.bitOf
  rw [div_eight, mod_eight]

/- The positions of an item, if there is a bit at all. -/
def positions
    (md5 sha1 : DigestPrefix) (f : BloomFilter) (item : String) :
    List UInt64 :=
  (List.range f.numHashes.toNat).map fun i =>
    (md5 item + UInt64.ofNat i * sha1 item) % f.numBits

/-
  The vector has a byte for every bit, and no remainder by
  zero is taken.
-/
structure Covers (f : BloomFilter) : Prop where
  length : byteLen f.numBits ≤ f.bits.length
  divides : f.numBits ≠ 0 ∨ f.numHashes = 0

/- Every bit of an item is set. -/
def Held
    (md5 sha1 : DigestPrefix) (f : BloomFilter) (item : String) :
    Prop :=
  ∀ pos ∈ f.positions md5 sha1 item, bitIsSet f.bits pos = some true

theorem Covers.inside
    (hCovers : f.Covers) (md5 sha1 : DigestPrefix) (item : String) :
    ∀ pos ∈ f.positions md5 sha1 item, Hive.Inside f.bits pos := by
  intro pos hPos
  rcases List.mem_map.mp hPos with ⟨i, hi, hEq⟩
  subst hEq
  rcases hCovers.divides with hBits | hHashes
  · have hPositive : 0 < f.numBits.toNat := by
      rw [Nat.pos_iff_ne_zero]
      exact fun hZero => hBits (UInt64.toNat_inj.mp hZero)
    have hLess :
        ((md5 item + UInt64.ofNat i * sha1 item) %
          f.numBits).toNat < f.numBits.toNat := by
      rw [UInt64.toNat_mod]
      exact Nat.mod_lt _ hPositive
    have hLength := hCovers.length
    unfold byteLen at hLength
    unfold Hive.Inside
    rw [← div_eight, UInt64.toNat_div]
    change _ / 8 < _
    omega
  · rw [hHashes] at hi
    cases hi

theorem add_eq
    (hCovers : f.Covers) (item : String) :
    f.add md5 sha1 item =
      ((f.positions md5 sha1 item).foldlM setBit
        f.bits).map fun bits =>
          { f with bits := bits, count := f.count + 1 } := by
  unfold add positions
  rcases hCovers.divides with hBits | hHashes
  · rw [List.foldlM_map]
    simp only [hashPositionFrom, if_neg hBits,
      Option.bind_eq_bind, Option.bind_some]
    exact Option.map_eq_bind.symm
  · rw [hHashes]
    rfl

theorem allM_map
    {α β : Type} (test : β → Option Bool) (place : α → β) (items : List α) :
    (items.map place).allM test = items.allM fun a => test (place a) := by
  induction items with
  | nil => rfl
  | cons a items ih => rw [List.map_cons, List.allM_cons,
      List.allM_cons, ih]

theorem mightContain_eq
    (hCovers : f.Covers) (item : String) :
    f.mightContain md5 sha1 item =
      (f.positions md5 sha1 item).allM (bitIsSet f.bits) := by
  unfold mightContain positions
  rcases hCovers.divides with hBits | hHashes
  · rw [allM_map]
    simp only [hashPositionFrom, if_neg hBits,
      Option.bind_eq_bind, Option.bind_some]
  · rw [hHashes]
    rfl

-- Operations

theorem add_spec
    (hCovers : f.Covers) (item : String) :
    ∃ g, f.add md5 sha1 item = some g ∧
      g.Covers ∧
      Held md5 sha1 g item ∧
      ∀ other, Held md5 sha1 f other → Held md5 sha1 g other := by
  rcases Hive.setBits_spec
      (hCovers.inside md5 sha1 item) with
    ⟨set, hSet, hLength, hAll, hStays⟩
  rw [← setBit_eq] at hSet
  rw [← bitIsSet_eq] at hAll hStays
  refine ⟨{ f with bits := set, count := f.count + 1 }, ?_, ?_, hAll, ?_⟩
  · rw [add_eq hCovers, hSet]
    rfl
  · refine ⟨?_, hCovers.divides⟩
    dsimp only
    rw [hLength]
    exact hCovers.length
  · exact fun other hHeld pos hPos =>
      hStays pos (hHeld pos hPos)

theorem addAll_spec
    (hCovers : f.Covers) (md5 sha1 : DigestPrefix) (items : List String) :
    ∃ g, f.addAll md5 sha1 items = some g ∧
      g.Covers ∧
      (∀ item ∈ items, Held md5 sha1 g item) ∧
      ∀ other, Held md5 sha1 f other → Held md5 sha1 g other := by
  induction items generalizing f with
  | nil =>
    exact ⟨f, rfl, hCovers,
      fun _ hMem => absurd hMem List.not_mem_nil,
      fun _ hHeld => hHeld⟩
  | cons item items ih =>
    rcases add_spec hCovers item with ⟨g, hAdd, hAfter, hNew, hKept⟩
    rcases ih hAfter with ⟨last, hRun, hLast, hLater, hStays⟩
    refine ⟨last, ?_, hLast, ?_, ?_⟩
    · unfold addAll
      rw [List.foldlM_cons, hAdd]
      exact hRun
    · rw [List.forall_mem_cons]
      exact ⟨hStays item hNew, hLater⟩
    · exact fun other hHeld => hStays other (hKept other hHeld)

theorem mightContain_of_held
    (hCovers : f.Covers) (hHeld : Held md5 sha1 f item) :
    f.mightContain md5 sha1 item = some true := by
  rw [mightContain_eq hCovers]
  unfold Held at hHeld
  rw [bitIsSet_eq] at hHeld ⊢
  exact Hive.allM_bitIsSet hHeld

theorem mightContain_isSome
    (hCovers : f.Covers) (md5 sha1 : DigestPrefix) (item : String) :
    ∃ found, f.mightContain md5 sha1 item = some found := by
  rw [mightContain_eq hCovers, bitIsSet_eq]
  exact Hive.allM_isSome (hCovers.inside md5 sha1 item)

/- No list of what is missing names an item that is held. -/
theorem missingFrom_spec
    (hCovers : f.Covers) (md5 sha1 : DigestPrefix) (items : List String) :
    ∃ missing, f.missingFrom md5 sha1 items = some missing ∧
      ∀ item, Held md5 sha1 f item → item ∉ missing := by
  induction items with
  | nil => exact ⟨[], rfl, fun _ _ => List.not_mem_nil⟩
  | cons first items ih =>
    rcases ih with ⟨missing, hMissing, hNone⟩
    rcases mightContain_isSome hCovers md5 sha1 first with ⟨found, hFound⟩
    refine ⟨if found then missing else first :: missing, ?_, ?_⟩
    · rw [missingFrom, hFound, hMissing]
      rfl
    · intro item hHeld hMem
      cases found with
      | true => exact hNone item hHeld hMem
      | false =>
        rcases List.mem_cons.mp hMem with hHere | hLater
        · subst hHere
          rw [mightContain_of_held hCovers hHeld] at hFound
          cases hFound
        · exact hNone item hHeld hLater

/- No operation ends the program, after any additions. -/
def NeverPanics
    (md5 sha1 : DigestPrefix) (f : BloomFilter) :
    Prop :=
  ∀ items, ∃ g, f.addAll md5 sha1 items = some g ∧
    (∀ item, ∃ found, g.mightContain md5 sha1 item = some found) ∧
    ∀ others, ∃ missing, g.missingFrom md5 sha1 others = some missing

theorem neverPanics_of_covers (hCovers : f.Covers) :
    f.NeverPanics md5 sha1 := by
  intro items
  rcases addAll_spec hCovers md5 sha1 items with ⟨g, hRun, hAfter, -, -⟩
  refine ⟨g, hRun, mightContain_isSome hAfter md5 sha1, ?_⟩
  intro others
  rcases missingFrom_spec hAfter md5 sha1 others with ⟨missing, hMissing, -⟩
  exact ⟨missing, hMissing⟩

/- The first position of an item would be a remainder by 0. -/
theorem mightContain_of_no_bits
    (hBits : f.numBits = 0) (hHashes : f.numHashes ≠ 0) (item : String) :
    f.mightContain md5 sha1 item = none := by
  unfold mightContain
  cases hCount : f.numHashes.toNat with
  | zero => exact absurd (UInt32.toNat_inj.mp hCount) hHashes
  | succ n =>
    rw [List.range_succ_eq_map, List.allM_cons, hBits]
    rfl

theorem neverPanics_iff
    (hLength : byteLen f.numBits ≤ f.bits.length) :
    f.NeverPanics md5 sha1 ↔ ¬ (f.numBits = 0 ∧ f.numHashes ≠ 0) := by
  constructor
  · intro hNever hHollow
    rcases hNever [] with ⟨g, hRun, hFinds, -⟩
    cases hRun
    rcases hFinds "" with ⟨found, hFound⟩
    rw [mightContain_of_no_bits hHollow.1 hHollow.2] at hFound
    cases hFound
  · intro hSolid
    refine neverPanics_of_covers ⟨hLength, ?_⟩
    by_cases hBits : f.numBits = 0
    · right
      by_contra hHashes
      exact hSolid ⟨hBits, hHashes⟩
    · exact .inl hBits

theorem max_eight_ne_zero (n : UInt64) : max n 8 ≠ 0 := by
  rw [UInt64.max_def]
  split
  next => decide
  next hLess =>
    intro hZero
    rw [hZero] at hLess
    exact hLess (by decide)

theorem covers_new (capacity : UInt64) (fpr : Float) :
    (new capacity fpr).Covers :=
  ⟨(List.length_replicate).ge, .inl (max_eight_ne_zero _)⟩

-- Encoded And Decoded

theorem length_u32Bytes (x : UInt32) :
    (u32Bytes x).length = 4 :=
  length_leBytes 4 x.toNat

/- A number is read where its bytes lie, then the rest. -/
theorem u32At_of_drop
    {data rest : List UInt8} {i : ℕ} {x : UInt32}
    (hHere : data.drop i = u32Bytes x ++ rest) :
    u32At data i = x ∧ data.drop (i + 4) = rest := by
  have hFits : x.toNat < 256 ^ 4 := x.toNat_lt
  constructor
  · unfold u32At
    rw [hHere, List.take_left' (length_u32Bytes x), u32Bytes,
      leValue_leBytes hFits]
    exact UInt32.ofNat_toNat
  · rw [← List.drop_drop, hHere]
    exact List.drop_left' (length_u32Bytes x)

/- The four bytes at an index are those of their number. -/
theorem u32Bytes_u32At
    (data : List UInt8) {i : ℕ} (hInside : i + 4 ≤ data.length) :
    u32Bytes (u32At data i) ++ data.drop (i + 4) = data.drop i := by
  have hLength : ((data.drop i).take 4).length = 4 := by
    rw [List.length_take, List.length_drop]
    omega
  have hFits := leValue_lt ((data.drop i).take 4)
  rw [hLength] at hFits
  have hValue : (u32At data i).toNat = leValue ((data.drop i).take 4) := by
    unfold u32At
    exact UInt32.toNat_ofNat_of_lt hFits
  have hBytes := leBytes_leValue ((data.drop i).take 4)
  rw [hLength] at hBytes
  rw [u32Bytes, hValue, hBytes, ← List.drop_drop, List.take_append_drop]

theorem fromBytes_eq_some_iff (data : List UInt8) :
    fromBytes data = some f ↔
      headerSize ≤ data.length ∧
        data.take 4 = magic ∧
        u32At data 4 = version ∧
        byteLen (u32At data 8).toUInt64 ≤ data.length - headerSize ∧
        f = { bits := data.drop headerSize
              numBits := (u32At data 8).toUInt64
              numHashes := u32At data 12
              count := (u32At data 16).toNat } := by
  unfold fromBytes
  dsimp only
  rw [List.length_drop]
  constructor
  · intro hFrom
    split at hFrom
    · cases hFrom
    · split at hFrom
      · cases hFrom
      · split at hFrom
        · cases hFrom
        · split at hFrom
          · cases hFrom
          · next hLong hMagic hVersion hBits =>
              refine ⟨Nat.le_of_not_lt hLong,
                not_not.mp hMagic, not_not.mp hVersion,
                Nat.le_of_not_lt hBits, ?_⟩
              exact (Option.some.inj hFrom).symm
  · intro hAll
    rcases hAll with ⟨hLong, hMagic, hVersion, hBits, hFilter⟩
    rw [if_neg (Nat.not_lt.mpr hLong), if_neg (not_not.mpr hMagic),
      if_neg (not_not.mpr hVersion), if_neg (Nat.not_lt.mpr hBits), hFilter]

theorem toBytes_eq_ok
    {bytes : List UInt8} (hBytes : f.toBytes = .ok bytes) :
    f.numBits.toNat ≤ u32Max ∧ f.count ≤ u32Max ∧
      bytes = magic ++ (u32Bytes version ++
        (u32Bytes (UInt32.ofNat f.numBits.toNat) ++
          (u32Bytes f.numHashes ++
            (u32Bytes (UInt32.ofNat f.count) ++ f.bits)))) := by
  unfold toBytes at hBytes
  dsimp only at hBytes
  split at hBytes
  · cases hBytes
  · split at hBytes
    · cases hBytes
    · next hBits hCount =>
        exact ⟨Nat.le_of_not_lt hBits,
          Nat.le_of_not_lt hCount,
          (Except.ok.inj hBytes).symm⟩

/- A filter is read back as it was sent. -/
theorem fromBytes_of_toBytes
    {bytes : List UInt8} (hLength : byteLen f.numBits ≤ f.bits.length)
    (hBytes : f.toBytes = .ok bytes) :
    fromBytes bytes = some f := by
  rcases toBytes_eq_ok hBytes with ⟨hBits, hCount, hData⟩
  have hMax : u32Max < 2 ^ 32 := by decide
  have hNumBits : (UInt32.ofNat f.numBits.toNat).toUInt64 =
      f.numBits := by
    apply UInt64.toNat_inj.mp
    rw [UInt32.toNat_toUInt64]
    exact UInt32.toNat_ofNat_of_lt (hBits.trans_lt hMax)
  have hCounted : (UInt32.ofNat f.count).toNat = f.count :=
    UInt32.toNat_ofNat_of_lt (hCount.trans_lt hMax)
  have hMagic : bytes.take 4 = magic := by
    rw [hData]
    exact List.take_left' rfl
  have hAfter : bytes.drop 4 =
      u32Bytes version ++
        (u32Bytes (UInt32.ofNat f.numBits.toNat) ++
          (u32Bytes f.numHashes ++
            (u32Bytes (UInt32.ofNat f.count) ++ f.bits))) := by
    rw [hData]
    exact List.drop_left' rfl
  rcases u32At_of_drop hAfter with ⟨hVersion, hAfterVersion⟩
  rcases u32At_of_drop hAfterVersion with ⟨hBitsAt, hAfterBits⟩
  rcases u32At_of_drop hAfterBits with ⟨hHashesAt, hAfterHashes⟩
  rcases u32At_of_drop hAfterHashes with ⟨hCountAt, hRest⟩
  have hLong : bytes.length = headerSize + f.bits.length := by
    rw [hData]
    simp only [List.length_append, length_u32Bytes]
    change 4 + _ = 20 + _
    omega
  rw [fromBytes_eq_some_iff, hBitsAt, hHashesAt, hCountAt,
    hNumBits, hCounted, hLong]
  refine ⟨Nat.le_add_right _ _, hMagic, hVersion, ?_, ?_⟩
  · rw [Nat.add_sub_cancel_left]
    exact hLength
  · have hKept : bytes.drop headerSize = f.bits := hRest
    rw [hKept]

/- What is read is what would be sent. -/
theorem toBytes_of_fromBytes
    {data : List UInt8} (hFrom : fromBytes data = some f) :
    f.toBytes = .ok data := by
  rcases (fromBytes_eq_some_iff data).mp hFrom with
    ⟨hLong, hMagic, hVersion, hBits, hFilter⟩
  have hSize : 20 ≤ data.length := hLong
  have hNumBits : (u32At data 8).toUInt64.toNat ≤ u32Max := by
    rw [UInt32.toNat_toUInt64]
    exact Nat.le_of_lt_succ (u32At data 8).toNat_lt
  have hCount : (u32At data 16).toNat ≤ u32Max :=
    Nat.le_of_lt_succ (u32At data 16).toNat_lt
  unfold toBytes
  dsimp only
  rw [hFilter]
  dsimp only
  rw [if_neg (Nat.not_lt.mpr hNumBits), if_neg (Nat.not_lt.mpr hCount),
    UInt32.toNat_toUInt64, UInt32.ofNat_toNat, UInt32.ofNat_toNat,
    ← hVersion, ← hMagic]
  have hFour : u32Bytes (u32At data 16) ++
      data.drop headerSize = data.drop 16 :=
    u32Bytes_u32At data (by omega)
  have hThree : u32Bytes (u32At data 12) ++ data.drop 16 = data.drop 12 :=
    u32Bytes_u32At data (by omega)
  have hTwo : u32Bytes (u32At data 8) ++ data.drop 12 = data.drop 8 :=
    u32Bytes_u32At data (by omega)
  have hOne : u32Bytes (u32At data 4) ++ data.drop 8 = data.drop 4 :=
    u32Bytes_u32At data (by omega)
  rw [hFour, hThree, hTwo, hOne, List.take_append_drop]

-- Safe And Exact

/-
  What a peer's bytes are read as never ends the program, and
  is sent as it was read.
-/
def SafelyRead
    (md5 sha1 : DigestPrefix) (data : List UInt8) :
    Prop :=
  ∀ f, fromBytes data = some f → f.NeverPanics md5 sha1 ∧ f.toBytes = .ok data

/-
  Whatever is added to a filter before it is sent and after
  it is read back is found, and is never missing.
-/
def SentExactly
    (md5 sha1 : DigestPrefix) (f : BloomFilter) (before after : List String) :
    Prop :=
  ∃ sent, f.addAll md5 sha1 before = some sent ∧
    ∀ bytes, sent.toBytes = .ok bytes →
      fromBytes bytes = some sent ∧
      ∃ last, sent.addAll md5 sha1 after = some last ∧
        (∀ item ∈ before ++ after,
          last.mightContain md5 sha1 item = some true) ∧
        ∀ items, ∃ missing,
          last.missingFrom md5 sha1 items = some missing ∧
          ∀ item ∈ before ++ after, item ∉ missing

theorem sentExactly_new
    (capacity : UInt64) (fpr : Float) (before after : List String) :
    SentExactly md5 sha1 (new capacity fpr) before after := by
  rcases addAll_spec (covers_new capacity fpr) md5 sha1
      before with
    ⟨sent, hSent, hCovers, hBefore, -⟩
  refine ⟨sent, hSent, ?_⟩
  intro bytes hBytes
  rcases addAll_spec hCovers md5 sha1 after with
    ⟨last, hLast, hCovered, hAfter, hStays⟩
  have hHeld : ∀ item ∈ before ++ after, Held md5 sha1 last item := by
    intro item hMem
    rcases List.mem_append.mp hMem with hFirst | hLater
    · exact hStays item (hBefore item hFirst)
    · exact hAfter item hLater
  refine ⟨fromBytes_of_toBytes hCovers.length hBytes, last, hLast, ?_, ?_⟩
  · exact fun item hMem =>
      mightContain_of_held hCovered (hHeld item hMem)
  · intro items
    rcases missingFrom_spec hCovered md5 sha1 items with
      ⟨missing, hMissing, hNone⟩
    exact ⟨missing, hMissing, fun item hMem => hNone item (hHeld item hMem)⟩

/- An accepted header that counts hashes over no bits. -/
def HollowHeader (data : List UInt8) : Prop :=
  headerSize ≤ data.length ∧
    data.take 4 = magic ∧
    u32At data 4 = version ∧
    u32At data 8 = 0 ∧
    u32At data 12 ≠ 0

instance (data : List UInt8) : Decidable (HollowHeader data) :=
  inferInstanceAs (Decidable (_ ∧ _ ∧ _ ∧ _ ∧ _))

theorem safelyRead_iff (data : List UInt8) :
    SafelyRead md5 sha1 data ↔ ¬ HollowHeader data := by
  constructor
  · intro hSafe hHollow
    rcases hHollow with ⟨hLong, hMagic, hVersion, hBits, hHashes⟩
    have hNone : byteLen (u32At data 8).toUInt64 = 0 := by
      rw [hBits]
      rfl
    have hShort : byteLen (u32At data 8).toUInt64 ≤
        data.length - headerSize := by
      rw [hNone]
      exact Nat.zero_le _
    have hRead := (fromBytes_eq_some_iff data).mpr
      ⟨hLong, hMagic, hVersion, hShort, rfl⟩
    rcases hSafe _ hRead with ⟨hNever, -⟩
    refine (neverPanics_iff ?_).mp hNever ⟨?_, hHashes⟩
    · exact hNone.trans_le (Nat.zero_le _)
    · dsimp only
      rw [hBits]
      rfl
  · intro hSolid f hRead
    rcases (fromBytes_eq_some_iff data).mp hRead with
      ⟨hLong, hMagic, hVersion, hBits, hFilter⟩
    refine ⟨(neverPanics_iff ?_).mpr ?_, toBytes_of_fromBytes hRead⟩
    · rw [hFilter]
      dsimp only
      rw [List.length_drop]
      exact hBits
    · rw [hFilter]
      intro hHollow
      refine hSolid ⟨hLong, hMagic, hVersion, ?_, hHollow.2⟩
      apply UInt32.toNat_inj.mp
      exact congrArg UInt64.toNat hHollow.1

/-
  The wire format is safe and exact but for headers that
  count hashes over no bits.
-/
theorem wire_safe_iff
    (md5 sha1 : DigestPrefix) (data : List UInt8)
    (capacity : UInt64) (fpr : Float) (before after : List String) :
    (SafelyRead md5 sha1 data ∧
      SentExactly md5 sha1 (new capacity fpr) before after) ↔
      ¬ HollowHeader data := by
  rw [safelyRead_iff, and_iff_left]
  exact sentExactly_new capacity fpr before after

/- A version 1 header with one hash and no bits. -/
def hollow : List UInt8 :=
  [65, 66, 76, 77, 1, 0, 0, 0, 0, 0, 0, 0, 1, 0, 0, 0, 0, 0, 0, 0]

def sampleDigest : DigestPrefix :=
  fun item => UInt64.ofNat item.length

/- It is read, and the first question ends the program. -/
theorem hollow_header_panics :
    ¬ SafelyRead sampleDigest sampleDigest hollow ∧
      ∃ f, fromBytes hollow = some f ∧
        f.mightContain sampleDigest sampleDigest "node" =
          none := by
  have hHollow : HollowHeader hollow := by decide
  refine ⟨?_, _, rfl, rfl⟩
  intro hSafe
  exact (safelyRead_iff hollow).mp hSafe hHollow

end BloomFilter

end Memory
