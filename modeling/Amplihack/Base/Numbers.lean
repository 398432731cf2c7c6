import Mathlib.Data.Int.Order.Basic
import Mathlib.Data.Prod.Lex
import Mathlib.Order.Compare

/-
  Saturating arithmetic on 64-bit signed integers, kept as
  integers of any size.

  The order of IEEE double-precision numbers, and the
  operations on them that Lean leaves without a model.

  Comparisons with a NaN are false; every other number has
  an order key, and the comparisons are those of the keys.
-/

namespace Base

def i64Max : ℤ := 9223372036854775807

def i64Min : ℤ := -9223372036854775808

/- The nearest 64-bit signed integer. -/
def saturate (x : ℤ) : ℤ :=
  if x < i64Min then i64Min
  else if i64Max < x then i64Max else x

def saturatingSub (x y : ℤ) : ℤ :=
  saturate (x - y)

def saturatingAdd (x y : ℤ) : ℤ :=
  saturate (x + y)

theorem saturate_mono {x y : ℤ} (hLe : x ≤ y) :
    saturate x ≤ saturate y := by
  unfold saturate i64Max i64Min
  split_ifs <;> omega

theorem saturate_range (x : ℤ) :
    i64Min ≤ saturate x ∧ saturate x ≤ i64Max := by
  unfold saturate i64Max i64Min
  split_ifs <;> omega

/- Above the lower limit, saturation only lowers. -/
theorem saturate_le {x : ℤ} (hLow : i64Min ≤ x) :
    saturate x ≤ x := by
  unfold saturate
  split_ifs <;> omega

/- Below the upper limit, saturation only raises. -/
theorem le_saturate {x y : ℤ} (hLe : y ≤ x) (hHigh : y ≤ i64Max) :
    y ≤ saturate x := by
  unfold saturate
  split_ifs <;> omega

/- An unsigned number, or the largest signed one. -/
def orMax (n : ℕ) : ℤ :=
  if (n : ℤ) ≤ i64Max then n else i64Max

/- The largest unsigned 64-bit and 32-bit numbers. -/
def u64Max : ℕ := 18446744073709551615

def u32Max : ℕ := 4294967295

/- A sum that stays at the largest number of its width. -/
def addUpTo (limit a b : ℕ) : ℕ :=
  min (a + b) limit

/- Every machine integer is within the limits. -/
theorem toInt_range (t : Int64) :
    i64Min ≤ t.toInt ∧ t.toInt ≤ i64Max :=
  ⟨t.le_toInt, Int.le_of_lt_add_one t.toInt_lt⟩

theorem toInt_ofInt_of_range
    {x : ℤ} (hLow : i64Min ≤ x) (hHigh : x ≤ i64Max) :
    (Int64.ofInt x).toInt = x :=
  Int64.toInt_ofInt_of_le hLow (Int.lt_add_one_of_le hHigh)

/- A difference within the limits does not wrap around. -/
theorem toInt_sub_of_range
    {a b : Int64} (hLow : i64Min ≤ a.toInt - b.toInt)
    (hHigh : a.toInt - b.toInt ≤ i64Max) :
    (a - b).toInt = a.toInt - b.toInt := by
  rw [Int64.toInt_sub]
  exact Int.bmod_eq_of_le hLow (Int.lt_add_one_of_le hHigh)

end Base

-- Order Keys

namespace Base

namespace Binary64

open Float.Model

/- Class, exponent and mantissa, signed; none for a NaN. -/
def unpackedKey : UnpackedFloat → Option (ℤ ×ₗ ℤ ×ₗ ℤ)
| .notANumber => none
| .infinity .negative => some (toLex (-2, toLex (0, 0)))
| .finite .negative m e _ => some (toLex (-1, toLex (-e, -m)))
| .zero _ => some (toLex (0, toLex (0, 0)))
| .finite .positive m e _ => some (toLex (1, toLex (e, m)))
| .infinity .positive => some (toLex (2, toLex (0, 0)))

/- The key by which a number is compared. -/
def orderKey (x : Float) : Option (ℤ ×ₗ ℤ ×ₗ ℤ) :=
  unpackedKey x.toModel.unpack

theorem compare_then_isLE_iff (e f : ℤ) (m n : ℕ) :
    ((compare e f).then (compare m n)).isLE = true ↔
      e < f ∨ e = f ∧ m ≤ n := by
  rw [Ordering.isLE_then_iff_or, compare_lt_iff_lt,
    compare_eq_iff_eq, Nat.isLE_compare]

theorem compare_then_isGE_iff (e f : ℤ) (m n : ℕ) :
    ((compare e f).then (compare m n)).isGE = true ↔
      f < e ∨ e = f ∧ n ≤ m := by
  rw [← Ordering.isLE_swap, Ordering.swap_then, Int.compare_swap,
    Nat.compare_swap, compare_then_isLE_iff, eq_comm (a := f)]

/- The comparison is that of the keys, class by class. -/
theorem unpacked_lt_iff (a b : UnpackedFloat) :
    a.compare b = some .lt ↔
      ∃ k ∈ unpackedKey a, ∃ l ∈ unpackedKey b, k < l := by
  rcases a with s | _ | s | ⟨s, m, e, _⟩ <;>
    rcases b with t | _ | t | ⟨t, n, f, _⟩ <;>
    (try cases s) <;> (try cases t) <;>
    first
    | decide
    | dsimp only [UnpackedFloat.compare, unpackedKey]
      simp [Prod.Lex.toLex_lt_toLex, Ordering.then_eq_lt,
        Ordering.then_eq_gt, compare_lt_iff_lt, compare_gt_iff_gt]

theorem unpacked_le_iff (a b : UnpackedFloat) :
    a.le b = true ↔ ∃ k ∈ unpackedKey a, ∃ l ∈ unpackedKey b, k ≤ l := by
  rcases a with s | _ | s | ⟨s, m, e, _⟩ <;>
    rcases b with t | _ | t | ⟨t, n, f, _⟩ <;>
    (try cases s) <;> (try cases t) <;>
    first
    | decide
    | dsimp only [UnpackedFloat.le, UnpackedFloat.compare,
        unpackedKey]
      simp [Prod.Lex.toLex_le_toLex, Ordering.isLE_swap,
        compare_then_isLE_iff, compare_then_isGE_iff]

theorem lt_iff_orderKey (x y : Float) :
    x < y ↔ ∃ k ∈ orderKey x, ∃ l ∈ orderKey y, k < l := by
  have hUnpacked := unpacked_lt_iff x.toModel.unpack y.toModel.unpack
  rw [orderKey, orderKey, ← hUnpacked]
  change Float.lt x y = true ↔ _
  simp only [Float.lt, decide_eq_true_eq]
  change Float.Model.lt _ _ = true ↔ _
  simp [Float.Model.lt, UnpackedFloat.lt]

theorem le_iff_orderKey (x y : Float) :
    x ≤ y ↔ ∃ k ∈ orderKey x, ∃ l ∈ orderKey y, k ≤ l := by
  have hUnpacked := unpacked_le_iff x.toModel.unpack y.toModel.unpack
  rw [orderKey, orderKey, ← hUnpacked]
  change Float.le x y = true ↔ _
  simp only [Float.le, decide_eq_true_eq]
  rfl

variable {x y z : Float}

theorem lt_of_lt_of_le
    (hLt : x < y) (hLe : y ≤ z) :
    x < z := by
  rw [lt_iff_orderKey] at hLt ⊢
  rw [le_iff_orderKey] at hLe
  rcases hLt with ⟨k, hk, l, hl, hLt⟩
  rcases hLe with ⟨l', hl', m, hm, hLe⟩
  cases Option.mem_unique hl hl'
  exact ⟨k, hk, m, hm, hLt.trans_le hLe⟩

theorem le_trans
    (hLeft : x ≤ y) (hRight : y ≤ z) :
    x ≤ z := by
  rw [le_iff_orderKey] at hLeft hRight ⊢
  rcases hLeft with ⟨k, hk, l, hl, hLeft⟩
  rcases hRight with ⟨l', hl', m, hm, hRight⟩
  cases Option.mem_unique hl hl'
  exact ⟨k, hk, m, hm, hLeft.trans hRight⟩

theorem not_le_of_lt
    (hLt : x < y) :
    ¬ y ≤ x := by
  rw [lt_iff_orderKey] at hLt
  rw [le_iff_orderKey]
  rcases hLt with ⟨k, hk, l, hl, hLt⟩
  rintro ⟨l', hl', k', hk', hLe⟩
  cases Option.mem_unique hl hl'
  cases Option.mem_unique hk hk'
  exact absurd hLe (not_le.mpr hLt)

/- A finite number's key; others have none of their own. -/
def numberKey (x : Float) : ℤ ×ₗ ℤ ×ₗ ℤ :=
  (orderKey x).getD (toLex (0, toLex (0, 0)))

theorem orderKey_of_isFinite
    (hFinite : x.isFinite = true) :
    orderKey x = some (numberKey x) := by
  have hSome : (orderKey x).isSome = true := by
    change x.toModel.unpack.isFinite = true at hFinite
    unfold orderKey
    cases hUnpack : x.toModel.unpack with
    | notANumber | infinity _ =>
      rw [hUnpack] at hFinite
      cases hFinite
    | zero sign => rfl
    | finite sign m e hm => cases sign <;> rfl
  unfold numberKey
  cases hKey : orderKey x with
  | none => simp [hKey] at hSome
  | some key => rfl

/- What is larger than something is a number. -/
theorem orderKey_of_lt
    (hLt : x < y) :
    orderKey y = some (numberKey y) := by
  rw [lt_iff_orderKey] at hLt
  rcases hLt with ⟨_, _, key, hKey, _⟩
  unfold numberKey
  rw [Option.mem_def.mp hKey]
  rfl

/- Finite numbers compare as their keys do. -/
theorem lt_iff_numberKey
    (hx : x.isFinite = true) (hy : y.isFinite = true) :
    x < y ↔ numberKey x < numberKey y := by
  rw [lt_iff_orderKey, orderKey_of_isFinite hx, orderKey_of_isFinite hy]
  simp

theorem le_iff_numberKey
    (hx : x.isFinite = true) (hy : y.isFinite = true) :
    x ≤ y ↔ numberKey x ≤ numberKey y := by
  rw [le_iff_orderKey, orderKey_of_isFinite hx, orderKey_of_isFinite hy]
  simp

-- Operations

/- The larger number; a NaN is passed over. -/
def fmax (x y : Float) : Float :=
  if x.isNaN then y
  else if y.isNaN then x
  else if x < y then y else x

/- The smaller number; a NaN is passed over. -/
def fmin (x y : Float) : Float :=
  if x.isNaN then y
  else if y.isNaN then x
  else if y < x then y else x

theorem not_lt_iff_le
    (hx : x.isFinite = true) (hy : y.isFinite = true) :
    ¬ x < y ↔ y ≤ x := by
  rw [lt_iff_numberKey hx hy, le_iff_numberKey hy hx, not_lt]

theorem fmax_finite
    (hx : x.isFinite = true) (hy : y.isFinite = true) :
    (fmax x y).isFinite = true := by
  unfold fmax
  split
  · exact hy
  · split
    · exact hx
    · split
      · exact hy
      · exact hx

theorem isNaN_of_isFinite
    (hx : x.isFinite = true) :
    x.isNaN = false := by
  change x.toModel.unpack.isFinite = true at hx
  change x.toModel.unpack.isNaN = false
  cases hUnpack : x.toModel.unpack with
  | notANumber =>
    rw [hUnpack] at hx
    cases hx
  | infinity _ | zero _ | finite _ _ _ _ => rfl

/- A finite larger number is below what both are below. -/
theorem fmax_lt_iff
    (hx : x.isFinite = true) (hy : y.isFinite = true)
    (hz : z.isFinite = true) :
    fmax x y < z ↔ x < z ∧ y < z := by
  unfold fmax
  rw [isNaN_of_isFinite hx, isNaN_of_isFinite hy]
  simp only [Bool.false_eq_true, if_false]
  rw [lt_iff_numberKey hx hz, lt_iff_numberKey hy hz]
  split
  next hLess =>
    rw [lt_iff_numberKey hx hy] at hLess
    rw [lt_iff_numberKey hy hz]
    exact ⟨fun h => ⟨hLess.trans h, h⟩, And.right⟩
  next hLess =>
    rw [lt_iff_numberKey hx hy, not_lt] at hLess
    rw [lt_iff_numberKey hx hz]
    exact ⟨fun h => ⟨h, hLess.trans_lt h⟩, And.left⟩

/- The largest whole number that is not above `x`. -/
def floor (x : Float) : Float :=
  match x.toModel.unpack with
  | .finite sign m e _ =>
    if 0 ≤ e then x
    else
      let units : ℤ :=
        match sign with
        | .positive => m
        | .negative => -m
      let scale : ℕ := 1 <<< (-e).toNat
      .ofModel (.ofInt (units / scale))
  | _ => x

/- `x` between the bounds; a NaN stays one. -/
def clamp (low high x : Float) : Float :=
  if x < low then low
  else if high < x then high else x

/-
  The total order's key: the bits below the sign, complemented
  when it is set.
-/
def totalKey (x : Float) : ℤ :=
  let bits := x.toBits.toNat
  let sign := 9223372036854775808
  if bits < sign then bits
  else -1 - ((bits - sign : ℕ) : ℤ)

example : floor (100 - 80.5) = 19 := by decide

end Binary64

end Base
