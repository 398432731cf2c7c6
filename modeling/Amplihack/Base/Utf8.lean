import Mathlib.Data.List.Infix

/-
  UTF-8 text as bytes.
-/

-- Texts

namespace Base

/- The bytes of a text. -/
def utf8 (text : List Char) : List UInt8 :=
  text.flatMap String.utf8EncodeChar

/- The text of the bytes, when they are one. -/
def decodeUtf8 (bytes : List UInt8) : Option (List Char) :=
  (String.fromUTF8? ⟨bytes.toArray⟩).map String.toList

@[simp] theorem utf8_append (a b : List Char) :
    utf8 (a ++ b) = utf8 a ++ utf8 b := by
  simp [utf8]

theorem toByteArray_utf8 (text : List Char) :
    (utf8 text).toByteArray = text.utf8Encode := rfl

theorem mk_toArray (bytes : List UInt8) :
    (⟨bytes.toArray⟩ : ByteArray) = bytes.toByteArray := by
  apply ByteArray.ext
  rw [List.data_toByteArray]

@[simp] theorem decodeUtf8_utf8 (text : List Char) :
    decodeUtf8 (utf8 text) = some text := by
  unfold decodeUtf8
  rw [mk_toArray, toByteArray_utf8, String.fromUTF8?,
    dif_pos ByteArray.isValidUTF8_utf8Encode]
  rw [Option.map_some]
  have hSame : String.fromUTF8 text.utf8Encode
      ByteArray.isValidUTF8_utf8Encode = String.ofList text := by
    apply String.toByteArray_inj.mp
    rw [String.toByteArray_ofList]
    rfl
  rw [hSame, String.toList_ofList]

/- Only the bytes of a text are read as that text. -/
theorem decodeUtf8_eq_some_iff
    {bytes : List UInt8} {text : List Char} :
    decodeUtf8 bytes = some text ↔ utf8 text = bytes := by
  constructor
  · intro hText
    unfold decodeUtf8 at hText
    rw [mk_toArray, String.fromUTF8?] at hText
    split at hText
    next hValid =>
      obtain ⟨chars, hChars⟩ := hValid
      have hBytes : utf8 chars = bytes := by
        have hData := congrArg (fun b : ByteArray => b.data.toList) hChars
        simpa [← toByteArray_utf8] using hData.symm
      have hSelf := decodeUtf8_utf8 chars
      rw [hBytes] at hSelf
      unfold decodeUtf8 at hSelf
      rw [mk_toArray, String.fromUTF8?, dif_pos ⟨chars, hChars⟩] at hSelf
      rw [hSelf] at hText
      cases hText
      exact hBytes
    · cases hText
  · rintro rfl
    exact decodeUtf8_utf8 text

-- Line Breaks

theorem ofNat_eq
    {b : UInt8} {n : ℕ} (hEq : b = UInt8.ofNat n) :
    n % 256 = b.toNat := by
  rw [hEq, UInt8.toNat_ofNat']

/- A byte below 128 is a character of its own. -/
theorem toNat_of_mem_utf8EncodeChar
    {c : Char} {b : UInt8} (hMem : b ∈ String.utf8EncodeChar c)
    (hSmall : b.toNat < 128) :
    c.toNat = b.toNat := by
  unfold String.utf8EncodeChar at hMem
  dsimp only at hMem
  split at hMem
  next hOne =>
    have hByte := ofNat_eq (List.mem_singleton.mp hMem)
    change c.val.toNat = b.toNat
    omega
  next hMore =>
    -- every byte of a longer character is 128 or more
    exfalso
    split at hMem
    · simp only [List.mem_cons, List.not_mem_nil, or_false]
        at hMem
      rcases hMem with hEq | hEq
      · have hByte := ofNat_eq hEq
        omega
      · have hByte := ofNat_eq hEq
        omega
    · split at hMem
      · simp only [List.mem_cons, List.not_mem_nil, or_false]
          at hMem
        rcases hMem with hEq | hEq | hEq
        · have hByte := ofNat_eq hEq
          omega
        · have hByte := ofNat_eq hEq
          omega
        · have hByte := ofNat_eq hEq
          omega
      · simp only [List.mem_cons, List.not_mem_nil, or_false]
          at hMem
        rcases hMem with hEq | hEq | hEq | hEq
        · have hByte := ofNat_eq hEq
          omega
        · have hByte := ofNat_eq hEq
          omega
        · have hByte := ofNat_eq hEq
          omega
        · have hByte := ofNat_eq hEq
          omega

theorem utf8EncodeChar_ne_nil (c : Char) :
    String.utf8EncodeChar c ≠ [] := by
  unfold String.utf8EncodeChar
  dsimp only
  split
  · simp
  · split
    · simp
    · split <;> simp

@[simp] theorem utf8_eq_nil
    {text : List Char} :
    utf8 text = [] ↔ text = [] := by
  constructor
  · intro hNil
    cases text with
    | nil => rfl
    | cons c rest =>
      rw [utf8, List.flatMap_cons, List.append_eq_nil_iff]
        at hNil
      exact absurd hNil.1 (utf8EncodeChar_ne_nil c)
  · rintro rfl
    rfl

end Base
