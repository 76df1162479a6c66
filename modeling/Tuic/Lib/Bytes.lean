import Mathlib.Data.Nat.Notation

/-! Byte lists: sixteen-bit numbers in network order and UTF-8 strings. -/

namespace Lib

def hiByte (x : UInt16) : UInt8 := UInt8.ofNat (x.toNat / 256)

def loByte (x : UInt16) : UInt8 := UInt8.ofNat x.toNat

def beBytes (x : UInt16) : List UInt8 := [hiByte x, loByte x]

def ofBeBytes (hi lo : UInt8) : UInt16 := UInt16.ofNat (hi.toNat * 256 + lo.toNat)

@[simp] theorem beBytes_length (x : UInt16) : (beBytes x).length = 2 := rfl

@[simp] theorem ofBeBytes_bytes (x : UInt16) : ofBeBytes (hiByte x) (loByte x) = x := by
  have hx := x.toNat_lt
  apply UInt16.toNat_inj.1
  simp only [ofBeBytes, hiByte, loByte, UInt16.toNat_ofNat', UInt8.toNat_ofNat']
  omega

@[simp] theorem beBytes_ofBeBytes (hi lo : UInt8) : beBytes (ofBeBytes hi lo) = [hi, lo] := by
  have h1 := hi.toNat_lt
  have h2 := lo.toNat_lt
  simp only [beBytes, hiByte, loByte, ofBeBytes, UInt16.toNat_ofNat', List.cons.injEq, and_true]
  refine ⟨UInt8.toNat_inj.1 ?_, UInt8.toNat_inj.1 ?_⟩ <;> simp only [UInt8.toNat_ofNat'] <;> omega

/-- Two bytes are a number in network order. -/
theorem exists_beBytes {bs : List UInt8} (h : bs.length = 2) : ∃ x, beBytes x = bs := by
  match bs, h with
  | [hi, lo], _ => exact ⟨ofBeBytes hi lo, beBytes_ofBeBytes hi lo⟩

/-- An array of exactly `n` bytes, if the slice has that length. -/
def arrayFromSlice (n : ℕ) (bs : List UInt8) : Option (Vector UInt8 n) :=
  if h : bs.length = n then some ⟨bs.toArray, by simpa using h⟩ else none

theorem exists_arrayFromSlice {n : ℕ} {bs : List UInt8} (h : bs.length = n) :
    ∃ v, arrayFromSlice n bs = some v := by
  simp only [arrayFromSlice, dif_pos h]
  exact ⟨_, rfl⟩

theorem arrayFromSlice_toList {n : ℕ} (v : Vector UInt8 n) : arrayFromSlice n v.toList = some v := by
  simp [arrayFromSlice, Vector.toList]

theorem toList_of_arrayFromSlice {n : ℕ} {bs : List UInt8} {v : Vector UInt8 n}
    (h : arrayFromSlice n bs = some v) : v.toList = bs := by
  unfold arrayFromSlice at h
  split at h
  · rw [Option.some.injEq] at h
    subst h
    rfl
  · contradiction

/-- The bytes of a string. -/
def asBytes (s : String) : List UInt8 := s.toByteArray.data.toList

/-- The string with the given bytes, if they are valid UTF-8. -/
def fromUtf8 (bs : List UInt8) : Option String := String.fromUTF8? ⟨bs.toArray⟩

theorem fromUtf8_asBytes (s : String) : fromUtf8 (asBytes s) = some s := by
  have hv : s.toByteArray.IsValidUTF8 := s.isValidUTF8
  simp [fromUtf8, asBytes, String.fromUTF8?, hv, String.fromUTF8]

theorem asBytes_of_fromUtf8 {bs : List UInt8} {s : String} (h : fromUtf8 bs = some s) :
    asBytes s = bs := by
  unfold fromUtf8 String.fromUTF8? at h
  split at h
  · rw [Option.some.injEq] at h
    subst h
    simp [asBytes, String.fromUTF8]
  · contradiction

end Lib
