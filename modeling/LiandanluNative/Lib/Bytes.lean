/-
# LiandanluNative.Lib.Bytes — numbers and texts as bytes.

A number is written in a fixed number of bytes with the most significant one first, and read back
from them (`ofBigEndian_bigEndian`); a text is written in UTF-8, and bytes that are no UTF-8 are not
read at all (`decodeUtf8_encodeUtf8`).

Nothing here names a program.
-/
import Mathlib.Algebra.GroupWithZero.Nat
import Mathlib.Data.List.Basic
import Mathlib.Data.Nat.Notation

namespace LiandanluNative.Lib

/-! ## Numbers -/

/-- A number in `width` bytes, modulo what fits into them. -/
def bigEndian : ℕ → ℕ → List UInt8
  | 0, _ => []
  | width + 1, n => bigEndian width (n / 256) ++ [UInt8.ofNat n]

/-- The number that bytes stand for. -/
def ofBigEndian (bytes : List UInt8) : ℕ := bytes.foldl (fun n byte => n * 256 + byte.toNat) 0

@[simp] theorem length_bigEndian (width n : ℕ) : (bigEndian width n).length = width := by
  induction width generalizing n with
  | zero => rfl
  | succ width ih => rw [bigEndian, List.length_append, ih, List.length_singleton]

/-- **What fits is read back.** -/
theorem ofBigEndian_bigEndian {width n : ℕ} (h : n < 256 ^ width) :
    ofBigEndian (bigEndian width n) = n := by
  induction width generalizing n with
  | zero =>
      rw [Nat.pow_zero, Nat.lt_one_iff] at h
      exact h.symm
  | succ width ih =>
      have hhigh : n / 256 < 256 ^ width := by
        rw [Nat.pow_succ] at h
        exact Nat.div_lt_of_lt_mul (by rwa [Nat.mul_comm] at h)
      have hfold := ih hhigh
      unfold ofBigEndian at hfold
      rw [bigEndian, ofBigEndian, List.foldl_append, hfold, List.foldl_cons, List.foldl_nil,
        UInt8.toNat_ofNat']
      omega

/-! ## Texts -/

/-- The UTF-8 encoding of a text. -/
def encodeUtf8 (text : String) : List UInt8 := text.toUTF8.data.toList

/-- The text that bytes encode, or `none` where they are no UTF-8. -/
def decodeUtf8 (bytes : List UInt8) : Option String := String.fromUTF8? ⟨bytes.toArray⟩

theorem decodeUtf8_encodeUtf8 (text : String) : decodeUtf8 (encodeUtf8 text) = some text := by
  unfold decodeUtf8 encodeUtf8 String.fromUTF8?
  rw [Array.toArray_toList]
  exact dif_pos text.isValidUTF8

end LiandanluNative.Lib
