/-
# LiandanluNative.Lib.Utf8 — texts compared by their bytes.

A database compares texts by the bytes of their UTF-8 encoding, a program by their characters.  It
is the same order: of two characters the greater one has the greater byte where their encodings
first differ, and no encoding is the beginning of another one (`utf8Char_lt`).

Nothing here names a program.
-/
import Mathlib.Data.List.Lex
import Mathlib.Data.String.Basic
import Mathlib.Order.Monotone.Basic

namespace LiandanluNative.Lib

/-- The bytes of a character. -/
def utf8Char (c : Char) : List ℕ := (String.utf8EncodeChar c).map UInt8.toNat

/-- The bytes of a text. -/
def utf8 (text : String) : List ℕ := text.toList.flatMap utf8Char

theorem utf8Char_ne_nil (c : Char) : utf8Char c ≠ [] := by
  simp [utf8Char]

/-- Bytes as numbers, without the wrapping. -/
theorem utf8Char_eq (c : Char) :
    utf8Char c =
      if c.val.toNat ≤ 127 then [c.val.toNat]
      else if c.val.toNat ≤ 2047 then [c.val.toNat / 64 + 192, c.val.toNat % 64 + 128]
      else if c.val.toNat ≤ 65535 then
        [c.val.toNat / 4096 + 224, c.val.toNat / 64 % 64 + 128, c.val.toNat % 64 + 128]
      else
        [c.val.toNat / 262144 + 240, c.val.toNat / 4096 % 64 + 128, c.val.toNat / 64 % 64 + 128,
          c.val.toNat % 64 + 128] := by
  have hbound : c.val.toNat < 1114112 := by
    rcases c.valid with h | h
    · have hlow : c.val.toNat < 55296 := h
      omega
    · exact h.2
  unfold utf8Char String.utf8EncodeChar
  generalize c.val.toNat = v at *
  simp only
  split_ifs <;>
    simp only [List.map_cons, List.map_nil, UInt8.toNat_ofNat', List.cons.injEq, and_true] <;> omega

/-- The first byte that differs decides, and it is the greater one of the greater character. -/
theorem utf8Char_lt {c d : Char} (h : c < d) (x y : List ℕ) :
    utf8Char c ++ x < utf8Char d ++ y := by
  have hlt : c.val.toNat < d.val.toNat := h
  rw [utf8Char_eq, utf8Char_eq]
  generalize c.val.toNat = v at *
  generalize d.val.toNat = w at *
  split_ifs <;> simp only [List.cons_append, List.nil_append, List.cons_lt_cons_iff] <;> omega

/-- **The order of texts is the order of their bytes.** -/
theorem utf8_strictMono : StrictMono utf8 := by
  intro s t h
  rw [String.lt_iff_toList_lt] at h
  unfold utf8
  generalize s.toList = cs at h
  generalize t.toList = ds at h
  induction h with
  | nil =>
      rename_i d ds
      rw [List.flatMap_nil, List.flatMap_cons]
      cases hd : utf8Char d with
      | nil => exact absurd hd (utf8Char_ne_nil d)
      | cons byte bytes => exact List.nil_lt_cons ..
  | cons _ ih =>
      rw [List.flatMap_cons, List.flatMap_cons]
      exact List.append_left_lt ih
  | rel hlt =>
      rw [List.flatMap_cons, List.flatMap_cons]
      exact utf8Char_lt hlt _ _

end LiandanluNative.Lib
