import Mathlib.Data.List.Basic
import Stencil.Text.Utf8

/-!
# Texts as bytes and back

Reading the bytes of a text gives the text. A text of ASCII characters has one byte for each
character, so it can be cut anywhere; reading a stretch of it leniently gives the stretch.
-/

namespace Stencil.Text

theorem ofBytes?_bytes (s : String) : ofBytes? (bytes s) = some s := by
  have hb : (⟨s.toByteArray.data.toList.toArray⟩ : ByteArray) = s.toByteArray := by simp
  rw [ofBytes?, bytes, hb, String.fromUTF8?, dif_pos s.isValidUTF8]
  rfl

/-- All characters are below 128. -/
def Ascii (cs : List Char) : Prop := ∀ c ∈ cs, c.toNat < 128

theorem isUpper_iff_toNat {c : Char} : c.isUpper = true ↔ 65 ≤ c.toNat ∧ c.toNat ≤ 90 := by
  unfold Char.isUpper
  rw [decide_eq_true_eq]
  rfl

theorem isLower_iff_toNat {c : Char} : c.isLower = true ↔ 97 ≤ c.toNat ∧ c.toNat ≤ 122 := by
  unfold Char.isLower
  rw [Bool.and_eq_true, decide_eq_true_eq, decide_eq_true_eq]
  rfl

/-- Letters and digits are three stretches. -/
theorem isAlphanum_iff_toNat {c : Char} :
    c.isAlphanum = true ↔ ((65 ≤ c.toNat ∧ c.toNat ≤ 90) ∨ (97 ≤ c.toNat ∧ c.toNat ≤ 122)) ∨
      (48 ≤ c.toNat ∧ c.toNat ≤ 57) := by
  unfold Char.isAlphanum Char.isAlpha
  rw [Bool.or_eq_true, Bool.or_eq_true, isUpper_iff_toNat, isLower_iff_toNat, Char.isDigit_iff_toNat]
  rfl

theorem toNat_lt_of_isAlphanum {c : Char} (h : c.isAlphanum = true) : c.toNat < 128 := by
  rw [isAlphanum_iff_toNat] at h
  omega

/-- The byte of an ASCII character. -/
def byteOf (c : Char) : UInt8 := UInt8.ofNat c.toNat

theorem toNat_byteOf {c : Char} (h : c.toNat < 128) : (byteOf c).toNat = c.toNat := by
  rw [byteOf, UInt8.toNat_ofNat']
  omega

theorem ofNat_toNat_byteOf {c : Char} (h : c.toNat < 128) : Char.ofNat (byteOf c).toNat = c := by
  rw [toNat_byteOf h, Char.ofNat_toNat]

theorem utf8EncodeChar_of_lt {c : Char} (h : c.toNat < 128) :
    String.utf8EncodeChar c = [byteOf c] := by
  have hv : c.val.toNat ≤ 0x7f := by
    have hc : c.val.toNat < 128 := h
    omega
  rw [String.utf8EncodeChar]
  exact if_pos hv

theorem toList_data_utf8Encode (cs : List Char) :
    cs.utf8Encode.data.toList = cs.flatMap String.utf8EncodeChar := by
  induction cs with
  | nil => simp
  | cons c cs ih =>
    rw [List.utf8Encode_cons, ByteArray.data_append, Array.toList_append, ih, List.flatMap_cons,
      List.utf8Encode_singleton, List.data_toByteArray]

theorem bytes_ofList {cs : List Char} (h : Ascii cs) : bytes (String.ofList cs) = cs.map byteOf := by
  rw [bytes, String.toByteArray_ofList, toList_data_utf8Encode]
  induction cs with
  | nil => rfl
  | cons c cs ih =>
    rw [List.flatMap_cons, utf8EncodeChar_of_lt (h c List.mem_cons_self),
      ih fun d hd => h d (List.mem_cons_of_mem _ hd)]
    rfl

theorem decodeFrom_map_byteOf {cs : List Char} (h : Ascii cs) (taken : List Char) :
    decodeFrom taken none (cs.map byteOf) = taken.reverse ++ cs := by
  induction cs generalizing taken with
  | nil => simp [decodeFrom]
  | cons c cs ih =>
    have hc := h c List.mem_cons_self
    have hlt : byteOf c < 0x80 := by
      rw [UInt8.lt_iff_toNat_lt, toNat_byteOf hc]
      exact hc
    rw [List.map_cons, decodeFrom, if_pos hlt, ofNat_toNat_byteOf hc,
      ih (fun d hd => h d (List.mem_cons_of_mem _ hd)), List.reverse_cons, List.append_assoc]
    rfl

theorem ofBytesLossy_map_byteOf {cs : List Char} (h : Ascii cs) :
    ofBytesLossy (cs.map byteOf) = String.ofList cs := by
  rw [ofBytesLossy, decodeFrom_map_byteOf h]
  rfl

end Stencil.Text
