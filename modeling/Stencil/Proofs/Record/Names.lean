import Mathlib.Logic.Function.Basic
import Stencil.Record.Group

/-!
# Names of records

A record name is a key with decimal digits behind it, and a key may end in digits too. What can be
read off a name is its last digit and what stands before that digit: `Record.tens` is the part of a
number's digits before the last one. Two names that are equal stay equal when both numbers go up by
one, as long as the last digit is no `9` (`nameAt_succ`).
-/

namespace Stencil.Record

/-! ### Digits -/

theorem isDigit_of_mem_digits {n : Nat} {c : Char} (h : c ∈ digits n) : c.isDigit :=
  Nat.isDigit_of_mem_toDigits (by omega) (by omega) h

theorem digits_ne_nil (n : Nat) : digits n ≠ [] := Nat.toDigits_ne_nil

theorem digits_injective : Function.Injective digits := by
  intro a b h
  have hd := congrArg (fun ds => Nat.ofDigitChars 10 ds 0) h
  simpa [digits] using hd

/-- The digits of a number before the last one. -/
def tens (n : Nat) : List Char := if 10 ≤ n then digits (n / 10) else []

theorem digits_eq_tens (n : Nat) : digits n = tens n ++ [Nat.digitChar (n % 10)] := by
  unfold tens digits
  split
  · rename_i h
    rw [Nat.toDigits_of_base_le (by omega) h]
  · rename_i h
    rw [Nat.toDigits_of_lt_base (by omega), Nat.mod_eq_of_lt (by omega), List.nil_append]

theorem tens_succ {n : Nat} (h : n % 10 ≠ 9) : tens (n + 1) = tens n := by
  unfold tens
  rw [show (n + 1) / 10 = n / 10 by omega]
  by_cases h10 : 10 ≤ n
  · rw [if_pos h10, if_pos (by omega)]
  · rw [if_neg h10, if_neg (by omega)]

theorem tens_of_le {n : Nat} (h : 10 ≤ n) : tens n = digits (n / 10) := if_pos h

theorem digitChar_inj {a b : Nat} (ha : a < 10) (hb : b < 10) (h : Nat.digitChar a = Nat.digitChar b) :
    a = b := by
  have hd : digits a = digits b := by
    rw [digits, digits, Nat.toDigits_of_lt_base ha, Nat.toDigits_of_lt_base hb, h]
  exact digits_injective hd

/-! ### Names -/

theorem nameAt_eq (key : String) (n : Nat) : nameAt key n = key ++ toString n := by
  apply String.toList_inj.1
  simp [nameAt, digits]

@[simp] theorem toList_nameAt (key : String) (n : Nat) :
    (nameAt key n).toList = key.toList ++ digits n := by
  simp [nameAt]

theorem nameAt_inj_iff {k l : String} {m n : Nat} :
    nameAt k m = nameAt l n ↔ k.toList ++ digits m = l.toList ++ digits n := by
  rw [← String.toList_inj, toList_nameAt, toList_nameAt]

theorem nameAt_injective (key : String) : Function.Injective (nameAt key) := by
  intro m n h
  exact digits_injective (List.append_cancel_left (nameAt_inj_iff.1 h))

/-- Equal names agree in the last digit and in what stands before it. -/
theorem nameAt_eq_iff {k l : String} {m n : Nat} :
    nameAt k m = nameAt l n ↔ k.toList ++ tens m = l.toList ++ tens n ∧ m % 10 = n % 10 := by
  rw [nameAt_inj_iff, digits_eq_tens, digits_eq_tens n, ← List.append_assoc, ← List.append_assoc]
  constructor
  · intro h
    obtain ⟨hk, hd⟩ := List.append_inj' h rfl
    refine ⟨hk, digitChar_inj (by omega) (by omega) ?_⟩
    simpa using hd
  · rintro ⟨hk, hd⟩
    rw [hk, hd]

/-- Names go on together up to the next full ten. -/
theorem nameAt_succ {k l : String} {m n : Nat} (h : nameAt k m = nameAt l n) (h9 : n % 10 ≠ 9) :
    nameAt k (m + 1) = nameAt l (n + 1) := by
  rw [nameAt_eq_iff] at h ⊢
  obtain ⟨hk, hd⟩ := h
  rw [tens_succ (by omega), tens_succ h9]
  exact ⟨hk, by omega⟩

/-- The name of a full ten is that of another key with the number zero. -/
theorem nameAt_eq_zero_iff {k l : String} {n : Nat} :
    nameAt k n = nameAt l 0 ↔ n % 10 = 0 ∧ l = String.ofList (k.toList ++ tens n) := by
  have h0 : tens 0 = [] := rfl
  rw [nameAt_eq_iff, and_comm, h0, List.append_nil, ← String.toList_inj, String.toList_ofList]
  exact and_congr (by omega) eq_comm

/-! ### Taking names apart -/

theorem getLast?_nameAt (key : String) (n : Nat) :
    (nameAt key n).toList.getLast? = some (Nat.digitChar (n % 10)) := by
  rw [toList_nameAt, digits_eq_tens, ← List.append_assoc, List.getLast?_concat]

theorem splitName?_nameAt {key : String} {n : Nat} (h : n % 10 = 0) :
    splitName? (nameAt key n) = some (String.ofList (key.toList ++ tens n), 0) := by
  unfold splitName?
  simp only [getLast?_nameAt, h]
  rw [if_pos (by decide), toList_nameAt, digits_eq_tens, ← List.append_assoc, List.dropLast_concat]

theorem splitName?_nameAt_zero (key : String) : splitName? (nameAt key 0) = some (key, 0) := by
  rw [splitName?_nameAt (by omega)]
  simp [tens]

end Stencil.Record
