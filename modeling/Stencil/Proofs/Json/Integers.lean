import Stencil.Proofs.Json.Merged
import Stencil.Proofs.Json.Printed

/-!
# Numbers read back

The reader keeps an integer as it is if it fits into 64 bits, with or without a sign (`Number.Fits`),
and rounds any other number. So the integers in a value that was read fit (`fits_of_reads`), and an
integer that fits is read back from its digits (`readsBack_int`); whether another number is depends on
the number.
-/

namespace Stencil

namespace Number

/-- Reading the text of the number gives the number. -/
def ReadsBack (n : Number) : Prop := Read.numberAt n.print = .ok (n, [])

/-- The number is no integer, or one of 64 bits. -/
def Fits : Number → Prop
  | .int i => -(Nat.pow 2 63 : Int) ≤ i ∧ i < (Nat.pow 2 64 : Int)
  | .float _ => True

end Number

namespace Json

mutual

/-- The numbers in a value. -/
def numbers : Json → List Number
  | .num n => [n]
  | .arr items => numbersItems items
  | .obj ms => numbersMembers ms
  | _ => []

/-- The numbers in the items. -/
def numbersItems : List Json → List Number
  | [] => []
  | j :: js => numbers j ++ numbersItems js

/-- The numbers in the values of the members. -/
def numbersMembers : List (String × Json) → List Number
  | [] => []
  | (_, j) :: ms => numbers j ++ numbersMembers ms

end

theorem mem_numbersMembers_iff {n : Number} {ms : Members} :
    n ∈ numbersMembers ms ↔ ∃ m ∈ ms, n ∈ m.2.numbers := by
  induction ms with
  | nil => simp [numbersMembers]
  | cons m ms ih => simp [numbersMembers, ih]

mutual

/-- Merging equal names brings in no number. -/
theorem mem_numbers_of_merged : ∀ (j : Json) {n : Number}, n ∈ j.merged.numbers → n ∈ j.numbers
  | .null, _, h | .bool _, _, h | .num _, _, h | .str _, _, h => h
  | .arr items, _, h => by
    rw [merged, numbers] at h
    rw [numbers]
    exact mem_numbersItems_of_merged items h
  | .obj ms, _, h => by
    rw [merged, numbers, mem_numbersMembers_iff] at h
    obtain ⟨m, hm, hn⟩ := h
    have hmem : m ∈ mergedMembers ms := (Members.mem_insertAll hm).resolve_left List.not_mem_nil
    rw [numbers]
    exact mem_numbersMembers_of_merged ms (mem_numbersMembers_iff.2 ⟨m, hmem, hn⟩)

theorem mem_numbersItems_of_merged : ∀ (js : List Json) {n : Number},
    n ∈ numbersItems (mergedItems js) → n ∈ numbersItems js
  | [], _, h => h
  | j :: js, _, h => by
    rw [mergedItems, numbersItems, List.mem_append] at h
    rw [numbersItems, List.mem_append]
    exact h.imp (mem_numbers_of_merged j) (mem_numbersItems_of_merged js)

theorem mem_numbersMembers_of_merged : ∀ (ms : Members) {n : Number},
    n ∈ numbersMembers (mergedMembers ms) → n ∈ numbersMembers ms
  | [], _, h => h
  | (k, j) :: ms, _, h => by
    rw [mergedMembers, numbersMembers, List.mem_append] at h
    rw [numbersMembers, List.mem_append]
    exact h.imp (mem_numbers_of_merged j) (mem_numbersMembers_of_merged ms)

end

end Json

namespace Read

open Json

/-! ### Digits -/

/-- One digit more. -/
theorem ofDigitChars_cons (c : Char) (ds : List Char) (significand : Nat) :
    Nat.ofDigitChars 10 (c :: ds) significand =
      Nat.ofDigitChars 10 ds (significand * 10 + digitValue c) := by
  rw [Nat.ofDigitChars_cons, Nat.mul_comm, digitValue]

theorem le_ofDigitChars (significand : Nat) (ds : List Char) :
    significand ≤ Nat.ofDigitChars 10 ds significand := by
  induction ds generalizing significand with
  | nil => exact Nat.le_refl _
  | cons c ds ih =>
    rw [ofDigitChars_cons]
    calc significand ≤ significand * 10 + digitValue c := by omega
      _ ≤ Nat.ofDigitChars 10 ds (significand * 10 + digitValue c) := ih _

/-- All digits of a number of 64 bits are taken up. -/
theorem absorb_of_lt {significand : Nat} {ds : List Char}
    (h : Nat.ofDigitChars 10 ds significand < Nat.pow 2 64) (taken : Nat) :
    absorb significand taken ds = (Nat.ofDigitChars 10 ds significand, taken + ds.length) := by
  induction ds generalizing significand taken with
  | nil => rfl
  | cons c ds ih =>
    rw [ofDigitChars_cons] at h ⊢
    have hnext : significand * 10 + digitValue c < Nat.pow 2 64 :=
      Nat.lt_of_le_of_lt (le_ofDigitChars _ ds) h
    rw [absorb, if_pos hnext, ih h, List.length_cons, Nat.add_assoc, Nat.add_comm 1]

/-- No more than 64 bits are taken up. -/
theorem absorb_lt {significand : Nat} (h : significand < Nat.pow 2 64) (taken : Nat)
    (ds : List Char) : (absorb significand taken ds).1 < Nat.pow 2 64 := by
  induction ds generalizing significand taken with
  | nil => exact h
  | cons c ds ih =>
    rw [absorb]
    split
    · exact ih ‹_› _
    · exact h

/-! ### Integers that were read -/

theorem fits_float {negative : Bool} {significand : Nat} {e : Int} {s r : List Char} {n : Number}
    (h : float negative significand e s = .ok (n, r)) : n.Fits := by
  unfold float at h
  split at h
  · obtain ⟨rfl, -⟩ := Prod.mk.inj (Except.ok.inj h)
    trivial
  · cases h

theorem fits_exponentDigits {negative : Bool} {significand : Nat} {start : Int} {down : Bool} {e : Nat}
    {s r : List Char} {n : Number}
    (h : exponentDigits negative significand start down e s = .ok (n, r)) : n.Fits := by
  induction s generalizing e with
  | nil => exact fits_float h
  | cons c s ih =>
    rw [exponentDigits] at h
    split at h
    · simp only at h
      split at h
      · split at h
        · cases h
        · obtain ⟨rfl, -⟩ := Prod.mk.inj (Except.ok.inj h)
          trivial
      · exact ih h
    · exact fits_float h

theorem fits_exponent {negative : Bool} {significand : Nat} {start : Int} {s r : List Char} {n : Number}
    (h : exponent negative significand start s = .ok (n, r)) : n.Fits := by
  unfold exponent at h
  simp only at h
  split at h
  · cases h
  · split at h
    · exact fits_exponentDigits h
    · cases h

theorem fits_numberEnd {negative : Bool} {significand : Nat} {e : Int} {s r : List Char} {n : Number}
    (h : numberEnd negative significand e s = .ok (n, r)) : n.Fits := by
  unfold numberEnd at h
  split at h
  · exact fits_exponent h
  · exact fits_exponent h
  · exact fits_float h

theorem fits_integer (negative : Bool) {significand : Nat} (h : significand < Nat.pow 2 64) :
    (integer negative significand).Fits := by
  have hpow : Nat.pow 2 64 = 18446744073709551616 := rfl
  have hpow' : Nat.pow 2 63 = 9223372036854775808 := rfl
  unfold integer
  split_ifs with hn h0 hle
  · trivial
  · constructor
    · omega
    · omega
  · trivial
  · constructor
    · omega
    · omega

theorem fits_numberTail {negative : Bool} {significand dropped : Nat} {s r : List Char} {n : Number}
    (hlt : significand < Nat.pow 2 64) (h : numberTail negative significand dropped s = .ok (n, r)) :
    n.Fits := by
  unfold numberTail at h
  split at h
  · split at h
    · cases h
    · exact fits_numberEnd h
  · exact fits_numberEnd h
  · exact fits_numberEnd h
  · split at h
    · obtain ⟨rfl, -⟩ := Prod.mk.inj (Except.ok.inj h)
      exact fits_integer negative hlt
    · exact fits_float h

theorem fits_number {negative : Bool} {s r : List Char} {n : Number}
    (h : number negative s = .ok (n, r)) : n.Fits := by
  have hzero : 0 < Nat.pow 2 64 := Nat.two_pow_pos 64
  unfold number at h
  split at h
  · cases h
  · split at h
    · cases h
    · exact fits_numberTail hzero h
  · split at h
    · simp only at h
      exact fits_numberTail (absorb_lt hzero _ _) h
    · cases h

theorem fits_numberAt {s r : List Char} {n : Number} (h : numberAt s = .ok (n, r)) : n.Fits := by
  unfold numberAt at h
  split at h
  · exact fits_number h
  · exact fits_number h

/-- The numbers of a phrase. -/
def Phrase.numbers : Phrase → List Number
  | .value j => j.numbers
  | .items js => numbersItems js
  | .member m => m.2.numbers
  | .members ms => numbersMembers ms

/-- **An integer that was read has at most 64 bits.** -/
theorem fits_of_reads {p : Phrase} {s r : List Char} (h : Reads p s r) : ∀ n ∈ p.numbers, n.Fits := by
  induction h with
  | null | yes | no | string | emptyArray | emptyObject | lastItem | lastMember =>
    intro n hn
    cases hn
  | number h =>
    intro n hn
    rw [List.mem_singleton.1 hn]
    exact fits_numberAt h
  | array _ _ ih ihs | object _ _ ih ihs | nextItem _ _ _ ih ihs | nextMember _ _ _ ih ihs =>
    intro n hn
    rcases List.mem_append.1 hn with hn | hn
    · exact ih n hn
    · exact ihs n hn
  | member _ _ _ ih => exact ih

/-! ### Integers that are read back -/

theorem number_toDigits (negative : Bool) {n : Nat} (h : n < Nat.pow 2 64) :
    number negative (Nat.toDigits 10 n) = .ok (integer negative n, []) := by
  by_cases h0 : n = 0
  · subst h0
    have hzero := number_zero negative (t := []) (by simp)
    exact hzero
  · obtain ⟨c, ds, hds⟩ := List.exists_cons_of_ne_nil (Nat.toDigits_ne_nil : Nat.toDigits 10 n ≠ [])
    have hdigit : ∀ d ∈ c :: ds, d.isDigit = true := by
      intro d hd
      rw [← hds] at hd
      exact Nat.isDigit_of_mem_toDigits (by omega) (by omega) hd
    have hc : c ≠ '0' := by
      intro hc
      apply Text.head?_toDigits h0
      rw [hds, hc]
      rfl
    have hvalue : Nat.ofDigitChars 10 (c :: ds) 0 = n := by
      rw [← hds, Nat.ofDigitChars_ten_toDigits]
    have habsorb : absorb 0 0 (c :: ds) = (n, (c :: ds).length) := by
      rw [absorb_of_lt (by rwa [hvalue]), hvalue, Nat.zero_add]
    have hnumber := number_digits negative hc (hdigit c List.mem_cons_self)
      (fun d hd => hdigit d (List.mem_cons_of_mem _ hd)) (t := []) (by simp)
    rw [List.append_nil, habsorb, Nat.sub_self] at hnumber
    rw [hds, hnumber]
    rfl

/-- **An integer of at most 64 bits is read back from its digits.** -/
theorem readsBack_int {i : Int} (h : (Number.int i).Fits) : (Number.int i).ReadsBack := by
  obtain ⟨hlow, hhigh⟩ : -(Nat.pow 2 63 : Int) ≤ i ∧ i < (Nat.pow 2 64 : Int) := h
  have hpow : Nat.pow 2 64 = 18446744073709551616 := rfl
  have hpow' : Nat.pow 2 63 = 9223372036854775808 := rfl
  have hlt : i.natAbs < Nat.pow 2 64 := by omega
  rw [Number.ReadsBack, Number.print]
  by_cases hneg : i < 0
  · have hinteger : integer true i.natAbs = .int i := by
      rw [integer, if_pos rfl, if_neg (by omega), if_pos (by omega)]
      congr
      omega
    rw [if_pos hneg, ← hinteger]
    exact number_toDigits true hlt
  · have hinteger : integer false i.natAbs = .int i := by
      rw [integer, if_neg (by decide)]
      congr
      omega
    have hnumber := number_toDigits false hlt
    rw [hinteger] at hnumber
    obtain ⟨c, ds, hds⟩ :=
      List.exists_cons_of_ne_nil (Nat.toDigits_ne_nil : Nat.toDigits 10 i.natAbs ≠ [])
    have hdigit : c.isDigit = true :=
      Nat.isDigit_of_mem_toDigits (by omega) (by omega) (hds ▸ List.mem_cons_self)
    rw [if_neg hneg, List.nil_append, hds, numberAt_of_ne (ne_of_isDigit hdigit (by decide)), ← hds]
    exact hnumber

/-- A number that reads back is read wherever it stands, up to where no number goes on. -/
theorem reads_num {n : Number} (h : n.ReadsBack) {t : List Char} (ht : Stops t) :
    Reads (.value (.num n)) (n.print ++ t) t := by
  obtain ⟨c, u, hprint, -, -, hread⟩ := numberAt_eq_ok h
  apply Reads.number
  rw [hprint, List.append_nil]
  exact hread ends_nil.stops t ht

/-- In a value that was read from a text, numbers read back if they are integers. -/
theorem readsBack_of_ofText {text : String} {v : Json} (h : Json.ofText text = .ok v)
    (hv : ∀ n ∈ v.numbers, (∃ i, n = .int i) ∨ n.ReadsBack) : ∀ n ∈ v.numbers, n.ReadsBack := by
  obtain ⟨raw, hraw, rfl⟩ := map_eq_ok h
  obtain ⟨r, hread, -⟩ := reads_of_readRaw hraw
  intro n hn
  rcases hv n hn with ⟨i, rfl⟩ | hback
  · exact readsBack_int (fits_of_reads hread _ (mem_numbers_of_merged raw hn))
  · exact hback

end Read

end Stencil
