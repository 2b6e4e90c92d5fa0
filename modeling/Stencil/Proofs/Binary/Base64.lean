import Mathlib.Data.List.Basic
import Stencil.Binary.Base64
import Stencil.Proofs.Text.Ascii

/-!
# Cutting and spelling bytes

Stretches of a list give the list back, all of them but the last are full, and none is empty.
Base64 spells every list of bytes in letters, digits, `+`, `/` and `=`, and reading the spelling
gives the bytes (`decode_encode`).
-/

namespace Stencil

/-! ### Stretches -/

section Chunks

variable {α β : Type} {n : Nat}

/-- The fuel does not matter as long as there is enough of it. -/
theorem chunksFrom_eq (hn : 0 < n) (m fuel : Nat) (done : List (List α)) (l : List α)
    (hf : l.length ≤ fuel) (hm : l.length ≤ m) :
    chunksFrom n fuel done l = done.reverse ++ chunksFrom n m [] l := by
  induction m generalizing fuel done l with
  | zero =>
    obtain rfl : l = [] := List.length_eq_zero_iff.1 (Nat.le_zero.1 hm)
    cases fuel <;> simp [chunksFrom]
  | succ m ih =>
    cases l with
    | nil => cases fuel <;> simp [chunksFrom]
    | cons a l =>
      cases fuel with
      | zero => simp at hf
      | succ fuel =>
        have hd : ((a :: l).drop n).length ≤ l.length := by simp; omega
        simp only [List.length_cons, Nat.add_le_add_iff_right] at hf hm
        have hdf := Nat.le_trans hd hf
        have hdm := Nat.le_trans hd hm
        rw [chunksFrom, chunksFrom, ih fuel _ _ hdf hdm, ih m [_] _ hdm hdm]
        · simp
        all_goals simp

@[simp] theorem chunks_nil : chunks n ([] : List α) = [] := rfl

theorem chunks_of_ne_nil (hn : 0 < n) {l : List α} (h : l ≠ []) :
    chunks n l = l.take n :: chunks n (l.drop n) := by
  obtain ⟨a, t, rfl⟩ := List.exists_cons_of_ne_nil h
  rw [chunks, List.length_cons, chunksFrom, chunksFrom_eq hn _ _ _ _ (by simp; omega) (Nat.le_refl _)]
  · rfl
  · simp

/-- What holds of the empty list, and of a list if it holds of what is left behind the first stretch,
holds of every list. -/
theorem chunks_induction (hn : 0 < n) {P : List α → Prop} (nil : P [])
    (step : ∀ l, l ≠ [] → P (l.drop n) → P l) (l : List α) : P l := by
  induction hl : l.length using Nat.strongRecOn generalizing l with
  | _ m ih =>
    by_cases h : l = []
    · rw [h]
      exact nil
    · have hpos : 0 < l.length := List.length_pos_of_ne_nil h
      exact step l h (ih _ (by rw [List.length_drop]; omega) _ rfl)

theorem flatten_chunks (hn : 0 < n) (l : List α) : (chunks n l).flatten = l := by
  induction l using chunks_induction hn with
  | nil => rfl
  | step l h ih => rw [chunks_of_ne_nil hn h, List.flatten_cons, ih, List.take_append_drop]

theorem chunks_map (hn : 0 < n) (f : α → β) (l : List α) :
    chunks n (l.map f) = (chunks n l).map (List.map f) := by
  induction l using chunks_induction hn with
  | nil => rfl
  | step l h ih =>
    rw [chunks_of_ne_nil hn h, chunks_of_ne_nil hn (by simpa using h), ← List.map_drop, ih,
      List.map_cons, List.map_take]

theorem length_of_mem_chunks (hn : 0 < n) {l : List α} {p : List α} (h : p ∈ chunks n l) :
    0 < p.length ∧ p.length ≤ n := by
  induction l using chunks_induction hn with
  | nil => simp at h
  | step l hl ih =>
    rw [chunks_of_ne_nil hn hl] at h
    rcases List.mem_cons.1 h with rfl | h
    · have hpos := List.length_pos_of_ne_nil hl
      rw [List.length_take]
      omega
    · exact ih h

/-- All stretches but the last are full. -/
theorem length_getElem_chunks (hn : 0 < n) (l : List α) (i : Nat) (h : i + 1 < (chunks n l).length) :
    (chunks n l)[i].length = n := by
  induction l using chunks_induction hn generalizing i with
  | nil => simp at h
  | step l hl ih =>
    simp only [chunks_of_ne_nil hn hl] at h ⊢
    cases i with
    | zero =>
      -- something is left behind the first stretch
      have hd : l.drop n ≠ [] := by
        intro h0
        simp [h0] at h
      have hlt : n < l.length := by
        by_contra hle
        exact hd (List.drop_eq_nil_of_le (by omega))
      rw [List.getElem_cons_zero, List.length_take, Nat.min_eq_left (by omega)]
    | succ i => exact ih i (by simpa using h)

theorem length_chunks (hn : 0 < n) (l : List α) : (chunks n l).length = (l.length + (n - 1)) / n := by
  induction l using chunks_induction hn with
  | nil => exact (Nat.div_eq_of_lt (by simp; omega)).symm
  | step l hl ih =>
    have hpos := List.length_pos_of_ne_nil hl
    have hlen : l.length + (n - 1) = l.length - 1 + n := by omega
    rw [chunks_of_ne_nil hn hl, List.length_cons, ih, List.length_drop, hlen, Nat.add_div_right _ hn]
    congr 1
    rcases Nat.le_total n l.length with hle | hle
    · congr 1
      omega
    · rw [Nat.div_eq_of_lt (by omega), Nat.div_eq_of_lt (by omega)]

/-- The first stretches of a list make up a beginning of it. -/
theorem flatten_take_chunks (hn : 0 < n) (j : Nat) (l : List α) :
    ((chunks n l).take j).flatten = l.take (j * n) := by
  induction j generalizing l with
  | zero => simp
  | succ j ih =>
    by_cases hl : l = []
    · simp [hl]
    · rw [chunks_of_ne_nil hn hl, List.take_succ_cons, List.flatten_cons, ih, Nat.succ_mul,
        Nat.add_comm, List.take_add]

end Chunks

namespace Base64

/-! ### Symbols -/

theorem value?_symbol {v : Nat} (h : v < 64) : value? (Text.byteOf (symbol v)) = some v := by
  have hall : ∀ v : Fin 64, value? (Text.byteOf (symbol v)) = some v.val := by decide
  exact hall ⟨v, h⟩

theorem symbol_ne_pad {v : Nat} (h : v < 64) : Text.byteOf (symbol v) ≠ pad := by
  have hall : ∀ v : Fin 64, Text.byteOf (symbol v) ≠ pad := by decide
  exact hall ⟨v, h⟩

theorem valueAt_symbol {v : Nat} (h : v < 64) (offset : Nat) :
    valueAt offset (Text.byteOf (symbol v)) = .ok v := by
  rw [valueAt, value?_symbol h]

/-- The characters of spelled bytes. -/
def isSpelling (c : Char) : Bool := c.isAlphanum || c == '+' || c == '/' || c == '='

theorem isSpelling_symbol (v : Nat) : isSpelling (symbol v) = true := by
  by_cases h : v < 64
  · have hall : ∀ v : Fin 64, isSpelling (symbol v) = true := by decide
    exact hall ⟨v, h⟩
  · rw [symbol, if_neg (by omega), if_neg (by omega), if_neg (by omega), if_neg (by omega)]
    decide

theorem toNat_lt_of_isSpelling {c : Char} (h : isSpelling c = true) : c.toNat < 128 := by
  simp only [isSpelling, Bool.or_eq_true, beq_iff_eq] at h
  rcases h with ((h | rfl) | rfl) | rfl
  · exact Text.toNat_lt_of_isAlphanum h
  all_goals decide

/-! ### Groups -/

theorem encode_cons (a b c : UInt8) (rest : List UInt8) :
    encode (a :: b :: c :: rest) = encodeGroup [a, b, c] ++ encode rest := by
  rw [encode, chunks_of_ne_nil (by omega) (by simp), List.flatMap_cons]
  rfl

theorem encode_of_length_lt {bs : List UInt8} (h0 : bs ≠ []) (h : bs.length < 3) :
    encode bs = encodeGroup bs := by
  rw [encode, chunks_of_ne_nil (by omega) h0, List.take_of_length_le (by omega),
    List.drop_eq_nil_of_le (by omega)]
  simp

theorem encode_ne_nil {bs : List UInt8} (h : bs ≠ []) : encode bs ≠ [] := by
  match bs, h with
  | [a], _ => rw [encode_of_length_lt (by simp) (by simp)]; simp [encodeGroup]
  | [a, b], _ => rw [encode_of_length_lt (by simp) (by simp)]; simp [encodeGroup]
  | a :: b :: c :: rest, _ => rw [encode_cons]; simp [encodeGroup]

theorem length_encode (bs : List UInt8) : (encode bs).length = 4 * ((bs.length + 2) / 3) := by
  match bs with
  | [] => rfl
  | [a] => rw [encode_of_length_lt (by simp) (by simp)]; simp [encodeGroup]
  | [a, b] => rw [encode_of_length_lt (by simp) (by simp)]; simp [encodeGroup]
  | a :: b :: c :: rest =>
    have ih := length_encode rest
    rw [encode_cons, List.length_append]
    simp only [encodeGroup, List.length_cons, List.length_nil]
    omega

/-- The first groups of a spelling spell a beginning of the bytes. -/
theorem take_encode (m : Nat) {bs : List UInt8} (h : 3 * m ≤ bs.length) :
    (encode bs).take (4 * m) = encode (bs.take (3 * m)) := by
  induction m generalizing bs with
  | zero => rfl
  | succ m ih =>
    match bs, h with
    | a :: b :: c :: rest, h =>
      simp only [List.length_cons] at h
      rw [encode_cons, show 4 * (m + 1) = (encodeGroup [a, b, c]).length + 4 * m by
        simp [encodeGroup]; omega, List.take_length_add_append, ih (by omega)]
      exact (encode_cons a b c _).symm

theorem isSpelling_of_mem_encode {bs : List UInt8} {c : Char} (h : c ∈ encode bs) :
    isSpelling c = true := by
  obtain ⟨g, hg, hc⟩ := List.mem_flatMap.1 h
  obtain ⟨h0, h3⟩ := length_of_mem_chunks (by omega) hg
  have hpad : isSpelling '=' = true := by decide
  match g, h0, h3 with
  | [a], _, _ | [a, b], _, _ | [a, b, c], _, _ =>
    simp only [encodeGroup, List.mem_cons, List.not_mem_nil, or_false] at hc
    rcases hc with rfl | rfl | rfl | rfl <;> first | exact isSpelling_symbol _ | exact hpad
  | _ :: _ :: _ :: _ :: _, _, h3 =>
    simp only [List.length_cons] at h3
    omega

theorem ascii_encode (bs : List UInt8) : Text.Ascii (encode bs) :=
  fun _ h => toNat_lt_of_isSpelling (isSpelling_of_mem_encode h)

/-- The bytes of a text of spelling. -/
abbrev spelled (bs : List UInt8) : List UInt8 := (encode bs).map Text.byteOf

/-- Four symbols of three bytes hold the bytes. -/
theorem group_symbols (a b c : UInt8) :
    group (a.toNat / 4) (a.toNat % 4 * 16 + b.toNat / 16) (b.toNat % 16 * 4 + c.toNat / 64)
      (c.toNat % 64) = [a, b, c] := by
  have ha := a.toNat_lt
  have hb := b.toNat_lt
  have hc := c.toNat_lt
  have h1 : a.toNat / 4 * 4 + (a.toNat % 4 * 16 + b.toNat / 16) / 16 = a.toNat := by omega
  have h2 : (a.toNat % 4 * 16 + b.toNat / 16) % 16 * 16 + (b.toNat % 16 * 4 + c.toNat / 64) / 4 =
      b.toNat := by
    omega
  have h3 : (b.toNat % 16 * 4 + c.toNat / 64) % 4 * 64 + c.toNat % 64 = c.toNat := by omega
  rw [group, h1, h2, h3, UInt8.ofNat_toNat, UInt8.ofNat_toNat, UInt8.ofNat_toNat]

/-! ### Reading a spelling -/

theorem readTail_symbol {v i start : Nat} (h : v < 64) {t : Tail} (ht : t.pads = 0)
    (rest : List UInt8) :
    readTail start i t (Text.byteOf (symbol v) :: rest) =
      readTail start (i + 1)
        { t with values := v :: t.values, last := Text.byteOf (symbol v) } rest := by
  rw [readTail, if_neg (symbol_ne_pad h), if_neg (by omega), valueAt_symbol h]

/-- The last one, two or three bytes. -/
theorem decodeFrom_last (start : Nat) (done : List UInt8) {bs : List UInt8} (h0 : bs ≠ [])
    (h : bs.length ≤ 3) :
    decodeFrom start done ((encodeGroup bs).map Text.byteOf) = .ok (done.reverse ++ bs) := by
  have hpad : Text.byteOf '=' = pad := by decide
  match bs, h0, h with
  | [a], _, _ =>
    have ha := a.toNat_lt
    have h1 : a.toNat / 4 * 4 + a.toNat % 4 = a.toNat := by omega
    simp only [encodeGroup, List.map_cons, List.map_nil, decodeFrom, hpad]
    rw [readTail_symbol (by omega) rfl, readTail_symbol (by omega) rfl]
    simp [readTail, closeTail, bind, Except.bind, -UInt8.ofNat_add, h1]
  | [a, b], _, _ =>
    have ha := a.toNat_lt
    have hb := b.toNat_lt
    have h1 : a.toNat / 4 * 4 + (a.toNat % 4 * 16 + b.toNat / 16) / 16 = a.toNat := by omega
    have h2 : b.toNat / 16 % 16 * 16 + b.toNat % 16 = b.toNat := by omega
    simp only [encodeGroup, List.map_cons, List.map_nil, decodeFrom, hpad]
    rw [readTail_symbol (by omega) rfl, readTail_symbol (by omega) rfl, readTail_symbol (by omega) rfl]
    simp [readTail, closeTail, bind, Except.bind, -UInt8.ofNat_add, h1, h2]
  | [a, b, c], _, _ =>
    have ha := a.toNat_lt
    have hb := b.toNat_lt
    have hc := c.toNat_lt
    simp only [encodeGroup, List.map_cons, List.map_nil, decodeFrom]
    rw [readTail_symbol (by omega) rfl, readTail_symbol (by omega) rfl, readTail_symbol (by omega) rfl,
      readTail_symbol (by omega) rfl]
    simp [readTail, closeTail, bind, Except.bind, group_symbols]
  | _ :: _ :: _ :: _ :: _, _, h3 =>
    simp only [List.length_cons] at h3
    omega

theorem decodeFrom_spelled : ∀ (bs : List UInt8) (start : Nat) (done : List UInt8),
    decodeFrom start done (spelled bs) = .ok (done.reverse ++ bs)
  | [], start, done => by simp [spelled, encode, decodeFrom]
  | [a], start, done | [a, b], start, done => by
    rw [spelled, encode_of_length_lt (by simp) (by simp),
      decodeFrom_last start done (by simp) (by simp)]
  | [a, b, c], start, done => by
    rw [spelled, encode_cons]
    exact (congrArg _ (by simp [encode])).trans
      (decodeFrom_last start done (show [a, b, c] ≠ [] by simp) (by simp))
  | a :: b :: c :: d :: rest, start, done => by
    have ha := a.toNat_lt
    have hb := b.toNat_lt
    have hc := c.toNat_lt
    have ih := decodeFrom_spelled (d :: rest) (start + 4) ([a, b, c].reverse ++ done)
    obtain ⟨e, t, ht⟩ := List.exists_cons_of_ne_nil (encode_ne_nil (List.cons_ne_nil d rest))
    rw [spelled, ht, List.map_cons] at ih
    rw [spelled, encode_cons, ht]
    simp only [encodeGroup, List.cons_append, List.nil_append, List.map_cons, decodeFrom]
    rw [valueAt_symbol (by omega), valueAt_symbol (by omega), valueAt_symbol (by omega),
      valueAt_symbol (by omega)]
    simp only [bind, Except.bind, group_symbols, ih]
    simp

/-- Reading spelled bytes gives the bytes. -/
theorem decode_encode (bs : List UInt8) :
    decode (Text.bytes (String.ofList (encode bs))) = .ok bs := by
  have hend : checkEnd (spelled bs) = .ok () := by
    have hlen := length_encode bs
    rw [checkEnd]
    split
    · rw [if_neg (by rw [List.length_map]; omega)]
    · rfl
  rw [Text.bytes_ofList (ascii_encode bs), decode]
  simp only [hend, decodeFrom_spelled, bind, Except.bind, List.reverse_nil, List.nil_append]

end Base64

end Stencil
