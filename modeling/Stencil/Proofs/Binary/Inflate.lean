import Mathlib.Algebra.Order.Ring.Nat
import Stencil.Binary.Inflate
import Stencil.Proofs.Except

/-!
# Streams that end early

Reading goes on from bit to bit, and whatever is read from the beginning of an input is read from the
whole input in the same way, up to the same place (`within_runTo`). So a stream that fills its input
has no beginning that is a stream of its own (`exists_decompress_take`). Bytes that stand in an input
uncoded are read as they are (`storedBytes_eq`).
-/

namespace Stencil

section Within

variable {ε α β : Type} {x y : Except ε α}

/-- The value of the one, if it gives any, is the value of the other. -/
def Within (x y : Except ε α) : Prop := ∀ a, x = .ok a → y = .ok a

theorem within_refl (x : Except ε α) : Within x x := fun _ h => h

theorem within_error (e : ε) (y : Except ε α) : Within (.error e) y := fun _ h => nomatch h

theorem Within.bind {f g : α → Except ε β} (h : Within x y) (hf : ∀ a, Within (f a) (g a)) :
    Within (x >>= f) (y >>= g) := by
  intro b hb
  obtain ⟨a, ha, hb⟩ := bind_eq_ok_iff.1 hb
  exact bind_eq_ok_iff.2 ⟨a, h a ha, hf a b hb⟩

end Within

namespace Inflate

/-- An input begins with another one. -/
structure Begins (short long : ByteArray) : Prop where
  size_le : short.size ≤ long.size
  getElem_eq : ∀ (i : Nat) (h : i < short.size), short[i] = long[i]

variable {short long : ByteArray} {n m : Nat}

/-! ### Bits and symbols -/

theorem bitAt_of_begins (h : Begins short long) {i b : Nat} (hb : bitAt short i = some b) :
    bitAt long i = some b := by
  rw [bitAt] at hb ⊢
  split at hb
  · rename_i hi
    rw [dif_pos (Nat.lt_of_lt_of_le hi h.size_le), ← h.getElem_eq _ hi]
    exact hb
  · cases hb

theorem within_number (h : Begins short long) (count i : Nat) :
    Within (number short count i) (number long count i) := by
  suffices hbits : ∀ weight value, Within (bits short count weight value i)
      (bits long count weight value i) from hbits 1 0
  induction count generalizing i with
  | zero => exact fun _ _ => within_refl _
  | succ count ih =>
    intro weight value
    rw [bits, bits]
    rcases hb : bitAt short i with _ | b
    · exact within_error _ _
    · rw [bitAt_of_begins h hb]
      exact ih (i + 1) _ _

/-- The bits of a number all lie in the input. -/
theorem le_of_number {input : ByteArray} {count i v j : Nat} (hc : 0 < count)
    (h : number input count i = .ok (v, j)) : j ≤ 8 * input.size := by
  suffices hbits : ∀ count weight value i, 0 < count → bits input count weight value i = .ok (v, j) →
      j ≤ 8 * input.size from hbits count 1 0 i hc h
  intro count
  induction count with
  | zero => exact fun _ _ _ h0 => absurd h0 (Nat.lt_irrefl 0)
  | succ count ih =>
    intro weight value i _ h
    rw [bits, bitAt] at h
    by_cases hi : i / 8 < input.size
    · rw [dif_pos hi] at h
      rcases Nat.eq_zero_or_pos count with rfl | hpos
      · cases h
        omega
      · exact ih _ _ _ hpos h
    · rw [dif_neg hi] at h
      cases h

theorem within_symbol (h : Begins short long) (c : Code) (i : Nat) :
    Within (symbol short c i) (symbol long c i) := by
  suffices hfrom : ∀ fuel code first index j, Within (symbolFrom short c i fuel code first index j)
      (symbolFrom long c i fuel code first index j) from hfrom _ _ _ _ _
  intro fuel
  induction fuel with
  | zero => exact fun _ _ _ _ => within_error _ _
  | succ fuel ih =>
    intro code first index j
    rw [symbolFrom, symbolFrom]
    rcases hb : bitAt short j with _ | b
    · exact within_error _ _
    · rw [bitAt_of_begins h hb]
      simp only
      split
      · exact within_refl _
      · exact ih _ _ _ _

theorem within_based (h : Begins short long) (bases : Array (Nat × Nat)) (index i : Nat) :
    Within (based short bases index i) (based long bases index i) := by
  rw [based, based]
  rcases bases[index]? with _ | ⟨base, width⟩
  · exact within_error _ _
  · simp only
    rcases hmore : number short width i with e | ⟨more, j⟩
    · exact within_error e _
    · rw [within_number h width i _ hmore]
      exact within_refl _

theorem within_copyFrom (h : Begins short long) (distances : Code) (s i : Nat) :
    Within (copyFrom short distances s i) (copyFrom long distances s i) := by
  unfold copyFrom
  refine (within_based h _ _ _).bind fun (length, i) => ?_
  refine (within_symbol h _ _).bind fun (d, i) => ?_
  refine (within_based h _ _ _).bind fun (distance, i) => ?_
  exact within_refl _

/-! ### Blocks -/

/-- With more fuel, a block that comes to its end comes to the same end. -/
theorem within_codedBlock (h : Begins short long) (literals distances : Code) (hnm : n ≤ m) (i : Nat)
    (out : ByteArray) :
    Within (codedBlock short literals distances n i out) (codedBlock long literals distances m i out) := by
  induction n generalizing m i out with
  | zero => exact within_error _ _
  | succ n ih =>
    obtain ⟨m, rfl⟩ := Nat.exists_eq_add_one_of_ne_zero (Nat.ne_zero_of_lt hnm)
    have hnm := Nat.le_of_succ_le_succ hnm
    rw [codedBlock, codedBlock]
    refine (within_symbol h literals i).bind fun (s, i) => ?_
    simp only
    split
    · exact ih hnm _ _
    · split
      · exact within_refl _
      · exact (within_copyFrom h distances s i).bind fun _ => ih hnm _ _

theorem within_storedBytes (h : Begins short long) (count place : Nat) (out : ByteArray) :
    Within (storedBytes short count place out) (storedBytes long count place out) := by
  induction count generalizing place out with
  | zero => exact within_refl _
  | succ count ih =>
    rw [storedBytes, storedBytes]
    split
    · rename_i hp
      rw [dif_pos (Nat.lt_of_lt_of_le hp h.size_le), ← h.getElem_eq _ hp]
      exact ih _ _
    · exact within_error _ _

theorem within_storedBlock (h : Begins short long) (i : Nat) (out : ByteArray) :
    Within (storedBlock short i out) (storedBlock long i out) := by
  unfold storedBlock
  refine (within_number h 16 _).bind fun (length, i) => ?_
  refine (within_number h 16 _).bind fun (complement, i) => ?_
  simp only
  split
  · exact within_storedBytes h _ _ _
  · exact within_error _ _

theorem within_codeLengths (h : Begins short long) (order : List Nat) (done : List (Nat × Nat))
    (i : Nat) : Within (codeLengths short order done i) (codeLengths long order done i) := by
  induction order generalizing done i with
  | nil => exact within_refl _
  | cons s rest ih =>
    rw [codeLengths, codeLengths]
    rcases hl : number short 3 i with e | ⟨l, j⟩
    · exact within_error e _
    · rw [within_number h 3 i _ hl]
      exact ih _ _

theorem within_expandLengths (h : Begins short long) (c : Code) (wanted fuel : Nat) (done : List Nat)
    (i : Nat) :
    Within (expandLengths short c wanted fuel done i) (expandLengths long c wanted fuel done i) := by
  induction fuel generalizing done i with
  | zero => exact within_error _ _
  | succ fuel ih =>
    rw [expandLengths, expandLengths]
    split
    · exact within_refl _
    · rcases hs : symbol short c i with e | ⟨s, j⟩
      · exact within_error e _
      · rw [within_symbol h c i _ hs]
        simp only
        split
        · exact ih _ _
        · split
          · exact within_error _ _
          · split
            · exact within_error _ _
            · rename_i hmore
              rw [within_number h _ j _ hmore]
              exact ih _ _

theorem within_dynamicBlock (h : Begins short long) (hnm : n ≤ m) (i : Nat) (out : ByteArray) :
    Within (dynamicBlock short n i out) (dynamicBlock long m i out) := by
  unfold dynamicBlock
  refine (within_number h 5 _).bind fun (hlit, i) => ?_
  refine (within_number h 5 _).bind fun (hdist, i) => ?_
  refine (within_number h 4 _).bind fun (hclen, i) => ?_
  simp only
  split
  · exact within_error _ _
  · refine (within_codeLengths h _ _ _).bind fun (pairs, i) => ?_
    simp only
    split
    · exact within_error _ _
    · refine (within_expandLengths h _ _ _ _ _).bind fun (lengths, i) => ?_
      simp only
      split
      · exact within_error _ _
      · exact within_codedBlock h _ _ hnm _ _

theorem within_blocks (h : Begins short long) {fuel fuel' : Nat} (hfuel : fuel ≤ fuel') (hnm : n ≤ m)
    (i : Nat) (out : ByteArray) : Within (blocks short fuel n i out) (blocks long fuel' m i out) := by
  induction n generalizing m i out with
  | zero => exact within_error _ _
  | succ n ih =>
    obtain ⟨m, rfl⟩ := Nat.exists_eq_add_one_of_ne_zero (Nat.ne_zero_of_lt hnm)
    rw [blocks, blocks]
    refine (within_number h 1 _).bind fun (final, i) => ?_
    refine (within_number h 2 _).bind fun (kind, i) => ?_
    have hnext (next : Nat × ByteArray) :
        Within (if final = 1 then .ok (next.1, next.2) else blocks short fuel n next.1 next.2)
          (if final = 1 then .ok (next.1, next.2) else blocks long fuel' m next.1 next.2) := by
      split
      · exact within_refl _
      · exact ih (Nat.le_of_succ_le_succ hnm) _ _
    simp only
    split
    · exact (within_storedBlock h _ _).bind hnext
    · split
      · exact (within_codedBlock h _ _ hfuel _ _).bind hnext
      · split
        · exact (within_dynamicBlock h hfuel _ _).bind hnext
        · exact within_error _ _

/-! ### Streams -/

theorem within_header (h : Begins short long) : Within (header short) (header long) := by
  rw [header, header]
  split
  · rename_i hsize
    rw [dif_pos (Nat.lt_of_lt_of_le hsize h.size_le)]
    simp only [h.getElem_eq 0 (by omega), h.getElem_eq 1 hsize]
    exact within_refl _
  · exact within_error _ _

/-- Decompresses a stream, and says at which byte it ends. -/
def runTo (input : ByteArray) : Except Fault (Nat × ByteArray) := do
  header input
  let fuel := 8 * input.size + 8
  let (i, out) ← blocks input fuel fuel 16 .empty
  let place := (i + 7) / 8
  let (a, i) ← number input 8 (8 * place)
  let (b, i) ← number input 8 i
  let (c, i) ← number input 8 i
  let (d, i) ← number input 8 i
  if ((a * 256 + b) * 256 + c) * 256 + d = adler32 out then .ok (i / 8, out) else .error .corrupt

theorem run_eq (input : ByteArray) : run input = (·.2) <$> runTo input := by
  unfold run runTo
  simp only [map_bind, apply_ite (Functor.map Prod.snd)]
  rfl

theorem within_runTo (h : Begins short long) : Within (runTo short) (runTo long) := by
  have hfuel : 8 * short.size + 8 ≤ 8 * long.size + 8 := by
    have := h.size_le
    omega
  unfold runTo
  refine (within_header h).bind fun _ => ?_
  refine (within_blocks h hfuel hfuel _ _).bind fun (i, out) => ?_
  refine (within_number h 8 _).bind fun (a, i) => ?_
  refine (within_number h 8 _).bind fun (b, i) => ?_
  refine (within_number h 8 _).bind fun (c, i) => ?_
  refine (within_number h 8 _).bind fun (d, i) => ?_
  exact within_refl _

/-- The end of a stream lies in the input. -/
theorem le_of_runTo {input out : ByteArray} (h : runTo input = .ok (n, out)) : n ≤ input.size := by
  unfold runTo at h
  simp only [bind_eq_ok_iff] at h
  obtain ⟨-, -, ⟨i, out'⟩, -, ⟨a, i₁⟩, -, ⟨b, i₂⟩, -, ⟨c, i₃⟩, -, ⟨d, i₄⟩, hd, h⟩ := h
  have hi := le_of_number (by omega) hd
  simp only at h
  split at h
  · cases h
    omega
  · cases h

theorem begins_take (n : Nat) (s : List UInt8) : Begins ⟨(s.take n).toArray⟩ ⟨s.toArray⟩ where
  size_le := by
    simp only [ByteArray.size, List.size_toArray, List.length_take]
    omega
  getElem_eq i h := by simp [ByteArray.getElem_eq_getElem_data]

/-- **A beginning of a stream is no stream**: where a stream fills its input, an input that ends
earlier does not decompress. -/
theorem exists_decompress_take {s : List UInt8} {out : ByteArray}
    (h : runTo ⟨s.toArray⟩ = .ok (s.length, out)) (hn : n < s.length) :
    ∃ e, decompress (s.take n) = .error e := by
  rcases hr : runTo ⟨(s.take n).toArray⟩ with e | ⟨place, out'⟩
  · exact ⟨e, by rw [decompress, run_eq, hr]; rfl⟩
  · -- the stream would end at the same place in the whole input
    have hle := le_of_runTo hr
    have hplace := within_runTo (begins_take n s) _ hr
    rw [h] at hplace
    cases hplace
    simp [ByteArray.size] at hle
    omega

/-! ### Stored bytes -/

section Stored

variable {input : ByteArray} {p : Nat} {b : UInt8}

theorem exists_getElem_eq (h : input.data[p]? = some b) : ∃ hp : p < input.size, input[p] = b := by
  obtain ⟨hp, hb⟩ := Array.getElem?_eq_some_iff.1 h
  exact ⟨hp, hb⟩

theorem bitAt_byte (h : input.data[p]? = some b) {k : Nat} (hk : k < 8) :
    bitAt input (8 * p + k) = some (b.toNat / 2 ^ k % 2) := by
  have hdiv : (8 * p + k) / 8 = p := by omega
  have hmod : (8 * p + k) % 8 = k := by omega
  obtain ⟨hp, rfl⟩ := exists_getElem_eq h
  simp only [bitAt, hdiv, hmod, dif_pos hp, Nat.shiftRight_eq_div_pow]

/-- The bits from a place in a byte to its end are what the byte holds from that place on. -/
theorem bits_byte (h : input.data[p]? = some b) (count : Nat) {m : Nat} (hm : m ≤ 8)
    (weight value : Nat) :
    bits input (count + m) weight value (8 * p + (8 - m)) =
      bits input count (2 ^ m * weight) (value + b.toNat / 2 ^ (8 - m) * weight) (8 * (p + 1)) := by
  induction m generalizing weight value with
  | zero =>
    rw [Nat.div_eq_of_lt b.toNat_lt]
    simp [Nat.mul_add]
  | succ m ih =>
    have hplace : 8 * p + (8 - (m + 1)) + 1 = 8 * p + (8 - m) := by omega
    have hsucc : 8 - m = 8 - (m + 1) + 1 := by omega
    rw [← Nat.add_assoc, bits, bitAt_byte h (by omega)]
    simp only
    rw [hplace, ih (by omega), hsucc, Nat.pow_succ, ← Nat.div_div_eq_div_mul]
    generalize b.toNat / 2 ^ (8 - (m + 1)) = q
    have hq : q % 2 * weight + q / 2 * (2 * weight) = q * weight := by
      rw [← Nat.mul_assoc, ← Nat.add_mul]
      congr 1
      omega
    rw [Nat.add_assoc, hq, Nat.pow_succ, Nat.mul_assoc]

theorem number_byte (h : input.data[p]? = some b) :
    number input 8 (8 * p) = .ok (b.toNat, 8 * (p + 1)) := by
  have hb := bits_byte h 0 (Nat.le_refl 8) 1 0
  simpa [number, bits] using hb

theorem number_word {low high : UInt8} (hl : input.data[p]? = some low)
    (hh : input.data[p + 1]? = some high) :
    number input 16 (8 * p) = .ok (low.toNat + high.toNat * 256, 8 * (p + 2)) := by
  have hlow := bits_byte hl 8 (Nat.le_refl 8) 1 0
  have hhigh := bits_byte hh 0 (Nat.le_refl 8) (2 ^ 8) low.toNat
  simp only [Nat.zero_add, Nat.sub_self, Nat.add_zero, Nat.pow_zero, Nat.div_one, Nat.mul_one] at hlow hhigh
  rw [number, hlow, hhigh]
  rfl

theorem storedBytes_eq {bs : List UInt8}
    (h : ∀ (i : Nat) (hi : i < bs.length), input.data[p + i]? = some bs[i]) (out : List UInt8) :
    storedBytes input bs.length p ⟨out.toArray⟩ = .ok (8 * (p + bs.length), ⟨(out ++ bs).toArray⟩) := by
  induction bs generalizing p out with
  | nil => simp [storedBytes]
  | cons b bs ih =>
    obtain ⟨hp, hb⟩ := exists_getElem_eq (p := p) (h 0 (Nat.zero_lt_succ _))
    have hpush : (⟨out.toArray⟩ : ByteArray).push b = ⟨(out ++ [b]).toArray⟩ :=
      congrArg ByteArray.mk (List.push_toArray out b)
    have hrest (i : Nat) (hi : i < bs.length) : input.data[p + 1 + i]? = some bs[i] := by
      rw [Nat.add_assoc, Nat.add_comm 1]
      exact h (i + 1) (Nat.succ_lt_succ hi)
    rw [List.length_cons, storedBytes, dif_pos hp, hb, List.getElem_cons_zero, hpush, ih hrest]
    simp [Nat.add_assoc, Nat.add_comm 1]

theorem adler32_lt (bytes : ByteArray) : adler32 bytes < 4294967296 := by
  unfold adler32
  split
  rename_i a b hfold
  have h : (fun s : Nat × Nat => s.1 < 65521 ∧ s.2 < 65521) (a, b) := by
    rw [← hfold]
    refine Array.foldl_induction (fun _ (s : Nat × Nat) => s.1 < 65521 ∧ s.2 < 65521) (by decide) fun i s hs => ?_
    exact ⟨Nat.mod_lt _ (by decide), Nat.mod_lt _ (by decide)⟩
  simp only at h
  omega

end Stored
end Inflate

end Stencil
