import Mathlib.Data.List.Perm.Subperm
import Mathlib.Data.Nat.Find
import Mathlib.Data.Nat.ModEq
import Stencil.Proofs.Binary.Inflate
import Stencil.Proofs.Record.RoundTrip

/-!
# Records that are missing

Nothing in the records of a value says how many there are: unpacking counts up to the first name that
is missing and decodes what it has by then. All records but the last hold whole groups of Base64, so
what it has spells a beginning of the compressed bytes (`take_encode`), and a beginning of a zlib
stream is no stream. Hence a value with records missing is never taken for another one
(`unpack_of_removed`).
-/

namespace Stencil

/-- Compression writes these bytes as one zlib stream with nothing behind it, and reads zlib streams. -/
structure Compression.Streams (z : Compression) (bs : List UInt8) : Prop where
  decompress_eq : z.decompress = zlib.decompress
  runTo_compress :
    Inflate.runTo ⟨(z.compress bs).toArray⟩ = .ok ((z.compress bs).length, ⟨bs.toArray⟩)

namespace Compression

variable {z : Compression} {bs : List UInt8}

/-- A beginning of the stream does not decompress. -/
theorem Streams.decompress_take (h : z.Streams bs) {n : Nat} (hn : n < (z.compress bs).length) :
    ∃ fault : Inflate.Fault, z.decompress ((z.compress bs).take n) = .error fault.message := by
  obtain ⟨fault, hf⟩ := Inflate.exists_decompress_take h.runTo_compress hn
  exact ⟨fault, by rw [h.decompress_eq]; simp only [zlib, hf]; rfl⟩

/-! ### Stored bytes -/

section Stored

open Inflate

/-- A stream of one block that is not coded, as input. -/
def storedInput (bs : List UInt8) : ByteArray := ⟨(stored.compress bs).toArray⟩

theorem length_compress_stored (bs : List UInt8) : (stored.compress bs).length = bs.length + 11 := by
  simp only [stored, Deflate.bigEndian, List.length_append, List.length_cons, List.length_nil]
  omega

theorem byte_storedInput (bs : List UInt8) {i : Nat} {b : UInt8} (h : (stored.compress bs)[i]? = some b) :
    (storedInput bs).data[i]? = some b := by
  simpa [storedInput] using h

theorem header_storedInput (bs : List UInt8) : header (storedInput bs) = .ok () := by
  obtain ⟨h0, hcmf⟩ := exists_getElem_eq (byte_storedInput bs (i := 0) (b := 0x78) rfl)
  obtain ⟨hsize, hflags⟩ := exists_getElem_eq (byte_storedInput bs (i := 1) (b := 0x01) rfl)
  rw [header, dif_pos hsize, hcmf, hflags]
  decide

/-- The first block is the last one, and is not coded. -/
theorem number_storedInput (bs : List UInt8) :
    number (storedInput bs) 1 16 = .ok (1, 17) ∧ number (storedInput bs) 2 17 = .ok (0, 19) := by
  have hb := byte_storedInput bs (i := 2) (b := 0x01) rfl
  have h0 := bitAt_byte hb (show 0 < 8 by omega)
  have h1 := bitAt_byte hb (show 1 < 8 by omega)
  have h2 := bitAt_byte hb (show 2 < 8 by omega)
  simp only [Nat.reduceMul, Nat.reduceAdd] at h0 h1 h2
  constructor
  · rw [number, bits, h0]
    rfl
  · rw [number, bits, h1]
    simp only
    rw [bits, h2]
    rfl

theorem storedBlock_storedInput (h : bs.length < 65536) :
    storedBlock (storedInput bs) 19 .empty = .ok (8 * (7 + bs.length), ⟨bs.toArray⟩) := by
  have hlength := number_word (byte_storedInput bs (i := 3) rfl) (byte_storedInput bs (i := 4) rfl)
  have hcomplement := number_word (byte_storedInput bs (i := 5) rfl) (byte_storedInput bs (i := 6) rfl)
  have hbytes : storedBytes (storedInput bs) bs.length 7 .empty = .ok (8 * (7 + bs.length), ⟨bs.toArray⟩) := by
    refine storedBytes_eq (fun i hi => byte_storedInput bs ?_) []
    simp [stored, Nat.add_comm 7, List.getElem?_append_left hi]
  have hl : (UInt8.ofNat bs.length).toNat + (UInt8.ofNat (bs.length / 256)).toNat * 256 = bs.length := by
    simp only [UInt8.toNat_ofNat']
    omega
  have hc : (UInt8.ofNat (65535 - bs.length)).toNat + (UInt8.ofNat ((65535 - bs.length) / 256)).toNat * 256 =
      65535 - bs.length := by
    simp only [UInt8.toNat_ofNat']
    omega
  rw [hl] at hlength
  rw [hc] at hcomplement
  simp only [Nat.reduceMul, Nat.reduceAdd] at hlength hcomplement
  have hsum : bs.length + (65535 - bs.length) = 65535 := by omega
  unfold storedBlock
  refine bind_eq_ok_iff.2 ⟨_, hlength, bind_eq_ok_iff.2 ⟨_, hcomplement, ?_⟩⟩
  exact (if_pos hsum).trans hbytes

/-- The checksum behind the block. -/
theorem number_checksum (bs : List UInt8) {i : Nat} {b : UInt8}
    (h : (Deflate.bigEndian (adler32 ⟨bs.toArray⟩))[i]? = some b) :
    number (storedInput bs) 8 (8 * (7 + bs.length + i)) = .ok (b.toNat, 8 * (7 + bs.length + (i + 1))) := by
  refine number_byte (byte_storedInput bs ?_)
  rw [← h]
  simp [stored, Nat.add_comm 7, Nat.add_right_comm _ 7, List.getElem?_append_right]

theorem blocks_storedInput (h : bs.length < 65536) (fuel more : Nat) :
    blocks (storedInput bs) fuel (more + 1) 16 .empty = .ok (8 * (7 + bs.length), ⟨bs.toArray⟩) := by
  obtain ⟨hfinal, hkind⟩ := number_storedInput bs
  rw [blocks]
  refine bind_eq_ok_iff.2 ⟨_, hfinal, bind_eq_ok_iff.2 ⟨_, hkind, ?_⟩⟩
  exact bind_eq_ok_iff.2 ⟨_, storedBlock_storedInput h, rfl⟩

/-- Four bytes hold a number below `2 ^ 32`. -/
theorem number_bigEndian {n : Nat} (h : n < 4294967296) :
    (((UInt8.ofNat (n >>> 24)).toNat * 256 + (UInt8.ofNat (n >>> 16)).toNat) * 256 +
      (UInt8.ofNat (n >>> 8)).toNat) * 256 + (UInt8.ofNat n).toNat = n := by
  simp only [UInt8.toNat_ofNat', Nat.shiftRight_eq_div_pow]
  omega

/-- Bytes that fit in one block are written as one stream. -/
theorem streams_stored (h : bs.length < 65536) : stored.Streams bs where
  decompress_eq := rfl
  runTo_compress := by
    have h0 := number_checksum bs (i := 0) rfl
    have h1 := number_checksum bs (i := 1) rfl
    have h2 := number_checksum bs (i := 2) rfl
    have h3 := number_checksum bs (i := 3) rfl
    have hplace : (8 * (7 + bs.length) + 7) / 8 = 7 + bs.length := by omega
    have hend : 8 * (7 + bs.length + (3 + 1)) / 8 = (stored.compress bs).length := by
      rw [length_compress_stored bs]
      omega
    have hsum := number_bigEndian (adler32_lt ⟨bs.toArray⟩)
    refine bind_eq_ok_iff.2 ⟨_, header_storedInput bs, bind_eq_ok_iff.2 ⟨_, blocks_storedInput h _ _, ?_⟩⟩
    simp only [hplace]
    refine bind_eq_ok_iff.2 ⟨_, h0, bind_eq_ok_iff.2 ⟨_, h1, ?_⟩⟩
    refine bind_eq_ok_iff.2 ⟨_, h2, bind_eq_ok_iff.2 ⟨_, h3, ?_⟩⟩
    rw [← hend]
    exact if_pos hsum

end Stored

end Compression

namespace Record

variable {z : Compression} {v : Json} {key : String} {offset : Nat} {ds : List String}

/-! ### Names of numbered records -/

theorem exists_of_mem_number {r : Record} (h : r ∈ number key offset 0 ds) :
    ∃ (j : Nat) (hj : j < ds.length), r = ⟨nameAt key (offset + j), ds[j]⟩ := by
  obtain ⟨j, hj, rfl⟩ := List.getElem_of_mem h
  have hd : j < ds.length := by simpa using hj
  exact ⟨j, hd, by rw [getElem_number _ _ _ _ _ hj hd, Nat.zero_add]⟩

theorem nodup_number (key : String) (offset : Nat) (ds : List String) :
    (number key offset 0 ds).Nodup := by
  refine List.pairwise_iff_getElem.2 fun i j hi hj hij heq => ?_
  have hi' : i < ds.length := by simpa using hi
  have hj' : j < ds.length := by simpa using hj
  rw [getElem_number _ _ _ _ _ hi hi', getElem_number _ _ _ _ _ hj hj', Nat.zero_add, Nat.zero_add] at heq
  have hindex := nameAt_injective key (Record.mk.inj heq).1
  omega

/-- The name of a numbered record is borne by that record only. -/
theorem eq_of_name_eq {r : Record} (hr : r ∈ number key offset 0 ds) {j : Nat}
    (hj : j < ds.length) (h : r.name = nameAt key (offset + j)) :
    r = ⟨nameAt key (offset + j), ds[j]⟩ := by
  obtain ⟨i, hi, rfl⟩ := exists_of_mem_number hr
  have hindex := nameAt_injective key h
  obtain rfl : i = j := by omega
  rfl

/-! ### Counting up to a gap -/

section Gap

variable {list removed : List Record}

/-- A name that is found among the records that are left is borne by the record that was numbered so. -/
theorem mem_of_dataOf_ne_none (hlist : list ⊆ number key offset 0 ds) {i : Nat} (hi : i < ds.length)
    (h : dataOf list (nameAt key (offset + i)) ≠ none) :
    ⟨nameAt key (offset + i), ds[i]⟩ ∈ list := by
  by_contra hno
  refine h (dataOf_eq_none fun r hmem hname => hno ?_)
  rwa [← eq_of_name_eq (hlist hmem) hi hname]

/-- The name of a record that was removed is missing. -/
theorem exists_missing (hp : (list ++ removed).Perm (number key offset 0 ds)) (hr : removed ≠ []) :
    ∃ i, i < ds.length ∧ dataOf list (nameAt key (offset + i)) = none := by
  obtain ⟨r, rest, rfl⟩ := List.exists_cons_of_ne_nil hr
  obtain ⟨i, hi, rfl⟩ := exists_of_mem_number (hp.subset (List.mem_append_right _ List.mem_cons_self))
  refine ⟨i, hi, by_contra fun h => ?_⟩
  have hlist : list ⊆ number key offset 0 ds := fun r hr => hp.subset (List.mem_append_left _ hr)
  have hnodup := hp.nodup_iff.2 (nodup_number key offset ds)
  exact (List.nodup_append.1 hnodup).2.2 _ (mem_of_dataOf_ne_none hlist hi h) _ List.mem_cons_self rfl

/-- As many records are left as are there before the gap. -/
theorem le_length_of_forall_mem {j : Nat} (hj : j ≤ ds.length)
    (hmem : ∀ (i : Nat) (hi : i < j), ⟨nameAt key (offset + i), ds[i]⟩ ∈ list) :
    j ≤ list.length := by
  have htake : (ds.take j).length = j := List.length_take_of_le hj
  have hsub : number key offset 0 (ds.take j) ⊆ list := by
    intro r hr
    obtain ⟨i, hi, rfl⟩ := exists_of_mem_number hr
    rw [htake] at hi
    rw [List.getElem_take]
    exact hmem i hi
  have hle := (List.subperm_of_subset (nodup_number key offset _) hsub).length_le
  rwa [length_number, htake] at hle

/-- Without some of the records, counting up stops before it has all the data. -/
theorem exists_collect_take (hp : (list ++ removed).Perm (number key offset 0 ds)) (hr : removed ≠ []) :
    ∃ j < ds.length, collect list key offset list.length 0 = ds.take j := by
  have hlist : list ⊆ number key offset 0 ds := fun r hr => hp.subset (List.mem_append_left _ hr)
  have hmissing := exists_missing hp hr
  -- the gap at which counting stops is the least one
  obtain ⟨hj, hnone⟩ := Nat.find_spec hmissing
  have hleast {i : Nat} (hi : i < Nat.find hmissing) := Nat.find_min hmissing hi
  generalize Nat.find hmissing = j at hj hnone hleast
  have hmem (i : Nat) (hi : i < j) : ⟨nameAt key (offset + i), ds[i]⟩ ∈ list :=
    mem_of_dataOf_ne_none hlist (by omega) fun h => hleast hi ⟨by omega, h⟩
  have htake : (ds.take j).length = j := List.length_take_of_le (Nat.le_of_lt hj)
  have hin (i : Nat) (hi : i < (ds.take j).length) :
      dataOf list (nameAt key (offset + i)) = some (ds.take j)[i] := by
    rw [htake] at hi
    rw [List.getElem_take]
    exact dataOf_eq_some (hmem i hi) fun s hs hname => eq_of_name_eq (hlist hs) (by omega) hname
  have hlen : j ≤ list.length := le_length_of_forall_mem (Nat.le_of_lt hj) hmem
  refine ⟨j, hj, ?_⟩
  rw [collect_eq hin (by rw [htake]; exact hnone) _ 0 (by omega) (by omega), List.drop_zero]

end Gap

/-! ### Decoding what is there -/

/-- The data of the first records spells a beginning of the compressed bytes. -/
theorem join_take_partsOf {j : Nat} (h : j < (partsOf z v).length) :
    48384 * j < (z.compress (Text.bytes v.toText)).length ∧
      String.join ((partsOf z v).take j) =
        String.ofList (Base64.encode ((z.compress (Text.bytes v.toText)).take (48384 * j))) := by
  have hm : 0 < maxData := by decide
  have hlt : 48384 * j < (z.compress (Text.bytes v.toText)).length := by
    rw [partsOf_eq, List.length_map, length_chunks hm, Base64.length_encode, maxData] at h
    omega
  refine ⟨hlt, ?_⟩
  -- a record holds 16128 groups
  have hj : j * maxData = 4 * (16128 * j) := by
    rw [maxData]
    omega
  have hbound : 3 * (16128 * j) ≤ (z.compress (Text.bytes v.toText)).length := by omega
  have hgroups := Base64.take_encode (16128 * j) hbound
  rw [partsOf_eq, ← List.map_take, join_map_ofList, flatten_take_chunks hm, hj, hgroups]
  congr 3
  omega

theorem decode_take (hz : z.Streams (Text.bytes v.toText)) {n : Nat}
    (hn : n < (z.compress (Text.bytes v.toText)).length) :
    ∃ fault : Inflate.Fault,
      decode z (String.ofList (Base64.encode ((z.compress (Text.bytes v.toText)).take n))) =
        .error ("inflate failed: " ++ fault.message) := by
  obtain ⟨fault, hf⟩ := hz.decompress_take hn
  refine ⟨fault, ?_⟩
  simp only [decode, Base64.decode_encode, hf, Except.mapError, bind, Except.bind]

/-- **Missing records are noticed**: whichever records of a value are taken away, and in whatever order
the others stand, unpacking fails for the key of the value, as there is no first record or as the
stream does not come to its end. If there were numbers for all records, the program does not end. -/
theorem unpack_of_removed (z : Compression) (key : String) (v : Json) (offset : Nat)
    (hz : z.Streams (Text.bytes v.toText)) (list removed : List Record)
    (hp : (list ++ removed).Perm (pack z key v offset)) (hr : removed ≠ []) :
    (unpack z list key offset = .error (.corruptValue key "no records found") ∨
      ∃ fault : Inflate.Fault,
        unpack z list key offset = .error (.corruptValue key ("inflate failed: " ++ fault.message))) ∧
    (offset + (pack z key v offset).length ≤ indexLimit →
      load z list key offset = (unpack z list key offset).mapError .problem) := by
  rw [pack_eq] at hp ⊢
  rw [length_number]
  obtain ⟨j, hj, hcollect⟩ := exists_collect_take hp hr
  obtain ⟨hlt, hjoin⟩ := join_take_partsOf hj
  obtain ⟨fault, hdecode⟩ := decode_take hz hlt
  have hload : offset + (partsOf z v).length ≤ indexLimit →
      load z list key offset = (unpack z list key offset).mapError .problem := by
    intro hn
    refine load_of_lt ?_
    rw [hcollect, List.length_take_of_le (Nat.le_of_lt hj)]
    omega
  refine ⟨?_, hload⟩
  rcases hparts : (partsOf z v).take j with _ | ⟨d, rest⟩
  · left
    rw [unpack, hcollect, hparts]
  · right
    refine ⟨fault, ?_⟩
    rw [hparts] at hcollect hjoin
    simp only [unpack, hcollect, hjoin, hdecode, Except.mapError]

/-- The JSON of a text of letters has two bytes more, for the quotes. -/
theorem length_bytes_letters (n : Nat) :
    (Text.bytes (Json.str (String.ofList (List.replicate n 'x'))).toText).length = n + 2 := by
  have hprint : (Json.str (String.ofList (List.replicate n 'x'))).print =
      '"' :: (List.replicate n 'x' ++ ['"']) := by
    have hx : Json.escape 'x' = ['x'] := by decide
    rw [Json.print, Json.quote, String.toList_ofList, List.flatMap_replicate, hx,
      List.flatten_replicate_singleton]
  have hascii : Text.Ascii ('"' :: (List.replicate n 'x' ++ ['"'])) := by
    intro c hc
    simp only [List.mem_cons, List.mem_append, List.mem_replicate, List.not_mem_nil, or_false] at hc
    rcases hc with rfl | ⟨-, rfl⟩ | rfl <;> decide
  rw [Json.toText, hprint, Text.bytes_ofList hascii, List.length_map]
  simp only [List.length_cons, List.length_append, List.length_replicate, List.length_nil]

/-- A text that takes two records, of which the second one is lost. -/
theorem unpack_first_of_two :
    let v := Json.str (String.ofList (List.replicate 60000 'x'))
    Compression.stored.Streams (Text.bytes v.toText) ∧ (pack .stored "set" v 10).length = 2 ∧
      (unpack .stored ((pack .stored "set" v 10).take 1) "set" 10 =
          .error (.corruptValue "set" "no records found") ∨
        ∃ fault : Inflate.Fault, unpack .stored ((pack .stored "set" v 10).take 1) "set" 10 =
          .error (.corruptValue "set" ("inflate failed: " ++ fault.message))) ∧
      load .stored ((pack .stored "set" v 10).take 1) "set" 10 =
        (unpack .stored ((pack .stored "set" v 10).take 1) "set" 10).mapError .problem := by
  intro v
  have hbytes : (Text.bytes v.toText).length = 60002 := length_bytes_letters 60000
  clear_value v
  have hz : Compression.stored.Streams (Text.bytes v.toText) :=
    Compression.streams_stored (by rw [hbytes]; decide)
  have hlen : (pack .stored "set" v 10).length = 2 := by
    rw [pack_eq, length_number, partsOf_eq, List.length_map, length_chunks (by decide),
      Base64.length_encode, Compression.length_compress_stored, hbytes]
    decide
  have hlost : (pack .stored "set" v 10).drop 1 ≠ [] := by
    intro h
    have hnone := congrArg List.length h
    rw [List.length_drop, hlen] at hnone
    cases hnone
  obtain ⟨hfails, hload⟩ := unpack_of_removed .stored "set" v 10 hz _
    ((pack .stored "set" v 10).drop 1) (by rw [List.take_append_drop]) hlost
  exact ⟨hz, hlen, hfails, hload (by rw [hlen]; decide)⟩

end Record

end Stencil
