import Mathlib.Data.List.Nodup
import Stencil.Proofs.Binary.Base64
import Stencil.Proofs.Json.Printed
import Stencil.Proofs.Record.Names

/-!
# Values in records and back

A packed value is a run of full records and a last one that may be shorter, numbered upwards from the
offset. Unpacking finds the records by their names and stops at the first name that is missing, so it
gives the value back from any list that holds the records, in whatever order, as long as no other
record of the list bears one of their names or the next one (`unpack_pack`).
-/

namespace Stencil

/-- Compression gives these bytes back, from a stream that is not empty. -/
structure Compression.Restores (z : Compression) (bs : List UInt8) : Prop where
  compress_ne_nil : z.compress bs ≠ []
  decompress_compress : z.decompress (z.compress bs) = .ok bs

/-- The bytes as they are, in one block of a zlib stream. A block holds fewer than 65536 bytes. -/
def Compression.stored : Compression where
  compress bs := [0x78, 0x01, 0x01, UInt8.ofNat bs.length, UInt8.ofNat (bs.length / 256),
    UInt8.ofNat (65535 - bs.length), UInt8.ofNat ((65535 - bs.length) / 256)] ++ bs ++
    Deflate.bigEndian (Inflate.adler32 ⟨bs.toArray⟩)
  decompress := zlib.decompress

namespace Record

variable {z : Compression} {v : Json}

/-! ### The text of a value -/

theorem decode_encode (hz : z.Restores (Text.bytes v.toText)) (hv : v.ReadsBack) :
    decode z (encode z v) = .ok v := by
  have hb := Base64.decode_encode (z.compress (Text.bytes v.toText))
  have hd := hz.decompress_compress
  have ht := Text.ofBytes?_bytes v.toText
  unfold Json.ReadsBack at hv
  simp only [decode, encode, hb, hd, Except.mapError, bind, Except.bind, ht, hv]

/-! ### Stretches -/

/-- The stretches of a text of ASCII characters. -/
theorem stretches_ofList {cs : List Char} (h : Text.Ascii cs) :
    stretches (String.ofList cs) = (chunks maxData cs).map String.ofList := by
  have hm : 0 < maxData := by decide
  have hflat := flatten_chunks hm cs
  rw [stretches, Text.bytes_ofList h, chunks_map hm, List.map_map]
  refine List.map_congr_left fun p hp => Text.ofBytesLossy_map_byteOf fun c hc => h c ?_
  rw [← hflat]
  exact List.mem_flatten_of_mem hp hc

/-- The data of the records of a value. -/
def partsOf (z : Compression) (v : Json) : List String := stretches (encode z v)

theorem partsOf_eq (z : Compression) (v : Json) :
    partsOf z v =
      (chunks maxData (Base64.encode (z.compress (Text.bytes v.toText)))).map String.ofList :=
  stretches_ofList (Base64.ascii_encode _)

theorem pack_eq (z : Compression) (key : String) (v : Json) (offset : Nat) :
    pack z key v offset = number key offset 0 (partsOf z v) := rfl

theorem join_map_ofList (ps : List (List Char)) :
    String.join (ps.map String.ofList) = String.ofList ps.flatten := by
  apply String.toList_inj.1
  induction ps with
  | nil => simp
  | cons p ps ih => simp_all

theorem join_partsOf (z : Compression) (v : Json) : String.join (partsOf z v) = encode z v := by
  rw [partsOf_eq, join_map_ofList, flatten_chunks (by decide)]
  rfl

theorem partsOf_ne_nil (hz : z.Restores (Text.bytes v.toText)) : partsOf z v ≠ [] := by
  have he := Base64.encode_ne_nil hz.compress_ne_nil
  rw [partsOf_eq, chunks_of_ne_nil (by decide) he]
  simp

theorem length_of_mem_partsOf {d : String} (h : d ∈ partsOf z v) :
    0 < d.length ∧ d.length ≤ maxData := by
  rw [partsOf_eq] at h
  obtain ⟨p, hp, rfl⟩ := List.mem_map.1 h
  rw [String.length_ofList]
  exact length_of_mem_chunks (by decide) hp

theorem length_getElem_partsOf (i : Nat) (h : i + 1 < (partsOf z v).length) :
    (partsOf z v)[i].length = maxData := by
  simp only [partsOf_eq, List.length_map] at h
  simp only [partsOf_eq, List.getElem_map, String.length_ofList]
  exact length_getElem_chunks (by decide) _ i h

theorem isSpelling_of_mem_partsOf {d : String} (h : d ∈ partsOf z v) :
    ∀ c ∈ d.toList, Base64.isSpelling c = true := by
  intro c hc
  rw [partsOf_eq] at h
  obtain ⟨p, hp, rfl⟩ := List.mem_map.1 h
  rw [String.toList_ofList] at hc
  have hmem := List.mem_flatten_of_mem hp hc
  rw [flatten_chunks (by decide)] at hmem
  exact Base64.isSpelling_of_mem_encode hmem

/-! ### Numbered records -/

@[simp] theorem length_number (key : String) (offset i : Nat) (ds : List String) :
    (number key offset i ds).length = ds.length := by
  induction ds generalizing i with
  | nil => rfl
  | cons d ds ih => rw [number, List.length_cons, ih, List.length_cons]

theorem getElem_number (key : String) (offset i : Nat) (ds : List String) (j : Nat)
    (h : j < (number key offset i ds).length) (hd : j < ds.length) :
    (number key offset i ds)[j] = ⟨nameAt key (offset + (i + j)), ds[j]⟩ := by
  induction ds generalizing i j with
  | nil => simp [number] at h
  | cons d ds ih =>
    cases j with
    | zero => rfl
    | succ j =>
      simp only [number, List.getElem_cons_succ]
      rw [ih (i + 1) j (by simpa [number] using h) (Nat.lt_of_succ_lt_succ hd),
        Nat.add_right_comm i 1 j, Nat.add_assoc i j 1]

/-! ### Looking up names -/

theorem dataOf_eq_some {list : List Record} {r : Record} (hr : r ∈ list)
    (h : ∀ s ∈ list, s.name = r.name → s = r) : dataOf list r.name = some r.data := by
  rw [dataOf]
  cases hf : list.reverse.find? fun s => s.name == r.name with
  | none =>
    have hn := List.find?_eq_none.1 hf r (List.mem_reverse.2 hr)
    simp at hn
  | some s =>
    have hs : s = r :=
      h s (List.mem_reverse.1 (List.mem_of_find?_eq_some hf)) (by simpa using List.find?_some hf)
    rw [hs]
    rfl

theorem dataOf_eq_none {list : List Record} {name : String} (h : ∀ s ∈ list, s.name ≠ name) :
    dataOf list name = none := by
  rw [dataOf, List.find?_eq_none.2]
  · rfl
  · intro s hs
    simpa using h s (List.mem_reverse.1 hs)

/-- Counting up collects the data that the names have. -/
theorem collect_eq {list : List Record} {key : String} {offset : Nat} {ds : List String}
    (hin : ∀ (j : Nat) (h : j < ds.length), dataOf list (nameAt key (offset + j)) = some ds[j])
    (hout : dataOf list (nameAt key (offset + ds.length)) = none)
    (fuel i : Nat) (hf : ds.length ≤ fuel + i) (hi : i ≤ ds.length) :
    collect list key offset fuel i = ds.drop i := by
  induction fuel generalizing i with
  | zero => rw [collect, List.drop_eq_nil_of_le (by omega)]
  | succ fuel ih =>
    rw [collect]
    by_cases hlt : i < ds.length
    · rw [hin i hlt, ih (i + 1) (by omega) hlt]
      exact (List.drop_eq_getElem_cons hlt).symm
    · obtain rfl : i = ds.length := by omega
      rw [hout, List.drop_length]

/-- What the names of numbered records have among other records. -/
theorem dataOf_of_perm {key : String} {offset : Nat} {ds : List String} {list others : List Record}
    (hp : list.Perm (number key offset 0 ds ++ others))
    (ho : ∀ r ∈ others, ∀ i, offset ≤ i → i ≤ offset + ds.length → r.name ≠ nameAt key i) :
    (∀ (j : Nat) (h : j < ds.length), dataOf list (nameAt key (offset + j)) = some ds[j]) ∧
      dataOf list (nameAt key (offset + ds.length)) = none := by
  have hget (j : Nat) (h : j < ds.length) (h' : j < (number key offset 0 ds).length) :
      (number key offset 0 ds)[j] = ⟨nameAt key (offset + j), ds[j]⟩ := by
    rw [getElem_number _ _ _ _ _ h' h, Nat.zero_add]
  constructor
  · intro j hj
    have hmem : (⟨nameAt key (offset + j), ds[j]⟩ : Record) ∈ list := by
      rw [hp.mem_iff, ← hget j hj (by simpa using hj)]
      exact List.mem_append_left _ (List.getElem_mem _)
    refine dataOf_eq_some hmem fun s hs hname => ?_
    rcases List.mem_append.1 (hp.subset hs) with hs | hs
    · obtain ⟨j', hj', rfl⟩ := List.getElem_of_mem hs
      rw [length_number] at hj'
      rw [hget j' hj'] at hname ⊢
      have heq := nameAt_injective key hname
      obtain rfl : j' = j := by omega
      rfl
    · exact absurd hname (ho s hs _ (by omega) (by omega))
  · refine dataOf_eq_none fun s hs => ?_
    rcases List.mem_append.1 (hp.subset hs) with hs | hs
    · obtain ⟨j, hj, rfl⟩ := List.getElem_of_mem hs
      rw [length_number] at hj
      rw [hget j hj]
      intro hname
      have heq := nameAt_injective key hname
      omega
    · exact ho s hs _ (by omega) (by omega)

/-- Numbered records are collected from among other records. -/
theorem collect_of_perm {key : String} {offset : Nat} {ds : List String} {list others : List Record}
    (hp : list.Perm (number key offset 0 ds ++ others))
    (ho : ∀ r ∈ others, ∀ i, offset ≤ i → i ≤ offset + ds.length → r.name ≠ nameAt key i) :
    collect list key offset list.length 0 = ds := by
  obtain ⟨hin, hout⟩ := dataOf_of_perm hp ho
  have hlen : ds.length ≤ list.length := by
    rw [hp.length_eq, List.length_append, length_number]
    omega
  rw [collect_eq hin hout list.length 0 (by omega) (by omega), List.drop_zero]

/-- Where the last number is not reached, loading is unpacking. -/
theorem load_of_lt {list : List Record} {key : String} {offset : Nat}
    (h : offset + (collect list key offset list.length 0).length < indexLimit) :
    load z list key offset = (unpack z list key offset).mapError .problem :=
  if_neg (Nat.not_le.2 h)

/-- A value is found among other records. -/
theorem unpack_of_perm (hz : z.Restores (Text.bytes v.toText)) (hv : v.ReadsBack) {key : String}
    {offset : Nat} {list others : List Record}
    (hp : list.Perm (number key offset 0 (partsOf z v) ++ others))
    (ho : ∀ r ∈ others, ∀ i, offset ≤ i → i ≤ offset + (partsOf z v).length → r.name ≠ nameAt key i) :
    unpack z list key offset = .ok v := by
  have hc := collect_of_perm hp ho
  obtain ⟨d, ds, hd⟩ := List.exists_cons_of_ne_nil (partsOf_ne_nil hz)
  have hj := join_partsOf z v
  rw [hd] at hj hc
  simp only [unpack, hc, hj, decode_encode hz hv]
  rfl

/-- **Packing and unpacking in any surroundings**: the records of a value are numbered from the
offset on, all but the last are full and none is empty, and the value comes back from every list
that holds them among records with other names; the program does not end before. -/
theorem unpack_pack (z : Compression) (key : String) (v : Json) (offset : Nat)
    (hz : z.Restores (Text.bytes v.toText)) (hv : v.ReadsBack)
    (hn : offset + (pack z key v offset).length < indexLimit) :
    1 ≤ (pack z key v offset).length ∧
      (∀ (i : Nat) (h : i < (pack z key v offset).length),
        (pack z key v offset)[i].name = key ++ toString (offset + i) ∧
        1 ≤ (pack z key v offset)[i].data.length ∧ (pack z key v offset)[i].data.length ≤ 64512 ∧
        (i + 1 < (pack z key v offset).length → (pack z key v offset)[i].data.length = 64512)) ∧
      ∀ list others : List Record, list.Perm (pack z key v offset ++ others) →
        (∀ r ∈ others, ∀ i, offset ≤ i → i ≤ offset + (pack z key v offset).length →
          r.name ≠ key ++ toString i) →
        unpack z list key offset = .ok v ∧ load z list key offset = .ok v := by
  simp only [pack_eq, length_number] at hn ⊢
  refine ⟨List.length_pos_of_ne_nil (partsOf_ne_nil hz), fun i h => ?_, fun list others hp ho => ?_⟩
  · rw [getElem_number _ _ _ _ _ _ h, Nat.zero_add]
    obtain ⟨hpos, hle⟩ := length_of_mem_partsOf (List.getElem_mem h)
    exact ⟨nameAt_eq _ _, hpos, hle, length_getElem_partsOf i⟩
  · have hother : ∀ r ∈ others, ∀ i, offset ≤ i → i ≤ offset + (partsOf z v).length →
        r.name ≠ nameAt key i := by
      intro r hr i hi hi'
      rw [nameAt_eq]
      exact ho r hr i hi hi'
    have hunpack := unpack_of_perm hz hv hp hother
    refine ⟨hunpack, ?_⟩
    rw [load_of_lt (by rwa [collect_of_perm hp hother]), hunpack]
    rfl

/-- Two records of another key stand around the record of a value. -/
theorem unpack_pack_between :
    Compression.stored.Restores (Text.bytes (Json.arr [.null, .str "x"]).toText) ∧
      (Json.arr [.null, .str "x"]).ReadsBack ∧
      unpack .stored ([⟨"set1", "?"⟩] ++ pack .stored "set" (.arr [.null, .str "x"]) 10 ++
        [⟨"set100", "!"⟩]) "set" 10 = .ok (.arr [.null, .str "x"]) ∧
      load .stored ([⟨"set1", "?"⟩] ++ pack .stored "set" (.arr [.null, .str "x"]) 10 ++
        [⟨"set100", "!"⟩]) "set" 10 = .ok (.arr [.null, .str "x"]) := by
  have hz : Compression.stored.Restores (Text.bytes (Json.arr [.null, .str "x"]).toText) :=
    ⟨by decide +kernel, by decide +kernel⟩
  have hv : (Json.arr [.null, .str "x"]).ReadsBack := by decide +kernel
  have hl : (pack .stored "set" (.arr [.null, .str "x"]) 10).length = 1 := by decide +kernel
  have h := (unpack_pack .stored "set" (.arr [.null, .str "x"]) 10 hz hv (by rw [hl]; decide)).2.2
  refine ⟨hz, hv, h _ [⟨"set1", "?"⟩, ⟨"set100", "!"⟩] ?_ ?_⟩
  · exact List.perm_append_comm.append_right _
  · rw [hl]
    intro r hr i h1 h2
    obtain rfl | rfl : i = 10 ∨ i = 11 := by omega
    all_goals simp at hr; rcases hr with rfl | rfl <;> decide

end Record

end Stencil
