import Mathlib.Data.List.Chain
import Mathlib.Data.List.Flatten
import Stencil.Proofs.Except
import Stencil.Proofs.Record.Grouping
import Stencil.Proofs.Record.RoundTrip
import Stencil.Proofs.Store.Collection
import Stencil.Proofs.Store.Requests

/-!
# When the store on an appliance is a map

The collection of a store holds the records of its values one after another, in the order of the
ledger. As long as no series of records runs into the next one, every operation finds the groups
that were written, and the store answers like a map; once one does, the keys that are listed are no
longer those that are present. So the sequences of requests that the store answers like a map are
exactly those along which no key and its number of records spell the key behind it
(`answersAs_lastValue_iff`).
-/

namespace Stencil

namespace ApplianceStore

open Record RecordGroup

variable {z : Compression} {c : Collection} {l : List (String × Json)} {s : State Appliance}
  {key : String} {v : Json}

/-! ### The records of a ledger -/

/-- The series of records that a key with its value is. -/
def seriesOf (z : Compression) (p : String × Json) : Series := ⟨p.1, partsOf z p.2⟩

/-- The series of the entries of a ledger. -/
def layout (z : Compression) (l : List (String × Json)) : List Series := l.map (seriesOf z)

/-- The value can be written and read back under the key. -/
structure Storable (z : Compression) (key : String) (v : Json) : Prop where
  validKey : ValidKey key
  readsBack : v.ReadsBack
  restores : z.Restores (Text.bytes v.toText)

/-- The entries of a ledger can be stored, and all their records can be numbered. -/
structure Sound (z : Compression) (l : List (String × Json)) : Prop where
  nodup : (l.map (·.1)).Nodup
  storable : ∀ p ∈ l, Storable z p.1 p.2
  length_lt : (flatten (layout z l)).length < indexLimit

theorem Storable.numbered (h : Storable z key v) (hn : (partsOf z v).length < indexLimit) :
    (seriesOf z (key, v)).Numbered := ⟨List.length_pos_of_ne_nil (partsOf_ne_nil h.restores), hn⟩

theorem length_partsOf_le {p : String × Json} (h : p ∈ l) :
    (partsOf z p.2).length ≤ (flatten (layout z l)).length := by
  have hmem : (seriesOf z p).records ∈ (layout z l).map Series.records :=
    List.mem_map_of_mem (List.mem_map_of_mem h)
  have hsub := (List.sublist_flatten_of_mem hmem).length_le
  rwa [Series.length_records] at hsub

theorem Sound.numbered (h : Sound z l) : ∀ e ∈ layout z l, e.Numbered := by
  intro e he
  obtain ⟨p, hp, rfl⟩ := List.mem_map.1 he
  exact (h.storable p hp).numbered (lt_of_le_of_lt (length_partsOf_le hp) h.length_lt)

/-! ### Names and data -/

theorem isNameChar_of_isKeyChar {d : Char} (h : isKeyChar d = true) : isNameChar d = true := by
  have hp : keyPunctuation.toList = ['_', '.', '-', '/'] := by decide
  rw [isKeyChar, hp] at h
  simpa [isNameChar, or_assoc] using h

theorem isNameChar_of_isDigit {d : Char} (h : d.isDigit = true) : isNameChar d = true := by
  simp [isNameChar, Char.isAlphanum, h]

/-- The records of a value can be told from the text around them. -/
theorem legible_of_mem_pack (hk : ValidKey key) : ∀ r ∈ pack z key v 0, r.Legible := by
  intro r hr
  rw [pack_eq] at hr
  obtain ⟨j, hj, rfl⟩ := List.getElem_of_mem hr
  rw [getElem_number _ _ _ _ _ hj (by simpa using hj)]
  constructor
  · rw [toList_nameAt]
    exact List.append_ne_nil_of_right_ne_nil _ (digits_ne_nil _)
  · intro d hd
    rw [toList_nameAt, List.mem_append] at hd
    rcases hd with hd | hd
    · exact isNameChar_of_isKeyChar (hk.isKeyChar_of_mem d hd)
    · exact isNameChar_of_isDigit (isDigit_of_mem_digits hd)
  · exact isSpelling_of_mem_partsOf (List.getElem_mem _)

theorem records_seriesOf (z : Compression) (key : String) (v : Json) :
    (seriesOf z (key, v)).records = pack z key v 0 := by
  rw [Series.records_eq_number, pack_eq]
  rfl

theorem Sound.legible (h : Sound z l) : ∀ r ∈ flatten (layout z l), r.Legible := by
  intro r hr
  obtain ⟨e, he, hr⟩ := List.mem_flatMap.1 hr
  obtain ⟨p, hp, rfl⟩ := List.mem_map.1 he
  rw [records_seriesOf] at hr
  exact legible_of_mem_pack (h.storable p hp).validKey r hr

theorem Sound.filter (h : Sound z l) (f : String × Json → Bool) : Sound z (l.filter f) := by
  refine ⟨h.nodup.sublist (List.filter_sublist.map _),
    fun p hp => h.storable p (List.mem_of_mem_filter hp), lt_of_le_of_lt ?_ h.length_lt⟩
  exact ((List.filter_sublist.map _).flatMap _).length_le

/-! ### Groups of a ledger -/

/-- No series of records runs into the next one. -/
def Apart (z : Compression) (l : List (String × Json)) : Prop :=
  (layout z l).IsChain fun a b => ¬ a.RunsInto b

theorem any_layout (z : Compression) (l : List (String × Json)) (key : String) :
    ((layout z l).map Series.group).any (·.key == key) = (l.lookup key).isSome := by
  induction l with
  | nil => rfl
  | cons p l ih =>
    have hk : (seriesOf z p).group.key = p.1 := rfl
    rw [layout, List.map_cons, List.map_cons, List.any_cons, ← layout, ih, hk, lookup_cons_eq]
    by_cases h : key = p.1
    · simp [h]
    · simp [h, Ne.symm h]

theorem find?_layout (z : Compression) (l : List (String × Json)) (key : String) :
    ((layout z l).map Series.group).find? (·.key == key) =
      (l.lookup key).map fun v => (seriesOf z (key, v)).group := by
  induction l with
  | nil => rfl
  | cons p l ih =>
    have hk : (seriesOf z p).group.key = p.1 := rfl
    rw [layout, List.map_cons, List.map_cons, List.find?_cons, ← layout, ih, hk, lookup_cons_eq]
    by_cases h : key = p.1
    · simp [h]
    · rw [beq_false_of_ne (Ne.symm h), if_neg h]

theorem recordsExcept_layout (z : Compression) (l : List (String × Json)) (key : String) :
    recordsExcept ((layout z l).map Series.group) key =
      flatten (layout z (l.filter (·.1 != key))) := by
  rw [recordsExcept, layout, List.map_map, List.filter_map, List.flatMap_map, layout, flatten,
    List.flatMap_map]
  rfl

/-- The value of a group is the value in the ledger. -/
theorem result_valueOf (h : Storable z key v) (hn : (partsOf z v).length < indexLimit) :
    Op.result (valueOf z (seriesOf z (key, v)).group) s = (.ok v, s) := by
  have hp : (seriesOf z (key, v)).records.Perm (number key 0 0 (partsOf z v) ++ []) := by
    rw [records_seriesOf, pack_eq, List.append_nil]
  have hg : load z (seriesOf z (key, v)).group.records (seriesOf z (key, v)).group.key
      (seriesOf z (key, v)).group.offset = .ok v := by
    show load z (seriesOf z (key, v)).records key 0 = .ok v
    rw [load_of_lt, unpack_of_perm h.restores h.readsBack hp (by simp)]
    · rfl
    · rw [collect_of_perm hp (by simp), Nat.zero_add]
      exact hn
  rw [valueOf, hg]
  rfl

/-! ### What the operations do -/

/-- The keys that are listed are those of the groups. -/
theorem result_keys {rs : List Record} (h : Keeps c rs s) (hp : c.Plain)
    (hl : ∀ r ∈ rs, r.Legible) :
    (Op.result (Store.appliance z Appliance.execute c).keys s).1 =
      (RecordGroup.scan rs).map fun gs => (gs.map (·.key)).eraseDups := by
  obtain ⟨s', h1, -⟩ := result_readGroups h hp hl
  show (Op.result (readGroups Appliance.execute c >>= fun gs => pure (gs.map (·.key)).eraseDups) s).1 = _
  cases hscan : RecordGroup.scan rs with
  | error e => exact congrArg Prod.fst (Op.result_bind_of_error (h1.trans (by rw [hscan])))
  | ok gs => exact congrArg Prod.fst (Op.result_bind_of_ok (h1.trans (by rw [hscan])))

/-- The groups are those of the ledger. -/
theorem result_readGroups_layout (hs : Sound z l) (ha : Apart z l)
    (h : Keeps c (flatten (layout z l)) s) (hp : c.Plain) :
    ∃ s', Op.result (readGroups Appliance.execute c) s = (.ok ((layout z l).map Series.group), s') ∧
      Settled c (flatten (layout z l)) s' := by
  have hr := result_readGroups h hp hs.legible
  rwa [scan_flatten_of_isChain hs.numbered ha] at hr

section Operations

variable (hs : Sound z l) (ha : Apart z l) (h : Keeps c (flatten (layout z l)) s) (hp : c.Plain)
  (hk : ValidKey key)
include hs ha h hp hk

theorem result_has :
    (Op.result ((Store.appliance z Appliance.execute c).has key) s).1 = .ok (l.lookup key).isSome := by
  obtain ⟨s', h1, -⟩ := result_readGroups_layout hs ha h hp
  simp only [Store.appliance]
  rw [Op.result_bind_of_ok (result_checkKey hk.ne_empty hk.isKeyChar_of_mem s),
    Op.result_bind_of_ok h1, any_layout]
  rfl

theorem result_get :
    (Op.result ((Store.appliance z Appliance.execute c).get key) s).1 = .ok (l.lookup key) := by
  obtain ⟨s', h1, -⟩ := result_readGroups_layout hs ha h hp
  simp only [Store.appliance]
  rw [Op.result_bind_of_ok (result_checkKey hk.ne_empty hk.isKeyChar_of_mem s),
    Op.result_bind_of_ok h1, find?_layout]
  cases hv : l.lookup key with
  | none => rfl
  | some v =>
    have hmem := mem_of_lookup hv
    have hval := result_valueOf (s := s') (hs.storable _ hmem)
      (lt_of_le_of_lt (length_partsOf_le hmem) hs.length_lt)
    simp only [Option.map_some]
    rw [Op.result_bind_of_ok hval]
    rfl

/-- Setting a value puts its records behind those of the other keys. -/
theorem result_set (v : Json) :
    ∃ s', Op.result ((Store.appliance z Appliance.execute c).set key v) s = (.ok (), s') ∧
      Settled c (flatten (layout z (l.filter (·.1 != key))) ++ pack z key v 0) s' := by
  obtain ⟨s1, h1, hs1⟩ := result_readGroups_layout hs ha h hp
  have hnew : ∀ r ∈ flatten (layout z (l.filter (·.1 != key))) ++ pack z key v 0, r.Legible := by
    intro r hr
    rcases List.mem_append.1 hr with hr | hr
    · exact (hs.filter _).legible r hr
    · exact legible_of_mem_pack hk r hr
  simp only [Store.appliance]
  rw [Op.result_bind_of_ok (result_checkKey hk.ne_empty hk.isKeyChar_of_mem s),
    Op.result_bind_of_ok h1, recordsExcept_layout]
  exact result_writeRecords hs1 hp hnew

theorem result_delete :
    ∃ s', Op.result ((Store.appliance z Appliance.execute c).delete key) s =
        (.ok (l.lookup key).isSome, s') ∧
      Settled c (flatten (layout z (l.filter (·.1 != key)))) s' := by
  obtain ⟨s1, h1, hs1⟩ := result_readGroups_layout hs ha h hp
  simp only [Store.appliance]
  rw [Op.result_bind_of_ok (result_checkKey hk.ne_empty hk.isKeyChar_of_mem s),
    Op.result_bind_of_ok h1, any_layout, recordsExcept_layout]
  cases hv : (l.lookup key).isSome with
  | true =>
    obtain ⟨s2, h2, hs2⟩ := result_writeRecords hs1 hp (hs.filter (·.1 != key)).legible
    rw [if_pos rfl, Op.result_bind_of_ok h2]
    exact ⟨s2, rfl, hs2⟩
  | false =>
    have hsame : l.filter (·.1 != key) = l := by
      rw [List.filter_eq_self]
      intro p hp'
      rw [Option.isSome_eq_false_iff, Option.isNone_iff_eq_none, List.lookup_eq_none_iff] at hv
      rw [bne_comm]
      simpa using hv p hp'
    rw [if_neg (by simp), hsame]
    exact ⟨s1, rfl, hs1⟩

end Operations

/-! ### Runs -/

/-- What a request makes of the store and the appliance. -/
def Request.perform (z : Compression) (c : Collection) : Request → State Appliance → State Appliance
  | .set key v, s => (Op.result ((Store.appliance z Appliance.execute c).set key v) s).2
  | .delete key, s => (Op.result ((Store.appliance z Appliance.execute c).delete key) s).2
  | .reopen, s => (false, s.2)

/-- The store and the appliance after requests, from a fresh appliance on. -/
def run (z : Compression) (c : Collection) (requests : List Request) : State Appliance :=
  requests.foldl (fun s r => r.perform z c s) (false, Appliance.empty)

/-- The key is valid, and the value can be written and read back. -/
def Request.Admissible (z : Compression) : Request → Prop
  | .set key v => Storable z key v
  | .delete key => ValidKey key
  | .reopen => True

/-- The store answers like a map: each operation on a valid key, and the listing of the keys. -/
structure AnswersAs (z : Compression) (c : Collection) (s : State Appliance)
    (m : String → Option Json) : Prop where
  get : ∀ key, ValidKey key → (Op.result ((Store.appliance z Appliance.execute c).get key) s).1 =
    .ok (m key)
  has : ∀ key, ValidKey key → (Op.result ((Store.appliance z Appliance.execute c).has key) s).1 =
    .ok (m key).isSome
  set : ∀ key v, ValidKey key →
    (Op.result ((Store.appliance z Appliance.execute c).set key v) s).1 = .ok ()
  delete : ∀ key, ValidKey key →
    (Op.result ((Store.appliance z Appliance.execute c).delete key) s).1 = .ok (m key).isSome
  keys : ∃ ks, (Op.result (Store.appliance z Appliance.execute c).keys s).1 = .ok ks ∧ ks.Nodup ∧
    ∀ key, key ∈ ks ↔ (m key).isSome

@[simp] theorem run_append (z : Compression) (c : Collection) (requests : List Request)
    (r : Request) : run z c (requests ++ [r]) = r.perform z c (run z c requests) := by
  rw [run, List.foldl_append]
  rfl

/-- A request on a collection that can be read leaves the records of the next ledger. -/
theorem keeps_perform {r : Request} (hs : Sound z l) (ha : Apart z l)
    (h : Keeps c (flatten (layout z l)) s) (hp : c.Plain) (hr : r.Admissible z) :
    Keeps c (flatten (layout z (r.note l))) (r.perform z c s) := by
  cases r with
  | set key v =>
    obtain ⟨s', h1, hs'⟩ := result_set hs ha h hp hr.validKey v
    have hlast : flatten (layout z (Request.note (.set key v) l)) =
        flatten (layout z (l.filter (·.1 != key))) ++ pack z key v 0 := by
      rw [← records_seriesOf]
      simp [Request.note, layout, flatten]
    rw [Request.perform, h1, hlast]
    exact hs'.keeps
  | delete key =>
    obtain ⟨s', h1, hs'⟩ := result_delete hs ha h hp hr
    rw [Request.perform, h1]
    exact hs'.keeps
  | reopen => exact h.reopen

theorem sound_ledger {requests : List Request} (hr : ∀ r ∈ requests, r.Admissible z)
    (hn : (flatten (layout z (ledger requests))).length < indexLimit) : Sound z (ledger requests) :=
  ⟨nodup_ledger requests, fun _ hp => hr _ (set_mem_of_mem_ledger hp), hn⟩

/-- As long as all series were apart, the collection has the records of the ledger. -/
theorem keeps_run (hp : c.Plain) (requests : List Request) (hr : ∀ r ∈ requests, r.Admissible z)
    (hn : ∀ p, p <+: requests → (flatten (layout z (ledger p))).length < indexLimit)
    (ha : ∀ p, p <+: requests → p ≠ requests → Apart z (ledger p)) :
    Keeps c (flatten (layout z (ledger requests))) (run z c requests) := by
  induction requests using List.reverseRecOn with
  | nil => exact keeps_empty c
  | append_singleton requests r ih =>
    have hpre : requests <+: requests ++ [r] := List.prefix_append _ _
    have hr' : ∀ q ∈ requests, q.Admissible z := fun q hq => hr q (List.mem_append_left _ hq)
    have hne : ∀ p, p <+: requests → p ≠ requests ++ [r] := by
      rintro p h rfl
      have hlen := h.length_le
      rw [List.length_append, List.length_singleton] at hlen
      omega
    have hk := ih hr' (fun p h => hn p (h.trans hpre)) fun p h _ => ha p (h.trans hpre) (hne p h)
    rw [ledger_append, run_append]
    exact keeps_perform (sound_ledger hr' (hn _ hpre)) (ha _ hpre (by simp)) hk hp (hr r (by simp))

/-- A collection whose series are apart answers like a map. -/
theorem answersAs_of_apart (hs : Sound z l) (ha : Apart z l) (h : Keeps c (flatten (layout z l)) s)
    (hp : c.Plain) : AnswersAs z c s (l.lookup ·) := by
  refine ⟨fun key hk => result_get hs ha h hp hk, fun key hk => result_has hs ha h hp hk,
    fun key v hk => ?_, fun key hk => ?_, ?_⟩
  · obtain ⟨s', h1, -⟩ := result_set hs ha h hp hk v
    rw [h1]
  · obtain ⟨s', h1, -⟩ := result_delete hs ha h hp hk
    rw [h1]
  · have hkeys : ((layout z l).map Series.group).map (·.key) = l.map (·.1) := by
      rw [layout, List.map_map, List.map_map]
      rfl
    have hlisted := result_keys (z := z) h hp hs.legible
    rw [scan_flatten_of_isChain hs.numbered ha] at hlisted
    refine ⟨_, hlisted, nodup_eraseDups _, fun key => ?_⟩
    rw [List.mem_eraseDups, hkeys, List.lookup_isSome_iff]
    simp

/-- Where one series runs into the next, a key that is present is not listed. -/
theorem not_answersAs_of_not_apart (hs : Sound z l) (ha : ¬ Apart z l)
    (h : Keeps c (flatten (layout z l)) s) (hp : c.Plain) :
    ¬ AnswersAs z c s (l.lookup ·) := by
  intro hm
  obtain ⟨ks, hks, -, hmem⟩ := hm.keys
  rw [result_keys h hp hs.legible] at hks
  obtain ⟨gs, hscan, rfl⟩ := map_eq_ok hks
  have hd : (layout z l).map Series.key = l.map (·.1) := by
    rw [layout, List.map_map]
    rfl
  obtain ⟨e, he, hlost⟩ := exists_key_not_mem_keys hs.numbered (hd ▸ hs.nodup) ha
  obtain ⟨p, hp', rfl⟩ := List.mem_map.1 he
  refine hlost ?_
  have hin := (hmem (seriesOf z p).key).2 (List.lookup_isSome_iff.2 ⟨p, hp', by simp [seriesOf]⟩)
  rwa [List.mem_eraseDups, eq_group_of_scan hscan] at hin

theorem apart_iff (z : Compression) (l : List (String × Json)) :
    Apart z l ↔ l.IsChain fun a b =>
      ¬ (0 < (pack z a.1 a.2 0).length ∧ (pack z a.1 a.2 0).length % 10 = 0 ∧
        b.1 = a.1 ++ toString ((pack z a.1 a.2 0).length / 10)) := by
  rw [Apart, layout, List.isChain_map]
  simp only [pack_eq, length_number, Series.RunsInto, seriesOf]

/-- **Exactly when the store is a map**: along requests from a fresh appliance on, it answers with the
last values after each of them if and only if no key is ever followed, in the order in which they
were last set, by the key with a tenth of the number of its records behind it, that number being a
positive multiple of ten. -/
theorem answersAs_lastValue_iff (z : Compression) (c : Collection) (hp : c.Plain)
    (requests : List Request) (hr : ∀ r ∈ requests, r.Admissible z)
    (hn : ∀ p, p <+: requests → (flatten (layout z (ledger p))).length < indexLimit) :
    (∀ p, p <+: requests → AnswersAs z c (run z c p) (lastValue p)) ↔
      ∀ p, p <+: requests → (ledger p).IsChain fun a b =>
        ¬ (0 < (pack z a.1 a.2 0).length ∧ (pack z a.1 a.2 0).length % 10 = 0 ∧
          b.1 = a.1 ++ toString ((pack z a.1 a.2 0).length / 10)) := by
  have hs (p : List Request) (h : p <+: requests) : Sound z (ledger p) :=
    sound_ledger (fun r h' => hr r (h.subset h')) (hn p h)
  have hm (p : List Request) : ((ledger p).lookup ·) = lastValue p := funext (lookup_ledger p)
  have hk (p : List Request) (h : p <+: requests) (ha : ∀ q, q <+: p → q ≠ p → Apart z (ledger q)) :
      Keeps c (flatten (layout z (ledger p))) (run z c p) :=
    keeps_run hp p (fun r h' => hr r (h.subset h')) (fun q h' => hn q (h'.trans h)) ha
  constructor
  · intro hall
    -- the shortest sequence after which the series are not apart would be answered wrongly
    have hapart : ∀ n p, p.length = n → p <+: requests → Apart z (ledger p) := by
      intro n
      induction n using Nat.strongRecOn with
      | _ n ih =>
        rintro p rfl h
        have hbefore : ∀ q, q <+: p → q ≠ p → Apart z (ledger q) := fun q hq hne =>
          ih q.length (lt_of_le_of_ne hq.length_le fun hl => hne (hq.eq_of_length hl)) q rfl
            (hq.trans h)
        by_contra ha
        refine not_answersAs_of_not_apart (hs p h) ha (hk p h hbefore) hp ?_
        rw [hm]
        exact hall p h
    exact fun p h => (apart_iff z _).1 (hapart _ p rfl h)
  · intro hall p h
    have hapart (q : List Request) (hq : q <+: p) : Apart z (ledger q) :=
      (apart_iff z _).2 (hall q (hq.trans h))
    rw [← hm]
    exact answersAs_of_apart (hs p h) (hapart p (List.prefix_refl p))
      (hk p h fun q hq _ => hapart q hq) hp

/-- Two keys of which one begins with the other, the first one deleted and the store opened again. -/
theorem answersAs_delete_reopen :
    let requests : List Request := [.set "a" (.str "x"), .set "a1" .null, .delete "a", .reopen]
    let c : Collection := ⟨"declkit", "dataStore"⟩
    c.Plain ∧ (∀ r ∈ requests, r.Admissible .stored) ∧
      (∀ p, p <+: requests → (flatten (layout .stored (ledger p))).length < indexLimit) ∧
      ∀ p, p <+: requests → AnswersAs .stored c (run .stored c p) (lastValue p) := by
  intro requests c
  have hp : c.Plain := ⟨by decide +kernel, by decide +kernel, by decide +kernel⟩
  have hx : Storable .stored "a" (.str "x") :=
    ⟨by decide +kernel, by decide +kernel, by decide +kernel, by decide +kernel⟩
  have hy : Storable .stored "a1" .null :=
    ⟨by decide +kernel, by decide +kernel, by decide +kernel, by decide +kernel⟩
  have hr : ∀ r ∈ requests, r.Admissible .stored := by
    simp [requests, Request.Admissible, hx, hy, hx.validKey]
  have hx1 : (partsOf .stored (.str "x")).length = 1 := by decide +kernel
  have hy1 : (partsOf .stored .null).length = 1 := by decide +kernel
  have hl (p : List Request) (h : p <+: requests) :
      ledger p = [] ∨ ledger p = [("a", .str "x")] ∨ ledger p = [("a", .str "x"), ("a1", .null)] ∨
        ledger p = [("a1", .null)] := by
    rw [← List.mem_inits] at h
    simp only [requests, List.inits, List.map_cons, List.map_nil, List.mem_cons, List.not_mem_nil,
      or_false] at h
    rcases h with rfl | rfl | rfl | rfl | rfl <;> simp [ledger, Request.note]
  have hn : ∀ p, p <+: requests → (flatten (layout .stored (ledger p))).length < indexLimit := by
    intro p h
    have h2 : 2 < indexLimit := by decide
    rcases hl p h with h | h | h | h <;> simp [h, layout, seriesOf, flatten, hx1, hy1] <;> omega
  refine ⟨hp, hr, hn, (answersAs_lastValue_iff .stored c hp requests hr hn).2 fun p h => ?_⟩
  rcases hl p h with h | h | h | h <;> simp [h, pack_eq, hx1]

end ApplianceStore

end Stencil
