import Mathlib.Data.List.DropRight
import Mathlib.Data.List.ModifyLast
import Stencil.Proofs.Record.Gaps
import Stencil.Proofs.Record.Grouping
import Stencil.Proofs.Text.Words

/-!
# Groups of any records

What grouping does with records that nobody numbered. No record that goes on with a group or has an
index is lost, and none is added (`flatMap_records_group`). Every group counts up from its offset, but
its first record is only looked at from the end: where zeros stand before its index, the name is not
the key with the offset (`eq_nameAt_iff`). Unpacking asks for that name first and finds nothing, so a
group can be read exactly when its first name is not padded (`CountsUp.unpack_eq`).
-/

namespace Stencil

open Record RecordGroup

namespace Record

/-! ### Numbers spelled with zeros before them -/

theorem numberOf_concat (ds : List Char) (c : Char) :
    numberOf (ds ++ [c]) = numberOf ds * 10 + (c.toNat - '0'.toNat) := by
  rw [numberOf, List.foldl_append]
  rfl

/-- The digit of the value of a digit. -/
theorem digitChar_of_isDigit {c : Char} (h : c.isDigit = true) :
    c.toNat - '0'.toNat < 10 ∧ Nat.digitChar (c.toNat - '0'.toNat) = c := by
  obtain ⟨hle, hge⟩ : 48 ≤ c.toNat ∧ c.toNat ≤ 57 := by
    simpa [Char.isDigit, UInt32.le_iff_toNat_le] using h
  have hall : ∀ n < 10, Nat.digitChar n = Char.ofNat (n + 48) := by decide
  have hz : '0'.toNat = 48 := rfl
  have hlt : c.toNat - '0'.toNat < 10 := by omega
  refine ⟨hlt, ?_⟩
  rw [hall _ hlt, hz, Nat.sub_add_cancel hle, Char.ofNat_toNat]

/-- Digits that do not begin with a zero are those of their number. -/
theorem digits_numberOf {ds : List Char} (hne : ds ≠ []) (h : ∀ c ∈ ds, c.isDigit = true)
    (hzero : ds.head? ≠ some '0') : digits (numberOf ds) = ds := by
  induction ds using List.reverseRecOn with
  | nil => exact absurd rfl hne
  | append_singleton ds c ih =>
    obtain ⟨hlt, hc⟩ := digitChar_of_isDigit (h c (by simp))
    rw [numberOf_concat]
    rcases hds : ds with _ | ⟨d, rest⟩
    · have h0 : numberOf [] = 0 := rfl
      rw [h0, Nat.zero_mul, Nat.zero_add, digits, Nat.toDigits_of_lt_base hlt, hc]
      rfl
    · have hhead : ds.head? ≠ some '0' := by
        rw [hds] at hzero ⊢
        exact hzero
      have htail : digits (numberOf ds) = ds :=
        ih (by rw [hds]; simp) (fun a ha => h a (List.mem_append_left _ ha)) hhead
      -- the number of the digits before the last one is not zero
      have hpos : numberOf ds ≠ 0 := by
        intro h0
        rw [h0] at htail
        exact hhead (htail ▸ rfl)
      rw [← hds, digits, Nat.toDigits_of_base_le (by omega) (by omega),
        show (numberOf ds * 10 + (c.toNat - '0'.toNat)) / 10 = numberOf ds by omega,
        show (numberOf ds * 10 + (c.toNat - '0'.toNat)) % 10 = c.toNat - '0'.toNat by omega, hc]
      exact congrArg (· ++ [c]) htail

/-- Digits that do not end in a zero spell their number as it is written unless they begin with one. -/
theorem digits_numberOf_iff {ds : List Char} (hne : ds ≠ []) (h : ∀ c ∈ ds, c.isDigit = true)
    (hlast : ds.getLast? ≠ some '0') : ds = digits (numberOf ds) ↔ ds.head? ≠ some '0' := by
  constructor
  · intro hd
    have hpos : numberOf ds ≠ 0 := by
      intro h0
      rw [h0] at hd
      exact hlast (hd ▸ rfl)
    rw [hd]
    exact Text.head?_toDigits hpos
  · intro hzero
    exact (digits_numberOf hne h hzero).symm

/-! ### Names with an index -/

/-- The digits that a name ends in. -/
def suffix (name : String) : List Char := name.toList.rtakeWhile Char.isDigit

/-- A name ends in a zero, or in a number that is in range. -/
def Indexed (name : String) : Prop :=
  name.toList.getLast? = some '0' ∨
    suffix name ≠ [] ∧ Nat.ofDigitChars 10 (suffix name) 0 < 2 ^ 64

/-- A name ends in a number that is spelled with zeros before it. -/
def Padded (name : String) : Prop :=
  name.toList.getLast? ≠ some '0' ∧ (suffix name).head? = some '0'

instance (name : String) : Decidable (Indexed name) := by unfold Indexed; infer_instance

instance (name : String) : Decidable (Padded name) := by unfold Padded; infer_instance

theorem numberOf_eq (ds : List Char) : numberOf ds = Nat.ofDigitChars 10 ds 0 := by
  simp only [numberOf, Nat.ofDigitChars_eq_foldl, Nat.mul_comm]

/-- What stands before the digits, and the digits. -/
theorem splitName?_of_ne {name : String} (h : name.toList.getLast? ≠ some '0') :
    splitName? name =
      if suffix name ≠ [] ∧ numberOf (suffix name) < indexLimit then
        some (String.ofList (name.toList.rdropWhile Char.isDigit), numberOf (suffix name))
      else none := by
  unfold splitName?
  simp only [if_neg h, List.isEmpty_iff]
  change (if suffix name = [] then none else
    if numberOf (suffix name) < indexLimit then
      some (String.ofList (name.toList.rdropWhile Char.isDigit), numberOf (suffix name))
    else none) = _
  by_cases hnil : suffix name = []
  · rw [if_pos hnil, if_neg fun hc => hc.1 hnil]
  · rw [if_neg hnil]
    simp only [ne_eq, hnil, not_false_eq_true, true_and]

theorem splitName?_of_zero {name : String} (h : name.toList.getLast? = some '0') :
    splitName? name = some (String.ofList name.toList.dropLast, 0) := if_pos h

theorem isSome_splitName?_iff {name : String} : (splitName? name).isSome ↔ Indexed name := by
  by_cases h : name.toList.getLast? = some '0'
  · rw [splitName?_of_zero h]
    exact iff_of_true rfl (.inl h)
  · have hlimit : indexLimit = 2 ^ 64 := rfl
    rw [splitName?_of_ne h, numberOf_eq, hlimit, Indexed, or_iff_right h]
    split <;> simp_all

/-- A name is its key with its index unless zeros stand before the index. -/
theorem eq_nameAt_iff {name key : String} {offset : Nat} (h : splitName? name = some (key, offset)) :
    offset < indexLimit ∧ (name = nameAt key offset ↔ ¬ Padded name) := by
  by_cases hzero : name.toList.getLast? = some '0'
  · rw [splitName?_of_zero hzero] at h
    obtain ⟨rfl, rfl⟩ := h
    refine ⟨by decide, iff_of_true ?_ fun hp => hp.1 hzero⟩
    obtain ⟨front, hfront⟩ := List.getLast?_eq_some_iff.1 hzero
    rw [← String.toList_inj, toList_nameAt, hfront, List.dropLast_concat, String.toList_ofList]
    rfl
  · rw [splitName?_of_ne hzero] at h
    split at h
    case isFalse => cases h
    rename_i hs
    obtain ⟨rfl, rfl⟩ := h
    have hdigits : ∀ c ∈ suffix name, c.isDigit = true := fun c hc => List.mem_rtakeWhile_imp hc
    have hparts : name.toList.rdropWhile Char.isDigit ++ suffix name = name.toList :=
      List.rdropWhile_append_rtakeWhile
    refine ⟨hs.2, ?_⟩
    have hname : name = nameAt (String.ofList (name.toList.rdropWhile Char.isDigit))
        (numberOf (suffix name)) ↔ suffix name = digits (numberOf (suffix name)) := by
      rw [← String.toList_inj, toList_nameAt, String.toList_ofList]
      conv_lhs => lhs; rw [← hparts]
      exact List.append_right_inj _
    have hlast : (suffix name).getLast? ≠ some '0' := by
      rw [← hparts, List.getLast?_append_of_ne_nil _ hs.1] at hzero
      exact hzero
    rw [hname, digits_numberOf_iff hs.1 hdigits hlast, Padded, not_and]
    exact ⟨fun hhead _ => hhead, fun hhead => hhead hzero⟩

end Record

namespace RecordGroup

variable {groups : List RecordGroup} {g : RecordGroup} {r : Record} {rs : List Record}

/-! ### One record more -/

/-- The record goes on with the last one of the groups. -/
def Continues (groups : List RecordGroup) (r : Record) : Prop := ∃ g ∈ groups.getLast?, r.name = g.nextName

instance (groups : List RecordGroup) (r : Record) : Decidable (Continues groups r) :=
  match h : groups.getLast? with
  | none => .isFalse (by simp [Continues, h])
  | some g => decidable_of_iff (r.name = g.nextName) (by simp [Continues, h])

/-- The group with one record more. -/
def push (g : RecordGroup) (r : Record) : RecordGroup := { g with records := g.records ++ [r] }

/-- The group that a record opens, if its name has an index. -/
def opened (r : Record) : List RecordGroup :=
  (splitName? r.name).toList.map fun p => ⟨p.1, p.2, [r]⟩

/-- The groups with one record more. -/
def add (groups : List RecordGroup) (r : Record) : List RecordGroup :=
  if Continues groups r then groups.modifyLast (·.push r) else groups ++ opened r

theorem continues_concat : Continues (groups ++ [g]) r ↔ r.name = g.nextName := by
  simp [Continues]

theorem add_of_continues (h : r.name = g.nextName) : add (groups ++ [g]) r = groups ++ [g.push r] := by
  rw [add, if_pos (continues_concat.2 h), List.modifyLast_concat]

theorem add_of_not_continues (h : ¬ Continues groups r) : add groups r = groups ++ opened r := if_neg h

/-- A record that goes on with the groups goes on with a last one. -/
theorem Continues.exists_concat (h : Continues groups r) :
    ∃ front g, groups = front ++ [g] ∧ r.name = g.nextName := by
  obtain ⟨g, hg, hname⟩ := h
  obtain ⟨front, hfront⟩ := List.getLast?_eq_some_iff.1 hg
  exact ⟨front, g, hfront, hname⟩

/-- Scanning on adds one record after the other to the groups that are there. -/
theorem append_groupFrom (front : List RecordGroup) (current : Option RecordGroup)
    (hfront : current = none → front = []) (rs : List Record) :
    front ++ groupFrom current rs = rs.foldl add (front ++ current.toList) := by
  induction rs generalizing front current with
  | nil => rfl
  | cons r rest ih =>
    rw [List.foldl_cons]
    by_cases hc : ∃ g ∈ current, r.name = g.nextName
    · obtain ⟨g, rfl, hname⟩ := hc
      rw [groupFrom_continue hname, Option.toList_some, add_of_continues hname]
      exact ih front (some (g.push r)) (by simp)
    · have hnot : ¬ Continues (front ++ current.toList) r := by
        cases current with
        | none => simp [hfront rfl, Continues]
        | some g => simpa [continues_concat] using hc
      rw [add_of_not_continues hnot]
      cases hs : splitName? r.name with
      | none =>
        rw [opened, hs, Option.toList_none, List.map_nil, List.append_nil, ← ih front current hfront]
        congr 1
        cases current with
        | none => simp only [groupFrom, hs]
        | some g => simp only [groupFrom, hs, if_neg fun h => hc ⟨g, rfl, h⟩]
      | some p =>
        have hopen := groupFrom_open (fun g hg h => hc ⟨g, hg, h⟩) hs rest
        rw [hopen, ← List.append_assoc, ih (front ++ current.toList) (some ⟨p.1, p.2, [r]⟩) (by simp),
          opened, hs]
        rfl

theorem group_eq_foldl (rs : List Record) : group rs = rs.foldl add [] :=
  append_groupFrom [] none (fun _ => rfl) rs

theorem group_concat (before : List Record) (r : Record) : group (before ++ [r]) = add (group before) r := by
  rw [group_eq_foldl, List.foldl_concat, ← group_eq_foldl]

/-! ### Where the program ends -/

theorem getLast?_add (groups : List RecordGroup) (r : Record) :
    (add groups r).getLast? = advance groups.getLast? r := by
  by_cases hc : Continues groups r
  · obtain ⟨front, g, rfl, hname⟩ := hc.exists_concat
    rw [add_of_continues hname, List.getLast?_concat, List.getLast?_concat, advance_continue hname]
    rfl
  · rw [add_of_not_continues hc, opened]
    cases hlast : groups.getLast? with
    | none => cases hs : splitName? r.name <;> simp_all [advance]
    | some g =>
      have hname : r.name ≠ g.nextName := fun h => hc ⟨g, hlast, h⟩
      cases hs : splitName? r.name <;> simp_all [advance]

/-- The group that may go on behind some records. -/
theorem foldl_advance (rs : List Record) : rs.foldl advance none = (group rs).getLast? := by
  induction rs using List.reverseRecOn with
  | nil => rfl
  | append_singleton before r ih => rw [List.foldl_concat, ih, group_concat, getLast?_add]

theorem overflows_iff (current : Option RecordGroup) (rs : List Record) :
    overflows current rs = true ↔ ∃ before r after, rs = before ++ r :: after ∧
      ∃ g ∈ before.foldl advance current, g.Full := by
  induction rs generalizing current with
  | nil => simp [overflows]
  | cons r rest ih =>
    rw [overflows, Bool.or_eq_true, ih]
    constructor
    · rintro (hfull | ⟨before, s, after, rfl, hg⟩)
      · obtain ⟨g, rfl, hg⟩ := (Option.any_eq_true _ _).1 hfull
        exact ⟨[], r, rest, rfl, g, rfl, of_decide_eq_true hg⟩
      · exact ⟨r :: before, s, after, rfl, hg⟩
    · rintro ⟨before, s, after, heq, g, hg, hfull⟩
      cases before with
      | nil =>
        obtain rfl : current = some g := hg
        exact .inl (by simpa using hfull)
      | cons b before =>
        obtain ⟨rfl, rfl⟩ := List.cons.inj heq
        exact .inr ⟨before, s, after, rfl, g, hg, hfull⟩

/-- **The program ends** where a record comes when the last group is full. -/
theorem scan_eq_error_iff (rs : List Record) : scan rs = .error .overflow ↔
    ∃ before r after, rs = before ++ r :: after ∧ ∃ g ∈ (group before).getLast?, g.Full := by
  have hscan : scan rs = .error .overflow ↔ overflows none rs = true := by
    rw [scan]
    split <;> simp_all
  rw [hscan, overflows_iff]
  simp only [foldl_advance]

/-- Where the program goes on, no number is too large. -/
theorem le_indexLimit_of_scan (h : scan rs ≠ .error .overflow) :
    ∀ g ∈ group rs, g.offset + g.records.length ≤ indexLimit := by
  rw [Ne, scan_eq_error_iff] at h
  induction rs using List.reverseRecOn with
  | nil => simp [group, groupFrom]
  | append_singleton before r ih =>
    have hbefore : ∀ g ∈ group before, g.offset + g.records.length ≤ indexLimit := by
      refine ih ?_
      rintro ⟨front, s, after, heq, hg⟩
      exact h ⟨front, s, after ++ [r], by rw [heq]; simp, hg⟩
    rw [group_concat]
    intro g hg
    by_cases hc : Continues (group before) r
    · obtain ⟨front, last, hgroup, hname⟩ := hc.exists_concat
      have hroom : ¬ last.Full := fun hfull => h ⟨before, r, [], rfl, last, by simp [hgroup], hfull⟩
      rw [hgroup, add_of_continues hname, List.mem_append, List.mem_singleton] at hg
      rcases hg with hfront | rfl
      · exact hbefore g (by simp [hgroup, hfront])
      · simp only [Full] at hroom
        simp only [push, List.length_append, List.length_singleton]
        omega
    · rw [add_of_not_continues hc, List.mem_append] at hg
      rcases hg with hold | hnew
      · exact hbefore g hold
      · obtain ⟨p, hp, rfl⟩ := List.mem_map.1 hnew
        have hlt := (eq_nameAt_iff (Option.mem_toList.1 hp)).1
        simp only [List.length_singleton]
        omega

/-! ### What is kept -/

/-- The records that go on with the groups before them or have an index, in order. -/
def kept (rs : List Record) : List Record :=
  (rs.zipIdx.filter fun p => Continues (group (rs.take p.2)) p.1 ∨ Indexed p.1.name).map Prod.fst

theorem kept_concat (before : List Record) (r : Record) :
    kept (before ++ [r]) =
      kept before ++ if Continues (group before) r ∨ Indexed r.name then [r] else [] := by
  have hbefore : ∀ p ∈ before.zipIdx, (before ++ [r]).take p.2 = before.take p.2 := by
    intro p hp
    exact List.take_append_of_le_length (Nat.le_of_lt (List.snd_lt_of_mem_zipIdx hp))
  rw [kept, kept, List.zipIdx_append, List.filter_append, List.map_append]
  congr 1
  · congr 1
    refine List.filter_congr fun p hp => ?_
    rw [hbefore p hp]
  · simp only [List.zipIdx_singleton, List.filter_singleton]
    rw [Nat.zero_add, List.take_left]
    split <;> simp_all

theorem flatMap_records_opened (r : Record) :
    (opened r).flatMap (·.records) = if Indexed r.name then [r] else [] := by
  by_cases hi : Indexed r.name
  · obtain ⟨p, hp⟩ := Option.isSome_iff_exists.1 (isSome_splitName?_iff.2 hi)
    rw [opened, hp, if_pos hi]
    rfl
  · have hnone := Option.not_isSome_iff_eq_none.1 fun h => hi (isSome_splitName?_iff.1 h)
    rw [opened, hnone, if_neg hi]
    rfl

theorem flatMap_records_add (groups : List RecordGroup) (r : Record) :
    (add groups r).flatMap (·.records) =
      groups.flatMap (·.records) ++ if Continues groups r ∨ Indexed r.name then [r] else [] := by
  by_cases hc : Continues groups r
  · obtain ⟨front, g, rfl, hname⟩ := hc.exists_concat
    rw [add_of_continues hname, if_pos (.inl hc)]
    simp [push]
  · rw [add_of_not_continues hc, List.flatMap_append, flatMap_records_opened]
    simp only [hc, false_or]

theorem flatMap_records_group (rs : List Record) : (group rs).flatMap (·.records) = kept rs := by
  induction rs using List.reverseRecOn with
  | nil => rfl
  | append_singleton before r ih => rw [group_concat, flatMap_records_add, kept_concat, ih]

/-! ### Counting up -/

/-- The first name gives the key and the offset, and the others count up from there. -/
structure CountsUp (g : RecordGroup) (first : Record) (rest : List Record) : Prop where
  records_eq : g.records = first :: rest
  splitName?_eq : splitName? first.name = some (g.key, g.offset)
  name_eq : ∀ (j : Nat) (h : j < rest.length), rest[j].name = nameAt g.key (g.offset + (j + 1))

variable {first : Record} {rest : List Record}

theorem CountsUp.push (hg : g.CountsUp first rest) (h : r.name = g.nextName) :
    (g.push r).CountsUp first (rest ++ [r]) where
  records_eq := by
    rw [RecordGroup.push, hg.records_eq]
    rfl
  splitName?_eq := hg.splitName?_eq
  name_eq j hj := by
    rcases Nat.lt_or_ge j rest.length with hlt | hge
    · rw [List.getElem_append_left hlt]
      exact hg.name_eq j hlt
    · have hlast : j = rest.length := by
        rw [List.length_append, List.length_singleton] at hj
        omega
      subst hlast
      rw [List.getElem_concat_length rfl, h, nextName, hg.records_eq]
      rfl

theorem exists_countsUp_of_mem_opened (h : g ∈ opened r) : ∃ first rest, g.CountsUp first rest := by
  obtain ⟨p, hp, rfl⟩ := List.mem_map.1 h
  exact ⟨r, [], rfl, Option.mem_toList.1 hp, fun _ hj => absurd hj (Nat.not_lt_zero _)⟩

/-- One record more keeps all groups counting up. -/
theorem exists_countsUp_add (h : ∀ g ∈ groups, ∃ first rest, g.CountsUp first rest) (r : Record) :
    ∀ g ∈ add groups r, ∃ first rest, g.CountsUp first rest := by
  intro g hg
  by_cases hc : Continues groups r
  · obtain ⟨front, last, rfl, hname⟩ := hc.exists_concat
    rw [add_of_continues hname, List.mem_append, List.mem_singleton] at hg
    rcases hg with hfront | rfl
    · exact h g (List.mem_append_left _ hfront)
    · obtain ⟨first, rest, hlast⟩ := h last (by simp)
      exact ⟨first, rest ++ [r], hlast.push hname⟩
  · rw [add_of_not_continues hc, List.mem_append] at hg
    exact hg.elim (h g) exists_countsUp_of_mem_opened

theorem exists_countsUp (rs : List Record) : ∀ g ∈ group rs, ∃ first rest, g.CountsUp first rest := by
  induction rs using List.reverseRecOn with
  | nil => simp [group, groupFrom]
  | append_singleton before r ih =>
    rw [group_concat]
    exact exists_countsUp_add ih r

section Groups

variable (hg : g.CountsUp first rest)
include hg

theorem CountsUp.length_eq : g.records.length = rest.length + 1 := by
  rw [hg.records_eq, List.length_cons]

/-- All names are right exactly when the first one is. -/
theorem CountsUp.names_iff :
    (∀ (j : Nat) (h : j < g.records.length), g.records[j].name = g.key ++ toString (g.offset + j)) ↔
      ¬ Padded first.name := by
  simp only [← nameAt_eq, hg.records_eq, ← (eq_nameAt_iff hg.splitName?_eq).2]
  constructor
  · exact fun h => h 0 (Nat.zero_lt_succ _)
  · intro hname j hj
    cases j with
    | zero => exact hname
    | succ j => rw [List.getElem_cons_succ, hg.name_eq j (Nat.lt_of_succ_lt_succ hj)]

/-- The records of a group are numbered if the first name is not padded. -/
theorem CountsUp.records_eq_number (h : ¬ Padded first.name) :
    g.records = number g.key g.offset 0 (g.records.map (·.data)) := by
  rw [hg.records_eq, List.map_cons, number, Nat.add_zero, ← (eq_nameAt_iff hg.splitName?_eq).2.2 h]
  congr 1
  refine List.ext_getElem (by simp) fun j hj hj' => ?_
  rw [getElem_number _ _ _ _ _ hj' (by simpa using hj), Nat.add_comm 1 j, ← hg.name_eq j hj,
    List.getElem_map]

/-- What is collected from a group: all of its data, or nothing, as the first name that is asked for is
missing if the first name is padded. -/
theorem CountsUp.collect_eq : collect g.records g.key g.offset g.records.length 0 =
    if Padded first.name then [] else g.records.map (·.data) := by
  split
  case isTrue h =>
    have hnone : dataOf g.records (nameAt g.key (g.offset + 0)) = none := by
      apply dataOf_eq_none
      intro s hs hname
      rw [hg.records_eq] at hs
      rcases List.mem_cons.1 hs with rfl | hs
      · exact (eq_nameAt_iff hg.splitName?_eq).2.1 hname h
      · obtain ⟨j, hj, rfl⟩ := List.getElem_of_mem hs
        rw [hg.name_eq j hj] at hname
        have hindex := nameAt_injective g.key hname
        omega
    rw [hg.length_eq, collect, hnone]
  case isFalse h =>
    have hp : g.records.Perm (number g.key g.offset 0 (g.records.map (·.data)) ++ []) := by
      rw [List.append_nil, ← hg.records_eq_number h]
    exact collect_of_perm hp (by simp)

/-- A group is read as all of its data, or not at all. -/
theorem CountsUp.unpack_eq (z : Compression) :
    unpack z g.records g.key g.offset =
      if Padded first.name then .error (.corruptValue g.key "no records found")
      else (decode z (String.join (g.records.map (·.data)))).mapError (.corruptValue g.key) := by
  by_cases h : Padded first.name
  · rw [unpack, hg.collect_eq, if_pos h, if_pos h]
  · rw [unpack, hg.collect_eq, if_neg h, if_neg h, hg.records_eq, List.map_cons]

/-- Loading a group ends the program if the last number is among those that are read. -/
theorem CountsUp.load_eq (z : Compression) (hlimit : g.offset + g.records.length ≤ indexLimit) :
    load z g.records g.key g.offset =
      if Padded first.name then .error (.problem (.corruptValue g.key "no records found"))
      else if g.offset + g.records.length = indexLimit then .error .overflow
      else (decode z (String.join (g.records.map (·.data)))).mapError
        fun e => .problem (.corruptValue g.key e) := by
  have hlen := hg.length_eq
  by_cases h : Padded first.name
  · rw [load_of_lt (by rw [hg.collect_eq, if_pos h, List.length_nil]; omega), hg.unpack_eq, if_pos h,
      if_pos h]
    rfl
  · have hcollect : (collect g.records g.key g.offset g.records.length 0).length = g.records.length := by
      rw [hg.collect_eq, if_neg h, List.length_map]
    rw [if_neg h]
    split
    case isTrue hfull => exact if_pos (by rw [hcollect, hfull])
    case isFalse hfree =>
      rw [load_of_lt (by rw [hcollect]; omega), hg.unpack_eq, if_neg h]
      cases decode z (String.join (g.records.map (·.data))) <;> rfl

end Groups

/-- **What grouping makes of any records**. The program ends if and only if a record comes behind a group
that goes up to the last number. If it does not end, the groups hold exactly the records that go on with
a group or have an index, in order; no number is past the last one; the names of a group count up from
its offset exactly when no zeros stand before the index of its first record; and then reading the group
collects exactly its data in order, and otherwise it finds nothing. Reading counts on behind the last
record, so it ends the program if that one has the last number. -/
theorem consistent_unless_padded (rs : List Record) :
    (scan rs = .error .overflow ↔ ∃ before r after, rs = before ++ r :: after ∧
      ∃ g ∈ (group before).getLast?, indexLimit ≤ g.offset + g.records.length) ∧
    ∀ groups, scan rs = .ok groups → groups.flatMap (·.records) = kept rs ∧
      ∀ g ∈ groups, g.offset + g.records.length ≤ indexLimit ∧ ∃ first rest, g.records = first :: rest ∧
        ((∀ (j : Nat) (h : j < g.records.length),
            g.records[j].name = g.key ++ toString (g.offset + j)) ↔ ¬ Padded first.name) ∧
        collect g.records g.key g.offset g.records.length 0 =
          (if Padded first.name then [] else g.records.map (·.data)) ∧
        ∀ z : Compression, load z g.records g.key g.offset =
          if Padded first.name then .error (.problem (.corruptValue g.key "no records found"))
          else if g.offset + g.records.length = indexLimit then .error .overflow
          else (decode z (String.join (g.records.map (·.data)))).mapError
            fun e => .problem (.corruptValue g.key e) := by
  refine ⟨scan_eq_error_iff rs, fun groups hscan => ?_⟩
  obtain rfl := eq_group_of_scan hscan
  have hlimit := @le_indexLimit_of_scan rs (by rw [hscan]; nofun)
  refine ⟨flatMap_records_group rs, fun g hg => ⟨hlimit g hg, ?_⟩⟩
  obtain ⟨first, rest, hcounts⟩ := exists_countsUp rs g hg
  exact ⟨first, rest, hcounts.records_eq, hcounts.names_iff, hcounts.collect_eq,
    fun z => hcounts.load_eq z (hlimit g hg)⟩

/-- Zeros before the first index, and a name without an index. -/
theorem consistent_unless_padded_zeros :
    let rs : List Record := [⟨"a007", "x"⟩, ⟨"a8", "y"⟩, ⟨"b", ""⟩]
    let padded : RecordGroup := ⟨"a", 7, [⟨"a007", "x"⟩, ⟨"a8", "y"⟩]⟩
    scan rs = .ok [padded] ∧ kept rs = padded.records ∧
      (¬ ∀ (j : Nat) (h : j < padded.records.length), padded.records[j].name = "a" ++ toString (7 + j)) ∧
      load zlib padded.records "a" 7 = .error (.problem (.corruptValue "a" "no records found")) := by
  intro rs padded
  have hscan : scan rs = .ok [padded] := by decide +kernel
  obtain ⟨hkept, hall⟩ := (consistent_unless_padded rs).2 [padded] hscan
  obtain ⟨-, first, rest, hfirst, hnames, -, hload⟩ := hall padded (by simp)
  obtain ⟨rfl, rfl⟩ := List.cons.inj hfirst
  have hpadded : Padded "a007" := by decide +kernel
  refine ⟨hscan, hkept ▸ List.append_nil _, fun h => hnames.1 h hpadded, ?_⟩
  rw [hload zlib]
  exact if_pos hpadded

end RecordGroup

end Stencil
