import Mathlib.Data.Finset.Max
import Mathlib.Data.List.Basic
import Stencil.Proofs.Record.Names

/-!
# Which keys grouping recovers

A list of records holds one series after another: the records of a key, numbered from zero.
Grouping sees names only. It goes wrong where a series runs into the next one: the key with the
number that would come next is the name of the next series' first record. That takes a series of a
full ten of records, and a next key that is this key with the tens behind it (`Series.RunsInto`).
Grouping gives the series back exactly when none runs into its neighbour
(`group_records_eq_iff`), and when the keys differ, some key is lost otherwise
(`exists_key_not_mem_keys`).
-/

namespace Stencil

open Record RecordGroup

/-- A key with the stretches of its value. -/
structure Series where
  key : String
  data : List String
deriving DecidableEq, Repr

namespace Series

/-- The records of a series, numbered from zero. -/
def records (e : Series) : List Record := e.data.mapIdx fun i d => ⟨e.key ++ toString i, d⟩

/-- The group that the records of a series are. -/
def group (e : Series) : RecordGroup := ⟨e.key, 0, e.records⟩

/-- The name that would go on with a series is that of the next series' first record. -/
def RunsInto (a b : Series) : Prop :=
  0 < a.data.length ∧ a.data.length % 10 = 0 ∧ b.key = a.key ++ toString (a.data.length / 10)

instance (a b : Series) : Decidable (a.RunsInto b) := by unfold RunsInto; infer_instance

/-- A series has a record, and its records can be numbered. -/
def Numbered (e : Series) : Prop := 0 < e.data.length ∧ e.data.length < indexLimit

@[simp] theorem length_records (e : Series) : e.records.length = e.data.length := List.length_mapIdx

/-- Numbering counts up. -/
theorem number_eq_mapIdx (key : String) : ∀ (ds : List String) (offset i : Nat),
    number key offset i ds = ds.mapIdx fun j d => ⟨nameAt key (offset + i + j), d⟩
  | [], _, _ => rfl
  | d :: ds, offset, i => by
    rw [number, List.mapIdx_cons, number_eq_mapIdx key ds offset (i + 1)]
    simp only [Nat.add_zero, Nat.add_assoc, Nat.add_comm 1]

theorem records_eq_number (e : Series) : e.records = number e.key 0 0 e.data := by
  rw [number_eq_mapIdx e.key e.data 0 0]
  simp only [records, nameAt_eq, Nat.zero_add]

theorem nextName_group (e : Series) : e.group.nextName = nameAt e.key e.data.length := by
  rw [nextName, group, length_records, Nat.zero_add]

theorem Numbered.not_full {e : Series} (h : e.Numbered) : ¬ e.group.Full := by
  have hlt := h.2
  simp only [RecordGroup.Full, group, length_records]
  omega

/-- A series runs into another one if the group goes on with the other's first name. -/
theorem nextName_group_eq_iff {a : Series} (h : a.Numbered) (b : Series) :
    a.group.nextName = nameAt b.key 0 ↔ a.RunsInto b := by
  have hpos := h.1
  rw [nextName_group, nameAt_eq_zero_iff]
  constructor
  · rintro ⟨h0, hk⟩
    rw [tens_of_le (by omega)] at hk
    exact ⟨hpos, h0, hk.trans (nameAt_eq _ _)⟩
  · rintro ⟨-, h0, hk⟩
    rw [tens_of_le (by omega)]
    exact ⟨h0, hk.trans (nameAt_eq _ _).symm⟩

end Series

namespace RecordGroup

/-! ### Steps of the scan -/

theorem groupFrom_continue {g : RecordGroup} {r : Record} (h : r.name = g.nextName)
    (rest : List Record) :
    groupFrom (some g) (r :: rest) = groupFrom (some { g with records := g.records ++ [r] }) rest := by
  rw [groupFrom]
  exact if_pos h

theorem groupFrom_open {current : Option RecordGroup} {r : Record} {key : String} {offset : Nat}
    (h : ∀ g ∈ current, r.name ≠ g.nextName) (hs : splitName? r.name = some (key, offset))
    (rest : List Record) :
    groupFrom current (r :: rest) = current.toList ++ groupFrom (some ⟨key, offset, [r]⟩) rest := by
  cases current with
  | none => simp only [groupFrom, hs, Option.toList_none, List.nil_append]
  | some g =>
    simp only [groupFrom, hs, if_neg (h g rfl), Option.toList_some, List.singleton_append]

/-- The current group only grows. -/
theorem exists_groupFrom_some (g : RecordGroup) (rs : List Record) :
    ∃ more tail, groupFrom (some g) rs = { g with records := g.records ++ more } :: tail := by
  induction rs generalizing g with
  | nil => exact ⟨[], [], by simp [groupFrom]⟩
  | cons r rest ih =>
    by_cases h : r.name = g.nextName
    · obtain ⟨more, tail, hg⟩ := ih { g with records := g.records ++ [r] }
      exact ⟨r :: more, tail, by rw [groupFrom_continue h, hg, List.append_assoc]; rfl⟩
    · cases hs : splitName? r.name with
      | none =>
        obtain ⟨more, tail, hg⟩ := ih g
        exact ⟨more, tail, by rw [groupFrom, if_neg h]; simp only [hs, hg]⟩
      | some p => exact ⟨[], _, by rw [groupFrom, if_neg h]; simp only [hs, List.append_nil]; rfl⟩

/-- A group takes in the numbered records that go on with it. -/
theorem groupFrom_number (key : String) (ds : List String) (rs rest : List Record) :
    groupFrom (some ⟨key, 0, rs⟩) (number key 0 rs.length ds ++ rest) =
      groupFrom (some ⟨key, 0, rs ++ number key 0 rs.length ds⟩) rest := by
  induction ds generalizing rs with
  | nil => simp [number]
  | cons d ds ih =>
    have hs := ih (rs ++ [⟨nameAt key (0 + rs.length), d⟩])
    rw [List.length_append, List.length_singleton] at hs
    rw [number, List.cons_append, groupFrom_continue rfl, hs, List.append_assoc]
    rfl

/-- The first record of a series opens a group unless its name goes on with the current one. -/
theorem groupFrom_records {current : Option RecordGroup} {e : Series} (he : e.Numbered)
    (h : ∀ g ∈ current, g.nextName ≠ nameAt e.key 0) (rest : List Record) :
    groupFrom current (e.records ++ rest) = current.toList ++ groupFrom (some e.group) rest := by
  obtain ⟨d, ds, hd⟩ := List.exists_cons_of_length_pos he.1
  have hn := groupFrom_number e.key ds [⟨nameAt e.key 0, d⟩] rest
  rw [Series.group, Series.records_eq_number, hd, number, List.cons_append,
    groupFrom_open (r := ⟨nameAt e.key 0, d⟩) (fun g hg => (h g hg).symm)
      (splitName?_nameAt_zero e.key)]
  exact congrArg _ hn

/-! ### Recovering all series -/

/-- The records of series, one after another. -/
def flatten (all : List Series) : List Record := all.flatMap Series.records

@[simp] theorem flatten_cons (e : Series) (all : List Series) :
    flatten (e :: all) = e.records ++ flatten all := rfl

/-- Where a series runs into the next one, its group takes in a record too many. -/
theorem groupFrom_ne_of_runsInto {a b : Series} (ha : a.Numbered) (hb : b.Numbered)
    (h : a.RunsInto b) (rest : List Record) (tail : List RecordGroup) :
    groupFrom (some a.group) (b.records ++ rest) ≠ a.group :: tail := by
  obtain ⟨d, ds, hd⟩ := List.exists_cons_of_length_pos hb.1
  have hn : nameAt b.key (0) = a.group.nextName :=
    ((Series.nextName_group_eq_iff ha b).2 h).symm
  rw [Series.records_eq_number, hd, number, List.cons_append, groupFrom_continue hn]
  obtain ⟨more, tail', hg⟩ := exists_groupFrom_some
    { a.group with records := a.group.records ++ [⟨nameAt b.key (0), d⟩] }
    (number b.key 0 1 ds ++ rest)
  rw [hg]
  intro heq
  have hlen := congrArg (fun g => g.records.length) (List.cons.inj heq).1
  simp at hlen

theorem groupFrom_flatten_iff {a : Series} (ha : a.Numbered) {all : List Series}
    (h : ∀ e ∈ all, e.Numbered) :
    groupFrom (some a.group) (flatten all) = a.group :: all.map Series.group ↔
      (a :: all).IsChain fun a b => ¬ a.RunsInto b := by
  induction all generalizing a with
  | nil => simp [flatten, groupFrom]
  | cons b all ih =>
    have hb := h b List.mem_cons_self
    have htail : ∀ e ∈ all, e.Numbered := fun e he => h e (List.mem_cons_of_mem _ he)
    rw [List.isChain_cons_cons, flatten_cons, List.map_cons, ← ih hb htail]
    by_cases hr : a.RunsInto b
    · exact iff_of_false (groupFrom_ne_of_runsInto ha hb hr _ _) fun hc => hc.1 hr
    · have hn : ∀ g ∈ some a.group, g.nextName ≠ nameAt b.key 0 := by
        rintro g ⟨rfl⟩
        exact fun he => hr ((Series.nextName_group_eq_iff ha b).1 he)
      rw [groupFrom_records hb hn]
      simp [hr]

theorem groupFrom_none_flatten {a : Series} (ha : a.Numbered) (all : List Series) :
    groupFrom none (flatten (a :: all)) = groupFrom (some a.group) (flatten all) := by
  rw [flatten_cons, groupFrom_records ha (by simp), Option.toList_none, List.nil_append]

theorem group_flatten_of_isChain {all : List Series} (h : ∀ e ∈ all, e.Numbered)
    (hc : all.IsChain fun a b => ¬ a.RunsInto b) :
    RecordGroup.group (flatten all) = all.map Series.group := by
  cases all with
  | nil => rfl
  | cons a all =>
    have ha := h a List.mem_cons_self
    rw [RecordGroup.group, groupFrom_none_flatten ha,
      (groupFrom_flatten_iff ha fun e he => h e (List.mem_cons_of_mem _ he)).2 hc]
    rfl

/-! ### Not past the last number -/

theorem eq_group_of_scan {rs : List Record} {groups : List RecordGroup} (h : scan rs = .ok groups) :
    groups = group rs := by
  rw [scan] at h
  split at h
  · cases h
  · exact (Except.ok.inj h).symm

theorem overflows_cons {current : Option RecordGroup} (h : ∀ g ∈ current, ¬ g.Full) (r : Record)
    (rest : List Record) : overflows current (r :: rest) = overflows (advance current r) rest := by
  have hany : current.any (decide ·.Full) = false := by
    cases current with
    | none => rfl
    | some g => simpa using h g rfl
  rw [overflows, hany, Bool.false_or]

theorem advance_continue {g : RecordGroup} {r : Record} (h : r.name = g.nextName) :
    advance (some g) r = some { g with records := g.records ++ [r] } := if_pos h

/-- A group that is not full with all records that go on with it was not full before. -/
theorem overflows_number (key : String) (ds : List String) (rs rest : List Record)
    (h : rs.length + ds.length ≤ indexLimit) :
    overflows (some ⟨key, 0, rs⟩) (number key 0 rs.length ds ++ rest) =
      overflows (some ⟨key, 0, rs ++ number key 0 rs.length ds⟩) rest := by
  induction ds generalizing rs with
  | nil => simp [number]
  | cons d ds ih =>
    rw [List.length_cons] at h
    have hs := ih (rs ++ [⟨nameAt key (0 + rs.length), d⟩]) (by simp; omega)
    rw [List.length_append, List.length_singleton] at hs
    have hfree : ∀ g ∈ some (RecordGroup.mk key 0 rs), ¬ g.Full := by
      rintro g ⟨rfl⟩
      simp only [Full]
      omega
    rw [number, List.cons_append, overflows_cons hfree, advance_continue rfl, hs, List.append_assoc]
    rfl

theorem overflows_records {current : Option RecordGroup} {e : Series} (he : e.Numbered)
    (hfree : ∀ g ∈ current, ¬ g.Full) (h : ∀ g ∈ current, g.nextName ≠ nameAt e.key 0)
    (rest : List Record) : overflows current (e.records ++ rest) = overflows (some e.group) rest := by
  obtain ⟨d, ds, hd⟩ := List.exists_cons_of_length_pos he.1
  have hlen : 1 + ds.length ≤ indexLimit := by
    have hlt := he.2
    rw [hd, List.length_cons] at hlt
    omega
  have hopened : advance current ⟨nameAt e.key 0, d⟩ = some ⟨e.key, 0, [⟨nameAt e.key 0, d⟩]⟩ := by
    cases current with
    | none => simp [advance, splitName?_nameAt_zero]
    | some g => simp [advance, splitName?_nameAt_zero, (h g rfl).symm]
  rw [Series.group, Series.records_eq_number, hd, number, List.cons_append, overflows_cons hfree,
    Nat.zero_add, hopened]
  exact overflows_number e.key ds [⟨nameAt e.key 0, d⟩] rest hlen

theorem overflows_flatten {a : Series} (ha : a.Numbered) {all : List Series}
    (h : ∀ e ∈ all, e.Numbered) (hc : (a :: all).IsChain fun a b => ¬ a.RunsInto b) :
    overflows (some a.group) (flatten all) = false := by
  induction all generalizing a with
  | nil => rfl
  | cons b all ih =>
    obtain ⟨hab, hc⟩ := List.isChain_cons_cons.1 hc
    have hb := h b List.mem_cons_self
    have hfree : ∀ g ∈ some a.group, ¬ g.Full := by
      rintro g ⟨rfl⟩
      exact ha.not_full
    have hn : ∀ g ∈ some a.group, g.nextName ≠ nameAt b.key 0 := by
      rintro g ⟨rfl⟩
      exact fun he => hab ((Series.nextName_group_eq_iff ha b).1 he)
    rw [flatten_cons, overflows_records hb hfree hn]
    exact ih hb (fun e he => h e (List.mem_cons_of_mem _ he)) hc

theorem scan_flatten_of_isChain {all : List Series} (h : ∀ e ∈ all, e.Numbered)
    (hc : all.IsChain fun a b => ¬ a.RunsInto b) :
    scan (flatten all) = .ok (all.map Series.group) := by
  have hover : overflows none (flatten all) = false := by
    cases all with
    | nil => rfl
    | cons a all =>
      have ha := h a List.mem_cons_self
      rw [flatten_cons, overflows_records ha (by simp) (by simp)]
      exact overflows_flatten ha (fun e he => h e (List.mem_cons_of_mem _ he)) hc
  rw [scan, hover, group_flatten_of_isChain h hc]
  rfl

/-- **Exactly when grouping recovers the keys**: no series runs into its neighbour; and then the numbers
suffice. -/
theorem group_records_eq_iff (all : List Series) (h : ∀ e ∈ all, e.Numbered) :
    (RecordGroup.group (all.flatMap Series.records) = all.map Series.group ↔
      all.IsChain fun a b => ¬ a.RunsInto b) ∧
    (RecordGroup.scan (all.flatMap Series.records) = .ok (all.map Series.group) ↔
      all.IsChain fun a b => ¬ a.RunsInto b) := by
  have hgroup : RecordGroup.group (all.flatMap Series.records) = all.map Series.group ↔
      all.IsChain fun a b => ¬ a.RunsInto b := by
    cases all with
    | nil => simp [RecordGroup.group, groupFrom]
    | cons a all =>
      have ha := h a List.mem_cons_self
      have h0 := groupFrom_none_flatten ha all
      rw [flatten] at h0
      rw [RecordGroup.group, h0]
      exact groupFrom_flatten_iff ha fun e he => h e (List.mem_cons_of_mem _ he)
  exact ⟨hgroup, fun hscan => hgroup.1 (eq_group_of_scan hscan).symm, scan_flatten_of_isChain h⟩

/-- Ten records of one key and the key with a `1` behind it cannot be told apart. -/
theorem group_ten_and_one :
    (∀ e ∈ [Series.mk "set" (List.replicate 10 "x"), ⟨"set1", ["y"]⟩], e.Numbered) ∧
      RecordGroup.group
          ([Series.mk "set" (List.replicate 10 "x"), ⟨"set1", ["y"]⟩].flatMap Series.records) ≠
        [Series.mk "set" (List.replicate 10 "x"), ⟨"set1", ["y"]⟩].map Series.group := by
  have h : ∀ e ∈ [Series.mk "set" (List.replicate 10 "x"), ⟨"set1", ["y"]⟩], e.Numbered := by
    simp [Series.Numbered, indexLimit]
  refine ⟨h, fun heq => ?_⟩
  have hc := (group_records_eq_iff _ h).1.1 heq
  simp only [List.isChain_cons_cons] at hc
  exact hc.1 (by decide)

/-! ### A lost key -/

/-- What becomes of the records of a series whose first one goes on with another group: the group
takes in those up to the next full ten, and each full ten opens a group with digits behind the key. -/
theorem exists_groupFrom_swallowed (key : String) (ds : List String) (g : RecordGroup) (i : Nat)
    (rest : List Record) (h : g.nextName = nameAt key i ∨ i % 10 = 0 ∧ 10 ≤ i) :
    ∃ gs g', groupFrom (some g) (number key 0 i ds ++ rest) = gs ++ groupFrom (some g') rest ∧
      ∀ x ∈ gs ++ [g'], x.key = g.key ∨ ∃ q : Nat, x.key = key ++ toString q := by
  induction ds generalizing g i with
  | nil => exact ⟨[], g, by simp [number], by simp⟩
  | cons d ds ih =>
    rw [number, Nat.zero_add, List.cons_append]
    by_cases hn : nameAt key i = g.nextName
    · rw [groupFrom_continue hn]
      have hnext : RecordGroup.nextName { g with records := g.records ++ [⟨nameAt key i, d⟩] } =
          nameAt key (i + 1) ∨ (i + 1) % 10 = 0 ∧ 10 ≤ i + 1 := by
        rw [nextName] at hn
        rw [nextName, List.length_append, List.length_singleton,
          ← Nat.add_assoc]
        by_cases h9 : i % 10 = 9
        · exact .inr ⟨by omega, by omega⟩
        · exact .inl (nameAt_succ hn.symm h9)
      obtain ⟨gs, g', heq, hkeys⟩ := ih _ (i + 1) hnext
      exact ⟨gs, g', heq, hkeys⟩
    · obtain ⟨h0, h10⟩ := h.resolve_left fun he => hn he.symm
      have hs : splitName? (nameAt key i) = _ := splitName?_nameAt h0
      rw [tens_of_le h10] at hs
      rw [groupFrom_open (r := ⟨nameAt key i, d⟩) (by rintro _ ⟨rfl⟩; exact hn) hs]
      have hnext : RecordGroup.nextName ⟨nameAt key (i / 10), 0, [⟨nameAt key i, d⟩]⟩ =
          nameAt key (i + 1) := by
        have h1 : (nameAt key (i / 10)).toList ++ tens 1 = key.toList ++ tens (i + 1) := by
          rw [tens_succ (n := i) (by omega), tens_of_le h10, toList_nameAt]
          exact List.append_nil _
        rw [nextName]
        exact nameAt_eq_iff.2 ⟨h1, by simp; omega⟩
      obtain ⟨gs, g', heq, hkeys⟩ := ih _ (i + 1) (.inl hnext)
      refine ⟨g :: gs, g', ?_, ?_⟩
      · rw [Option.toList_some, List.singleton_append, List.cons_append, ← heq]
        rfl
      intro x hx
      rcases List.mem_cons.1 hx with rfl | hx
      · exact .inl rfl
      · rcases hkeys x hx with hk | hk
        · exact .inr ⟨i / 10, hk.trans (nameAt_eq _ _)⟩
        · exact .inr hk

/-- The key is that of the current group or of a series that opened one, or it is the key of a
swallowed series with digits behind it. -/
def Explained (current : Option RecordGroup) (opened swallowed : List Series) (key : String) : Prop :=
  (∃ g ∈ current, key = g.key) ∨ (∃ e ∈ opened, key = e.key) ∨
    ∃ e ∈ swallowed, ∃ q : Nat, key = e.key ++ toString q

/-- What the group of a series explains, the series that opened it does. -/
theorem Explained.opened {e : Series} {opened swallowed : List Series} {key : String}
    (h : Explained (some e.group) opened swallowed key) (current : Option RecordGroup) :
    Explained current (e :: opened) swallowed key := by
  obtain ⟨_, ⟨rfl⟩, hk⟩ | ⟨o, ho, hk⟩ | h := h
  · exact .inr (.inl ⟨e, List.mem_cons_self, hk⟩)
  · exact .inr (.inl ⟨o, List.mem_cons_of_mem _ ho, hk⟩)
  · exact .inr (.inr h)

/-- What a group explains that a swallowed series has left, the group before it and the series do. -/
theorem Explained.swallowed {e : Series} {g g' : RecordGroup} {opened swallowed : List Series}
    {key : String} (h : Explained (some g') opened swallowed key)
    (hg : g'.key = g.key ∨ ∃ q : Nat, g'.key = e.key ++ toString q) :
    Explained (some g) opened (e :: swallowed) key := by
  obtain ⟨_, ⟨rfl⟩, hk⟩ | h | ⟨a, ha, hk⟩ := h
  · rw [hk]
    exact hg.imp (fun hg => ⟨g, rfl, hg⟩) fun hg => .inr ⟨e, List.mem_cons_self, hg⟩
  · exact .inr (.inl h)
  · exact .inr (.inr ⟨a, List.mem_cons_of_mem _ ha, hk⟩)

/-- A scan divides the series into those that open a group and those that are swallowed, and these
explain the keys of all groups. -/
theorem exists_opened_swallowed (all : List Series) (current : Option RecordGroup)
    (h : ∀ e ∈ all, e.Numbered) :
    ∃ opened swallowed, (opened ++ swallowed).Perm all ∧
      (∀ x ∈ groupFrom current (flatten all), Explained current opened swallowed x.key) ∧
      (swallowed = [] → groupFrom current (flatten all) = current.toList ++ all.map Series.group) := by
  induction all generalizing current with
  | nil =>
    refine ⟨[], [], .refl _, ?_, ?_⟩
    · intro x hx
      cases current with
      | none => simp [flatten, groupFrom] at hx
      | some g =>
        obtain rfl : x = g := by simpa [flatten, groupFrom] using hx
        exact .inl ⟨x, rfl, rfl⟩
    · intro _
      simp [flatten, groupFrom]
  | cons e all ih =>
    have he := h e List.mem_cons_self
    have htail : ∀ e ∈ all, e.Numbered := fun e he => h e (List.mem_cons_of_mem _ he)
    rw [flatten_cons]
    by_cases hs : ∀ g ∈ current, g.nextName ≠ nameAt e.key 0
    · rw [groupFrom_records he hs]
      obtain ⟨opened, swallowed, hp, hkeys, hexact⟩ := ih (some e.group) htail
      refine ⟨e :: opened, swallowed, hp.cons e, ?_, fun h0 => by simp [hexact h0]⟩
      intro x hx
      rcases List.mem_append.1 hx with hx | hx
      · exact .inl ⟨x, by simpa using hx, rfl⟩
      · exact (hkeys x hx).opened current
    · simp only [not_forall, Decidable.not_not] at hs
      obtain ⟨g, hg, hn⟩ := hs
      obtain rfl : current = some g := hg
      rw [Series.records_eq_number]
      obtain ⟨gs, g', heq, hkeys'⟩ :=
        exists_groupFrom_swallowed e.key e.data g 0 (flatten all) (.inl hn)
      obtain ⟨opened, swallowed, hp, hkeys, -⟩ := ih (some g') htail
      rw [heq]
      refine ⟨opened, e :: swallowed, List.perm_middle.trans (hp.cons e), ?_, by simp⟩
      intro x hx
      rcases List.mem_append.1 hx with hx | hx
      · obtain hk | hk := hkeys' x (List.mem_append_left _ hx)
        · exact .inl ⟨g, rfl, hk⟩
        · exact .inr (.inr ⟨e, List.mem_cons_self, hk⟩)
      · exact (hkeys x hx).swallowed (hkeys' g' (by simp))

/-- Where a series runs into its neighbour, the key of some series is lost. -/
theorem exists_key_not_mem_keys {all : List Series} (h : ∀ e ∈ all, e.Numbered)
    (hd : (all.map Series.key).Nodup)
    (hc : ¬ all.IsChain fun a b => ¬ a.RunsInto b) : ∃ e ∈ all, e.key ∉ keys (flatten all) := by
  obtain ⟨opened, swallowed, hp, hkeys, hexact⟩ := exists_opened_swallowed all none h
  have hne : swallowed.toFinset.Nonempty := by
    rw [List.toFinset_nonempty_iff]
    intro h0
    cases all with
    | nil => exact hc .nil
    | cons a all =>
      have ha := h a List.mem_cons_self
      have htail : ∀ e ∈ all, e.Numbered := fun e he => h e (List.mem_cons_of_mem _ he)
      refine hc ((groupFrom_flatten_iff ha htail).1 ?_)
      rw [← groupFrom_none_flatten ha, hexact h0]
      rfl
  -- of the swallowed keys a shortest one: no other swallowed key with digits behind it is as short
  obtain ⟨e, he, hmin⟩ := swallowed.toFinset.exists_min_image (fun e => e.key.length) hne
  rw [List.mem_toFinset] at he
  refine ⟨e, hp.subset (List.mem_append_right _ he), fun hk => ?_⟩
  obtain ⟨x, hx, hxe⟩ := List.mem_map.1 hk
  rcases hkeys x hx with ⟨_, ⟨⟩, _⟩ | ⟨o, ho, hxo⟩ | ⟨a, ha, q, hxa⟩
  · have hnd := (hp.map Series.key).nodup_iff.2 hd
    rw [List.map_append] at hnd
    exact List.disjoint_of_nodup_append hnd (List.mem_map_of_mem ho)
      (hxo ▸ hxe ▸ List.mem_map_of_mem he)
  · have hle := hmin a (List.mem_toFinset.2 ha)
    have hpos : 0 < (toString q).length := by
      rw [Nat.toString_eq_ofList_toDigits, String.length_ofList]
      exact Nat.length_toDigits_pos
    rw [← hxe, hxa, String.length_append] at hle
    omega

end RecordGroup

end Stencil
