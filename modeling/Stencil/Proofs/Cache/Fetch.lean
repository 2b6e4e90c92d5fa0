import Mathlib.Data.List.Basic
import Stencil.Cache.Basic
import Stencil.Proofs.Op

/-!
# A fetch through a cache

A cache holds a relation if every entry has a value that is related to its key. A key without a slot
gets a new one at the end of the row; filling it with a related value and dropping it again both leave
a cache that holds the relation. `result_fetch_hit` and `result_fetch_miss` say what a fetch does to the
state, whatever is done to make the value.
-/

namespace Stencil

/-! ### Rows of cells that may be empty -/

section Row

variable {α : Type} {cells : Array (Option α)} {i j : Nat} {a b : α}

/-- What a cell of a row holds. -/
def cellValue? (cells : Array (Option α)) (i : Nat) : Option α := (cells[i]?).bind id

theorem lt_size_of_cellValue? (h : cellValue? cells i = some a) : i < cells.size := by
  rw [cellValue?] at h
  by_contra hge
  rw [Array.getElem?_eq_none (Nat.not_lt.1 hge)] at h
  simp at h

/-- One more cell holds nothing. -/
theorem cellValue?_push (cells : Array (Option α)) (i : Nat) :
    cellValue? (cells.push none) i = cellValue? cells i := by
  rw [cellValue?, cellValue?, Array.getElem?_push]
  split
  · rename_i hi
    rw [hi, Array.getElem?_eq_none (Nat.le_refl _)]
    rfl
  · rfl

theorem cellValue?_set_self (h : i < cells.size) :
    cellValue? (cells.setIfInBounds i (some a)) i = some a := by
  rw [cellValue?, Array.getElem?_setIfInBounds_self_of_lt h]
  rfl

theorem cellValue?_set_of_ne (h : j ≠ i) :
    cellValue? (cells.setIfInBounds i (some a)) j = cellValue? cells j := by
  rw [cellValue?, cellValue?, Array.getElem?_setIfInBounds_ne (Ne.symm h)]

/-- A cell holds what it was filled with last. -/
theorem cellValue?_set_cases (h : cellValue? (cells.setIfInBounds i (some a)) j = some b) :
    j = i ∧ b = a ∨ j ≠ i ∧ cellValue? cells j = some b := by
  by_cases hj : j = i
  · subst hj
    have hlt := Array.size_setIfInBounds ▸ lt_size_of_cellValue? h
    exact .inl ⟨rfl, (Option.some.inj ((cellValue?_set_self hlt).symm.trans h)).symm⟩
  · exact .inr ⟨hj, (cellValue?_set_of_ne hj).symm.trans h⟩

end Row

namespace Cache

variable {α σ : Type} {P : String → α → Prop} {c : Cache α} {key : String} {slot : Nat} {a : α}

/-- Every entry has a value, and the key and the value are related. -/
def Holds (P : String → α → Prop) (c : Cache α) : Prop :=
  ∀ p ∈ c.entries, ∃ a, c.value? p.2 = some a ∧ P p.1 a

theorem holds_of_entries_eq_nil (h : c.entries = []) : c.Holds P := by
  intro p hp
  rw [h] at hp
  exact absurd hp List.not_mem_nil

theorem Holds.imp {Q : String → α → Prop} (h : c.Holds P) (hPQ : ∀ key a, P key a → Q key a) :
    c.Holds Q := fun p hp =>
  let ⟨a, ha, hP⟩ := h p hp
  ⟨a, ha, hPQ _ _ hP⟩

theorem mem_entries_of_slot? (h : c.slot? key = some slot) : (key, slot) ∈ c.entries := by
  obtain ⟨l1, l2, he, -⟩ := List.lookup_eq_some_iff.1 h
  simp [he]

theorem Holds.of_slot (h : c.Holds P) (hs : c.slot? key = some slot) :
    ∃ a, c.value? slot = some a ∧ P key a := h (key, slot) (mem_entries_of_slot? hs)

/-- A key without a slot gets a new one. -/
theorem reserve_of_none (h : c.slot? key = none) :
    c.reserve key = (c.cells.size, { c with
      entries := c.trimmed ++ [(key, c.cells.size)]
      cells := c.cells.push none
      misses := c.misses + 1 }) := by
  rw [reserve, h]

/-- A key with a value counts as a hit. -/
theorem reserve_of_value (h : c.slot? key = some slot) (hv : c.value? slot = some a) :
    c.reserve key = (slot, { c with hits := c.hits + 1 }) := by
  rw [reserve, h]
  simp [hv]

/-- A key that has a slot may count as a hit; nothing else changes. -/
theorem reserve_of_some (h : c.slot? key = some slot) :
    ∃ hits, c.reserve key = (slot, { c with hits }) := by
  rw [reserve, h]
  by_cases hv : (c.value? slot).isSome = true
  · exact ⟨c.hits + 1, by simp only [if_pos hv]⟩
  · exact ⟨c.hits, by simp only [if_neg hv]⟩

/-- To drop a slot that got no value may take an entry away; nothing else changes. -/
theorem exists_discard (c : Cache α) (key : String) (slot : Nat) :
    ∃ entries, entries.Sublist c.entries ∧ c.discard key slot = { c with entries } := by
  rw [discard]
  split
  · exact ⟨_, List.filter_sublist, rfl⟩
  · exact ⟨_, List.Sublist.refl _, rfl⟩

/-- The cache with a new empty slot for a key that has none. -/
def opened (c : Cache α) (key : String) : Cache α := (c.reserve key).2

section Miss

variable (h : c.slot? key = none)
include h

theorem slot?_opened : (c.opened key).slot? key = some c.cells.size := by
  have ht : c.trimmed.lookup key = none := by
    rw [List.lookup_eq_none_iff]
    exact fun p hp => List.lookup_eq_none_iff.1 h p (List.mem_of_mem_drop hp)
  rw [opened, reserve_of_none h]
  simp [slot?, List.lookup_append, ht]

theorem cells_opened : (c.opened key).cells = c.cells.push none := by
  rw [opened, reserve_of_none h]

theorem value?_opened (i : Nat) : (c.opened key).value? i = c.value? i := by
  show cellValue? (c.opened key).cells i = _
  rw [cells_opened h, cellValue?_push]
  rfl

theorem value?_opened_self : (c.opened key).value? c.cells.size = none := by
  rw [value?_opened h, value?, Array.getElem?_eq_none (Nat.le_refl _)]
  rfl

theorem mem_entries_opened {p : String × Nat} (hp : p ∈ (c.opened key).entries) :
    p ∈ c.entries ∨ p = (key, c.cells.size) := by
  rw [opened, reserve_of_none h] at hp
  simp only [List.mem_append, List.mem_singleton] at hp
  exact hp.imp_left List.mem_of_mem_drop

/-- A slot that is filled with a fitting value keeps the cache as it should be. -/
theorem Holds.fill_opened (hc : c.Holds P) (ha : P key a) :
    ((c.opened key).fill c.cells.size a).Holds P := by
  intro p hp
  rcases mem_entries_opened h hp with hp | rfl
  · obtain ⟨b, hb, hP⟩ := hc p hp
    have hne := Nat.ne_of_lt (lt_size_of_cellValue? hb)
    exact ⟨b, (cellValue?_set_of_ne hne).trans ((value?_opened h p.2).trans hb), hP⟩
  · refine ⟨a, cellValue?_set_self ?_, ha⟩
    rw [cells_opened h, Array.size_push]
    exact Nat.lt_succ_self _

/-- The new slot is dropped if it got no value. -/
theorem discard_opened : (c.opened key).discard key c.cells.size =
    { c.opened key with entries := (c.opened key).entries.filter (·.1 != key) } := by
  rw [discard, if_pos ⟨slot?_opened h, by rw [value?_opened_self h]; rfl⟩]

/-- A slot that is dropped leaves the entries that were there. -/
theorem Holds.discard_opened (hc : c.Holds P) : ((c.opened key).discard key c.cells.size).Holds P := by
  rw [Cache.discard_opened h]
  intro p hp
  obtain ⟨hmem, hne⟩ := List.mem_filter.1 hp
  rcases mem_entries_opened h hmem with hp | rfl
  · obtain ⟨b, hb, hP⟩ := hc p hp
    exact ⟨b, (value?_opened h p.2).trans hb, hP⟩
  · simp at hne

end Miss

/-! ### A fetch -/

/-- The cache when the making of a value for the slot of a key has come to its end. -/
def ended (c : Cache α) (key : String) (slot : Nat) : Except Fault α → Cache α
  | .ok a => c.fill slot a
  | .error _ => c.discard key slot

variable {l : Lens σ (Cache α)} {make : Op σ α} {s s' : σ}

/-- A fetch of a key whose value is there. -/
theorem result_fetch_hit (hk : key ≠ "") (hs : (l.get s).slot? key = some slot)
    (hv : (l.get s).value? slot = some a) :
    Op.result (fetch l key make) s = (.ok a, l.set { l.get s with hits := (l.get s).hits + 1 } s) := by
  rw [fetch, Op.result_bind_of_ok (Op.result_requireKey "key" hk s),
    Op.result_bind_of_ok (Op.result_get s), reserve_of_value hs hv]
  have hvalue : ({ l.get s with hits := (l.get s).hits + 1 } : Cache α).value? slot = some a := hv
  simp only [hvalue]
  rfl

/-- A fetch of a key without a slot makes the value in a state in which the key has an empty slot; a
value goes into the slot, and without one the slot is dropped. -/
theorem result_fetch_miss (hk : key ≠ "") (hs : (l.get s).slot? key = none) {r : Except Fault α}
    (hm : Op.result make (l.set ((l.get s).opened key) s) = (r, s')) :
    Op.result (fetch l key make) s =
      (r, l.set ((l.get s').ended key (l.get s).cells.size r) s') := by
  have hslot : (l.get s).reserve key = ((l.get s).cells.size, (l.get s).opened key) := by
    rw [opened, reserve_of_none hs]
  have hmod : Op.result (modify (l.set ((l.get s).opened key)) : Op σ PUnit) s =
      (.ok ⟨⟩, l.set ((l.get s).opened key) s) := rfl
  have hatt : Op.result (Op.attempt make) (l.set ((l.get s).opened key) s) = (.ok r, s') := by
    rw [Op.result_attempt, hm]
  rw [fetch, Op.result_bind_of_ok (Op.result_requireKey "key" hk s),
    Op.result_bind_of_ok (Op.result_get s), hslot]
  simp only [value?_opened_self hs]
  rw [Op.result_bind_of_ok hmod, Op.result_bind_of_ok hatt]
  cases r <;> rfl

end Cache

end Stencil
