import Mathlib.Data.List.Forall2
import Stencil.Catalog.Shared
import Stencil.Proofs.Catalog.Writes
import Stencil.Proofs.Task

/-!
# Where a compiled template comes from

The state of a shared catalog is sound if all that was compiled or loaded was made from what the store
held when the notes say it was read, and not before the birth of its slot or cell. Every step keeps it
so.

A write leaves a floor behind: when it is done, the cell in use was born after it, and so was the cell
that was in use when any of the slots in the cache was made. No step lowers the floor. What is fetched
from then on was read after the write.
-/

namespace Stencil

/-- Nothing was read before so many writes had been. -/
def Origin.Since (k : Nat) (o : Origin) : Prop := k ≤ o.text ∧ ∀ v ∈ o.sets, k ≤ v

namespace Shared

variable {s t u : Shared} {k v i : Nat} {name : String}

/-! ### What the store held -/

/-- The catalog of a store in memory. -/
abbrev memorySets : StoredSets (NameMap Json × Workshop) := .ofStore Store.memory .empty

/-- What a catalog gives that reads a store with some values. -/
def answer {α : Type} (op : Op (NameMap Json × Workshop) α) (items : NameMap Json) : Except Fault α :=
  (Op.result op (items, Workshop.empty 1)).1

/-- After so many writes the store held values of which `P` holds. -/
def Held (s : Shared) (v : Nat) (P : NameMap Json → Prop) : Prop :=
  ∃ items, s.contents? v = some items ∧ P items

/-- The fragments are those of sets that were read at certain moments: first the names of all sets, and
then the sets one after another. -/
def Gathered (s : Shared) (versions : List Nat) (f : Fragments) : Prop :=
  ∃ (v : Nat) (names : List String) (bundles : List (Bundle × Nat)),
    versions = v :: bundles.map (·.2) ∧
    s.Held v (fun items => answer memorySets.setNames items = .ok names) ∧
    List.Forall₂ (fun set p => s.Held p.2 fun items => answer (memorySets.readSet set) items = .ok p.1)
      names bundles ∧
    Fragments.ofBundles (bundles.map (·.1)) = .ok f

/-- What a template was compiled from is what the store held when it was read, and it was not read before
so many writes. -/
structure Made (s : Shared) (name : String) (k : Nat) (a : Engine × Origin) : Prop where
  since : a.2.Since k
  compiled : ∃ text f,
    s.Held a.2.text (fun items => answer (memorySets.readTemplate name) items = .ok text) ∧
    s.Gathered a.2.sets f ∧ Engine.compile name text f = .ok a.1

/-- The same of fragments. -/
structure Loaded (s : Shared) (k : Nat) (a : Fragments × List Nat) : Prop where
  since : ∀ v ∈ a.2, k ≤ v
  gathered : s.Gathered a.2 a.1

theorem contents?_version (s : Shared) : s.contents? s.version = some s.items := by
  rw [contents?, version, List.getElem?_append_right (Nat.le_refl _), Nat.sub_self]
  rfl

/-! ### The discipline -/

/-- The number of the slots of the cache that were ever made. -/
abbrev slotCount (s : Shared) : Nat := s.workshop.engines.cells.size

/-- What is or comes into use was born after so many writes. -/
structure Floor (k : Nat) (s : Shared) : Prop where
  current : k ≤ s.currentBorn
  entry : ∀ p ∈ s.workshop.engines.entries, k ≤ (s.slotNotes p.2).born

/-- What steps may do to the state. -/
structure Later (s t : Shared) : Prop where
  contents : ∀ v items, s.contents? v = some items → t.contents? v = some items
  version : s.version ≤ t.version
  current : s.currentBorn ≤ t.currentBorn
  cells : s.workshop.cells.size ≤ t.workshop.cells.size
  cellBorn : ∀ j < s.workshop.cells.size, (t.cellNotes j).born = (s.cellNotes j).born
  slots : s.slotCount ≤ t.slotCount
  slot : ∀ i < s.slotCount, (t.slotNotes i).key = (s.slotNotes i).key ∧
    (t.slotNotes i).born = (s.slotNotes i).born
  floor : ∀ k, Floor k s → Floor k t

/-- What holds of the state at all times. -/
structure Sound (s : Shared) : Prop where
  current : s.workshop.current < s.workshop.cells.size
  born : s.currentBorn ≤ s.version
  entry : ∀ p ∈ s.workshop.engines.entries, p.2 < s.slotCount ∧ (s.slotNotes p.2).key = p.1 ∧
    (s.slotNotes p.2).born ≤ s.currentBorn
  engine : ∀ i a, slots.get? i s = some a → s.Made (s.slotNotes i).key (s.slotNotes i).born a
  fragments : ∀ j a, cells.get? j s = some a → s.Loaded (s.cellNotes j).born a

theorem Later.refl (s : Shared) : Later s s :=
  ⟨fun _ _ h => h, Nat.le_refl _, Nat.le_refl _, Nat.le_refl _, fun _ _ => rfl, Nat.le_refl _,
    fun _ _ => ⟨rfl, rfl⟩, fun _ h => h⟩

theorem Later.trans (h : Later s t) (h' : Later t u) : Later s u where
  contents v items hv := h'.contents v items (h.contents v items hv)
  version := Nat.le_trans h.version h'.version
  current := Nat.le_trans h.current h'.current
  cells := Nat.le_trans h.cells h'.cells
  cellBorn j hj := (h'.cellBorn j (Nat.lt_of_lt_of_le hj h.cells)).trans (h.cellBorn j hj)
  slots := Nat.le_trans h.slots h'.slots
  slot i hi :=
    have hi' := h'.slot i (Nat.lt_of_lt_of_le hi h.slots)
    ⟨hi'.1.trans (h.slot i hi).1, hi'.2.trans (h.slot i hi).2⟩
  floor k hk := h'.floor k (h.floor k hk)

/-- The discipline of the tasks of a shared catalog. -/
def discipline : Discipline Shared := ⟨Sound, Later, Later.refl, Later.trans⟩

/-! ### What stays -/

theorem Held.later {P : NameMap Json → Prop} (h : s.Held v P) (hs : Later s t) : t.Held v P :=
  let ⟨items, hv, hP⟩ := h
  ⟨items, hs.contents v items hv, hP⟩

theorem Gathered.later {versions : List Nat} {f : Fragments} (h : s.Gathered versions f)
    (hs : Later s t) : t.Gathered versions f :=
  let ⟨v, names, bundles, hv, hnames, hbundles, hf⟩ := h
  ⟨v, names, bundles, hv, hnames.later hs, hbundles.imp fun _ _ hp => hp.later hs, hf⟩

theorem Made.later {a : Engine × Origin} (h : s.Made name k a) (hs : Later s t) : t.Made name k a :=
  let ⟨text, f, htext, hf, hcompile⟩ := h.compiled
  ⟨h.since, text, f, htext.later hs, hf.later hs, hcompile⟩

theorem Made.mono {a : Engine × Origin} {k' : Nat} (h : s.Made name k a) (hk : k' ≤ k) :
    s.Made name k' a :=
  ⟨⟨Nat.le_trans hk h.since.1, fun v hv => Nat.le_trans hk (h.since.2 v hv)⟩, h.compiled⟩

theorem Loaded.mono {a : Fragments × List Nat} {k' : Nat} (h : s.Loaded k a) (hk : k' ≤ k) :
    s.Loaded k' a := ⟨fun v hv => Nat.le_trans hk (h.since v hv), h.gathered⟩

theorem Loaded.later {a : Fragments × List Nat} (h : s.Loaded k a) (hs : Later s t) : t.Loaded k a :=
  ⟨h.since, h.gathered.later hs⟩

/-! ### Steps -/

/-- The state with other fetches and loads under way, some entries of the cache gone and more hits. -/
def calmed (s : Shared) (making loading : List Nat) (entries : List (String × Nat)) (hits : Nat) :
    Shared :=
  { s with
    making, loading
    workshop := { s.workshop with engines := { s.workshop.engines with entries, hits } } }

theorem sound_calmed (hs : Sound s) (making loading : List Nat) {entries : List (String × Nat)}
    (he : ∀ p ∈ entries, p ∈ s.workshop.engines.entries) (hits : Nat) :
    Sound (s.calmed making loading entries hits) ∧ Later s (s.calmed making loading entries hits) := by
  have hl : Later s (s.calmed making loading entries hits) :=
    ⟨fun _ _ h => h, Nat.le_refl _, Nat.le_refl _, Nat.le_refl _, fun _ _ => rfl, Nat.le_refl _,
      fun _ _ => ⟨rfl, rfl⟩, fun k hk => ⟨hk.current, fun p hp => hk.entry p (he p hp)⟩⟩
  exact ⟨⟨hs.current, hs.born, fun p hp => hs.entry p (he p hp),
    fun i a ha => (hs.engine i a ha).later hl, fun j a ha => (hs.fragments j a ha).later hl⟩, hl⟩

/-- The state after a write. -/
def wrote (s : Shared) (items : NameMap Json) : Shared :=
  { s with past := s.past ++ [s.items], items }

theorem sound_wrote (hs : Sound s) (items : NameMap Json) :
    Sound (s.wrote items) ∧ Later s (s.wrote items) ∧ (s.wrote items).version = s.version + 1 := by
  have hversion : (s.wrote items).version = s.version + 1 := by
    rw [version, wrote, List.length_append]
    rfl
  have hl : Later s (s.wrote items) :=
    { Later.refl s with
      contents := fun v held hv => by
        rw [contents?, wrote, List.getElem?_append_left (List.getElem?_eq_some_iff.1 hv).1]
        exact hv
      version := by omega
      floor := fun k hk => ⟨hk.current, hk.entry⟩ }
  refine ⟨⟨hs.current, ?_, hs.entry, fun i a ha => (hs.engine i a ha).later hl,
    fun j a ha => (hs.fragments j a ha).later hl⟩, hl, hversion⟩
  exact Nat.le_trans hs.born hl.version

/-- The state in which a key without a slot has got one. -/
def reserved (s : Shared) (key : String) : Shared :=
  { s with
    workshop := { s.workshop with engines := s.workshop.engines.opened key }
    slotNotes := noteAt s.slotNotes s.slotCount ⟨key, s.currentBorn, ⟨0, []⟩⟩ }

theorem sound_reserved (hs : Sound s) {key : String} (hkey : s.workshop.engines.slot? key = none) :
    Sound (s.reserved key) ∧ Later s (s.reserved key) := by
  have hnote {i : Nat} (hi : i < s.slotCount) : (s.reserved key).slotNotes i = s.slotNotes i :=
    if_neg (Nat.ne_of_lt hi)
  have hnew : (s.reserved key).slotNotes s.slotCount = ⟨key, s.currentBorn, ⟨0, []⟩⟩ := if_pos rfl
  have hcount : (s.reserved key).slotCount = s.slotCount + 1 := by
    show (s.workshop.engines.opened key).cells.size = _
    rw [Cache.cells_opened hkey, Array.size_push]
  have hentry {p : String × Nat} (hp : p ∈ (s.reserved key).workshop.engines.entries) :
      p ∈ s.workshop.engines.entries ∨ p = (key, s.slotCount) := Cache.mem_entries_opened hkey hp
  have hl : Later s (s.reserved key) :=
    { Later.refl s with
      slots := by omega
      slot := fun i hi => by rw [hnote hi]; exact ⟨rfl, rfl⟩
      floor := fun k hk => ⟨hk.current, fun p hp => by
        rcases hentry hp with hp | rfl
        · rw [hnote (hs.entry p hp).1]
          exact hk.entry p hp
        · rw [hnew]
          exact hk.current⟩ }
  refine ⟨⟨hs.current, hs.born, fun p hp => ?_, fun i a ha => ?_, fun j a ha => ?_⟩, hl⟩
  · rcases hentry hp with hp | rfl
    · obtain ⟨hlt, hk, hb⟩ := hs.entry p hp
      rw [hnote hlt]
      exact ⟨by omega, hk, hb⟩
    · rw [hnew]
      exact ⟨by omega, rfl, Nat.le_refl _⟩
  · obtain ⟨e, he, rfl⟩ := Option.map_eq_some_iff.1 ha
    have hv : s.workshop.engines.value? i = some e := (Cache.value?_opened hkey i).symm.trans he
    rw [hnote (lt_size_of_cellValue? hv)]
    exact (hs.engine i _ (congrArg (Option.map _) hv)).later hl
  · exact (hs.fragments j a ha).later hl

theorem slotNotes_fill (i j : Nat) (a : Engine × Origin) (s : Shared) :
    (slots.fill i a s).slotNotes j =
      if j = i then { s.slotNotes i with origin := a.2 } else s.slotNotes j := rfl

theorem cellNotes_fill (i j : Nat) (a : Fragments × List Nat) (s : Shared) :
    (cells.fill i a s).cellNotes j =
      if j = i then { s.cellNotes i with origin := a.2 } else s.cellNotes j := rfl

/-- A slot holds what it was filled with last. -/
theorem slots_get?_fill {i j : Nat} {a b : Engine × Origin}
    (h : slots.get? j (slots.fill i a s) = some b) : j = i ∧ b = a ∨ slots.get? j s = some b := by
  obtain ⟨e, he, rfl⟩ := Option.map_eq_some_iff.1 h
  rw [slotNotes_fill]
  rcases cellValue?_set_cases he with ⟨rfl, rfl⟩ | ⟨hj, he⟩
  · rw [if_pos rfl]
    exact .inl ⟨rfl, rfl⟩
  · rw [if_neg hj]
    exact .inr (congrArg (Option.map _) he)

/-- A cell holds what it was filled with last. -/
theorem cells_get?_fill {i j : Nat} {a b : Fragments × List Nat}
    (h : cells.get? j (cells.fill i a s) = some b) : j = i ∧ b = a ∨ cells.get? j s = some b := by
  obtain ⟨f, hf, rfl⟩ := Option.map_eq_some_iff.1 h
  rw [cellNotes_fill]
  rcases cellValue?_set_cases hf with ⟨rfl, rfl⟩ | ⟨hj, hf⟩
  · rw [if_pos rfl]
    exact .inl ⟨rfl, rfl⟩
  · rw [if_neg hj]
    exact .inr (congrArg (Option.map _) hf)

/-- A slot may be filled with a template that was made for its key, since the slot was born. -/
theorem sound_fill_slot (hs : Sound s) {i : Nat} {a : Engine × Origin}
    (ha : s.Made (s.slotNotes i).key (s.slotNotes i).born a) :
    Sound (slots.fill i a s) ∧ Later s (slots.fill i a s) := by
  have hsize : (slots.fill i a s).slotCount = s.slotCount := Array.size_setIfInBounds
  have hnote (j : Nat) : ((slots.fill i a s).slotNotes j).key = (s.slotNotes j).key ∧
      ((slots.fill i a s).slotNotes j).born = (s.slotNotes j).born := by
    rw [slotNotes_fill]
    by_cases hj : j = i
    · rw [if_pos hj, hj]
      exact ⟨rfl, rfl⟩
    · rw [if_neg hj]
      exact ⟨rfl, rfl⟩
  have hl : Later s (slots.fill i a s) :=
    { Later.refl s with
      slots := Nat.le_of_eq hsize.symm
      slot := fun j _ => hnote j
      floor := fun k hk => ⟨hk.current, fun p hp => by rw [(hnote p.2).2]; exact hk.entry p hp⟩ }
  refine ⟨⟨hs.current, hs.born, fun p hp => ?_, fun j b hb => ?_, fun j b hb =>
    (hs.fragments j b hb).later hl⟩, hl⟩
  · rw [(hnote p.2).1, (hnote p.2).2, hsize]
    exact hs.entry p hp
  · rw [(hnote j).1, (hnote j).2]
    rcases slots_get?_fill hb with ⟨rfl, rfl⟩ | hb
    · exact ha.later hl
    · exact (hs.engine j b hb).later hl

/-- A cell may be filled with fragments that were read since the cell was born. -/
theorem sound_fill_cell (hs : Sound s) {i : Nat} {a : Fragments × List Nat}
    (ha : s.Loaded (s.cellNotes i).born a) :
    Sound (cells.fill i a s) ∧ Later s (cells.fill i a s) := by
  have hsize : (cells.fill i a s).workshop.cells.size = s.workshop.cells.size :=
    Array.size_setIfInBounds
  have hnote (j : Nat) : ((cells.fill i a s).cellNotes j).born = (s.cellNotes j).born := by
    rw [cellNotes_fill]
    by_cases hj : j = i
    · rw [if_pos hj, hj]
    · rw [if_neg hj]
  have hcurrent : (cells.fill i a s).currentBorn = s.currentBorn := hnote s.workshop.current
  have hl : Later s (cells.fill i a s) :=
    { Later.refl s with
      current := Nat.le_of_eq hcurrent.symm
      cells := Nat.le_of_eq hsize.symm
      cellBorn := fun j _ => hnote j
      floor := fun k hk => ⟨hcurrent ▸ hk.current, hk.entry⟩ }
  refine ⟨⟨hsize ▸ hs.current, hcurrent ▸ hs.born, fun p hp => ?_, fun j b hb =>
    (hs.engine j b hb).later hl, fun j b hb => ?_⟩, hl⟩
  · rw [hcurrent]
    exact hs.entry p hp
  · rw [hnote j]
    rcases cells_get?_fill hb with ⟨rfl, rfl⟩ | hb
    · exact ha.later hl
    · exact (hs.fragments j b hb).later hl

/-- The state with a fresh cell. -/
def renewed (s : Shared) : Shared :=
  { s with
    workshop := s.workshop.renew
    cellNotes := noteAt s.cellNotes s.workshop.cells.size ⟨s.version, []⟩ }

theorem sound_renewed (hs : Sound s) :
    Sound s.renewed ∧ Later s s.renewed ∧ s.renewed.currentBorn = s.version := by
  have hsize : s.renewed.workshop.cells.size = s.workshop.cells.size + 1 := Array.size_push _
  have hnote {j : Nat} (hj : j < s.workshop.cells.size) : s.renewed.cellNotes j = s.cellNotes j :=
    if_neg (Nat.ne_of_lt hj)
  have hcurrent : s.renewed.currentBorn = s.version :=
    congrArg CellNote.born (if_pos rfl : noteAt s.cellNotes _ _ s.workshop.cells.size = _)
  have hl : Later s s.renewed :=
    { Later.refl s with
      current := by rw [hcurrent]; exact hs.born
      cells := by omega
      cellBorn := fun j hj => by rw [hnote hj]
      floor := fun k hk => ⟨by rw [hcurrent]; exact Nat.le_trans hk.current hs.born, hk.entry⟩ }
  refine ⟨⟨?_, Nat.le_of_eq hcurrent, fun p hp => ?_, fun i a ha => (hs.engine i a ha).later hl,
    fun j a ha => ?_⟩, hl, hcurrent⟩
  · rw [hsize]
    exact Nat.lt_succ_self _
  · obtain ⟨hlt, hkey, hborn⟩ := hs.entry p hp
    rw [hcurrent]
    exact ⟨hlt, hkey, Nat.le_trans hborn hs.born⟩
  · obtain ⟨f, hf, rfl⟩ := Option.map_eq_some_iff.1 ha
    have hv : s.workshop.fragments? j = some f :=
      (cellValue?_push s.workshop.cells j).symm.trans hf
    rw [hnote (lt_size_of_cellValue? hv)]
    exact (hs.fragments j _ (congrArg (Option.map _) hv)).later hl

end Shared

end Stencil
