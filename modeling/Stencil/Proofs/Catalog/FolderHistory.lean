import Stencil.Catalog.SharedFolder
import Stencil.Proofs.Cache.Fetch
import Stencil.Proofs.Catalog.Folder
import Stencil.Proofs.Task

/-!
# The history of a shared folder

The state of a shared catalog of a folder is sound if every template in a slot was compiled from a text
that was read since the birth of the slot, while or after its set was shown, and if no set that was hidden
comes back. Every step keeps it so.

When the templates of some names are dropped from the cache, a floor is left behind: the slots that the
cache has for such names were born afterwards. No step lowers the floor.
-/

namespace Stencil.SharedFolder

variable {f : Folder} {s t u : SharedFolder} {k k' v i : Nat} {name : String} {a : Engine × Nat}

/-! ### What the folder was like -/

/-- After so many changes the files and the hidden sets were such that `P` holds of them. -/
def Held (s : SharedFolder) (v : Nat) (P : Files × NameSet → Prop) : Prop :=
  ∃ w, s.contents? v = some w ∧ P w

/-- The template was compiled from a text that a file of its set held when it was read. Before that, but
not before so many changes, the set was shown. -/
def Made (f : Folder) (s : SharedFolder) (name : String) (k : Nat) (a : Engine × Nat) : Prop :=
  ∃ v path text loaded, k ≤ v ∧ v ≤ a.2 ∧
    s.Held v (fun w => f.templatePath w.2 name = some path) ∧
    s.Held a.2 (fun w => w.1.readText path = .ok text) ∧
    Engine.compile name text loaded = .ok a.1

theorem contents?_version (s : SharedFolder) :
    s.contents? s.version = some (s.files, s.kept.removed) := by
  rw [contents?, version, List.getElem?_append_right (Nat.le_refl _), Nat.sub_self]
  rfl

theorem le_version_of_contents? {w : Files × NameSet} (h : s.contents? v = some w) : v ≤ s.version := by
  obtain ⟨hv, -⟩ := List.getElem?_eq_some_iff.1 h
  rw [List.length_append] at hv
  exact Nat.le_of_lt_succ hv

/-! ### The discipline -/

/-- The number of the slots of the cache that were ever made. -/
abbrev slotCount (s : SharedFolder) : Nat := s.workshop.engines.cells.size

/-- The slots of the cache for certain keys were born after so many changes. -/
structure Floor (P : String → Prop) (k : Nat) (s : SharedFolder) : Prop where
  version : k ≤ s.version
  entry : ∀ p ∈ s.workshop.engines.entries, P p.1 → k ≤ (s.slotNotes p.2).born

/-- What steps may do to the state. -/
structure Later (s t : SharedFolder) : Prop where
  contents : ∀ v w, s.contents? v = some w → t.contents? v = some w
  slots : s.slotCount ≤ t.slotCount
  slot : ∀ i < s.slotCount, (t.slotNotes i).key = (s.slotNotes i).key ∧
    (t.slotNotes i).born = (s.slotNotes i).born
  floor : ∀ P k, Floor P k s → Floor P k t

/-- What holds of the state at all times. -/
structure Sound (f : Folder) (s : SharedFolder) : Prop where
  entry : ∀ p ∈ s.workshop.engines.entries, p.2 < s.slotCount ∧ (s.slotNotes p.2).key = p.1 ∧
    (s.slotNotes p.2).born ≤ s.version
  engine : ∀ i a, slots.get? i s = some a → Made f s (s.slotNotes i).key (s.slotNotes i).born a
  hidden : ∀ {v v' w w'}, v ≤ v' → s.contents? v = some w → s.contents? v' = some w' →
    ∀ set ∈ w.2, set ∈ w'.2

theorem Later.refl (s : SharedFolder) : Later s s :=
  ⟨fun _ _ h => h, Nat.le_refl _, fun _ _ => ⟨rfl, rfl⟩, fun _ _ h => h⟩

theorem Later.trans (h : Later s t) (h' : Later t u) : Later s u where
  contents v w hv := h'.contents v w (h.contents v w hv)
  slots := Nat.le_trans h.slots h'.slots
  slot i hi :=
    have hi' := h'.slot i (Nat.lt_of_lt_of_le hi h.slots)
    ⟨hi'.1.trans (h.slot i hi).1, hi'.2.trans (h.slot i hi).2⟩
  floor P k hk := h'.floor P k (h.floor P k hk)

theorem Later.version (h : Later s t) : s.version ≤ t.version :=
  le_version_of_contents? (h.contents _ _ s.contents?_version)

/-- The discipline of the tasks of a shared catalog. -/
def discipline (f : Folder) : Discipline SharedFolder := ⟨Sound f, Later, Later.refl, Later.trans⟩

/-! ### What stays -/

theorem Held.later {P : Files × NameSet → Prop} (h : s.Held v P) (hs : Later s t) : t.Held v P :=
  let ⟨w, hv, hP⟩ := h
  ⟨w, hs.contents v w hv, hP⟩

theorem Made.later (h : Made f s name k a) (hs : Later s t) : Made f t name k a :=
  let ⟨v, path, text, loaded, hkv, hva, hpath, htext, he⟩ := h
  ⟨v, path, text, loaded, hkv, hva, hpath.later hs, htext.later hs, he⟩

theorem Made.mono (h : Made f s name k a) (hk : k' ≤ k) : Made f s name k' a :=
  let ⟨v, path, text, loaded, hkv, hrest⟩ := h
  ⟨v, path, text, loaded, Nat.le_trans hk hkv, hrest⟩

/-- The text was read later than so many changes. -/
theorem Made.le (h : Made f s name k a) : k ≤ a.2 :=
  let ⟨_, _, _, _, hkv, hva, _⟩ := h
  Nat.le_trans hkv hva

/-! ### Steps -/

/-- No slot is new or has got a value since; entries of the cache may be gone. -/
structure Lessens (s t : SharedFolder) : Prop where
  notes : t.slotNotes = s.slotNotes
  cells : t.workshop.engines.cells = s.workshop.engines.cells
  entries : ∀ p ∈ t.workshop.engines.entries, p ∈ s.workshop.engines.entries

theorem Lessens.later (h : Lessens s t)
    (hcontents : ∀ v w, s.contents? v = some w → t.contents? v = some w) : Later s t where
  contents := hcontents
  slots := Nat.le_of_eq (congrArg Array.size h.cells.symm)
  slot i _ := by rw [h.notes]; exact ⟨rfl, rfl⟩
  floor P k hk := ⟨Nat.le_trans hk.version (le_version_of_contents? (hcontents _ _ s.contents?_version)),
    fun p hp hP => by rw [h.notes]; exact hk.entry p (h.entries p hp) hP⟩

/-- Since no slot has got a value, nothing is to be said of what they hold. -/
theorem Sound.lessened (hs : Sound f s) (h : Lessens s t) (hl : Later s t)
    (hhidden : ∀ {v v' w w'}, v ≤ v' → t.contents? v = some w → t.contents? v' = some w' →
      ∀ set ∈ w.2, set ∈ w'.2) : Sound f t where
  entry p hp := by
    obtain ⟨hlt, hkey, hborn⟩ := hs.entry p (h.entries p hp)
    rw [h.notes]
    exact ⟨Nat.lt_of_lt_of_le hlt hl.slots, hkey, Nat.le_trans hborn hl.version⟩
  engine i a ha := by
    have hget : slots.get? i t = slots.get? i s := by
      show (cellValue? t.workshop.engines.cells i).map _ = (cellValue? s.workshop.engines.cells i).map _
      rw [h.cells, h.notes]
    rw [h.notes]
    exact (hs.engine i a (hget ▸ ha)).later hl
  hidden := hhidden

/-- A step that is no change of the folder, and gives no slot a value. -/
theorem sound_quiet (hs : Sound f s) (h : Lessens s t) (hcontents : t.contents? = s.contents?) :
    Sound f t ∧ Later s t := by
  have hl := h.later fun v w hv => by rwa [hcontents]
  exact ⟨hs.lessened h hl (by rw [hcontents]; exact hs.hidden), hl⟩

/-- The state after a change of the files and of what the catalog keeps. -/
def changed (s : SharedFolder) (w : Folder.World) : SharedFolder :=
  { worldPart.set w s with past := s.past ++ [(s.files, s.kept.removed)] }

theorem version_changed (s : SharedFolder) (w : Folder.World) :
    (s.changed w).version = s.version + 1 := List.length_append

theorem contents?_changed (s : SharedFolder) (w : Folder.World) (v : Nat) :
    (s.changed w).contents? v =
      if v = s.version + 1 then some (w.1, w.2.removed) else s.contents? v := by
  have hpast : (s.changed w).past.length = s.version + 1 := version_changed s w
  rw [contents?]
  split
  · rename_i hv
    rw [hv, List.getElem?_append_right (Nat.le_of_eq hpast), hpast, Nat.sub_self]
    rfl
  · rename_i hv
    rcases Nat.lt_or_ge v (s.version + 1) with hlt | hge
    · rw [List.getElem?_append_left (by omega)]
      rfl
    · have hshort : (s.past ++ [(s.files, s.kept.removed)]).length ≤ v := by
        rw [List.length_append]
        exact hge
      rw [contents?, List.getElem?_eq_none hshort, List.getElem?_eq_none]
      rw [List.length_append, hpast]
      show s.version + 1 + 1 ≤ v
      omega

/-- A change hides no fewer sets than before, and gives no slot a value. -/
theorem sound_changed (hs : Sound f s) {w : Folder.World} (h : Lessens s (s.changed w))
    (hremoved : ∀ set ∈ s.kept.removed, set ∈ w.2.removed) :
    Sound f (s.changed w) ∧ Later s (s.changed w) := by
  have hold {v : Nat} {x} (hv : s.contents? v = some x) : (s.changed w).contents? v = some x := by
    have hle := le_version_of_contents? hv
    rwa [contents?_changed, if_neg (by omega)]
  have hl := h.later fun v x hv => hold hv
  refine ⟨hs.lessened h hl fun {v v' x x'} hvv hx hx' set hset => ?_, hl⟩
  have hle := le_version_of_contents? hx
  have hle' := le_version_of_contents? hx'
  rw [version_changed] at hle hle'
  rw [contents?_changed] at hx hx'
  split at hx'
  · obtain rfl := Option.some.inj hx'
    split at hx
    · obtain rfl := Option.some.inj hx
      exact hset
    · exact hremoved set (hs.hidden (le_version_of_contents? hx) hx s.contents?_version set hset)
  · rw [if_neg (by omega)] at hx
    exact hs.hidden hvv hx hx' set hset

/-- The state in which a key without a slot has got one. -/
def reserved (s : SharedFolder) (key : String) : SharedFolder :=
  { workshopPart.set { s.workshop with engines := s.workshop.engines.opened key } s with
    slotNotes := Shared.noteAt s.slotNotes s.slotCount ⟨key, s.version, 0⟩ }

theorem slotNotes_reserved_self (s : SharedFolder) (key : String) :
    (s.reserved key).slotNotes s.slotCount = ⟨key, s.version, 0⟩ := if_pos rfl

theorem slotCount_reserved {key : String} (hkey : s.workshop.engines.slot? key = none) :
    (s.reserved key).slotCount = s.slotCount + 1 := by
  show (s.workshop.engines.opened key).cells.size = _
  rw [Cache.cells_opened hkey, Array.size_push]

theorem sound_reserved (hs : Sound f s) {key : String} (hkey : s.workshop.engines.slot? key = none) :
    Sound f (s.reserved key) ∧ Later s (s.reserved key) := by
  have hnote {i : Nat} (hi : i < s.slotCount) : (s.reserved key).slotNotes i = s.slotNotes i :=
    if_neg (Nat.ne_of_lt hi)
  have hnew := s.slotNotes_reserved_self key
  have hcount := slotCount_reserved hkey
  have hentry {p : String × Nat} (hp : p ∈ (s.reserved key).workshop.engines.entries) :
      p ∈ s.workshop.engines.entries ∨ p = (key, s.slotCount) := Cache.mem_entries_opened hkey hp
  have hl : Later s (s.reserved key) :=
    { Later.refl s with
      slots := by omega
      slot := fun i hi => by rw [hnote hi]; exact ⟨rfl, rfl⟩
      floor := fun P k hk => ⟨hk.version, fun p hp hP => by
        rcases hentry hp with hp | rfl
        · rw [hnote (hs.entry p hp).1]
          exact hk.entry p hp hP
        · rw [hnew]
          exact hk.version⟩ }
  refine ⟨⟨fun p hp => ?_, fun i a ha => ?_, hs.hidden⟩, hl⟩
  · rcases hentry hp with hp | rfl
    · obtain ⟨hlt, hk, hb⟩ := hs.entry p hp
      rw [hnote hlt]
      exact ⟨by omega, hk, hb⟩
    · rw [hnew]
      exact ⟨by omega, rfl, Nat.le_refl _⟩
  · obtain ⟨e, he, rfl⟩ := Option.map_eq_some_iff.1 ha
    have hv : s.workshop.engines.value? i = some e := (Cache.value?_opened hkey i).symm.trans he
    rw [hnote (lt_size_of_cellValue? hv)]
    exact (hs.engine i _ (congrArg (Option.map _) hv)).later hl

theorem slotNotes_fill (i j : Nat) (a : Engine × Nat) (s : SharedFolder) :
    (slots.fill i a s).slotNotes j =
      if j = i then { s.slotNotes i with read := a.2 } else s.slotNotes j := rfl

/-- A slot holds what it was filled with last. -/
theorem slots_get?_fill {i j : Nat} {a b : Engine × Nat}
    (h : slots.get? j (slots.fill i a s) = some b) : j = i ∧ b = a ∨ slots.get? j s = some b := by
  obtain ⟨e, he, rfl⟩ := Option.map_eq_some_iff.1 h
  rw [slotNotes_fill]
  rcases cellValue?_set_cases he with ⟨rfl, rfl⟩ | ⟨hj, he⟩
  · rw [if_pos rfl]
    exact .inl ⟨rfl, rfl⟩
  · rw [if_neg hj]
    exact .inr (congrArg (Option.map _) he)

/-- A slot may be filled with a template that was made for its key, since the slot was born. -/
theorem sound_fill_slot (hs : Sound f s) (ha : Made f s (s.slotNotes i).key (s.slotNotes i).born a) :
    Sound f (slots.fill i a s) ∧ Later s (slots.fill i a s) := by
  have hsize : (slots.fill i a s).slotCount = s.slotCount := Array.size_setIfInBounds
  have hnote (j : Nat) : ((slots.fill i a s).slotNotes j).key = (s.slotNotes j).key ∧
      ((slots.fill i a s).slotNotes j).born = (s.slotNotes j).born := by
    rw [slotNotes_fill]
    by_cases hj : j = i
    · rw [if_pos hj, hj]
      exact ⟨rfl, rfl⟩
    · rw [if_neg hj]
      exact ⟨rfl, rfl⟩
  have hl : Later s (slots.fill i a s) :=
    { Later.refl s with
      slots := Nat.le_of_eq hsize.symm
      slot := fun j _ => hnote j
      floor := fun P k hk => ⟨hk.version, fun p hp hP => by
        rw [(hnote p.2).2]
        exact hk.entry p hp hP⟩ }
  refine ⟨⟨fun p hp => ?_, fun j b hb => ?_, hs.hidden⟩, hl⟩
  · rw [(hnote p.2).1, (hnote p.2).2, hsize]
    exact hs.entry p hp
  · rw [(hnote j).1, (hnote j).2]
    rcases slots_get?_fill hb with ⟨rfl, rfl⟩ | hb
    · exact ha.later hl
    · exact (hs.engine j b hb).later hl

theorem sound_start (files : Files) (limit : Nat) : Sound f (start files limit) where
  entry p hp := absurd hp List.not_mem_nil
  engine i a ha := by
    have hnone : slots.get? i (start files limit) = none := rfl
    rw [hnone] at ha
    cases ha
  hidden {v v' w w'} _ hw _ set hset := by
    obtain rfl : (files, ([] : NameSet)) = w := by
      cases v with
      | zero => exact Option.some.inj hw
      | succ v => cases hw
    cases hset

end Stencil.SharedFolder
