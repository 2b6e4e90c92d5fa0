import Mathlib.Data.List.Basic
import Stencil.Cache.Flight
import Stencil.Proofs.Cache.Fetch

/-!
# Invariants of fetches in flight

Whatever happens in whatever order, a slot belongs to one key, at most one fetch at a time is making
its value, and once it has a value it keeps it (`Flight.Sound`). A step of a fetch lets its progress
go on, and the cache with it; what such a step must see to is said once (`Flight.Advances`), and then
shown of each kind of step.
-/

namespace Stencil

namespace Cache

variable {α : Type} {c c' : Cache α} {key : String} {slot : Nat}

/-! ### The row of entries -/

/-- The entries stand in the order in which their slots were made, one for each key and no more than
there may be. -/
structure Rowed (c : Cache α) : Prop where
  nodup : c.keys.Nodup
  rising : c.entries.Pairwise fun p q => p.2 < q.2
  opened : ∀ p ∈ c.entries, p.2 < c.cells.size
  bounded : c.size ≤ c.limit
  room : 0 < c.limit

theorem rowed_empty (limit : Nat) : (empty limit : Cache α).Rowed where
  nodup := List.nodup_nil
  rising := List.Pairwise.nil
  opened _ hp := absurd hp List.not_mem_nil
  bounded := Nat.zero_le _
  room := Nat.lt_of_lt_of_le Nat.zero_lt_one (Nat.le_max_right limit 1)

/-- Entries may go. -/
theorem Rowed.of_sublist (h : c.Rowed) (hentries : c'.entries.Sublist c.entries)
    (hsize : c'.cells.size = c.cells.size) (hlimit : c'.limit = c.limit) : c'.Rowed where
  nodup := (hentries.map _).nodup h.nodup
  rising := h.rising.sublist hentries
  opened p hp := hsize ▸ h.opened p (hentries.subset hp)
  bounded := hlimit ▸ Nat.le_trans hentries.length_le h.bounded
  room := hlimit ▸ h.room

theorem key_not_mem_of_slot? (h : c.slot? key = none) : key ∉ c.keys := by
  rw [keys, List.mem_map]
  rintro ⟨p, hp, rfl⟩
  simpa using List.lookup_eq_none_iff.1 h p hp

/-- An entry is found. -/
theorem Rowed.slot?_of_mem (h : c.Rowed) (hp : (key, slot) ∈ c.entries) :
    c.slot? key = some slot := by
  obtain ⟨l1, l2, he⟩ := List.append_of_mem hp
  have hnodup := h.nodup
  rw [keys, he, List.map_append, List.map_cons] at hnodup
  refine List.lookup_eq_some_iff.2 ⟨l1, l2, he, fun p hmem => bne_iff_ne.2 fun hkey => ?_⟩
  exact (List.nodup_append.1 hnodup).2.2 _ (List.mem_map_of_mem hmem) _ List.mem_cons_self hkey.symm

/-- A new entry comes last. -/
theorem Rowed.opened_of_none (h : c.Rowed) (hs : c.slot? key = none) : (c.opened key).Rowed := by
  have hsub : c.trimmed.Sublist c.entries := List.drop_sublist _ _
  rw [Cache.opened, reserve_of_none hs]
  refine ⟨?_, ?_, fun p hp => ?_, ?_, h.room⟩
  · rw [keys, List.map_append]
    refine List.nodup_append.2 ⟨(hsub.map _).nodup h.nodup, List.pairwise_singleton _ _, ?_⟩
    rintro a ha _ hb rfl
    obtain rfl := List.mem_singleton.1 hb
    exact key_not_mem_of_slot? hs ((hsub.map _).subset ha)
  · refine List.pairwise_append.2 ⟨h.rising.sublist hsub, List.pairwise_singleton _ _, ?_⟩
    intro p hp q hq
    obtain rfl := List.mem_singleton.1 hq
    exact h.opened p (hsub.subset hp)
  · rw [Array.size_push]
    rcases List.mem_append.1 hp with hp | hp
    · exact Nat.lt_succ_of_lt (h.opened p (hsub.subset hp))
    · obtain rfl := List.mem_singleton.1 hp
      exact Nat.lt_succ_self _
  · have hbounded := h.bounded
    have hroom := h.room
    simp only [size, trimmed, List.length_append, List.length_drop, List.length_singleton] at *
    omega

/-- What was there is there still. -/
def Keeps (c c' : Cache α) : Prop := ∀ s a, c.value? s = some a → c'.value? s = some a

theorem Keeps.refl (c : Cache α) : c.Keeps c := fun _ _ h => h

theorem Keeps.trans {c'' : Cache α} (h : c.Keeps c') (h' : c'.Keeps c'') : c.Keeps c'' :=
  fun s a hs => h' s a (h s a hs)

/-- What a key that joins finds: an entry that is there, or a new one. -/
theorem Rowed.reserve (h : c.Rowed) (key : String) : (c.reserve key).2.Rowed ∧
    (key, (c.reserve key).1) ∈ (c.reserve key).2.entries ∧
    (∀ s, (c.reserve key).2.value? s = c.value? s) ∧
    c.cells.size ≤ (c.reserve key).2.cells.size ∧ (c.reserve key).2.limit = c.limit ∧
    ∀ p ∈ (c.reserve key).2.entries,
      p ∈ c.entries ∨ p = (key, c.cells.size) ∧ c.cells.size < (c.reserve key).2.cells.size := by
  cases hs : c.slot? key with
  | some slot =>
    have hmem := mem_entries_of_slot? hs
    have hsame : (c.reserve key).1 = slot ∧ (c.reserve key).2.entries = c.entries ∧
        (c.reserve key).2.cells = c.cells ∧ (c.reserve key).2.limit = c.limit := by
      simp only [Cache.reserve, hs]
      split <;> simp
    obtain ⟨hslot, hentries, hcells, hlimit⟩ := hsame
    refine ⟨h.of_sublist (hentries ▸ List.Sublist.refl _) (by rw [hcells]) hlimit, ?_, fun s => ?_,
      Nat.le_of_eq (by rw [hcells]), hlimit, fun p hp => .inl (hentries ▸ hp)⟩
    · rw [hslot, hentries]
      exact hmem
    · rw [value?, hcells, value?]
  | none =>
    have hsize : c.cells.size < (c.opened key).cells.size := by
      rw [cells_opened hs, Array.size_push]
      exact Nat.lt_succ_self _
    have hslot : (c.reserve key).1 = c.cells.size := by rw [reserve_of_none hs]
    refine ⟨h.opened_of_none hs, ?_, value?_opened hs, Nat.le_of_lt hsize, ?_, fun p hp => ?_⟩
    · rw [hslot]
      exact mem_entries_of_slot? (slot?_opened hs)
    · rw [reserve_of_none hs]
    · exact (mem_entries_opened hs hp).imp_right fun he => ⟨he, hsize⟩

end Cache

namespace Flight

/-! ### Progress of one fetch -/

section Progress

variable {C : Type → Type} {α : Type} {fl : Flight C α} {i j : Nat} {f g : Fetch α} {p : Progress α}

theorem getElem?_setProgress_self (hi : fl.fetches[i]? = some f) :
    (fl.setProgress i p).fetches[i]? = some { f with progress := p } := by
  rw [setProgress, List.getElem?_modify, hi]
  simp

theorem getElem?_setProgress_of_ne (h : j ≠ i) :
    (fl.setProgress i p).fetches[j]? = fl.fetches[j]? := by
  rw [setProgress, List.getElem?_modify]
  simp [Ne.symm h]

/-- A fetch is the one that went on, or another one. -/
theorem cases_of_getElem?_setProgress (hi : fl.fetches[i]? = some f)
    (h : (fl.setProgress i p).fetches[j]? = some g) :
    j = i ∧ g = { f with progress := p } ∨ j ≠ i ∧ fl.fetches[j]? = some g := by
  by_cases hj : j = i
  · subst hj
    rw [getElem?_setProgress_self hi] at h
    exact .inl ⟨rfl, (Option.some.inj h).symm⟩
  · exact .inr ⟨hj, getElem?_setProgress_of_ne hj ▸ h⟩

/-- Fetches that have come to different points are different. -/
theorem ne_of_progress_ne (hi : fl.fetches[i]? = some f) (hj : fl.fetches[j]? = some g)
    (h : g.progress ≠ f.progress) : j ≠ i := by
  rintro rfl
  exact h (congrArg Fetch.progress (Option.some.inj (hj.symm.trans hi)))

end Progress

/-! ### Steps -/

section Steps

variable {C : Type → Type} [Caching C] {α : Type} {fl : Flight C α} {i slot : Nat} {f : Fetch α}

theorem poll_of_none (hi : fl.fetches[i]? = none) : fl.poll i = fl := by rw [poll, hi]

section

variable (hi : fl.fetches[i]? = some f)
include hi

theorem poll_of_refused (hf : f.progress = .fresh) (hkey : f.key = "") :
    fl.poll i = fl.setProgress i (.done none (.error (.problem (.missingArgument "key")))) := by
  simp only [poll, hi, hf, hkey, if_true]

theorem poll_of_fresh (hf : f.progress = .fresh) (hkey : f.key ≠ "") :
    fl.poll i = (fl.join i f.key).turnTo i (Caching.reserve fl.cache f.key).1 := by
  simp only [poll, hi, hf, hkey, if_false]

theorem poll_of_waiting (hf : f.progress = .waiting slot) : fl.poll i = fl.turnTo i slot := by
  simp only [poll, hi, hf]

theorem poll_of_making (hf : f.progress = .making slot) : fl.poll i = fl.finish i slot f := by
  simp only [poll, hi, hf]

theorem poll_of_done {s : Option Nat} {r : Except Fault α} (hf : f.progress = .done s r) :
    fl.poll i = fl := by
  simp only [poll, hi, hf]

end

theorem turnTo_of_value {a : α} (h : Caching.value? fl.cache slot = some a) :
    fl.turnTo i slot = fl.setProgress i (.done slot (.ok a)) := by
  rw [turnTo, h]

theorem makes_eq_true_iff : makes slot f = true ↔ f.progress = .making slot := by
  unfold makes
  split
  · rename_i s hs
    rw [hs, beq_iff_eq, Progress.making.injEq]
  · rename_i hne
    exact ⟨fun h => absurd h Bool.false_ne_true, fun h => absurd h (hne slot)⟩

theorem turnTo_of_maker {j : Nat} {g : Fetch α} (h : Caching.value? fl.cache slot = none)
    (hj : fl.fetches[j]? = some g) (hg : g.progress = .making slot) :
    fl.turnTo i slot = fl.setProgress i (.waiting slot) := by
  have hany : fl.fetches.any (makes slot) = true :=
    List.any_eq_true.2 ⟨g, List.mem_of_getElem? hj, makes_eq_true_iff.2 hg⟩
  simp only [turnTo, h, hany, if_true]

theorem turnTo_of_no_maker (h : Caching.value? fl.cache slot = none)
    (hno : ∀ (j : Nat) (g : Fetch α), fl.fetches[j]? = some g → g.progress ≠ .making slot) :
    fl.turnTo i slot = { fl.setProgress i (.making slot) with begun := fl.begun + 1 } := by
  have hany : fl.fetches.any (makes slot) = false := by
    refine List.any_eq_false.2 fun g hg hmakes => ?_
    obtain ⟨j, hj⟩ := List.getElem?_of_mem hg
    exact hno j g hj (makes_eq_true_iff.1 hmakes)
  simp only [turnTo, h, hany, if_neg Bool.false_ne_true]

/-- A fetch that turns to its slot takes the value, waits for the one that is making it, or begins to
make it. -/
theorem turnTo_cases (fl : Flight C α) (i slot : Nat) :
    (∃ a, Caching.value? fl.cache slot = some a ∧
      fl.turnTo i slot = fl.setProgress i (.done slot (.ok a))) ∨
    (Caching.value? fl.cache slot = none ∧
      (∃ (j : Nat) (g : Fetch α), fl.fetches[j]? = some g ∧ g.progress = .making slot) ∧
      fl.turnTo i slot = fl.setProgress i (.waiting slot)) ∨
    (Caching.value? fl.cache slot = none ∧
      (∀ (j : Nat) (g : Fetch α), fl.fetches[j]? = some g → g.progress ≠ .making slot) ∧
      fl.turnTo i slot = { fl.setProgress i (.making slot) with begun := fl.begun + 1 }) := by
  cases h : Caching.value? fl.cache slot with
  | some a => exact .inl ⟨a, rfl, turnTo_of_value h⟩
  | none =>
    by_cases hm : ∃ (j : Nat) (g : Fetch α), fl.fetches[j]? = some g ∧ g.progress = .making slot
    · obtain ⟨j, g, hj, hg⟩ := hm
      exact .inr (.inl ⟨rfl, ⟨j, g, hj, hg⟩, turnTo_of_maker h hj hg⟩)
    · have hno (j : Nat) (g : Fetch α) (hj : fl.fetches[j]? = some g) : g.progress ≠ .making slot :=
        fun hg => hm ⟨j, g, hj, hg⟩
      exact .inr (.inr ⟨rfl, hno, turnTo_of_no_maker h hno⟩)

/-- Turning to a slot leaves the cache alone. -/
theorem cache_turnTo (fl : Flight C α) (i slot : Nat) : (fl.turnTo i slot).cache = fl.cache := by
  rcases turnTo_cases fl i slot with ⟨a, -, h⟩ | ⟨-, -, h⟩ | ⟨-, -, h⟩ <;> rw [h] <;> rfl

theorem finish_of_ok {a : α} (hf : f.outcome = .ok a) : fl.finish i slot f =
    { fl.setProgress i (.done slot (.ok a)) with cache := Caching.fill fl.cache slot a } := by
  simp only [finish, hf]

theorem finish_of_error {e : Fault} (hf : f.outcome = .error e) : fl.finish i slot f =
    { fl.setProgress i (.done slot (.error e)) with cache := Caching.discard fl.cache f.key slot } := by
  simp only [finish, hf]

theorem after_append (fl : Flight C α) (events events' : List Event) :
    fl.after (events ++ events') = (fl.after events).after events' :=
  List.foldl_append

end Steps

/-! ### Soundness -/

variable {α : Type} {fl : Flight Cache α} {i : Nat} {f : Fetch α} {p : Progress α} {c : Cache α}

/-- The slot is the entry of the key, or a fetch of the key has turned to it. -/
def Belongs (fl : Flight Cache α) (s : Nat) (key : String) : Prop :=
  (key, s) ∈ fl.cache.entries ∨
    ∃ (i : Nat) (f : Fetch α), fl.fetches[i]? = some f ∧ f.progress.slot? = some s ∧ f.key = key

/-- What holds of fetches in flight all the time. -/
structure Sound (fl : Flight Cache α) : Prop where
  rowed : fl.cache.Rowed
  /-- A slot belongs to one key. -/
  single : ∀ s key key', fl.Belongs s key → fl.Belongs s key' → key = key'
  /-- A slot that belongs to a key was made for it. -/
  opened : ∀ s key, fl.Belongs s key → s < fl.cache.cells.size ∧ key ≠ ""
  /-- One fetch at a time makes the value of a slot. -/
  maker : ∀ (i j : Nat) (f g : Fetch α) (s : Nat), fl.fetches[i]? = some f → f.progress = .making s →
    fl.fetches[j]? = some g → g.progress = .making s → i = j
  /-- As long as a value is being made the slot has none. -/
  unfilled : ∀ (i : Nat) (f : Fetch α) (s : Nat), fl.fetches[i]? = some f → f.progress = .making s →
    fl.cache.value? s = none
  /-- A value was made by a fetch that had turned to the slot. -/
  origin : ∀ s a, fl.cache.value? s = some a →
    ∃ (i : Nat) (f : Fetch α), fl.fetches[i]? = some f ∧
      f.progress = .done (some s) (.ok a) ∧ f.outcome = .ok a
  /-- A fetch gives the value of its slot. -/
  given : ∀ (i : Nat) (f : Fetch α) (slot : Option Nat) (a : α), fl.fetches[i]? = some f →
    f.progress = .done slot (.ok a) → ∃ s, slot = some s ∧ fl.cache.value? s = some a

theorem sound_start (limit : Nat) (fetches : List (String × Except Fault α)) :
    Sound (start (Cache.empty limit) fetches) := by
  have hfresh {i : Nat} {f : Fetch α} (hi : (start (Cache.empty limit) fetches).fetches[i]? = some f) :
      f.progress = .fresh := by
    obtain ⟨q, -, rfl⟩ := List.mem_map.1 (List.mem_of_getElem? hi)
    rfl
  have hnone (s : Nat) (key : String) : ¬ (start (Cache.empty limit) fetches).Belongs s key := by
    rintro (h | ⟨i, f, hi, hs, -⟩)
    · exact absurd h List.not_mem_nil
    · rw [hfresh hi] at hs
      cases hs
  refine ⟨Cache.rowed_empty limit, fun s key _ h => absurd h (hnone s key),
    fun s key h => absurd h (hnone s key), ?_, ?_, fun s a h => ?_, ?_⟩
  · intro i j f g s hi hf
    cases (hfresh hi).symm.trans hf
  · intro i f s hi hf
    cases (hfresh hi).symm.trans hf
  · cases h
  · intro i f slot a hi hf
    cases (hfresh hi).symm.trans hf

/-- What a step of a fetch sees to, that lets it go on to another progress and the cache to another
cache. -/
structure Advances (fl : Flight Cache α) (f : Fetch α) (p : Progress α) (c : Cache α) : Prop where
  rowed : c.Rowed
  underway : ∀ slot r, f.progress ≠ .done slot r
  grows : fl.cache.cells.size ≤ c.cells.size
  limit : c.limit = fl.cache.limit
  /-- The only new entry may be one for the key of the fetch. -/
  entries : ∀ q ∈ c.entries, q ∈ fl.cache.entries ∨
    q = (f.key, fl.cache.cells.size) ∧ fl.cache.cells.size < c.cells.size ∧ f.key ≠ ""
  /-- The fetch stays with its slot, or turns to the entry of its key. -/
  slot : ∀ s, p.slot? = some s → f.progress.slot? = some s ∨ (f.key, s) ∈ c.entries
  stays : ∀ s, f.progress.slot? = some s → p.slot? = some s
  kept : fl.cache.Keeps c
  /-- The only new value may be the one that the fetch has made. -/
  filled : ∀ s a, c.value? s = some a → fl.cache.value? s = some a ∨
    f.progress = .making s ∧ p = .done (some s) (.ok a) ∧ f.outcome = .ok a
  making : ∀ s, p = .making s → c.value? s = none ∧
    ∀ (j : Nat) (g : Fetch α), fl.fetches[j]? = some g → g.progress ≠ .making s
  given : ∀ slot a, p = .done slot (.ok a) → ∃ s, slot = some s ∧ c.value? s = some a

/-- **A step keeps soundness.** -/
theorem Sound.advance (h : Sound fl) (hi : fl.fetches[i]? = some f) (ha : Advances fl f p c)
    (begun : Nat) : Sound ⟨c, (fl.setProgress i p).fetches, begun⟩ := by
  -- A slot belongs to whom it belonged before, but for a new one, which belonged to nobody.
  have hbelongs (s : Nat) (key : String)
      (hb : Belongs ⟨c, (fl.setProgress i p).fetches, begun⟩ s key) :
      fl.Belongs s key ∨ s = fl.cache.cells.size ∧ key = f.key ∧
        fl.cache.cells.size < c.cells.size ∧ key ≠ "" := by
    have hentry (hmem : (key, s) ∈ c.entries) : fl.Belongs s key ∨ s = fl.cache.cells.size ∧
        key = f.key ∧ fl.cache.cells.size < c.cells.size ∧ key ≠ "" := by
      rcases ha.entries _ hmem with hmem | ⟨he, hlt, hkey⟩
      · exact .inl (.inl hmem)
      · obtain ⟨rfl, rfl⟩ := Prod.mk.inj he
        exact .inr ⟨rfl, rfl, hlt, hkey⟩
    rcases hb with hmem | ⟨j, g, hj, hs, rfl⟩
    · exact hentry hmem
    · rcases cases_of_getElem?_setProgress hi hj with ⟨rfl, rfl⟩ | ⟨-, hj⟩
      · rcases ha.slot s hs with hs | hmem
        · exact .inl (.inr ⟨_, _, hi, hs, rfl⟩)
        · exact hentry hmem
      · exact .inl (.inr ⟨j, g, hj, hs, rfl⟩)
  have hnew (key : String) : ¬ fl.Belongs fl.cache.cells.size key := fun hb =>
    Nat.lt_irrefl _ (h.opened _ _ hb).1
  refine ⟨ha.rowed, fun s key key' hb hb' => ?_, fun s key hb => ?_, ?_, ?_, fun s a hs => ?_, ?_⟩
  · rcases hbelongs s key hb with hb | ⟨rfl, rfl, -⟩ <;>
      rcases hbelongs _ key' hb' with hb' | ⟨hs, rfl, -⟩
    · exact h.single s key key' hb hb'
    · exact absurd (hs ▸ hb) (hnew key)
    · exact absurd hb' (hnew key')
    · rfl
  · rcases hbelongs s key hb with hb | ⟨rfl, -, hlt, hkey⟩
    · exact ⟨Nat.lt_of_lt_of_le (h.opened s key hb).1 ha.grows, (h.opened s key hb).2⟩
    · exact ⟨hlt, hkey⟩
  · intro j k g g' s hj hg hk hg'
    rcases cases_of_getElem?_setProgress hi hj with ⟨rfl, rfl⟩ | ⟨-, hold⟩ <;>
      rcases cases_of_getElem?_setProgress hi hk with ⟨rfl, rfl⟩ | ⟨-, hold'⟩
    · rfl
    · exact absurd hg' ((ha.making s hg).2 _ _ hold')
    · exact absurd hg ((ha.making s hg').2 _ _ hold)
    · exact h.maker j k g g' s hold hg hold' hg'
  · intro j g s hj hg
    rcases cases_of_getElem?_setProgress hi hj with ⟨rfl, rfl⟩ | ⟨hne, hj⟩
    · exact (ha.making s hg).1
    · refine Option.eq_none_iff_forall_ne_some.2 fun a hs => ?_
      rcases ha.filled s a hs with hs | ⟨hf, -⟩
      · cases (h.unfilled j g s hj hg).symm.trans hs
      · exact hne (h.maker j i g f s hj hg hi hf)
  · rcases ha.filled s a hs with hs | ⟨hf, rfl, hout⟩
    · obtain ⟨j, g, hj, hg, hout⟩ := h.origin s a hs
      have hne : j ≠ i := ne_of_progress_ne hi hj fun he => ha.underway _ _ (he.symm.trans hg)
      exact ⟨j, g, (getElem?_setProgress_of_ne hne).trans hj, hg, hout⟩
    · exact ⟨i, _, getElem?_setProgress_self hi, rfl, hout⟩
  · intro j g slot a hj hg
    rcases cases_of_getElem?_setProgress hi hj with ⟨rfl, rfl⟩ | ⟨-, hj⟩
    · exact ha.given slot a hg
    · obtain ⟨s, rfl, hs⟩ := h.given j g slot a hj hg
      exact ⟨s, rfl, ha.kept s a hs⟩

/-- Slots keep their values, and fetches stay with their slots. -/
structure Later (fl fl' : Flight Cache α) : Prop where
  limit : fl'.cache.limit = fl.cache.limit
  kept : fl.cache.Keeps fl'.cache
  stays : ∀ (i : Nat) (f : Fetch α) (s : Nat), fl.fetches[i]? = some f → f.progress.slot? = some s →
    ∃ g, fl'.fetches[i]? = some g ∧ g.progress.slot? = some s

theorem later_of_eq {fl' : Flight Cache α} (hfetches : fl'.fetches = fl.fetches)
    (hcells : fl'.cache.cells = fl.cache.cells) (hlimit : fl'.cache.limit = fl.cache.limit) :
    Later fl fl' where
  limit := hlimit
  kept s a hs := by rwa [Cache.value?, hcells]
  stays i f s hi hs := ⟨f, hfetches ▸ hi, hs⟩

theorem Later.trans {fl' fl'' : Flight Cache α} (h : Later fl fl') (h' : Later fl' fl'') :
    Later fl fl'' where
  limit := h'.limit.trans h.limit
  kept := h.kept.trans h'.kept
  stays i f s hi hs :=
    let ⟨g, hg, hs⟩ := h.stays i f s hi hs
    h'.stays i g s hg hs

theorem Advances.later (hi : fl.fetches[i]? = some f) (ha : Advances fl f p c) (begun : Nat) :
    Later fl ⟨c, (fl.setProgress i p).fetches, begun⟩ where
  limit := ha.limit
  kept := ha.kept
  stays j g s hj hs := by
    by_cases hne : j = i
    · subst hne
      obtain rfl := Option.some.inj (hj.symm.trans hi)
      exact ⟨_, getElem?_setProgress_self hi, ha.stays s hs⟩
    · exact ⟨g, (getElem?_setProgress_of_ne hne).trans hj, hs⟩

/-- Entries may be dropped from outside. -/
theorem Sound.of_sublist (h : Sound fl) (hentries : c.entries.Sublist fl.cache.entries)
    (hcells : c.cells = fl.cache.cells) (hlimit : c.limit = fl.cache.limit) :
    Sound { fl with cache := c } := by
  have hvalue (s : Nat) : c.value? s = fl.cache.value? s := by
    rw [Cache.value?, hcells, Cache.value?]
  have hbelongs (s : Nat) (key : String) (hb : Belongs { fl with cache := c } s key) :
      fl.Belongs s key := hb.imp_left fun hmem => hentries.subset hmem
  refine ⟨h.rowed.of_sublist hentries (by rw [hcells]) hlimit,
    fun s key key' hb hb' => h.single s key key' (hbelongs s key hb) (hbelongs s key' hb'),
    fun s key hb => hcells ▸ h.opened s key (hbelongs s key hb), h.maker, ?_, ?_, ?_⟩
  · intro i f s hi hf
    rw [hvalue]
    exact h.unfilled i f s hi hf
  · intro s a hs
    rw [hvalue] at hs
    exact h.origin s a hs
  · intro i f slot a hi hf
    obtain ⟨s, rfl, hs⟩ := h.given i f slot a hi hf
    exact ⟨s, rfl, (hvalue s).trans hs⟩

section Advances

variable (h : Sound fl)
include h

/-- A step that leaves the cache alone. -/
theorem advances_self (hunderway : ∀ slot r, f.progress ≠ .done slot r)
    (hslot : p.slot? = f.progress.slot?)
    (hmaking : ∀ s, p = .making s → fl.cache.value? s = none ∧
      ∀ (j : Nat) (g : Fetch α), fl.fetches[j]? = some g → g.progress ≠ .making s)
    (hgiven : ∀ slot a, p = .done slot (.ok a) → ∃ s, slot = some s ∧ fl.cache.value? s = some a) :
    Advances fl f p fl.cache where
  rowed := h.rowed
  underway := hunderway
  grows := Nat.le_refl _
  limit := rfl
  entries _ hq := .inl hq
  slot _ hs := .inl (hslot ▸ hs)
  stays _ hs := hslot.trans hs
  kept := Cache.Keeps.refl _
  filled _ _ hs := .inl hs
  making := hmaking
  given := hgiven

theorem advances_refuse (hf : f.progress = .fresh) (e : Fault) :
    Advances fl f (.done none (.error e)) fl.cache := by
  refine advances_self h (fun slot r he => ?_) ?_ (fun s he => ?_) (fun slot a he => ?_)
  · cases hf.symm.trans he
  · rw [hf]
    rfl
  · cases he
  · cases he

theorem advances_join (hf : f.progress = .fresh) (hkey : f.key ≠ "") :
    Advances fl f (.waiting (fl.cache.reserve f.key).1) (fl.cache.reserve f.key).2 := by
  obtain ⟨hrowed, hmem, hvalue, hgrows, hlimit, hentries⟩ := h.rowed.reserve f.key
  refine ⟨hrowed, fun slot r he => ?_, hgrows, hlimit, fun q hq => ?_, fun s hs => ?_, fun s hs => ?_,
    fun s a hs => ?_, fun s a hs => ?_, fun s he => ?_, fun slot a he => ?_⟩
  · cases hf.symm.trans he
  · exact (hentries q hq).imp_right fun ⟨he, hlt⟩ => ⟨he, hlt, hkey⟩
  · obtain rfl := Option.some.inj hs
    exact .inr hmem
  · rw [hf] at hs
    cases hs
  · exact (hvalue s).trans hs
  · exact .inl ((hvalue s).symm.trans hs)
  · cases he
  · cases he

variable {slot : Nat} {a : α}

theorem advances_take (hf : f.progress = .waiting slot) (hs : fl.cache.value? slot = some a) :
    Advances fl f (.done slot (.ok a)) fl.cache := by
  refine advances_self h (fun slot r he => ?_) ?_ (fun s he => ?_) (fun slot' a' he => ?_)
  · cases hf.symm.trans he
  · rw [hf]
    rfl
  · cases he
  · obtain ⟨rfl, hok⟩ := Progress.done.inj he
    obtain rfl := Except.ok.inj hok
    exact ⟨slot, rfl, hs⟩

theorem advances_wait (hf : f.progress = .waiting slot) :
    Advances fl f (.waiting slot) fl.cache := by
  refine advances_self h (fun slot r he => ?_) ?_ (fun s he => ?_) (fun slot a he => ?_)
  · cases hf.symm.trans he
  · rw [hf]
  · cases he
  · cases he

theorem advances_make (hf : f.progress = .waiting slot) (hs : fl.cache.value? slot = none)
    (hno : ∀ (j : Nat) (g : Fetch α), fl.fetches[j]? = some g → g.progress ≠ .making slot) :
    Advances fl f (.making slot) fl.cache := by
  refine advances_self h (fun slot r he => ?_) ?_ (fun s he => ?_) (fun slot a he => ?_)
  · cases hf.symm.trans he
  · rw [hf]
    rfl
  · obtain rfl := Progress.making.inj he
    exact ⟨hs, hno⟩
  · cases he

theorem advances_fill (hi : fl.fetches[i]? = some f) (hf : f.progress = .making slot)
    (hout : f.outcome = .ok a) :
    Advances fl f (.done slot (.ok a)) (fl.cache.fill slot a) := by
  have hlt : slot < fl.cache.cells.size :=
    (h.opened slot f.key (.inr ⟨i, f, hi, by rw [hf]; rfl, rfl⟩)).1
  have hsize : (fl.cache.fill slot a).cells.size = fl.cache.cells.size := Array.size_setIfInBounds
  have hself : (fl.cache.fill slot a).value? slot = some a := cellValue?_set_self hlt
  refine ⟨h.rowed.of_sublist (List.Sublist.refl _) hsize rfl, fun slot r he => ?_,
    Nat.le_of_eq hsize.symm, rfl, fun q hq => .inl hq, fun s hs => ?_, fun s hs => ?_, fun s b hs => ?_,
    fun s b hs => ?_, fun s he => ?_, fun slot' b he => ?_⟩
  · cases hf.symm.trans he
  · rw [hf]
    exact .inl hs
  · rw [hf] at hs
    exact hs
  · have hne : s ≠ slot := by
      rintro rfl
      cases (h.unfilled i f s hi hf).symm.trans hs
    exact (cellValue?_set_of_ne hne).trans hs
  · rcases cellValue?_set_cases hs with ⟨rfl, rfl⟩ | ⟨-, hs⟩
    · exact .inr ⟨hf, rfl, hout⟩
    · exact .inl hs
  · cases he
  · obtain ⟨rfl, hok⟩ := Progress.done.inj he
    obtain rfl := Except.ok.inj hok
    exact ⟨slot, rfl, hself⟩

theorem advances_discard (hf : f.progress = .making slot) (e : Fault) :
    Advances fl f (.done slot (.error e)) (fl.cache.discard f.key slot) := by
  have hsame : (fl.cache.discard f.key slot).entries.Sublist fl.cache.entries ∧
      (fl.cache.discard f.key slot).cells = fl.cache.cells ∧
      (fl.cache.discard f.key slot).limit = fl.cache.limit := by
    rw [Cache.discard]
    split
    · exact ⟨List.filter_sublist, rfl, rfl⟩
    · exact ⟨List.Sublist.refl _, rfl, rfl⟩
  obtain ⟨hentries, hcells, hlimit⟩ := hsame
  have hvalue (s : Nat) : (fl.cache.discard f.key slot).value? s = fl.cache.value? s := by
    rw [Cache.value?, hcells, Cache.value?]
  refine ⟨h.rowed.of_sublist hentries (by rw [hcells]) hlimit, fun slot r he => ?_,
    Nat.le_of_eq (by rw [hcells]), hlimit, fun q hq => .inl (hentries.subset hq), fun s hs => ?_,
    fun s hs => ?_, fun s b hs => (hvalue s).trans hs, fun s b hs => .inl ((hvalue s).symm.trans hs),
    fun s he => ?_, fun slot' b he => ?_⟩
  · cases hf.symm.trans he
  · rw [hf]
    exact .inl hs
  · rw [hf] at hs
    exact hs
  · cases he
  · cases (Progress.done.inj he).2

end Advances

/-! ### Runs -/

theorem Sound.turnTo {slot : Nat} (h : Sound fl) (hi : fl.fetches[i]? = some f)
    (hf : f.progress = .waiting slot) : Sound (fl.turnTo i slot) ∧ Later fl (fl.turnTo i slot) := by
  rcases turnTo_cases fl i slot with ⟨a, hs, he⟩ | ⟨-, -, he⟩ | ⟨hs, hno, he⟩
  · have ha := advances_take h hf hs
    exact he ▸ ⟨h.advance hi ha _, ha.later hi _⟩
  · have ha := advances_wait h hf
    exact he ▸ ⟨h.advance hi ha _, ha.later hi _⟩
  · have ha := advances_make h hf hs hno
    exact he ▸ ⟨h.advance hi ha _, ha.later hi _⟩

theorem Sound.poll (h : Sound fl) (i : Nat) : Sound (fl.poll i) ∧ Later fl (fl.poll i) := by
  cases hi : fl.fetches[i]? with
  | none =>
    rw [poll_of_none hi]
    exact ⟨h, later_of_eq rfl rfl rfl⟩
  | some f =>
    cases hf : f.progress with
    | fresh =>
      by_cases hkey : f.key = ""
      · have ha := advances_refuse h hf (.problem (.missingArgument "key"))
        rw [poll_of_refused hi hf hkey]
        exact ⟨h.advance hi ha _, ha.later hi _⟩
      · have ha := advances_join h hf hkey
        obtain ⟨hsound, hlater⟩ := (h.advance hi ha fl.begun).turnTo (getElem?_setProgress_self hi) rfl
        rw [poll_of_fresh hi hf hkey]
        exact ⟨hsound, (ha.later hi _).trans hlater⟩
    | waiting slot =>
      rw [poll_of_waiting hi hf]
      exact h.turnTo hi hf
    | making slot =>
      rw [poll_of_making hi hf]
      cases hout : f.outcome with
      | ok a =>
        have ha := advances_fill h hi hf hout
        rw [finish_of_ok hout]
        exact ⟨h.advance hi ha _, ha.later hi _⟩
      | error e =>
        have ha := advances_discard h hf e
        rw [finish_of_error hout]
        exact ⟨h.advance hi ha _, ha.later hi _⟩
    | done slot r =>
      rw [poll_of_done hi hf]
      exact ⟨h, later_of_eq rfl rfl rfl⟩

theorem Sound.act (h : Sound fl) (e : Event) : Sound (fl.act e) ∧ Later fl (fl.act e) := by
  cases e with
  | poll i => exact h.poll i
  | invalidate key => exact ⟨h.of_sublist List.filter_sublist rfl rfl, later_of_eq rfl rfl rfl⟩
  | clear => exact ⟨h.of_sublist (List.nil_sublist _) rfl rfl, later_of_eq rfl rfl rfl⟩

/-- **Whatever happens**, fetches in flight stay sound. -/
theorem Sound.after (h : Sound fl) (events : List Event) :
    Sound (fl.after events) ∧ Later fl (fl.after events) := by
  induction events generalizing fl with
  | nil => exact ⟨h, later_of_eq rfl rfl rfl⟩
  | cons e events ih =>
    obtain ⟨hact, hlater⟩ := h.act e
    obtain ⟨hafter, hlaters⟩ := ih hact
    exact ⟨hafter, hlater.trans hlaters⟩

end Flight

end Stencil
