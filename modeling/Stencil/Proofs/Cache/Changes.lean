import Mathlib.Data.List.Basic
import Stencil.Proofs.Cache.Indexed

/-!
# What happens to the entries of a cache

Fetches may be under way on an indexed cache, and entries may be dropped from outside, in any order.
`Flight.Change` lists all that one event can do to the map and the row: a key that comes in is put
last, and only when there is no room for it the front goes; a fetch that fails drops no other entry
than the one of its own slot. `Flight.coupled_after` is what holds after any events.
-/

namespace Stencil

variable {α : Type}

namespace IndexedCache

variable {c : IndexedCache α} {order : List String} {entries : NameMap Nat} {limit : Nat}
  {key oldest : String}

theorem makeRoom_of_lt (order : List String) (h : entries.length < limit) :
    makeRoom limit order entries = (order, entries) := by
  cases order with
  | nil => rfl
  | cons oldest rest => rw [makeRoom, if_neg (Nat.not_le.2 h)]

/-- From a row that is full just the front goes. -/
theorem makeRoom_of_full {rest : List String} (h : InStep (oldest :: rest) entries)
    (hfull : (oldest :: rest).length = limit) :
    makeRoom limit (oldest :: rest) entries = (rest, NameMap.erase entries oldest) := by
  have hroom : (NameMap.erase entries oldest).length < limit := by
    rw [h.tail.length_eq, ← hfull]
    exact Nat.lt_succ_self _
  rw [makeRoom, if_pos (Nat.le_of_eq (hfull.symm.trans h.length_eq.symm)), makeRoom_of_lt rest hroom]

theorem reserve_of_some {slot : Nat} (h : NameMap.get? c.entries key = some slot) :
    (c.reserve key).2.order = c.order ∧ (c.reserve key).2.entries = c.entries ∧
      (c.reserve key).2.cells = c.cells := by
  rw [reserve, h]
  simp only
  split <;> exact ⟨rfl, rfl, rfl⟩

theorem reserve_of_makeRoom {order' : List String} {entries' : NameMap Nat}
    (h : NameMap.get? c.entries key = none)
    (hroom : makeRoom c.limit c.order c.entries = (order', entries')) :
    (c.reserve key).2.order = order' ++ [key] ∧
      (c.reserve key).2.entries = NameMap.insert entries' key c.cells.size ∧
      (c.reserve key).2.cells.size = c.cells.size + 1 := by
  rw [reserve, h, hroom]
  exact ⟨rfl, rfl, Array.size_push _⟩

end IndexedCache

namespace Flight

variable {fl : Flight IndexedCache α} {i : Nat} {f : Fetch α}

/-! ### One event -/

/-- In its next step the fetch brings in a key. -/
def Opens (fl : Flight IndexedCache α) (i : Nat) (key : String) : Prop :=
  ∃ f, fl.fetches[i]? = some f ∧ f.progress = .fresh ∧ f.key = key ∧ key ≠ "" ∧
    key ∉ fl.cache.order

/-- In its next step the fetch fails, and its slot is the entry of its key. -/
def GivesUp (fl : Flight IndexedCache α) (i : Nat) (key : String) (slot : Nat) : Prop :=
  ∃ f e, fl.fetches[i]? = some f ∧ f.progress = .making slot ∧ f.outcome = .error e ∧ f.key = key ∧
    NameMap.get? fl.cache.entries key = some slot

/-- What an event does to the two containers, and to the number of slots. -/
inductive Change (fl fl' : Flight IndexedCache α) : Event → Prop where
  /-- A key comes in and there is room for it. -/
  | inserted {i : Nat} {key : String} (opens : fl.Opens i key)
    (room : fl.cache.order.length < fl.cache.limit)
    (order : fl'.cache.order = fl.cache.order ++ [key])
    (entries : fl'.cache.entries = NameMap.insert fl.cache.entries key fl.cache.cells.size)
    (slots : fl'.cache.cells.size = fl.cache.cells.size + 1) : Change fl fl' (.poll i)
  /-- A key comes in, the cache is full, and the front goes. -/
  | replaced {i : Nat} {key oldest : String} {rest : List String} (opens : fl.Opens i key)
    (front : fl.cache.order = oldest :: rest) (full : fl.cache.order.length = fl.cache.limit)
    (order : fl'.cache.order = rest ++ [key])
    (entries : fl'.cache.entries =
      NameMap.insert (NameMap.erase fl.cache.entries oldest) key fl.cache.cells.size)
    (slots : fl'.cache.cells.size = fl.cache.cells.size + 1) : Change fl fl' (.poll i)
  /-- A fetch fails and takes its own entry with it, which has no value. -/
  | discarded {i : Nat} {key : String} {slot : Nat} (givesUp : fl.GivesUp i key slot)
    (unfilled : fl.cache.value? slot = none)
    (order : fl'.cache.order = fl.cache.order.filter (· != key))
    (entries : fl'.cache.entries = NameMap.erase fl.cache.entries key)
    (slots : fl'.cache.cells.size = fl.cache.cells.size) : Change fl fl' (.poll i)
  /-- No other step of a fetch does anything to the containers. -/
  | kept {i : Nat} (opens : ∀ key, ¬ fl.Opens i key) (givesUp : ∀ key slot, ¬ fl.GivesUp i key slot)
    (order : fl'.cache.order = fl.cache.order) (entries : fl'.cache.entries = fl.cache.entries)
    (slots : fl'.cache.cells.size = fl.cache.cells.size) : Change fl fl' (.poll i)
  | invalidated (key : String) (order : fl'.cache.order = fl.cache.order.filter (· != key))
    (entries : fl'.cache.entries = NameMap.erase fl.cache.entries key)
    (slots : fl'.cache.cells.size = fl.cache.cells.size) : Change fl fl' (.invalidate key)
  | cleared (order : fl'.cache.order = []) (entries : fl'.cache.entries = [])
    (slots : fl'.cache.cells.size = fl.cache.cells.size) : Change fl fl' .clear

/-- A key joins. -/
theorem change_fresh (h : fl.Abreast) (hs : fl.merged.Sound) (hi : fl.fetches[i]? = some f)
    (hf : f.progress = .fresh) (hkey : f.key ≠ "") : Change fl (fl.poll i) (.poll i) := by
  have hcache : (fl.poll i).cache = (fl.cache.reserve f.key).2 := by
    rw [poll_of_fresh hi hf hkey, cache_turnTo]
    rfl
  cases hget : NameMap.get? fl.cache.entries f.key with
  | some slot =>
    obtain ⟨horder, hentries, hcells⟩ := IndexedCache.reserve_of_some hget
    refine .kept ?_ ?_ (hcache ▸ horder) (hcache ▸ hentries) (by rw [hcache, hcells])
    · rintro key ⟨g, hg, -, rfl, -, hnew⟩
      obtain rfl := Option.some.inj (hi.symm.trans hg)
      exact hnew ((h.mem_iff f.key).2 ⟨slot, hget⟩)
    · rintro key slot ⟨g, e, hg, hprogress, -⟩
      obtain rfl := Option.some.inj (hi.symm.trans hg)
      cases hf.symm.trans hprogress
  | none =>
    have hnew : f.key ∉ fl.cache.order := by
      intro hmem
      obtain ⟨slot, hslot⟩ := (h.mem_iff f.key).1 hmem
      cases hget.symm.trans hslot
    have hopens : fl.Opens i f.key := ⟨f, hi, hf, rfl, hkey, hnew⟩
    have hbounded : fl.cache.order.length ≤ fl.cache.limit := by
      simpa [merged, IndexedCache.toCache, Cache.size] using hs.rowed.bounded
    rcases Nat.lt_or_eq_of_le hbounded with hroom | hfull
    · obtain ⟨horder, hentries, hsize⟩ := IndexedCache.reserve_of_makeRoom hget
        (IndexedCache.makeRoom_of_lt fl.cache.order (h.length_eq ▸ hroom))
      exact .inserted hopens hroom (hcache ▸ horder) (hcache ▸ hentries) (hcache ▸ hsize)
    · cases hfront : fl.cache.order with
      | nil =>
        rw [hfront] at hfull
        exact absurd hfull.symm (Nat.ne_of_gt hs.rowed.room)
      | cons oldest rest =>
        have hmake : IndexedCache.makeRoom fl.cache.limit fl.cache.order fl.cache.entries =
            (rest, NameMap.erase fl.cache.entries oldest) := by
          rw [Abreast, hfront] at h
          rw [hfront] at hfull ⊢
          exact IndexedCache.makeRoom_of_full h hfull
        obtain ⟨horder, hentries, hsize⟩ := IndexedCache.reserve_of_makeRoom hget hmake
        exact .replaced hopens hfront hfull (hcache ▸ horder) (hcache ▸ hentries) (hcache ▸ hsize)

/-- A fetch fails. -/
theorem change_failed {slot : Nat} {e : Fault} (hs : fl.merged.Sound)
    (hi : fl.fetches[i]? = some f) (hf : f.progress = .making slot) (hout : f.outcome = .error e) :
    Change fl (fl.poll i) (.poll i) := by
  have hcache : (fl.poll i).cache = fl.cache.discard f.key slot := by
    rw [poll_of_making hi hf, finish_of_error hout]
    rfl
  have hvalue : fl.cache.value? slot = none := hs.unfilled i f slot hi hf
  by_cases hown : NameMap.get? fl.cache.entries f.key = some slot
  · have hdrop : fl.cache.discard f.key slot = fl.cache.drop f.key := by
      rw [IndexedCache.discard, if_pos ⟨hown, by rw [hvalue]; rfl⟩]
    rw [hdrop] at hcache
    exact .discarded ⟨f, e, hi, hf, hout, rfl, hown⟩ hvalue (by rw [hcache]; rfl) (by rw [hcache]; rfl)
      (by rw [hcache]; rfl)
  · have hsame : fl.cache.discard f.key slot = fl.cache := by
      rw [IndexedCache.discard, if_neg fun h => hown h.1]
    rw [hsame] at hcache
    refine .kept ?_ ?_ (by rw [hcache]) (by rw [hcache]) (by rw [hcache])
    · rintro key ⟨g, hg, hfresh, -⟩
      obtain rfl := Option.some.inj (hi.symm.trans hg)
      cases hf.symm.trans hfresh
    · rintro key slot' ⟨g, e', hg, hmaking, -, rfl, hslot⟩
      obtain rfl := Option.some.inj (hi.symm.trans hg)
      obtain rfl := Progress.making.inj (hf.symm.trans hmaking)
      exact hown hslot

/-- Other steps leave the containers alone. -/
theorem change_kept (hcache : (fl.poll i).cache.order = fl.cache.order ∧
      (fl.poll i).cache.entries = fl.cache.entries ∧
      (fl.poll i).cache.cells.size = fl.cache.cells.size)
    (hfresh : ∀ g, fl.fetches[i]? = some g → g.progress = .fresh → g.key = "")
    (hfails : ∀ g slot e, fl.fetches[i]? = some g → g.progress = .making slot → g.outcome ≠ .error e) :
    Change fl (fl.poll i) (.poll i) := by
  obtain ⟨horder, hentries, hsize⟩ := hcache
  refine .kept ?_ ?_ horder hentries hsize
  · rintro key ⟨g, hg, hf, rfl, hkey, -⟩
    exact hkey (hfresh g hg hf)
  · rintro key slot ⟨g, e, hg, hf, hout, -⟩
    exact hfails g slot e hg hf hout

/-- **What one event does** to the two containers. -/
theorem change_act (h : fl.Abreast) (hs : fl.merged.Sound) (e : Event) : Change fl (fl.act e) e := by
  cases e with
  | invalidate key =>
    by_cases hkey : NameMap.has fl.cache.entries key = true
    · have hdrop : (fl.act (.invalidate key)).cache = fl.cache.drop key := if_pos hkey
      exact .invalidated key (by rw [hdrop]; rfl) (by rw [hdrop]; rfl) (by rw [hdrop]; rfl)
    · have hsame : (fl.act (.invalidate key)).cache = fl.cache := if_neg hkey
      refine .invalidated key ?_ ?_ (by rw [hsame])
      · rw [hsame]
        refine (List.filter_eq_self.2 fun other hmem => bne_iff_ne.2 ?_).symm
        rintro rfl
        exact hkey (NameMap.has_eq_true_iff.2 ((h.mem_iff other).1 hmem))
      · rw [hsame, NameMap.erase_of_has_eq_false (Bool.eq_false_iff.2 hkey)]
  | clear => exact .cleared rfl rfl rfl
  | poll i =>
    show Change fl (fl.poll i) (.poll i)
    cases hi : fl.fetches[i]? with
    | none =>
      refine change_kept (by rw [poll_of_none hi]; exact ⟨rfl, rfl, rfl⟩) ?_ ?_
      · intro g hg
        cases hi.symm.trans hg
      · intro g slot e hg
        cases hi.symm.trans hg
    | some f =>
      have hself {g : Fetch α} (hg : fl.fetches[i]? = some g) : g = f :=
        Option.some.inj (hg.symm.trans hi)
      cases hf : f.progress with
      | fresh =>
        by_cases hkey : f.key = ""
        · refine change_kept (by rw [poll_of_refused hi hf hkey]; exact ⟨rfl, rfl, rfl⟩) ?_ ?_
          · intro g hg _
            exact hself hg ▸ hkey
          · intro g slot e hg hmaking
            cases hf.symm.trans (hself hg ▸ hmaking)
        · exact change_fresh h hs hi hf hkey
      | waiting slot =>
        refine change_kept (by rw [poll_of_waiting hi hf, cache_turnTo]; exact ⟨rfl, rfl, rfl⟩) ?_ ?_
        · intro g hg hfresh
          cases hf.symm.trans (hself hg ▸ hfresh)
        · intro g slot e hg hmaking
          cases hf.symm.trans (hself hg ▸ hmaking)
      | making slot =>
        cases hout : f.outcome with
        | error e => exact change_failed hs hi hf hout
        | ok a =>
          refine change_kept ?_ ?_ ?_
          · rw [poll_of_making hi hf, finish_of_ok hout]
            exact ⟨rfl, rfl, Array.size_setIfInBounds⟩
          · intro g hg hfresh
            cases hf.symm.trans (hself hg ▸ hfresh)
          · intro g slot e hg _ herror
            cases hout.symm.trans (hself hg ▸ herror)
      | done slot r =>
        refine change_kept (by rw [poll_of_done hi hf]; exact ⟨rfl, rfl, rfl⟩) ?_ ?_
        · intro g hg hfresh
          cases hf.symm.trans (hself hg ▸ hfresh)
        · intro g slot e hg hmaking
          cases hf.symm.trans (hself hg ▸ hmaking)

/-! ### All events -/

/-- What holds of the two containers and of the fetches on them. -/
structure Coupled (limit : Nat) (fl : Flight IndexedCache α) : Prop where
  limit_eq : fl.cache.limit = max limit 1
  /-- The row has no key twice, and neither has the map. -/
  nodup : fl.cache.order.Nodup ∧ (NameMap.names fl.cache.entries).Nodup
  /-- The row has the keys of the map. -/
  mem_order : ∀ key, key ∈ fl.cache.order ↔ ∃ slot, NameMap.get? fl.cache.entries key = some slot
  /-- The row has the keys in the order in which their slots were made. -/
  rising : fl.cache.order.Pairwise fun key key' => ∀ s s',
    NameMap.get? fl.cache.entries key = some s → NameMap.get? fl.cache.entries key' = some s' → s < s'
  bounded : fl.cache.entries.length ≤ max limit 1
  /-- Fetches that have turned to the slot of an entry are fetches of its key. -/
  entry : ∀ key s, NameMap.get? fl.cache.entries key = some s →
    ∀ f ∈ fl.fetches, f.progress.slot? = some s → f.key = key
  /-- Fetches that have turned to the same slot are fetches of the same key. -/
  shared : ∀ f ∈ fl.fetches, ∀ g ∈ fl.fetches, ∀ s, f.progress.slot? = some s →
    g.progress.slot? = some s → f.key = g.key
  /-- A value was made by a fetch that had turned to the slot. -/
  origin : ∀ s a, fl.cache.value? s = some a →
    ∃ f ∈ fl.fetches, f.progress = .done (some s) (.ok a) ∧ f.outcome = .ok a
  /-- A fetch gives the value of the slot it has turned to. -/
  given : ∀ f ∈ fl.fetches, ∀ slot a, f.progress = .done slot (.ok a) →
    ∃ s, slot = some s ∧ fl.cache.value? s = some a

theorem Sound.coupled {limit : Nat} (h : fl.Abreast) (hs : fl.merged.Sound)
    (hlimit : fl.cache.limit = max limit 1) : Coupled limit fl := by
  have hbelongs {f : Fetch α} {s : Nat} (hf : f ∈ fl.fetches) (hslot : f.progress.slot? = some s) :
      fl.merged.Belongs s f.key := by
    obtain ⟨i, hi⟩ := List.getElem?_of_mem hf
    exact .inr ⟨i, f, hi, hslot, rfl⟩
  refine ⟨hlimit, ⟨h.nodup, NameMap.nodup_names h.sorted⟩, h.mem_iff, ?_, ?_, ?_, ?_, ?_, ?_⟩
  · refine (List.pairwise_map.1 hs.rowed.rising).imp ?_
    intro key key' hlt s s' hkey hkey'
    simpa [hkey, hkey'] using hlt
  · have hbounded := hs.rowed.bounded
    rw [h.length_eq, ← hlimit]
    simpa [merged, IndexedCache.toCache, Cache.size] using hbounded
  · intro key s hkey f hf hslot
    have hentry : (key, s) ∈ fl.merged.cache.entries :=
      Cache.mem_entries_of_slot? ((IndexedCache.slot?_toCache h key).trans hkey)
    exact hs.single s _ _ (hbelongs hf hslot) (.inl hentry)
  · intro f hf g hg s hslot hslot'
    exact hs.single s _ _ (hbelongs hf hslot) (hbelongs hg hslot')
  · intro s a hvalue
    obtain ⟨i, f, hi, hf, hout⟩ := hs.origin s a hvalue
    exact ⟨f, List.mem_of_getElem? hi, hf, hout⟩
  · intro f hf slot a hdone
    obtain ⟨i, hi⟩ := List.getElem?_of_mem hf
    exact hs.given i f slot a hi hdone

/-- **The two containers stay in step**, whatever happens to the cache, and however many fetches there
are on it. With both containers in one, it is the flight on a cache; one event changes entries only as
listed, takes no value from a slot, and moves no fetch to another slot. -/
theorem coupled_after (limit : Nat) (fetches : List (String × Except Fault α)) (events : List Event)
    (e : Event) :
    let fl := (start (IndexedCache.empty limit) fetches).after events
    fl.merged = (start (Cache.empty limit) fetches).after events ∧ Coupled limit fl ∧
      Change fl (fl.act e) e ∧
      (∀ s a, fl.cache.value? s = some a → (fl.act e).cache.value? s = some a) ∧
      ∀ (i : Nat) (f : Fetch α) (s : Nat), fl.fetches[i]? = some f → f.progress.slot? = some s →
        ∃ g, (fl.act e).fetches[i]? = some g ∧ g.progress.slot? = some s := by
  intro fl
  have hstart : Abreast (start (IndexedCache.empty limit) fetches) := InStep.nil
  obtain ⟨hmerged, habreast⟩ := merged_after hstart events
  obtain ⟨hsound, hlater⟩ := (sound_start limit fetches).after events
  have hs : fl.merged.Sound := hmerged ▸ hsound
  have hlimit : fl.cache.limit = max limit 1 :=
    (congrArg (fun fl => fl.cache.limit) hmerged).trans hlater.limit
  have hact := (hs.act e).2
  rw [← (merged_act habreast e).1] at hact
  exact ⟨hmerged, Sound.coupled habreast hs hlimit, change_act habreast hs e, hact.kept, hact.stays⟩

end Flight

end Stencil
