import Mathlib.Data.List.Basic
import Stencil.Cache.Indexed
import Stencil.Proofs.Cache.Flight
import Stencil.Proofs.NameMap

/-!
# Two containers in step

The map and the row of an indexed cache hold the same keys after every operation (`InStep`), so each
operation does what it does to a cache with both in one (`toCache_reserve`, `toCache_discard`, …), and
so does every event for fetches in flight (`Flight.merged_act`). What the steps of fetches do to the
two containers is listed in `Flight.Change`.
-/

namespace Stencil

variable {α : Type}

/-- A row of keys holds the keys of a map, each once. -/
structure InStep (order : List String) (entries : NameMap Nat) : Prop where
  sorted : entries.Sorted
  nodup : order.Nodup
  mem_iff : ∀ key, key ∈ order ↔ ∃ slot, NameMap.get? entries key = some slot

namespace InStep

variable {order : List String} {entries : NameMap Nat} {key : String}

theorem nil : InStep [] [] where
  sorted := List.Pairwise.nil
  nodup := List.nodup_nil
  mem_iff key := by simp [NameMap.get?]

theorem get?_eq_none (h : InStep order entries) (hkey : key ∉ order) :
    NameMap.get? entries key = none :=
  Option.eq_none_iff_forall_ne_some.2 fun slot hs => hkey ((h.mem_iff key).2 ⟨slot, hs⟩)

theorem length_eq (h : InStep order entries) : entries.length = order.length := by
  have hperm : (NameMap.names entries).Perm order :=
    (List.perm_ext_iff_of_nodup (NameMap.nodup_names h.sorted) h.nodup).2 fun key =>
      NameMap.mem_names_iff.trans (h.mem_iff key).symm
  rw [← hperm.length_eq, NameMap.names, List.length_map]

/-- A key is dropped from both. -/
theorem erase (h : InStep order entries) (key : String) :
    InStep (order.filter (· != key)) (NameMap.erase entries key) where
  sorted := NameMap.sorted_erase h.sorted key
  nodup := h.nodup.filter _
  mem_iff other := by
    rw [List.mem_filter, NameMap.get?_erase, h.mem_iff other, bne_iff_ne]
    by_cases he : other = key <;> simp [he]

/-- The oldest key is dropped from both. -/
theorem tail {oldest : String} (h : InStep (oldest :: order) entries) :
    InStep order (NameMap.erase entries oldest) := by
  have hnew : oldest ∉ order := (List.nodup_cons.1 h.nodup).1
  have hfilter : (oldest :: order).filter (· != oldest) = order := by
    rw [List.filter_cons_of_neg (by simp)]
    exact List.filter_eq_self.2 fun other hmem => bne_iff_ne.2 fun he => hnew (he ▸ hmem)
  exact hfilter ▸ h.erase oldest

/-- A new key comes into both. -/
theorem insert (h : InStep order entries) (hkey : key ∉ order) (slot : Nat) :
    InStep (order ++ [key]) (NameMap.insert entries key slot) where
  sorted := NameMap.sorted_insert h.sorted key slot
  nodup := by
    refine List.nodup_append.2 ⟨h.nodup, List.pairwise_singleton _ _, ?_⟩
    rintro other hmem _ hsame rfl
    exact hkey (List.mem_singleton.1 hsame ▸ hmem)
  mem_iff other := by
    rw [List.mem_append, List.mem_singleton, NameMap.get?_insert, h.mem_iff other]
    by_cases he : other = key <;> simp [he]

/-- Making room drops the oldest keys, as many as are too many for one more, from both. -/
theorem makeRoom (h : InStep order entries) (limit : Nat) :
    (IndexedCache.makeRoom limit order entries).1 = order.drop (order.length + 1 - limit) ∧
    InStep (IndexedCache.makeRoom limit order entries).1 (IndexedCache.makeRoom limit order entries).2 ∧
    ∀ key ∈ (IndexedCache.makeRoom limit order entries).1,
      NameMap.get? (IndexedCache.makeRoom limit order entries).2 key = NameMap.get? entries key := by
  induction order generalizing entries with
  | nil => exact ⟨List.drop_nil.symm, h, fun key hkey => absurd hkey List.not_mem_nil⟩
  | cons oldest rest ih =>
    have hlen := h.length_eq
    rw [List.length_cons] at hlen
    rw [IndexedCache.makeRoom]
    by_cases hfull : limit ≤ entries.length
    · obtain ⟨hdrop, hstep, hget⟩ := ih h.tail
      have hcount : rest.length + 1 + 1 - limit = rest.length + 1 - limit + 1 := by omega
      rw [if_pos hfull]
      refine ⟨by rw [hdrop, List.length_cons, hcount, List.drop_succ_cons], hstep, fun key hkey => ?_⟩
      have hrest : key ∈ rest := by
        rw [hdrop] at hkey
        exact List.mem_of_mem_drop hkey
      rw [hget key hkey, NameMap.get?_erase, if_neg]
      rintro rfl
      exact (List.nodup_cons.1 h.nodup).1 hrest
    · have hcount : rest.length + 1 + 1 - limit = 0 := by omega
      rw [if_neg hfull]
      exact ⟨by rw [List.length_cons, hcount, List.drop_zero], h, fun key _ => rfl⟩

end InStep

namespace IndexedCache

variable {c : IndexedCache α} {key : String}

/-! ### The operations on both containers -/

theorem slot?_toCache (h : InStep c.order c.entries) (key : String) :
    c.toCache.slot? key = NameMap.get? c.entries key := by
  by_cases hkey : key ∈ c.order
  · obtain ⟨slot, hs⟩ := (h.mem_iff key).1 hkey
    have hlookup : c.toCache.slot? key = some ((NameMap.get? c.entries key).getD 0) :=
      List.lookup_graph _ hkey
    rw [hlookup, hs]
    rfl
  · rw [h.get?_eq_none hkey, Cache.slot?, List.lookup_eq_none_iff]
    intro p hp
    obtain ⟨other, hmem, rfl⟩ := List.mem_map.1 hp
    exact bne_iff_ne.2 fun he => hkey (he ▸ hmem)

theorem inStep_reserve (h : InStep c.order c.entries) (key : String) :
    InStep (c.reserve key).2.order (c.reserve key).2.entries := by
  rw [reserve]
  cases hs : NameMap.get? c.entries key with
  | some slot =>
    simp only
    split <;> exact h
  | none =>
    obtain ⟨hdrop, hstep, -⟩ := h.makeRoom c.limit
    refine hstep.insert (fun hmem => ?_) _
    rw [hdrop] at hmem
    obtain ⟨slot, hs'⟩ := (h.mem_iff key).1 (List.mem_of_mem_drop hmem)
    cases hs.symm.trans hs'

/-- A slot is reserved as in a cache with both in one. -/
theorem toCache_reserve (h : InStep c.order c.entries) (key : String) :
    (c.reserve key).1 = (c.toCache.reserve key).1 ∧
      (c.reserve key).2.toCache = (c.toCache.reserve key).2 := by
  have hslot := slot?_toCache h key
  rw [reserve]
  cases hs : NameMap.get? c.entries key with
  | some slot =>
    rw [hs] at hslot
    rw [Cache.reserve, hslot]
    refine ⟨rfl, ?_⟩
    show toCache (if (c.value? slot).isSome then { c with hits := c.hits + 1 } else c) =
      if (c.value? slot).isSome then _ else _
    split <;> rfl
  | none =>
    rw [hs] at hslot
    obtain ⟨hdrop, hstep, hget⟩ := h.makeRoom c.limit
    have hnew : key ∉ (makeRoom c.limit c.order c.entries).1 := by
      rw [hdrop]
      intro hmem
      obtain ⟨slot, hs'⟩ := (h.mem_iff key).1 (List.mem_of_mem_drop hmem)
      cases hs.symm.trans hs'
    rw [Cache.reserve_of_none hslot]
    refine ⟨rfl, ?_⟩
    -- The keys that stay keep their slots, and the new key has the new one.
    have hentries : ((makeRoom c.limit c.order c.entries).1 ++ [key]).map (fun other => (other,
        (NameMap.get? (NameMap.insert (makeRoom c.limit c.order c.entries).2 key c.cells.size)
          other).getD 0)) = c.toCache.trimmed ++ [(key, c.cells.size)] := by
      rw [List.map_append, Cache.trimmed, toCache, List.length_map, ← List.map_drop, ← hdrop]
      refine congrArg₂ _ (List.map_congr_left fun other hmem => ?_) ?_
      · have hne : other ≠ key := fun he => hnew (he ▸ hmem)
        rw [NameMap.get?_insert, if_neg hne, hget other hmem]
      · rw [List.map_singleton, NameMap.get?_insert, if_pos rfl]
        rfl
    exact congrArg (Cache.mk c.limit · (c.cells.push none) c.hits (c.misses + 1)) hentries

/-- An entry is dropped as from a cache with both in one. -/
theorem toCache_drop (c : IndexedCache α) (key : String) :
    (c.drop key).toCache = c.toCache.invalidate key := by
  have hentries : (c.order.filter (· != key)).map (fun other =>
      (other, (NameMap.get? (NameMap.erase c.entries key) other).getD 0)) =
        c.toCache.entries.filter (·.1 != key) := by
    rw [toCache, List.filter_map]
    refine List.map_congr_left fun other hmem => ?_
    rw [NameMap.get?_erase, if_neg (bne_iff_ne.1 (List.mem_filter.1 hmem).2)]
  exact congrArg (Cache.mk c.limit · c.cells c.hits c.misses) hentries

theorem toCache_discard (h : InStep c.order c.entries) (key : String) (slot : Nat) :
    (c.discard key slot).toCache = c.toCache.discard key slot := by
  rw [discard, Cache.discard, slot?_toCache h key]
  by_cases hown : NameMap.get? c.entries key = some slot ∧ (c.value? slot).isNone = true
  · rw [if_pos hown]
    exact (toCache_drop c key).trans (if_pos hown).symm
  · rw [if_neg hown]
    exact (if_neg hown).symm

theorem inStep_discard (h : InStep c.order c.entries) (key : String) (slot : Nat) :
    InStep (c.discard key slot).order (c.discard key slot).entries := by
  rw [discard]
  split
  · exact h.erase key
  · exact h

theorem toCache_invalidate (h : InStep c.order c.entries) (key : String) :
    (c.invalidate key).toCache = c.toCache.invalidate key := by
  rw [invalidate]
  split
  · exact toCache_drop c key
  · rename_i hno
    have hkey : key ∉ c.order := fun hmem => hno (NameMap.has_eq_true_iff.2 ((h.mem_iff key).1 hmem))
    have hentries : c.toCache.entries = c.toCache.entries.filter (·.1 != key) := by
      refine (List.filter_eq_self.2 fun p hp => ?_).symm
      obtain ⟨other, hmem, rfl⟩ := List.mem_map.1 hp
      exact bne_iff_ne.2 fun he => hkey (he ▸ hmem)
    exact congrArg (Cache.mk c.limit · c.cells c.hits c.misses) hentries

theorem inStep_invalidate (h : InStep c.order c.entries) (key : String) :
    InStep (c.invalidate key).order (c.invalidate key).entries := by
  rw [invalidate]
  split
  · exact h.erase key
  · exact h

end IndexedCache

namespace Flight

/-! ### Fetches in flight -/

/-- The flight with both containers in one. -/
def merged (fl : Flight IndexedCache α) : Flight Cache α := ⟨fl.cache.toCache, fl.fetches, fl.begun⟩

/-- The two containers of the cache are in step. -/
def Abreast (fl : Flight IndexedCache α) : Prop := InStep fl.cache.order fl.cache.entries

variable {fl : Flight IndexedCache α} {i : Nat} {f : Fetch α}

theorem merged_turnTo (fl : Flight IndexedCache α) (i slot : Nat) :
    (fl.turnTo i slot).merged = fl.merged.turnTo i slot := by
  have hvalue : Caching.value? fl.merged.cache slot = Caching.value? fl.cache slot := rfl
  rw [turnTo, turnTo, hvalue]
  cases Caching.value? fl.cache slot with
  | some a => rfl
  | none =>
    show merged (if fl.fetches.any (makes slot) = true then _ else _) =
      if fl.fetches.any (makes slot) = true then _ else _
    split <;> rfl

theorem merged_poll (h : fl.Abreast) (i : Nat) :
    (fl.poll i).merged = fl.merged.poll i ∧ (fl.poll i).Abreast := by
  cases hi : fl.fetches[i]? with
  | none =>
    have hi' : fl.merged.fetches[i]? = none := hi
    rw [poll_of_none hi, poll_of_none hi']
    exact ⟨rfl, h⟩
  | some f =>
    have hi' : fl.merged.fetches[i]? = some f := hi
    cases hf : f.progress with
    | fresh =>
      by_cases hkey : f.key = ""
      · rw [poll_of_refused hi hf hkey, poll_of_refused hi' hf hkey]
        exact ⟨rfl, h⟩
      · obtain ⟨hslot, hcache⟩ := IndexedCache.toCache_reserve h f.key
        have hjoin : (fl.join i f.key).merged = fl.merged.join i f.key := by
          show setProgress ⟨(fl.cache.reserve f.key).2.toCache, fl.fetches, fl.begun⟩ i
            (.waiting (fl.cache.reserve f.key).1) = fl.merged.join i f.key
          rw [hcache, hslot]
          rfl
        rw [poll_of_fresh hi hf hkey, poll_of_fresh hi' hf hkey, merged_turnTo, hjoin]
        refine ⟨congrArg _ hslot, ?_⟩
        rw [Abreast, cache_turnTo]
        exact IndexedCache.inStep_reserve h f.key
    | waiting slot =>
      rw [poll_of_waiting hi hf, poll_of_waiting hi' hf, merged_turnTo, Abreast, cache_turnTo]
      exact ⟨rfl, h⟩
    | making slot =>
      rw [poll_of_making hi hf, poll_of_making hi' hf]
      cases hout : f.outcome with
      | ok a =>
        rw [finish_of_ok hout, finish_of_ok hout]
        exact ⟨rfl, h⟩
      | error e =>
        rw [finish_of_error hout, finish_of_error hout]
        refine ⟨?_, IndexedCache.inStep_discard h f.key slot⟩
        exact congrArg (Flight.mk · _ _) (IndexedCache.toCache_discard h f.key slot)
    | done slot r =>
      rw [poll_of_done hi hf, poll_of_done hi' hf]
      exact ⟨rfl, h⟩

/-- Every event does to both containers what it does to a cache with both in one. -/
theorem merged_act (h : fl.Abreast) (e : Event) :
    (fl.act e).merged = fl.merged.act e ∧ (fl.act e).Abreast := by
  cases e with
  | poll i => exact merged_poll h i
  | invalidate key =>
    refine ⟨?_, IndexedCache.inStep_invalidate h key⟩
    exact congrArg (Flight.mk · _ _) (IndexedCache.toCache_invalidate h key)
  | clear => exact ⟨rfl, InStep.nil⟩

theorem merged_after (h : fl.Abreast) (events : List Event) :
    (fl.after events).merged = fl.merged.after events ∧ (fl.after events).Abreast := by
  induction events generalizing fl with
  | nil => exact ⟨rfl, h⟩
  | cons e events ih =>
    obtain ⟨hact, hstep⟩ := merged_act h e
    obtain ⟨hafter, hsteps⟩ := ih hstep
    exact ⟨hafter.trans (congrArg (Flight.after · events) hact), hsteps⟩

end Flight

end Stencil
