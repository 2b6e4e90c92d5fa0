import Mathlib.Data.List.Basic
import Stencil.Proofs.Cache.Changes

/-!
# What a failed fetch leaves behind

While no fetch is under way every entry of a cache has a value: an entry without one is the slot of a
fetch that is making it (`Flight.Attended`). A fetch that fails then takes the entry it brought in away
again, and the others keep their places and values. But the room for that entry was made before the
value was: in a full cache the front is gone (`Flight.contents_of_failed`). Said of fetches in flight,
this holds of fetches one at a time as well (`Flight.result_fetch_run`).
-/

namespace Stencil

variable {α : Type}

namespace Cache

variable {c : Cache α} {key : String} {slot : Nat} {a : α}

/-- The keys, the oldest first, with the values that their slots hold. -/
def contents (c : Cache α) : List (String × Option α) := c.entries.map fun p => (p.1, c.value? p.2)

theorem mem_contents_of_slot? (hs : c.slot? key = some slot) (hv : c.value? slot = some a) :
    (key, some a) ∈ c.contents :=
  hv ▸ List.mem_map_of_mem (mem_entries_of_slot? hs)

/-- A key with a value has a slot that holds it. -/
theorem Rowed.exists_slot? (h : c.Rowed) (hmem : (key, some a) ∈ c.contents) :
    ∃ slot, c.slot? key = some slot ∧ c.value? slot = some a := by
  obtain ⟨⟨other, slot⟩, hp, he⟩ := List.mem_map.1 hmem
  obtain ⟨rfl, hv⟩ := Prod.mk.inj he
  exact ⟨slot, h.slot?_of_mem hp, hv⟩

/-- Joining a key that has a slot changes no contents. -/
theorem contents_reserve (hs : c.slot? key = some slot) : (c.reserve key).2.contents = c.contents := by
  obtain ⟨hits, he⟩ := reserve_of_some hs
  rw [he]
  rfl

/-- When the new slot of a key is dropped, what is missing is what made room for it. -/
theorem contents_discard_opened (hs : c.slot? key = none) :
    ((c.opened key).discard key c.cells.size).contents = c.contents.drop (c.size + 1 - c.limit) := by
  have hold : c.trimmed.filter (·.1 != key) = c.trimmed := by
    refine List.filter_eq_self.2 fun p hp => bne_iff_ne.2 ?_
    rintro rfl
    exact key_not_mem_of_slot? hs (List.mem_map_of_mem (List.mem_of_mem_drop hp))
  have hentries : (c.opened key).entries.filter (·.1 != key) = c.trimmed := by
    rw [opened, reserve_of_none hs, List.filter_append, hold]
    simp
  have hvalue (s : Nat) : (c.opened key).value? s = c.value? s := value?_opened hs s
  rw [discard_opened hs, contents, hentries, contents, ← List.map_drop]
  exact List.map_congr_left fun p _ => congrArg (Prod.mk p.1) (hvalue p.2)

/-- At most the front makes room. -/
theorem Rowed.drop_contents (h : c.Rowed) : c.contents.drop (c.size + 1 - c.limit) =
    if c.size < c.limit then c.contents else c.contents.tail := by
  have hbounded := h.bounded
  split
  · rename_i hroom
    rw [Nat.sub_eq_zero_of_le hroom, List.drop_zero]
  · rename_i hfull
    have hone : c.size + 1 - c.limit = 1 := by omega
    rw [hone, List.drop_one]

end Cache

namespace IndexedCache

variable {c : IndexedCache α} {key : String}

/-- The keys, the oldest first, with the values that their slots hold. -/
def contents (c : IndexedCache α) : List (String × Option α) :=
  c.order.map fun key => (key, (NameMap.get? c.entries key).bind c.value?)

theorem contents_toCache (h : InStep c.order c.entries) : c.toCache.contents = c.contents := by
  rw [Cache.contents, toCache, List.map_map]
  refine List.map_congr_left fun key hkey => ?_
  obtain ⟨slot, hs⟩ := (h.mem_iff key).1 hkey
  rw [Function.comp_apply, hs]
  rfl

theorem size_toCache (c : IndexedCache α) : c.toCache.size = c.order.length := List.length_map _

end IndexedCache

namespace Flight

/-! ### No fetch is under way -/

section Quiet

variable {fl fl' : Flight Cache α} {i slot : Nat} {f : Fetch α} {p : Progress α}

/-- A fetch has begun and is not over. -/
def underway : Progress α → Bool
  | .fresh | .done .. => false
  | .waiting _ | .making _ => true

/-- No fetch is under way: each has yet to begin, or is over. -/
def Quiet {C : Type → Type} (fl : Flight C α) : Prop := ∀ f ∈ fl.fetches, underway f.progress = false

instance {C : Type → Type} (fl : Flight C α) : Decidable (Quiet fl) :=
  inferInstanceAs (Decidable (∀ f ∈ fl.fetches, underway f.progress = false))

/-- A fetch is making the value of the slot. -/
def Made (fl : Flight Cache α) (slot : Nat) : Prop :=
  ∃ (i : Nat) (f : Fetch α), fl.fetches[i]? = some f ∧ f.progress = .making slot

/-- An entry that has no value is in the making. -/
def Attended (fl : Flight Cache α) : Prop :=
  ∀ q ∈ fl.cache.entries, fl.cache.value? q.2 = none → fl.Made q.2

theorem attended_start (limit : Nat) (fetches : List (String × Except Fault α)) :
    Attended (start (Cache.empty limit) fetches) :=
  fun _ hq => absurd hq List.not_mem_nil

/-- Without fetches under way every entry has a value. -/
theorem Attended.exists_value? (h : fl.Attended) (hquiet : Quiet fl) {q : String × Nat}
    (hq : q ∈ fl.cache.entries) : ∃ a, fl.cache.value? q.2 = some a := by
  cases hv : fl.cache.value? q.2 with
  | some a => exact ⟨a, rfl⟩
  | none =>
    obtain ⟨i, f, hi, hf⟩ := h q hq hv
    have hnot := hquiet f (List.mem_of_getElem? hi)
    rw [hf] at hnot
    cases hnot

/-- What others make they still make after a step of one fetch. -/
theorem Made.setProgress (h : fl.Made slot) (hi : fl.fetches[i]? = some f)
    (hf : f.progress ≠ .making slot) (hfetches : fl'.fetches = (fl.setProgress i p).fetches) :
    fl'.Made slot := by
  obtain ⟨j, g, hj, hg⟩ := h
  have hne : j ≠ i := ne_of_progress_ne hi hj fun he => hf (he ▸ hg)
  exact ⟨j, g, hfetches ▸ (getElem?_setProgress_of_ne hne).trans hj, hg⟩

/-- A fetch that turns to a slot sees to it that the slot has a value or one is made. -/
theorem attended_turnTo (hi : fl.fetches[i]? = some f) (hf : ∀ s, f.progress ≠ .making s)
    (hothers : ∀ q ∈ fl.cache.entries, q.2 ≠ slot → fl.cache.value? q.2 = none → fl.Made q.2) :
    Attended (fl.turnTo i slot) := by
  intro q hq hv
  rw [cache_turnTo] at hq hv
  by_cases hslot : q.2 = slot
  · rw [hslot] at hv ⊢
    rcases turnTo_cases fl i slot with ⟨a, hs, -⟩ | ⟨-, hmaker, he⟩ | ⟨-, -, he⟩
    · cases hv.symm.trans hs
    · exact Made.setProgress hmaker hi (hf slot) (congrArg Flight.fetches he)
    · rw [he]
      exact ⟨i, _, getElem?_setProgress_self hi, rfl⟩
  · have hmade : fl.Made q.2 := hothers q hq hslot hv
    rcases turnTo_cases fl i slot with ⟨a, -, he⟩ | ⟨-, -, he⟩ | ⟨-, -, he⟩ <;>
      exact he ▸ hmade.setProgress hi (hf q.2) rfl

/-- A fetch joins, and turns to its slot. -/
theorem Attended.joined (h : fl.Attended) (hsound : fl.Sound) (hi : fl.fetches[i]? = some f)
    (hf : f.progress = .fresh) :
    Attended ((fl.join i f.key).turnTo i (Caching.reserve fl.cache f.key).1) := by
  obtain ⟨hrowed, hmem, hvalue, -, -, hentries⟩ := hsound.rowed.reserve f.key
  have hself : (fl.join i f.key).fetches[i]? =
      some { f with progress := .waiting (fl.cache.reserve f.key).1 } := getElem?_setProgress_self hi
  refine attended_turnTo hself nofun fun q hq hne hv => ?_
  rcases hentries q hq with hold | ⟨rfl, -⟩
  · have hmade : fl.Made q.2 := h q hold ((hvalue q.2).symm.trans hv)
    exact hmade.setProgress hi (by rw [hf]; exact nofun) rfl
  · -- The only new entry is the slot that the fetch turns to.
    have hsame := (hrowed.slot?_of_mem hq).symm.trans (hrowed.slot?_of_mem hmem)
    exact absurd (Option.some.inj hsame) hne

/-- The slot of a fetch that fails is nobody's entry afterwards. -/
theorem Sound.of_mem_discard (hsound : fl.Sound) (hi : fl.fetches[i]? = some f)
    (hf : f.progress = .making slot) {q : String × Nat}
    (hq : q ∈ (fl.cache.discard f.key slot).entries) : q ∈ fl.cache.entries ∧ q.2 ≠ slot := by
  obtain ⟨entries, hsub, hdiscard⟩ := Cache.exists_discard fl.cache f.key slot
  have hold : q ∈ fl.cache.entries := by
    rw [hdiscard] at hq
    exact hsub.subset hq
  refine ⟨hold, ?_⟩
  rintro rfl
  have hkey : q.1 = f.key :=
    hsound.single q.2 q.1 f.key (.inl hold) (.inr ⟨i, f, hi, by rw [hf]; rfl, rfl⟩)
  have hs : fl.cache.slot? f.key = some q.2 := hkey ▸ hsound.rowed.slot?_of_mem hold
  have hunfilled : fl.cache.value? q.2 = none := hsound.unfilled i f q.2 hi hf
  rw [Cache.discard, if_pos ⟨hs, by rw [hunfilled]; rfl⟩] at hq
  exact bne_iff_ne.1 (List.mem_filter.1 hq).2 hkey

/-- A fetch comes to its end: its slot has a value, or is nobody's entry. -/
theorem Attended.finish (h : fl.Attended) (hsound : fl.Sound) (hi : fl.fetches[i]? = some f)
    (hf : f.progress = .making slot) : Attended (fl.finish i slot f) := by
  have hothers {q : String × Nat} (hq : q ∈ fl.cache.entries) (hne : q.2 ≠ slot)
      (hv : fl.cache.value? q.2 = none) {fl' : Flight Cache α} {r : Except Fault α}
      (hfetches : fl'.fetches = (fl.setProgress i (.done slot r)).fetches) : fl'.Made q.2 :=
    (h q hq hv).setProgress hi (fun he => hne (Progress.making.inj (he.symm.trans hf))) hfetches
  cases hout : f.outcome with
  | ok a =>
    have hlt : slot < fl.cache.cells.size :=
      (hsound.opened slot f.key (.inr ⟨i, f, hi, by rw [hf]; rfl, rfl⟩)).1
    have hfilled : (fl.cache.fill slot a).value? slot = some a := cellValue?_set_self hlt
    rw [finish_of_ok hout]
    intro q hq hv
    have hne : q.2 ≠ slot := fun he => Option.some_ne_none a (hfilled.symm.trans (he ▸ hv))
    exact hothers hq hne ((cellValue?_set_of_ne hne).symm.trans hv) rfl
  | error e =>
    obtain ⟨entries, -, hdiscard⟩ := Cache.exists_discard fl.cache f.key slot
    have hcells (s : Nat) : (fl.cache.discard f.key slot).value? s = fl.cache.value? s := by
      rw [hdiscard]
      rfl
    rw [finish_of_error hout]
    intro q hq hv
    obtain ⟨hold, hne⟩ := hsound.of_mem_discard hi hf hq
    exact hothers hold hne ((hcells q.2).symm.trans hv) rfl

theorem Attended.poll (h : fl.Attended) (hsound : fl.Sound) (i : Nat) : Attended (fl.poll i) := by
  cases hi : fl.fetches[i]? with
  | none => exact (poll_of_none hi).symm ▸ h
  | some f =>
    cases hf : f.progress with
    | fresh =>
      by_cases hkey : f.key = ""
      · rw [poll_of_refused hi hf hkey]
        exact fun q hq hv => (h q hq hv).setProgress hi (by rw [hf]; exact nofun) rfl
      · rw [poll_of_fresh hi hf hkey]
        exact h.joined hsound hi hf
    | waiting slot =>
      rw [poll_of_waiting hi hf]
      exact attended_turnTo hi (by rw [hf]; exact nofun) fun q hq _ hv => h q hq hv
    | making slot =>
      rw [poll_of_making hi hf]
      exact h.finish hsound hi hf
    | done slot r => exact (poll_of_done hi hf).symm ▸ h

/-- **A step leaves no entry behind** that has no value and that nobody makes a value for. -/
theorem Attended.act (h : fl.Attended) (hsound : fl.Sound) (e : Event) : Attended (fl.act e) := by
  cases e with
  | poll i => exact h.poll hsound i
  | invalidate key => exact fun q hq hv => h q (List.mem_of_mem_filter hq) hv
  | clear => exact fun q hq => absurd hq List.not_mem_nil

theorem Attended.after (h : fl.Attended) (hsound : fl.Sound) (events : List Event) :
    Attended (fl.after events) := by
  induction events generalizing fl with
  | nil => exact h
  | cons e events ih => exact ih (h.act hsound e) (hsound.act e).1

end Quiet

/-! ### One fetch alone -/

section Alone

variable {C : Type → Type} [Caching C]

theorem length_fetches_turnTo (fl : Flight C α) (i slot : Nat) :
    (fl.turnTo i slot).fetches.length = fl.fetches.length := by
  rcases turnTo_cases fl i slot with ⟨a, -, he⟩ | ⟨-, -, he⟩ | ⟨-, -, he⟩ <;>
    exact he ▸ List.length_modify ..

theorem length_fetches_poll (fl : Flight C α) (i : Nat) :
    (fl.poll i).fetches.length = fl.fetches.length := by
  cases hi : fl.fetches[i]? with
  | none => rw [poll_of_none hi]
  | some f =>
    cases hf : f.progress with
    | fresh =>
      by_cases hkey : f.key = ""
      · rw [poll_of_refused hi hf hkey]
        exact List.length_modify ..
      · rw [poll_of_fresh hi hf hkey, length_fetches_turnTo]
        exact List.length_modify ..
    | waiting slot => rw [poll_of_waiting hi hf, length_fetches_turnTo]
    | making slot =>
      rw [poll_of_making hi hf]
      cases hout : f.outcome with
      | ok a =>
        rw [finish_of_ok hout]
        exact List.length_modify ..
      | error e =>
        rw [finish_of_error hout]
        exact List.length_modify ..
    | done slot r => rw [poll_of_done hi hf]

/-- A fetch that is alone on a cache takes two steps at most. -/
theorem run_singleton (c : C α) (key : String) (outcome : Except Fault α) :
    run c [(key, outcome)] = ((start c [(key, outcome)]).poll 0).poll 0 := by
  have hlength : ((start c [(key, outcome)]).poll 0).fetches.length = 1 := length_fetches_poll _ 0
  show pollAll ((start c [(key, outcome)]).poll 0) = _
  rw [pollAll, hlength]
  rfl

end Alone

section Outcome

variable {c : Cache α} {key : String} {slot : Nat} {a : α}

/-- The empty key is refused. -/
theorem run_of_refused {C : Type → Type} [Caching C] (c : C α) (outcome : Except Fault α) :
    run c [("", outcome)] =
      ⟨c, [⟨"", outcome, .done none (.error (.problem (.missingArgument "key")))⟩], 0⟩ :=
  rfl

/-- A key that has a value gives it. -/
theorem run_of_value (outcome : Except Fault α) (hkey : key ≠ "") (hs : c.slot? key = some slot)
    (hv : c.value? slot = some a) : run c [(key, outcome)] =
      ⟨(c.reserve key).2, [⟨key, outcome, .done slot (.ok a)⟩], 0⟩ := by
  have hvalue : (c.reserve key).2.value? slot = some a := by
    rw [Cache.reserve_of_value hs hv]
    exact hv
  have hslot : (c.reserve key).1 = slot := by rw [Cache.reserve_of_value hs hv]
  have hfirst : (start c [(key, outcome)]).poll 0 =
      ⟨(c.reserve key).2, [⟨key, outcome, .done slot (.ok a)⟩], 0⟩ := by
    rw [poll_of_fresh rfl rfl hkey]
    show turnTo ⟨(c.reserve key).2, [⟨key, outcome, .waiting (c.reserve key).1⟩], 0⟩ 0
      (c.reserve key).1 = _
    rw [hslot, turnTo_of_value hvalue]
    rfl
  rw [run_singleton, hfirst]
  rfl

/-- A key without a slot gets one, until the making of its value has come to its end. -/
theorem run_of_new (outcome : Except Fault α) (hkey : key ≠ "") (hs : c.slot? key = none) :
    run c [(key, outcome)] = ⟨(c.opened key).ended key c.cells.size outcome,
      [⟨key, outcome, .done c.cells.size outcome⟩], 1⟩ := by
  have hslot : (c.reserve key).1 = c.cells.size := by rw [Cache.reserve_of_none hs]
  have hfirst : (start c [(key, outcome)]).poll 0 =
      ⟨c.opened key, [⟨key, outcome, .making c.cells.size⟩], 1⟩ := by
    rw [poll_of_fresh rfl rfl hkey]
    show turnTo ⟨c.opened key, [⟨key, outcome, .waiting (c.reserve key).1⟩], 0⟩ 0
      (c.reserve key).1 = _
    rw [hslot, turnTo_of_no_maker (Cache.value?_opened_self hs) ?_]
    · rfl
    · intro j g hj
      obtain rfl := List.mem_singleton.1 (List.mem_of_getElem? hj)
      exact nofun
  rw [run_singleton, hfirst]
  cases outcome with
  | ok a => rfl
  | error e => rfl

/-- **One fetch at a time** is a fetch alone: with a value for every entry, and a making that leaves the
cache to itself, `Cache.fetch` has the result of the run and leaves its cache. -/
theorem result_fetch_run {σ : Type} {l : Lens σ (Cache α)} (hl : l.Lawful) {make : Op σ α}
    {outcome : Except Fault α}
    (hmake : ∀ s, ∃ s', Op.result make s = (outcome, s') ∧ l.get s' = l.get s) (key : String) (s : σ)
    (hvalues : (l.get s).Holds fun _ _ => True) :
    ∃ r s', Op.result (Cache.fetch l key make) s = (r, s') ∧
      (run (l.get s) [(key, outcome)]).results = [r] ∧
      l.get s' = (run (l.get s) [(key, outcome)]).cache := by
  by_cases hkey : key = ""
  · subst hkey
    rw [run_of_refused]
    exact ⟨_, s, rfl, rfl, rfl⟩
  cases hs : (l.get s).slot? key with
  | some slot =>
    obtain ⟨a, hv, -⟩ := hvalues.of_slot hs
    refine ⟨_, _, Cache.result_fetch_hit hkey hs hv, ?_⟩
    rw [run_of_value outcome hkey hs hv, Cache.reserve_of_value hs hv]
    exact ⟨rfl, hl.get_set _ _⟩
  | none =>
    obtain ⟨s', hm, hget⟩ := hmake (l.set ((l.get s).opened key) s)
    refine ⟨_, _, Cache.result_fetch_miss hkey hs hm, ?_⟩
    rw [run_of_new outcome hkey hs]
    refine ⟨rfl, ?_⟩
    rw [hl.get_set, hget, hl.get_set]

end Outcome

/-! ### What is left -/

/-- With both containers in one, a fetch alone is the same run: it has the same result and leaves the
same contents. -/
theorem run_toCache {c : IndexedCache α} (h : InStep c.order c.entries) (key : String)
    (outcome : Except Fault α) :
    (run c [(key, outcome)]).merged = run c.toCache [(key, outcome)] ∧
      (run c [(key, outcome)]).results = (run c.toCache [(key, outcome)]).results ∧
      (run c [(key, outcome)]).cache.contents = (run c.toCache [(key, outcome)]).cache.contents := by
  have hstart : Abreast (start c [(key, outcome)]) := h
  obtain ⟨hmerged, hstep⟩ := merged_after hstart [.poll 0, .poll 0]
  rw [run_singleton, run_singleton]
  exact ⟨hmerged, congrArg results hmerged,
    (IndexedCache.contents_toCache hstep).symm.trans (congrArg (fun fl => fl.cache.contents) hmerged)⟩

section Left

variable {fl : Flight IndexedCache α} {key : String} {a : α} (h : fl.Abreast) (hs : fl.merged.Sound)
include h hs

/-- Every key has its value while no fetch is under way. -/
theorem exists_mem_contents (hattended : fl.merged.Attended) (hquiet : Quiet fl)
    (hmem : key ∈ fl.cache.order) : key ≠ "" ∧ ∃ a, (key, some a) ∈ fl.cache.contents := by
  obtain ⟨slot, hget⟩ := (h.mem_iff key).1 hmem
  have hslot : fl.cache.toCache.slot? key = some slot := (IndexedCache.slot?_toCache h key).trans hget
  have hentry := Cache.mem_entries_of_slot? hslot
  obtain ⟨a, hv⟩ := hattended.exists_value? hquiet hentry
  have hcontents := Cache.mem_contents_of_slot? hslot hv
  rw [IndexedCache.contents_toCache h] at hcontents
  exact ⟨(hs.opened slot key (.inl hentry)).2, a, hcontents⟩

/-- A key that has its value gives it, whatever making it again would come to. -/
theorem given_of_mem_contents (hmem : (key, some a) ∈ fl.cache.contents) (outcome : Except Fault α) :
    (run fl.cache [(key, outcome)]).results = [.ok a] ∧
      (run fl.cache [(key, outcome)]).cache.contents = fl.cache.contents := by
  obtain ⟨-, hresults, hcontents⟩ := run_toCache h key outcome
  rw [← IndexedCache.contents_toCache h] at hmem ⊢
  have hrowed : fl.cache.toCache.Rowed := hs.rowed
  obtain ⟨slot, hslot, hv⟩ := hrowed.exists_slot? hmem
  have hkey : key ≠ "" := (hs.opened slot key (.inl (Cache.mem_entries_of_slot? hslot))).2
  rw [hresults, hcontents, run_of_value outcome hkey hslot hv]
  exact ⟨rfl, Cache.contents_reserve hslot⟩

/-- A key that is new is not there afterwards, and at most the front is missing. -/
theorem left_of_not_mem (hkey : key ≠ "") (hnew : key ∉ fl.cache.order) (e : Fault) :
    (run fl.cache [(key, .error e)]).results = [.error e] ∧
      (run fl.cache [(key, .error e)]).cache.contents =
        if fl.cache.order.length < fl.cache.limit then fl.cache.contents
        else fl.cache.contents.tail := by
  obtain ⟨-, hresults, hcontents⟩ := run_toCache h key (.error e)
  have hslot : fl.cache.toCache.slot? key = none :=
    (IndexedCache.slot?_toCache h key).trans (h.get?_eq_none hnew)
  have hrowed : fl.cache.toCache.Rowed := hs.rowed
  rw [hresults, hcontents, run_of_new (.error e) hkey hslot, ← IndexedCache.size_toCache,
    ← IndexedCache.contents_toCache h]
  exact ⟨rfl, (Cache.contents_discard_opened hslot).trans hrowed.drop_contents⟩

end Left

/-- **A failed fetch takes nothing with it but the front of a full cache.** Whatever fetches, failures
and droppings there were, while none is under way every key has its value. A fetch whose value cannot be
made then gives the value that the key has, and leaves the contents as they are; a key that is new comes
back with the error and is not there afterwards, and the contents are as they were, except that in a
full cache the key that came in first has gone. All of this is the same with both containers in one. -/
theorem contents_of_failed (limit : Nat) (fetches : List (String × Except Fault α))
    (events : List Event) (key : String) (e : Fault)
    (hquiet : Quiet ((start (IndexedCache.empty limit) fetches).after events)) :
    let c := ((start (IndexedCache.empty limit) fetches).after events).cache
    let fl := run c [(key, .error e)]
    fl.merged = run ((start (Cache.empty limit) fetches).after events).cache [(key, .error e)] ∧
    (∀ other ∈ c.order, other ≠ "" ∧ ∃ a, (other, some a) ∈ c.contents) ∧
    (key = "" → fl.results = [.error (.problem (.missingArgument "key"))] ∧
      fl.cache.contents = c.contents) ∧
    (∀ a, (key, some a) ∈ c.contents → fl.results = [.ok a] ∧ fl.cache.contents = c.contents) ∧
    (key ≠ "" → key ∉ c.order → fl.results = [.error e] ∧
      fl.cache.contents = if c.order.length < c.limit then c.contents else c.contents.tail) := by
  intro c fl
  have hstart : Abreast (start (IndexedCache.empty limit) fetches) := InStep.nil
  have hsound := sound_start limit fetches
  obtain ⟨hmerged, habreast⟩ := merged_after hstart events
  have hs : Sound (merged ((start (IndexedCache.empty limit) fetches).after events)) :=
    hmerged ▸ (hsound.after events).1
  have hattended : Attended (merged ((start (IndexedCache.empty limit) fetches).after events)) :=
    hmerged ▸ (attended_start limit fetches).after hsound events
  have hcache : c.toCache = ((start (Cache.empty limit) fetches).after events).cache :=
    congrArg Flight.cache hmerged
  have hrun := (run_toCache habreast key (.error e)).1
  refine ⟨hcache ▸ hrun, fun other hmem => exists_mem_contents habreast hs hattended hquiet hmem, ?_,
    fun a hmem => given_of_mem_contents habreast hs hmem (.error e),
    fun hkey hnew => left_of_not_mem habreast hs hkey hnew e⟩
  rintro rfl
  have hrefused := run_of_refused c (.error e)
  exact ⟨congrArg results hrefused, congrArg (fun fl => fl.cache.contents) hrefused⟩

/-- Two keys are there and no more fit, after a fetch has failed and a key has been dropped: a new key
takes the front with it, a key that is there is given, and the empty key is refused. -/
theorem contents_of_failed_full :
    let fetches : List (String × Except Fault Nat) :=
      [("a", .ok 1), ("b", .error (.plain "boom")), ("b", .ok 2), ("c", .ok 3)]
    let events : List Event := [.poll 0, .poll 0, .poll 1, .poll 1, .poll 2, .poll 2, .invalidate "a",
      .poll 3, .poll 3]
    let c := ((start (IndexedCache.empty 2) fetches).after events).cache
    let fetch (key : String) := run c [(key, .error (.plain "boom"))]
    c.contents = [("b", some 2), ("c", some 3)] ∧
      ((fetch "d").results = [.error (.plain "boom")] ∧
        (fetch "d").cache.contents = [("c", some 3)]) ∧
      ((fetch "b").results = [.ok 2] ∧ (fetch "b").cache.contents = c.contents) ∧
      (fetch "").results = [.error (.problem (.missingArgument "key"))] ∧
      (fetch "").cache.contents = c.contents := by
  intro fetches events c fetch
  have hquiet : Quiet ((start (IndexedCache.empty 2) fetches).after events) := by decide
  have hcontents : c.contents = [("b", some 2), ("c", some 3)] := by decide
  have hfull : ¬ c.order.length < c.limit := by decide
  obtain ⟨-, -, -, -, hnew⟩ := contents_of_failed 2 fetches events "d" (.plain "boom") hquiet
  obtain ⟨-, -, -, hthere, -⟩ := contents_of_failed 2 fetches events "b" (.plain "boom") hquiet
  obtain ⟨-, -, hempty, -, -⟩ := contents_of_failed 2 fetches events "" (.plain "boom") hquiet
  have hmem : ("b", some 2) ∈ c.contents := by rw [hcontents]; exact List.mem_cons_self
  obtain ⟨hfailed, hleft⟩ := hnew (by decide) (by decide)
  refine ⟨hcontents, ⟨hfailed, hleft.trans ?_⟩, hthere 2 hmem, hempty rfl⟩
  exact (if_neg hfull).trans (congrArg List.tail hcontents)

/-- The failure of a fetch takes a key with it that it has nothing to do with. -/
theorem oldest_lost_by_failure :
    let fl : Flight IndexedCache Nat := (start (IndexedCache.empty 1) [("a", .ok 1)]).after [.poll 0, .poll 0]
    let failed := run fl.cache [("b", .error (.plain "boom"))]
    Quiet fl ∧ failed.results = [.error (.plain "boom")] ∧
      fl.cache.contents = [("a", some 1)] ∧ failed.cache.contents = [] :=
  ⟨by decide, rfl, rfl, rfl⟩

end Flight

end Stencil
