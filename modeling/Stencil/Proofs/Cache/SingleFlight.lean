import Mathlib.Data.List.Basic
import Stencil.Proofs.Cache.Flight
import Stencil.Proofs.NameMap

/-!
# One fetch at a time makes a value

As long as the entry of a key is not dropped from outside, and no fetch of the key fails while another
one waits for the slot, at most one fetch of the key at a time is making a value, and once one of them
has succeeded its value is the one that all others give (`Flight.SingleFlight`).

Where a fetch does fail while another one waits, the entry is dropped but the waiting fetch goes on
with the slot: a fetch that comes now makes a value of its own at the same time, and the value of the
one that waited is not found any more (`Flight.single_flight`).
-/

namespace Stencil

namespace Flight

variable {α : Type} {fl : Flight Cache α} {key : String} {i j : Nat} {f g : Fetch α} {e : Event}

/-- An event leaves the key its entry, unless it is the end of a fetch of the key itself. -/
def Spares (key : String) (fl : Flight Cache α) (e : Event) : Prop :=
  ∀ s, fl.cache.slot? key = some s → (fl.act e).cache.slot? key = some s ∨
    ∃ (i : Nat) (f : Fetch α), e = .poll i ∧ fl.fetches[i]? = some f ∧ f.key = key ∧
      f.progress = .making s

/-- The event is not the failure of a fetch of the key for whose slot another fetch waits. -/
def Unawaited (key : String) (fl : Flight Cache α) (e : Event) : Prop :=
  ∀ (i : Nat) (f : Fetch α) (s : Nat) (fault : Fault), e = .poll i → fl.fetches[i]? = some f →
    f.key = key → f.progress = .making s → f.outcome = .error fault →
    ∀ (j : Nat) (g : Fetch α), fl.fetches[j]? = some g → g.progress ≠ .waiting s

/-- The events of a run spare the entry of a key, and no fetch of it fails while another one waits. -/
def Undisturbed (key : String) : Flight Cache α → List Event → Prop
  | _, [] => True
  | fl, e :: events => Spares key fl e ∧ Unawaited key fl e ∧ Undisturbed key (fl.act e) events

/-- What callers of a key rely on. -/
structure SingleFlight (key : String) (fl : Flight Cache α) : Prop where
  /-- No two fetches of the key make values at the same time. -/
  one : ∀ (i j : Nat) (f g : Fetch α) (s t : Nat), fl.fetches[i]? = some f → f.key = key →
    f.progress = .making s → fl.fetches[j]? = some g → g.key = key → g.progress = .making t → i = j
  /-- Once a fetch of the key has succeeded, the key has its value, no fetch of the key makes another,
  and every one that is not over gives the value in its next step. -/
  served : ∀ (i : Nat) (f : Fetch α) (slot : Option Nat) (a : α), fl.fetches[i]? = some f →
    f.key = key → f.progress = .done slot (.ok a) →
    (fl.cache.contains key = true ∧ (fl.cache.slot? key).bind fl.cache.value? = some a) ∧
    ∀ (j : Nat) (g : Fetch α), fl.fetches[j]? = some g → g.key = key →
      (∀ t, g.progress ≠ .making t) ∧ ((∀ slot' r, g.progress ≠ .done slot' r) →
        (fl.poll j).fetches[j]? = some { g with progress := .done slot (.ok a) })

/-! ### The slot of a key -/

/-- The slot that a fetch relies on: the one it has turned to, unless it has failed. -/
def reliesOn : Progress α → Option Nat
  | .fresh => none
  | .waiting slot | .making slot => some slot
  | .done slot (.ok _) => slot
  | .done _ (.error _) => none

/-- Fetches of the key rely on the slot that is its entry. -/
def Attached (key : String) (fl : Flight Cache α) : Prop :=
  ∀ (i : Nat) (f : Fetch α) (s : Nat), fl.fetches[i]? = some f → f.key = key →
    reliesOn f.progress = some s → fl.cache.slot? key = some s

theorem attached_start (limit : Nat) (fetches : List (String × Except Fault α)) :
    Attached key (start (Cache.empty limit) fetches) := by
  intro i f s hi _ hs
  obtain ⟨q, -, rfl⟩ := List.mem_map.1 (List.mem_of_getElem? hi)
  cases hs

/-- After a fetch has turned to a slot, it relies on it; the others are where they were. -/
theorem exists_turnTo (fl : Flight Cache α) (i slot : Nat) :
    ∃ p, reliesOn p = some slot ∧ (fl.turnTo i slot).fetches = (fl.setProgress i p).fetches := by
  rcases turnTo_cases fl i slot with ⟨a, -, h⟩ | ⟨-, -, h⟩ | ⟨-, -, h⟩
  · exact ⟨.done slot (.ok a), rfl, by rw [h]⟩
  · exact ⟨.waiting slot, rfl, by rw [h]⟩
  · exact ⟨.making slot, rfl, by rw [h]⟩

/-- A step of one fetch keeps what the others rely on, if it keeps their entry. -/
theorem Attached.setProgress {fl' : Flight Cache α} {p : Progress α} (h : Attached key fl)
    (hi : fl.fetches[i]? = some f) (hfetches : fl'.fetches = (fl.setProgress i p).fetches)
    (hself : ∀ s, f.key = key → reliesOn p = some s → fl'.cache.slot? key = some s)
    (hothers : ∀ j g s, j ≠ i → fl.fetches[j]? = some g → g.key = key → reliesOn g.progress = some s →
      fl.cache.slot? key = some s → fl'.cache.slot? key = some s) : Attached key fl' := by
  intro j g s hj hkey hs
  rw [hfetches] at hj
  rcases cases_of_getElem?_setProgress hi hj with ⟨rfl, rfl⟩ | ⟨hne, hold⟩
  · exact hself s hkey hs
  · exact hothers j g s hne hold hkey hs (h j g s hold hkey hs)

theorem Attached.turnTo {slot : Nat} (h : Attached key fl) (hi : fl.fetches[i]? = some f)
    (hslot : f.key = key → fl.cache.slot? key = some slot) : Attached key (fl.turnTo i slot) := by
  obtain ⟨p, hp, hfetches⟩ := exists_turnTo fl i slot
  refine h.setProgress hi hfetches (fun s hkey hs => ?_) fun j g s _ _ _ _ hs => ?_
  · obtain rfl := Option.some.inj (hp.symm.trans hs)
    rw [cache_turnTo]
    exact hslot hkey
  · rw [cache_turnTo]
    exact hs

/-- The entry of the key is the slot that a fetch of it relies on. -/
theorem Attached.slot?_eq {p : Progress α} {s : Nat} (h : Attached key fl)
    (hi : fl.fetches[i]? = some f) (hkey : f.key = key) (hf : f.progress = p)
    (hs : reliesOn p = some s) : fl.cache.slot? key = some s :=
  h i f s hi hkey (hf ▸ hs)

/-- **A step keeps fetches of the key attached** to its entry. -/
theorem Attached.act (h : Attached key fl) (hsound : fl.Sound) (hspares : Spares key fl e)
    (hunawaited : Unawaited key fl e) : Attached key (fl.act e) := by
  cases e with
  | invalidate other | clear =>
    intro i f s hi hkey hs
    rcases hspares s (h i f s hi hkey hs) with hs | ⟨_, _, he, -⟩
    · exact hs
    · cases he
  | poll i =>
    cases hi : fl.fetches[i]? with
    | none =>
      rw [Flight.act, poll_of_none hi]
      exact h
    | some f =>
      cases hf : f.progress with
      | fresh =>
        by_cases hempty : f.key = ""
        · rw [Flight.act, poll_of_refused hi hf hempty]
          exact h.setProgress hi rfl (fun s _ hs => nomatch hs) fun _ _ _ _ _ _ _ hs => hs
        · have hact : (fl.act (.poll i)).cache = (fl.join i f.key).cache := by
            rw [Flight.act, poll_of_fresh hi hf hempty, cache_turnTo]
          have hjoined : f.key = key → (fl.join i f.key).cache.slot? key =
              some (Caching.reserve fl.cache f.key).1 := by
            rintro rfl
            obtain ⟨hrowed, hmem, -⟩ := hsound.rowed.reserve f.key
            exact hrowed.slot?_of_mem hmem
          have hjoin : Attached key (fl.join i f.key) := by
            refine h.setProgress hi rfl (fun s hkey hs => ?_) fun j g s _ _ _ _ hs => ?_
            · obtain rfl := Option.some.inj hs
              exact hjoined hkey
            · rcases hspares s hs with hs | ⟨k, f', hk, hi', -, hmaking⟩
              · exact hact ▸ hs
              · obtain rfl := Event.poll.inj hk
                obtain rfl := Option.some.inj (hi.symm.trans hi')
                cases hf.symm.trans hmaking
          rw [Flight.act, poll_of_fresh hi hf hempty]
          exact hjoin.turnTo (getElem?_setProgress_self hi) hjoined
      | waiting slot =>
        rw [Flight.act, poll_of_waiting hi hf]
        exact h.turnTo hi fun hkey => h.slot?_eq hi hkey hf rfl
      | making slot =>
        have hown : f.key = key → fl.cache.slot? key = some slot :=
          fun hkey => h.slot?_eq hi hkey hf rfl
        cases hout : f.outcome with
        | ok a =>
          rw [Flight.act, poll_of_making hi hf, finish_of_ok hout]
          refine h.setProgress hi rfl (fun s hkey hs => ?_) fun _ _ _ _ _ _ _ hs => hs
          obtain rfl := Option.some.inj hs
          exact hown hkey
        | error fault =>
          have hfetches : (fl.act (.poll i)).fetches =
              (fl.setProgress i (.done slot (.error fault))).fetches := by
            rw [Flight.act, poll_of_making hi hf, finish_of_error hout]
          refine h.setProgress hi hfetches (fun s _ hs => nomatch hs) ?_
          intro j g s hne hj hkey hs hentry
          rcases hspares s hentry with hs | ⟨k, f', hk, hi', hkey', hmaking⟩
          · exact hs
          -- A fetch of the key itself has failed: nobody else relies on its slot.
          · obtain rfl := Event.poll.inj hk
            obtain rfl := Option.some.inj (hi.symm.trans hi')
            obtain rfl := Progress.making.inj (hf.symm.trans hmaking)
            cases hg : g.progress with
            | fresh => rw [hg] at hs; cases hs
            | waiting t =>
              rw [hg] at hs
              obtain rfl := Option.some.inj hs
              exact absurd hg (hunawaited i f t fault rfl hi hkey' hf hout j g hj)
            | making t =>
              rw [hg] at hs
              obtain rfl := Option.some.inj hs
              exact absurd (hsound.maker j i g f t hj hg hi hf) hne
            | done t r =>
              rw [hg] at hs
              cases r with
              | error _ => cases hs
              | ok a =>
                obtain ⟨t', rfl, hvalue⟩ := hsound.given j g t a hj hg
                obtain rfl := Option.some.inj hs
                cases (hsound.unfilled i f t' hi hf).symm.trans hvalue
      | done slot r =>
        rw [Flight.act, poll_of_done hi hf]
        exact h

theorem Attached.after {events : List Event} (h : Attached key fl) (hsound : fl.Sound)
    (hevents : Undisturbed key fl events) : Attached key (fl.after events) := by
  induction events generalizing fl with
  | nil => exact h
  | cons e events ih =>
    obtain ⟨hspares, hunawaited, hrest⟩ := hevents
    exact ih (h.act hsound hspares hunawaited) (hsound.act e).1 hrest

/-! ### As long as all is well -/

/-- A fetch that turns to a slot with a value gives the value. -/
theorem getElem?_turnTo_of_value {slot : Nat} {a : α} (hi : fl.fetches[i]? = some f)
    (hvalue : fl.cache.value? slot = some a) :
    (fl.turnTo i slot).fetches[i]? = some { f with progress := .done slot (.ok a) } := by
  have hvalue' : Caching.value? fl.cache slot = some a := hvalue
  rw [turnTo_of_value hvalue']
  exact getElem?_setProgress_self hi

theorem Attached.singleFlight (h : Attached key fl) (hsound : fl.Sound) : SingleFlight key fl := by
  refine ⟨fun i j f g s t hi hkey hf hj hkey' hg => ?_, fun i f slot a hi hkey hf => ?_⟩
  · have hs := h.slot?_eq hi hkey hf rfl
    obtain rfl := Option.some.inj (hs.symm.trans (h.slot?_eq hj hkey' hg rfl))
    exact hsound.maker i j f g s hi hf hj hg
  · obtain ⟨s, rfl, hvalue⟩ := hsound.given i f slot a hi hf
    have hs := h.slot?_eq hi hkey hf rfl
    have hbind : (fl.cache.slot? key).bind fl.cache.value? = some a := by
      rw [hs]
      exact hvalue
    refine ⟨⟨by rw [Cache.contains, hbind]; rfl, hbind⟩, fun j g hj hkey' => ⟨?_, fun hover => ?_⟩⟩
    · intro t hg
      obtain rfl := Option.some.inj (hs.symm.trans (h.slot?_eq hj hkey' hg rfl))
      cases (hsound.unfilled j g s hj hg).symm.trans hvalue
    · cases hg : g.progress with
      | fresh =>
        have hnonempty : g.key ≠ "" := by
          have hb : fl.Belongs s f.key :=
            .inr ⟨i, f, hi, by rw [hf]; rfl, rfl⟩
          rw [hkey', ← hkey]
          exact (hsound.opened s f.key hb).2
        have hreserve : fl.cache.reserve g.key = (s, { fl.cache with hits := fl.cache.hits + 1 }) :=
          Cache.reserve_of_value (hkey' ▸ hs) hvalue
        have hslot : (Caching.reserve fl.cache g.key).1 = s := congrArg Prod.fst hreserve
        have hcache : (fl.join j g.key).cache = { fl.cache with hits := fl.cache.hits + 1 } :=
          congrArg Prod.snd hreserve
        have hjoined : (fl.join j g.key).cache.value? s = some a := by
          rw [hcache]
          exact hvalue
        have hself : (fl.join j g.key).fetches[j]? = some { g with progress := .waiting s } := by
          rw [join, hslot]
          exact getElem?_setProgress_self hj
        have hturn := getElem?_turnTo_of_value hself hjoined
        rw [poll_of_fresh hj hg hnonempty, hslot]
        exact hturn
      | waiting t =>
        obtain rfl := Option.some.inj (hs.symm.trans (h.slot?_eq hj hkey' hg rfl))
        rw [poll_of_waiting hj hg]
        exact getElem?_turnTo_of_value hj hvalue
      | making t =>
        obtain rfl := Option.some.inj (hs.symm.trans (h.slot?_eq hj hkey' hg rfl))
        cases (hsound.unfilled j g s hj hg).symm.trans hvalue
      | done t r => exact absurd hg (hover t r)

/-! ### When a fetch fails while another one waits -/

/-- Polling one fetch leaves the others where they are. -/
theorem getElem?_poll_of_ne (fl : Flight Cache α) (h : j ≠ i) :
    (fl.poll i).fetches[j]? = fl.fetches[j]? := by
  have hturn (fl : Flight Cache α) (slot : Nat) : (fl.turnTo i slot).fetches[j]? = fl.fetches[j]? := by
    obtain ⟨p, -, hfetches⟩ := exists_turnTo fl i slot
    rw [hfetches]
    exact getElem?_setProgress_of_ne h
  cases hi : fl.fetches[i]? with
  | none => rw [poll_of_none hi]
  | some f =>
    cases hf : f.progress with
    | fresh =>
      by_cases hkey : f.key = ""
      · rw [poll_of_refused hi hf hkey]
        exact getElem?_setProgress_of_ne h
      · rw [poll_of_fresh hi hf hkey, hturn]
        exact getElem?_setProgress_of_ne h
    | waiting slot => rw [poll_of_waiting hi hf, hturn]
    | making slot =>
      rw [poll_of_making hi hf]
      cases hout : f.outcome with
      | ok a =>
        rw [finish_of_ok hout]
        exact getElem?_setProgress_of_ne h
      | error fault =>
        rw [finish_of_error hout]
        exact getElem?_setProgress_of_ne h
    | done slot r => rw [poll_of_done hi hf]

/-- A fetch of a key without an entry makes a value in a new slot. -/
theorem Sound.poll_of_slot?_none (h : fl.Sound) (hi : fl.fetches[i]? = some f)
    (hf : f.progress = .fresh) (hkey : f.key ≠ "") (hs : fl.cache.slot? f.key = none) :
    (fl.poll i).fetches[i]? = some { f with progress := .making fl.cache.cells.size } := by
  have hslot : (Caching.reserve fl.cache f.key).1 = fl.cache.cells.size :=
    congrArg Prod.fst (Cache.reserve_of_none hs)
  have hvalue : Caching.value? (fl.join i f.key).cache fl.cache.cells.size = none :=
    Cache.value?_opened_self hs
  have hself : (fl.join i f.key).fetches[i]? =
      some { f with progress := .waiting fl.cache.cells.size } := by
    rw [join, hslot]
    exact getElem?_setProgress_self hi
  have hno (k : Nat) (g : Fetch α) (hk : (fl.join i f.key).fetches[k]? = some g) :
      g.progress ≠ .making fl.cache.cells.size := by
    intro hg
    rcases cases_of_getElem?_setProgress hi hk with ⟨-, rfl⟩ | ⟨-, hold⟩
    · cases hg
    · have hb : fl.Belongs fl.cache.cells.size g.key := .inr ⟨k, g, hold, by rw [hg]; rfl, rfl⟩
      exact Nat.lt_irrefl _ (h.opened _ _ hb).1
  have hmaking := getElem?_setProgress_self (p := .making fl.cache.cells.size) hself
  rw [poll_of_fresh hi hf hkey, hslot, turnTo_of_no_maker hvalue hno]
  exact hmaking

section Overtaking

variable {s : Nat} {fault : Fault} (hsound : fl.Sound) (hi : fl.fetches[i]? = some f)
  (hf : f.progress = .making s) (hout : f.outcome = .error fault)
include hsound hi hf hout

/-- A fetch that fails drops the entry that is its slot. -/
theorem slot?_poll_of_error (hs : fl.cache.slot? f.key = some s) :
    (fl.poll i).cache.slot? f.key = none := by
  have hvalue : fl.cache.value? s = none := hsound.unfilled i f s hi hf
  have hcache : (fl.poll i).cache = fl.cache.invalidate f.key := by
    rw [poll_of_making hi hf, finish_of_error hout]
    exact if_pos ⟨hs, by rw [hvalue]; rfl⟩
  rw [hcache, Cache.slot?, Cache.invalidate, lookup_filter_ne, if_pos rfl]

/-- The one that waits takes over the slot, although it is nobody's entry. -/
theorem waiting_takes_over (hs : fl.cache.slot? f.key = some s) (hj : fl.fetches[j]? = some g)
    (hg : g.progress = .waiting s) :
    ((fl.poll i).poll j).fetches[j]? = some { g with progress := .making s } ∧
      ((fl.poll i).poll j).cache.slot? f.key = none := by
  have hne : j ≠ i := ne_of_progress_ne hi hj (by rw [hf, hg]; exact nofun)
  have hpoll : fl.poll i = fl.finish i s f := poll_of_making hi hf
  have hcells : (fl.poll i).cache.cells = fl.cache.cells := by
    rw [hpoll, finish_of_error hout]
    show (fl.cache.discard f.key s).cells = fl.cache.cells
    rw [Cache.discard]
    split <;> rfl
  have hvalue : Caching.value? (fl.poll i).cache s = none := by
    show (fl.poll i).cache.value? s = none
    rw [Cache.value?, hcells]
    exact hsound.unfilled i f s hi hf
  have hno (k : Nat) (g' : Fetch α) (hk : (fl.poll i).fetches[k]? = some g') :
      g'.progress ≠ .making s := by
    intro hmaking
    rw [hpoll, finish_of_error hout] at hk
    rcases cases_of_getElem?_setProgress hi hk with ⟨-, rfl⟩ | ⟨hne, hold⟩
    · cases hmaking
    · exact hne (hsound.maker k i g' f s hold hmaking hi hf)
  have hwaits : (fl.poll i).fetches[j]? = some g := (getElem?_poll_of_ne fl hne).trans hj
  rw [poll_of_waiting hwaits hg, turnTo_of_no_maker hvalue hno]
  exact ⟨getElem?_setProgress_self hwaits, slot?_poll_of_error hsound hi hf hout hs⟩

/-- A third fetch makes a value at the same time. -/
theorem two_makers_of_error (hs : fl.cache.slot? f.key = some s) (hj : fl.fetches[j]? = some g)
    (hg : g.progress = .waiting s) {k : Nat} {h : Fetch α} (hk : fl.fetches[k]? = some h)
    (hkey : h.key = f.key) (hh : h.progress = .fresh) :
    (fl.after [.poll i, .poll j, .poll k]).fetches[j]? = some { g with progress := .making s } ∧
    ∃ t, (fl.after [.poll i, .poll j, .poll k]).fetches[k]? = some { h with progress := .making t } := by
  have hki : k ≠ i := ne_of_progress_ne hi hk (by rw [hf, hh]; exact nofun)
  have hkj : k ≠ j := ne_of_progress_ne hj hk (by rw [hg, hh]; exact nofun)
  obtain ⟨hmaker, hnone⟩ := waiting_takes_over hsound hi hf hout hs hj hg
  have hnonempty : h.key ≠ "" := by
    rw [hkey]
    exact (hsound.opened s f.key (.inr ⟨i, f, hi, by rw [hf]; rfl, rfl⟩)).2
  have hfresh : ((fl.poll i).poll j).fetches[k]? = some h :=
    (getElem?_poll_of_ne _ hkj).trans ((getElem?_poll_of_ne _ hki).trans hk)
  have hsound' : ((fl.poll i).poll j).Sound := ((hsound.poll i).1.poll j).1
  exact ⟨(getElem?_poll_of_ne _ (Ne.symm hkj)).trans hmaker, _,
    hsound'.poll_of_slot?_none hfresh hh hnonempty (hkey ▸ hnone)⟩

/-- The value of the one that waited is not found. -/
theorem not_contains_of_error (hs : fl.cache.slot? f.key = some s) (hj : fl.fetches[j]? = some g)
    (hg : g.progress = .waiting s) {a : α} (hok : g.outcome = .ok a) :
    (fl.after [.poll i, .poll j, .poll j]).fetches[j]? =
      some { g with progress := .done (some s) (.ok a) } ∧
    (fl.after [.poll i, .poll j, .poll j]).cache.contains f.key = false := by
  obtain ⟨hmaker, hnone⟩ := waiting_takes_over hsound hi hf hout hs hj hg
  have hend : fl.after [.poll i, .poll j, .poll j] =
      { ((fl.poll i).poll j).setProgress j (.done s (.ok a)) with
        cache := ((fl.poll i).poll j).cache.fill s a } := by
    show ((fl.poll i).poll j).poll j = _
    rw [poll_of_making hmaker rfl]
    exact finish_of_ok hok
  have hdone := getElem?_setProgress_self (p := .done s (.ok a)) hmaker
  rw [hend]
  refine ⟨hdone, ?_⟩
  show ((((fl.poll i).poll j).cache.slot? f.key).bind _).isSome = false
  rw [hnone]
  rfl

end Overtaking

/-- **One fetch at a time makes a value**, and once one has succeeded no other does, as long as no
fetch of the key fails while another one waits for it. When that happens, the fetch that waited and the
next one to come make values at the same time, and the value of the one that waited is not found. -/
theorem single_flight (limit : Nat) (fetches : List (String × Except Fault α)) (key : String)
    (events : List Event) :
    let fl := (start (Cache.empty limit) fetches).after events
    (Undisturbed key (start (Cache.empty limit) fetches) events → SingleFlight key fl) ∧
    ∀ (i j : Nat) (f g : Fetch α) (s : Nat) (fault : Fault),
      fl.fetches[i]? = some f → f.key = key → f.progress = .making s → f.outcome = .error fault →
      fl.cache.slot? key = some s → fl.fetches[j]? = some g → g.progress = .waiting s →
      g.key = key ∧
      (∀ (k : Nat) (h : Fetch α), fl.fetches[k]? = some h → h.key = key → h.progress = .fresh →
        (fl.after [.poll i, .poll j, .poll k]).fetches[j]? = some { g with progress := .making s } ∧
        ∃ t, (fl.after [.poll i, .poll j, .poll k]).fetches[k]? =
          some { h with progress := .making t }) ∧
      ∀ a, g.outcome = .ok a →
        (fl.after [.poll i, .poll j, .poll j]).fetches[j]? =
          some { g with progress := .done (some s) (.ok a) } ∧
        (fl.after [.poll i, .poll j, .poll j]).cache.contains key = false := by
  intro fl
  have hsound : fl.Sound := ((sound_start limit fetches).after events).1
  refine ⟨fun h => ?_, ?_⟩
  · exact ((attached_start limit fetches).after (sound_start limit fetches) h).singleFlight hsound
  · rintro i j f g s fault hi rfl hf hout hs hj hg
    have hkey : g.key = f.key := hsound.single s g.key f.key
      (.inr ⟨j, g, hj, by rw [hg]; rfl, rfl⟩) (.inr ⟨i, f, hi, by rw [hf]; rfl, rfl⟩)
    exact ⟨hkey, fun k h hk hkey hh => two_makers_of_error hsound hi hf hout hs hj hg hk hkey hh,
      fun a hok => not_contains_of_error hsound hi hf hout hs hj hg hok⟩

/-- A fetch that fails while a second one waits for it and a third one has yet to come, and one that
nobody waits for. -/
theorem single_flight_boom :
    let fetches : List (String × Except Fault Nat) :=
      [("k", .error (.plain "boom")), ("k", .ok 1), ("k", .ok 2)]
    SingleFlight "k" ((start (Cache.empty 4) fetches).after [.poll 1, .poll 1, .poll 0]) ∧
    ∃ t, ((start (Cache.empty 4) fetches).after
      ([.poll 0, .poll 1] ++ [.poll 0, .poll 1, .poll 2])).fetches[2]? =
        some ⟨"k", .ok 2, .making t⟩ := by
  intro fetches
  have hfirst : (start (Cache.empty 4) fetches).fetches[1]? = some ⟨"k", .ok 1, .fresh⟩ := rfl
  have hsecond : ((start (Cache.empty 4) fetches).act (.poll 1)).fetches[1]? =
      some ⟨"k", .ok 1, .making 0⟩ := rfl
  have hthird : (((start (Cache.empty 4) fetches).act (.poll 1)).act (.poll 1)).fetches[0]? =
      some ⟨"k", .error (.plain "boom"), .fresh⟩ := rfl
  have hundisturbed : Undisturbed "k" (start (Cache.empty 4) fetches) [.poll 1, .poll 1, .poll 0] := by
    refine ⟨fun s hs => (nomatch hs), ?_, fun s hs => .inl hs, ?_, fun s hs => .inl hs, ?_, trivial⟩
    · rintro i f s fault he hi - - hout
      obtain rfl := Event.poll.inj he
      obtain rfl := Option.some.inj (hfirst.symm.trans hi)
      cases hout
    · rintro i f s fault he hi - - hout
      obtain rfl := Event.poll.inj he
      obtain rfl := Option.some.inj (hsecond.symm.trans hi)
      cases hout
    · rintro i f s fault he hi - hf
      obtain rfl := Event.poll.inj he
      obtain rfl := Option.some.inj (hthird.symm.trans hi)
      cases hf
  obtain ⟨-, htwo, -⟩ := (single_flight 4 fetches "k" [.poll 0, .poll 1]).2 0 1
    ⟨"k", .error (.plain "boom"), .making 0⟩ ⟨"k", .ok 1, .waiting 0⟩ 0 (.plain "boom")
    rfl rfl rfl rfl rfl rfl rfl
  refine ⟨(single_flight 4 fetches "k" [.poll 1, .poll 1, .poll 0]).1 hundisturbed, ?_⟩
  rw [after_append]
  exact (htwo 2 ⟨"k", .ok 2, .fresh⟩ rfl rfl rfl).2

end Flight

end Stencil
