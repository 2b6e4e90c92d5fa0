import Stencil.Proofs.Appliance.Commands

/-!
# The collection behind a store

What the store keeps of a simulated appliance from one operation to the next (`Keeps`), and what
reading and replacing the records makes of it. A store that is opened again has forgotten that the
collection exists, and finds it as it is.
-/

namespace Stencil

namespace ApplianceStore

variable {c : Collection} {rs : List Record} {s : State Appliance} {a a' : Appliance}

/-- These are the records of the collection, and a collection that is known to exist does. -/
structure Keeps (c : Collection) (rs : List Record) (s : State Appliance) : Prop where
  holds : s.2.Holds c rs
  hasCollection_of_known : s.1 = true → s.2.HasCollection c

/-- The collection exists, is known to exist, and these are its records. -/
structure Settled (c : Collection) (rs : List Record) (s : State Appliance) : Prop where
  known : s.1 = true
  holds : s.2.Holds c rs
  hasCollection : s.2.HasCollection c

theorem Settled.keeps (h : Settled c rs s) : Keeps c rs s := ⟨h.holds, fun _ => h.hasCollection⟩

theorem keeps_empty (c : Collection) : Keeps c [] (false, Appliance.empty) :=
  ⟨⟨rfl, rfl⟩, fun h => by cases h⟩

/-- Opening the store again forgets that the collection exists. -/
theorem Keeps.reopen (h : Keeps c rs s) : Keeps c rs (false, s.2) := ⟨h.holds, fun h => by cases h⟩

theorem result_send {command : String} {r : Except Fault String} (b : Bool)
    (h : Op.result (Appliance.execute command) a = (r, a')) :
    Op.result (send Appliance.execute command) (b, a) = (r, (b, a')) := by
  rw [send, Op.result_zoom]
  simp only [Lens.snd, h]

/-- That something exists already is no failure. -/
theorem result_createOnce {command : String} {r : Except Fault String} (b : Bool) (resource : String)
    (h : Op.result (Appliance.execute command) a = (r, a')) (hr : Appliance.Created r) :
    Op.result (createOnce Appliance.execute resource command) (b, a) = (.ok (), (b, a')) := by
  have hs : Op.result (Op.attempt (send Appliance.execute command)) (b, a) = (.ok r, (b, a')) := by
    rw [Op.result_attempt, result_send b h]
  rw [createOnce, Op.result_bind_of_ok hs]
  cases hr with
  | now output => rfl
  | @before shown reason hreason =>
    have hr : reasonOf (.problem (.commandFailed shown reason)) = reason := rfl
    simp only [hr, if_pos hreason, Op.result_pure]

theorem result_provision (h : Keeps c rs s) (hp : c.Plain) :
    ∃ s', Op.result (provision Appliance.execute c) s = (.ok (), s') ∧ Settled c rs s' := by
  obtain ⟨b, a⟩ := s
  rw [provision, Op.result_bind_of_ok (Op.result_get _)]
  cases b with
  | true => exact ⟨_, rfl, rfl, h.holds, h.hasCollection_of_known rfl⟩
  | false =>
    obtain ⟨r1, a1, h1, hr1, hh1, hf⟩ := Appliance.result_createFolder h.holds hp
    obtain ⟨r2, a2, h2, hr2, hh2, hc⟩ := Appliance.result_create hh1 hp hf
    have hnew : (!(false, a).1) = true := rfl
    rw [if_pos hnew, Op.result_bind_of_ok (result_createOnce false _ h1 hr1),
      Op.result_bind_of_ok (result_createOnce false _ h2 hr2)]
    exact ⟨_, rfl, rfl, hh2, hc⟩

/-- Reading gives the records that the collection has. -/
theorem result_readRecords (h : Keeps c rs s) (hp : c.Plain) (hl : ∀ r ∈ rs, r.Legible) :
    ∃ s', Op.result (readRecords Appliance.execute c) s = (.ok rs, s') ∧ Settled c rs s' := by
  obtain ⟨⟨b, a⟩, h1, hs⟩ := result_provision h hp
  obtain ⟨a', h2, hh, hc⟩ := Appliance.result_list hs.holds hp hs.hasCollection
  rw [readRecords, Op.result_bind_of_ok h1, Op.result_bind_of_ok (result_send b h2), Op.result_pure,
    Record.ofListing_listing hp.path_unbroken (Collection.head?_path c) hl]
  exact ⟨_, rfl, hs.known, hh, hc⟩

theorem result_readGroups (h : Keeps c rs s) (hp : c.Plain) (hl : ∀ r ∈ rs, r.Legible) :
    ∃ s', Op.result (readGroups Appliance.execute c) s = (RecordGroup.scan rs, s') ∧
      Settled c rs s' := by
  obtain ⟨s', h1, hs⟩ := result_readRecords h hp hl
  rw [readGroups, Op.result_bind_of_ok h1, Op.result_ofExcept]
  exact ⟨s', rfl, hs⟩

/-- Writing replaces the records of the collection. -/
theorem result_writeRecords (h : Settled c rs s) (hp : c.Plain) {new : List Record}
    (hl : ∀ r ∈ new, r.Legible) :
    ∃ s', Op.result (writeRecords Appliance.execute c new) s = (.ok (), s') ∧ Settled c new s' := by
  obtain ⟨b, a⟩ := s
  obtain ⟨a', h1, hh, hc⟩ := Appliance.result_modify h.holds hp h.hasCollection hl
  rw [writeRecords, Op.result_bind_of_ok (result_send b h1)]
  exact ⟨_, rfl, h.known, hh, hc⟩

theorem result_checkKey {σ : Type} {key : String} (h0 : key ≠ "")
    (h : ∀ d ∈ key.toList, isKeyChar d = true) (s : σ) :
    Op.result (checkKey key) s = (.ok (), s) := by
  have hf : (key.toList.find? fun d => !isKeyChar d) = none := by
    rw [List.find?_eq_none]
    intro d hd
    simp [h d hd]
  rw [checkKey, Op.result_bind_of_ok (Op.result_requireKey "key" h0 s), hf]
  rfl

end ApplianceStore

end Stencil
