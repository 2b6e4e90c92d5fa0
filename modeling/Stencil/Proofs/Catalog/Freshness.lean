import Stencil.Proofs.Catalog.Provenance
import Stencil.Proofs.Except
import Stencil.Proofs.NameMap

/-!
# No stale templates

Every task of a shared catalog keeps the discipline of `Shared.discipline`, step by step. So on every
schedule a fetch that begins after a write is done gives a template that was made from what the store
held since that write (`Shared.made_since_write`): a write goes on to a fresh cell before it clears the
cache, so whoever finds a slot in the cache afterwards finds one that was made while that cell or a later
one was in use.
-/

namespace Stencil

/-! ### Cells that are filled at most once -/

namespace Cells

variable {σ α : Type} {c : Cells σ α} {n : Nat} {make : Task σ α} {D : Discipline σ}
  {Q : α → σ → Prop} {s : σ}

theorem result_takeUp_of_some {a : α} (h : c.get? n s = some a) :
    Op.result (c.takeUp n) s = (.ok (some a), s) := by
  rw [takeUp, Op.result_bind_of_ok (Op.result_get s)]
  simp only [h]
  rfl

theorem result_takeUp_of_none (h : c.get? n s = none) :
    Op.result (c.takeUp n) s = (.ok none, c.busy.set (n :: c.busy.get s) s) := by
  rw [takeUp, Op.result_bind_of_ok (Op.result_get s)]
  simp only [h]
  rfl

/-- What a cell gives is what it holds when it is looked up, or what is made for it, if such a value may
be put into the cell. -/
theorem keeps_obtain (hQ : ∀ a, Task.Stable D (Q a))
    (hbusy : ∀ s' (f : List Nat → List Nat), D.may s s' → D.inv s' → D.inv (c.busy.set (f (c.busy.get s')) s') ∧
      D.may s' (c.busy.set (f (c.busy.get s')) s'))
    (hget : ∀ s' a, D.may s s' → D.inv s' → c.get? n s' = some a → Q a s')
    (hmake : ∀ s', D.may s s' → make.Keeps D Q s')
    (hfill : ∀ s' a, D.may s s' → D.inv s' → Q a s' →
      D.inv (c.fill n a s') ∧ D.may s' (c.fill n a s')) :
    (c.obtain n make).Keeps D Q s := by
  refine (Task.keeps_when (P := fun r s' => ∀ a, r = some a → Q a s')
    fun s' hs' hinv _ => ?_).bind fun r s₁ hs₁ hr => ?_
  · rcases hc : c.get? n s' with _ | a
    · rw [result_takeUp_of_none hc]
      obtain ⟨hi, hm⟩ := hbusy s' (n :: ·) hs' hinv
      exact ⟨hi, hm, fun b hb a ha => by simp [← Except.ok.inj hb] at ha⟩
    · rw [result_takeUp_of_some hc]
      refine ⟨hinv, D.refl s', fun b hb a' ha' => ?_⟩
      obtain rfl : a = a' := by simpa [← Except.ok.inj hb] using ha'
      exact hget s' a hs' hinv hc
  · cases r with
    | some a => exact Task.keeps_pure (hr a rfl)
    | none =>
      refine (hmake s₁ hs₁).attempt.bind fun r s₂ hs₂ hr => ?_
      have hs₂ := D.trans hs₁ hs₂
      cases r with
      | ok a =>
        refine (Task.keeps_once (P := fun _ s' => Q a s') fun s' hs' hinv => ?_).bind
          fun _ s₃ _ hQ₃ => Task.keeps_pure hQ₃
        have hs' := D.trans hs₂ hs'
        have hQ' : Q a s' := hQ a s₂ s' ‹_› (hr a rfl)
        obtain ⟨hi, hm⟩ := hfill s' a hs' hinv hQ'
        obtain ⟨hi', hm'⟩ := hbusy (c.fill n a s') (·.erase n) (D.trans hs' hm) hi
        exact ⟨hi', D.trans hm hm', fun _ _ => hQ a s' _ (D.trans hm hm') hQ'⟩
      | error e =>
        refine (Task.keeps_once (P := fun _ _ => True) fun s' hs' hinv => ?_).bind
          fun _ s₃ _ _ => Task.keeps_ofExcept fun _ h => nomatch h
        obtain ⟨hi, hm⟩ := hbusy s' (·.erase n) (D.trans hs₂ hs') hinv
        exact ⟨hi, hm, fun _ _ => trivial⟩

end Cells

namespace Shared

variable {s t : Shared} {k i : Nat} {name : String}

/-! ### Reading -/

theorem result_reading {α : Type} {op : Op (NameMap Json) α} (hop : op.Looks id fun _ => ())
    (s : Shared) : Op.result (do
      let a ← op.zoom itemsPart
      return (a, (← get).version)) s = ((Op.result op s.items).1.map (·, s.version), s) := by
  have hitems : (Op.result op s.items).2 = s.items := hop.view_eq s.items
  have hzoom : Op.result (op.zoom itemsPart) s = ((Op.result op s.items).1, s) := by
    rw [Op.result_zoom, show itemsPart.get s = s.items from rfl, hitems]
    rfl
  rcases hr : (Op.result op s.items).1 with e | a <;> rw [hr] at hzoom
  · rw [Op.result_bind_of_error hzoom]
    rfl
  · rw [Op.result_bind_of_ok hzoom]
    rfl

/-- What is read is what the store holds at that moment. -/
theorem keeps_reading {α : Type} {op : Op (NameMap Json) α} (hop : op.Looks id fun _ => ())
    (hk : k ≤ s.version) : (reading op).Keeps discipline
      (fun p s' => k ≤ p.2 ∧ s'.Held p.2 fun items => (Op.result op items).1 = .ok p.1) s := by
  refine Task.keeps_look (fun s' => congrArg Prod.snd (result_reading hop s')) fun s' hs' _ p hp => ?_
  rw [result_reading hop] at hp
  obtain ⟨a, ha, rfl⟩ := map_eq_ok hp
  exact ⟨Nat.le_trans hk hs'.version, s'.items, s'.contents?_version, ha⟩

theorem stable_held {P : NameMap Json → Prop} {v : Nat} :
    Task.Stable discipline fun s => k ≤ v ∧ s.Held v P := fun _ _ hs h => ⟨h.1, h.2.later hs⟩

theorem keeps_setNames (hk : k ≤ s.version) : setNames.Keeps discipline
    (fun p s' => k ≤ p.2 ∧ s'.Held p.2 fun items => answer memorySets.setNames items = .ok p.1) s := by
  refine (keeps_reading Store.readsFrom_memory.keys hk).bind fun p s' _ hp => Task.keeps_pure ?_
  obtain ⟨names, version⟩ := p
  obtain ⟨hkp, items, hv, hitems⟩ := hp
  obtain rfl : NameMap.names items = names := Except.ok.inj hitems
  exact ⟨hkp, items, hv, rfl⟩

/-- The catalog of a store in memory gets what the store gets. -/
theorem result_get {items : NameMap Json} {w : Workshop} {key : String} {value : Option Json}
    (h : (Op.result (Store.memory.get key) items).1 = .ok value) :
    Op.result (memorySets.store.get key) (items, w) = (.ok value, items, w) := by
  have hitems : (Op.result (Store.memory.get key) items).2 = items :=
    (Store.readsFrom_memory.get key).view_eq items
  exact Op.result_zoom_fst (Prod.ext h hitems) w

theorem keeps_readSet (hk : k ≤ s.version) (set : String) : (readSet set).Keeps discipline
    (fun p s' => k ≤ p.2 ∧
      s'.Held p.2 fun items => answer (memorySets.readSet set) items = .ok p.1) s := by
  refine (keeps_reading (Store.readsFrom_memory.get set) hk).bind fun p s₁ _ hp => ?_
  obtain ⟨value, version⟩ := p
  obtain ⟨hkp, items, hv, hitems⟩ := hp
  cases value with
  | none => exact Task.keeps_ofExcept fun _ h => nomatch h
  | some value =>
    refine (Task.keeps_ofExcept (P := fun b s' => s'.Held version fun items =>
      answer (memorySets.readSet set) items = .ok b) fun b hb => ⟨items, hv, ?_⟩).bind
        fun b s₂ hs₂ hb => Task.keeps_pure ⟨hkp, hb⟩
    show (Op.result (memorySets.readSet set) (items, Workshop.empty 1)).1 = _
    rw [StoredSets.readSet, Op.result_bind_of_ok (result_get hitems)]
    simp only [hb, Op.result_ofExcept_ok]

/-- Fragments are gathered from what the store holds while they are loaded. -/
theorem keeps_loadFragments (hk : k ≤ s.version) :
    loadFragments.Keeps discipline (fun a s' => s'.Loaded k a) s := by
  refine (keeps_setNames hk).bind fun p s₁ hs₁ hp => ?_
  obtain ⟨names, version⟩ := p
  have hk₁ : k ≤ s₁.version := Nat.le_trans hk hs₁.version
  refine (Task.keeps_mapM (fun _ _ => stable_held)
    (fun set s' hs' => keeps_readSet (Nat.le_trans hk₁ hs'.version) set) names).bind
      fun bundles s₂ hs₂ hbundles => ?_
  refine (Task.keeps_ofExcept (P := fun f s' => s'.Gathered (version :: bundles.map (·.2)) f)
    fun f hf => ?_).bind fun f s₃ hs₃ hf => Task.keeps_pure ⟨fun v hv => ?_, hf⟩
  · exact ⟨version, names, bundles, rfl, hp.2.later hs₂, hbundles.imp fun _ _ h => h.2, hf⟩
  · rcases List.mem_cons.1 hv with rfl | hv
    · exact hp.1
    · obtain ⟨b, hb, rfl⟩ := List.mem_map.1 hv
      have hsince : ∀ b ∈ bundles, k ≤ b.2 :=
        ((List.forall₂_and_left bundles names).1 hbundles.flip).1
      exact hsince b hb

/-- Listing all templates only reads. -/
theorem keeps_listTemplates : listTemplates.Keeps discipline (fun _ _ => True) s := by
  refine (keeps_setNames (Nat.zero_le _)).bind fun p s₁ _ _ => ?_
  refine (Task.keeps_mapM (R := fun _ _ _ => True) (fun _ _ _ _ _ _ => trivial)
    (fun set s' _ => ?_) p.1).bind fun _ _ _ _ => Task.keeps_pure trivial
  exact (keeps_readSet (Nat.zero_le _) set).bind fun _ _ _ _ => Task.keeps_pure trivial

theorem keeps_failNotFound {Q : String × Nat → Shared → Prop} (name : String) :
    (failNotFound name).Keeps discipline Q s :=
  keeps_listTemplates.bind fun _ _ _ _ => Task.keeps_ofExcept fun _ h => nomatch h

/-- The text of a template is what the store holds when it is read. -/
theorem keeps_readTemplate (hk : k ≤ s.version) (name : String) : (readTemplate name).Keeps discipline
    (fun p s' => k ≤ p.2 ∧
      s'.Held p.2 fun items => answer (memorySets.readTemplate name) items = .ok p.1) s := by
  unfold readTemplate
  rcases hname : Catalog.splitName name with _ | ⟨set, template⟩
  · exact keeps_failNotFound name
  refine (keeps_reading (Store.readsFrom_memory.get set) hk).bind fun p s₁ _ hp => ?_
  obtain ⟨value, version⟩ := p
  obtain ⟨hkp, items, hv, hitems⟩ := hp
  cases value with
  | none => exact keeps_failNotFound name
  | some value =>
    refine (Task.keeps_ofExcept (P := fun b s' => s'.Held version fun items =>
      (Op.result (Store.memory.get set) items).1 = .ok (some value) ∧ Bundle.ofJson set value = .ok b)
        fun b hb => ⟨items, hv, hitems, hb⟩).bind fun b s₂ _ hb => ?_
    rcases ht : NameMap.get? b.templates template with _ | text
    · exact keeps_failNotFound name
    · obtain ⟨items, hv, hitems, hb⟩ := hb
      refine Task.keeps_pure ⟨hkp, items, hv, ?_⟩
      show (Op.result (memorySets.readTemplate name) (items, Workshop.empty 1)).1 = _
      rw [StoredSets.readTemplate, hname]
      simp only
      rw [Op.result_bind_of_ok (result_get hitems)]
      simp only [hb]
      rw [Op.result_bind_of_ok (Op.result_ofExcept_ok b _), ht]
      rfl

/-! ### Fetching -/

/-- The fragments of the cell in use were loaded since it was born. -/
theorem keeps_fragments (hk : k ≤ s.currentBorn) :
    fragments.Keeps discipline (fun a s' => s'.Loaded k a) s := by
  refine (Task.keeps_look (P := fun j s' => j < s'.workshop.cells.size ∧
    k ≤ (s'.cellNotes j).born ∧ (s'.cellNotes j).born ≤ s'.version) (fun _ => rfl)
      fun s' hs' hinv j hj => ?_).bind fun j s₁ _ hj => ?_
  · obtain rfl : s'.workshop.current = j := Except.ok.inj hj
    exact ⟨hinv.current, Nat.le_trans hk hs'.current, hinv.born⟩
  · obtain ⟨hlt, hborn, hversion⟩ := hj
    have hsame {s' : Shared} (hs' : Later s₁ s') : (s'.cellNotes j).born = (s₁.cellNotes j).born :=
      hs'.cellBorn j hlt
    refine (cells.keeps_obtain (Q := fun a s' => s'.Loaded (s₁.cellNotes j).born a)
      (fun a _ _ hs' ha => ha.later hs') (fun s' f _ hinv => ?_) (fun s' a hs' hinv ha => ?_)
      (fun s' hs' => keeps_loadFragments (Nat.le_trans hversion hs'.version))
      (fun s' a hs' hinv ha => ?_)).imp fun a _ _ ha => ha.mono hborn
    · exact sound_calmed hinv s'.making (f s'.loading) (fun _ h => h) s'.workshop.engines.hits
    · rw [← hsame hs']
      exact hinv.fragments j a ha
    · exact sound_fill_cell hinv (hsame hs' ▸ ha)

/-- A template is compiled from what was read meanwhile, and from fragments that are no older than the
cell in use. -/
theorem keeps_compile (hk : k ≤ s.currentBorn) (hv : k ≤ s.version) (name : String) :
    (compile name).Keeps discipline (fun a s' => s'.Made name k a) s := by
  refine (keeps_readTemplate hv name).bind fun p s₁ hs₁ hp => ?_
  obtain ⟨text, version⟩ := p
  refine (keeps_fragments (Nat.le_trans hk hs₁.current)).bind fun a s₂ hs₂ ha => ?_
  obtain ⟨f, sets⟩ := a
  refine (Task.keeps_ofExcept (P := fun e s' => s'.Made name k (e, ⟨version, sets⟩))
    fun e he => ?_).bind fun e s₃ _ he => Task.keeps_pure he
  exact ⟨⟨hp.1, ha.since⟩, text, f, hp.2.later hs₂, ha.gathered, he⟩

/-- A key either has a slot or gets a new one. -/
theorem result_reserve (key : String) (s : Shared) : Op.result (reserve key) s =
    match s.workshop.engines.slot? key with
    | some i => (.ok i, s.calmed s.making s.loading s.workshop.engines.entries
        (if (s.workshop.engines.value? i).isSome then s.workshop.engines.hits + 1
          else s.workshop.engines.hits))
    | none => (.ok s.slotCount, s.reserved key) := by
  rcases hslot : s.workshop.engines.slot? key with _ | i
  · have hreserve : s.workshop.engines.reserve key = (s.slotCount, s.workshop.engines.opened key) := by
      rw [Cache.opened, Cache.reserve_of_none hslot]
    rw [reserve, Op.result_bind_of_ok (Op.result_get s), hreserve]
    simp only [hslot]
    rfl
  · have hreserve : s.workshop.engines.reserve key = (i, { s.workshop.engines with
        hits := if (s.workshop.engines.value? i).isSome then s.workshop.engines.hits + 1
          else s.workshop.engines.hits }) := by
      rw [Cache.reserve, hslot]
      simp only
      split <;> rfl
    rw [reserve, Op.result_bind_of_ok (Op.result_get s), hreserve]
    simp only [hslot]
    rfl

/-- Above the floor, the slot of a key was born above it. -/
theorem keeps_reserve (hk : Floor k s) (name : String) :
    (Task.once do
      Op.requireKey "key" name
      reserve name).Keeps discipline (fun i s' => i < s'.slotCount ∧ (s'.slotNotes i).key = name ∧
        k ≤ (s'.slotNotes i).born ∧ (s'.slotNotes i).born ≤ s'.currentBorn ∧
        (s'.slotNotes i).born ≤ s'.version) s := by
  refine Task.keeps_once fun s' hs' hinv => ?_
  by_cases hn : name = ""
  · subst hn
    exact ⟨hinv, Later.refl s', fun _ h => nomatch h⟩
  rw [Op.result_bind_of_ok (Op.result_requireKey "key" hn s'), result_reserve]
  have hfloor := hs'.floor k hk
  rcases hslot : s'.workshop.engines.slot? name with _ | i
  · obtain ⟨hi, hm⟩ := sound_reserved hinv hslot
    refine ⟨hi, hm, fun j hj => ?_⟩
    obtain rfl : s'.slotCount = j := Except.ok.inj hj
    have hsize : (s'.reserved name).slotCount = s'.slotCount + 1 := by
      show (s'.workshop.engines.opened name).cells.size = _
      rw [Cache.opened, Cache.reserve_of_none hslot, Array.size_push]
    have hnote : (s'.reserved name).slotNotes s'.slotCount = ⟨name, s'.currentBorn, ⟨0, []⟩⟩ :=
      if_pos rfl
    rw [hnote]
    exact ⟨by rw [hsize]; exact Nat.lt_succ_self _, rfl, hfloor.current, Nat.le_refl _, hinv.born⟩
  · obtain ⟨hi, hm⟩ := sound_calmed hinv s'.making s'.loading (fun _ h => h)
      (if (s'.workshop.engines.value? i).isSome then s'.workshop.engines.hits + 1
        else s'.workshop.engines.hits)
    refine ⟨hi, hm, fun j hj => ?_⟩
    obtain rfl : i = j := Except.ok.inj hj
    have hmem : (name, i) ∈ s'.workshop.engines.entries := by
      obtain ⟨l₁, l₂, hl, -⟩ := List.lookup_eq_some_iff.1 hslot
      rw [hl]
      simp
    obtain ⟨hlt, hkey, hborn⟩ := hinv.entry _ hmem
    exact ⟨hlt, hkey, hfloor.entry _ hmem, hborn, Nat.le_trans hborn hinv.born⟩

/-- **A fetch that begins above a floor gives what was read above it.** -/
theorem keeps_fetch (hk : Floor k s) (name : String) :
    (fetch name).Keeps discipline (fun a s' => s'.Made name k a) s := by
  refine (keeps_reserve hk name).bind fun i s₁ _ hi => ?_
  obtain ⟨hlt, hkey, hborn, hcurrent, hversion⟩ := hi
  have hsame {s' : Shared} (hs' : Later s₁ s') :
      (s'.slotNotes i).key = name ∧ (s'.slotNotes i).born = (s₁.slotNotes i).born :=
    ⟨(hs'.slot i hlt).1.trans hkey, (hs'.slot i hlt).2⟩
  have hobtain : (slots.obtain i (compile name)).Keeps discipline
      (fun a s' => s'.Made name (s₁.slotNotes i).born a) s₁ := by
    refine slots.keeps_obtain (fun a _ _ hs' ha => ha.later hs') (fun s' f _ hinv => ?_)
      (fun s' a hs' hinv ha => ?_) (fun s' hs' => keeps_compile (Nat.le_trans hcurrent hs'.current)
        (Nat.le_trans hversion hs'.version) name) (fun s' a hs' hinv ha => ?_)
    · exact sound_calmed hinv (f s'.making) s'.loading (fun _ h => h) s'.workshop.engines.hits
    · have hmade := hinv.engine i a ha
      rwa [(hsame hs').1, (hsame hs').2] at hmade
    · refine sound_fill_slot hinv ?_
      rw [(hsame hs').1, (hsame hs').2]
      exact ha
  refine hobtain.attempt.bind fun r s₂ _ hr => ?_
  cases r with
  | ok a => exact Task.keeps_pure ((hr a rfl).mono hborn)
  | error e =>
    refine (Task.keeps_once (P := fun _ _ => True) fun s' _ hinv => ?_).bind fun _ _ _ _ =>
      Task.keeps_ofExcept fun _ h => nomatch h
    have hdiscard : ∃ entries, (∀ p ∈ entries, p ∈ s'.workshop.engines.entries) ∧
        s'.workshop.engines.discard name i = { s'.workshop.engines with entries } := by
      rw [Cache.discard]
      split
      · exact ⟨_, fun p hp => (List.mem_filter.1 hp).1, rfl⟩
      · exact ⟨s'.workshop.engines.entries, fun _ h => h, rfl⟩
    obtain ⟨entries, he, hd⟩ := hdiscard
    have hstate : (Op.result (Op.change (workshopPart.comp Workshop.enginesLens)
        (·.discard name i)) s').2 = s'.calmed s'.making s'.loading entries s'.workshop.engines.hits :=
      congrArg (fun c => { s' with workshop := { s'.workshop with engines := c } }) hd
    rw [hstate]
    obtain ⟨hi, hm⟩ := sound_calmed hinv s'.making s'.loading he s'.workshop.engines.hits
    exact ⟨hi, hm, fun _ _ => trivial⟩

/-! ### Writing -/

/-- The write of a number did to the store what a request asks for. -/
def Wrote (s : Shared) (k : Nat) : StoredSets.Request → Prop
  | .upload b => ∃ n items, k = n + 1 ∧ s.contents? n = some items ∧
    s.contents? k = some (NameMap.insert items b.name b.toJson)
  | .remove set => ∃ n items, k = n + 1 ∧ s.contents? n = some items ∧
    NameMap.has items set = true ∧ s.contents? k = some (NameMap.erase items set)
  | .fetch _ | .invalidate => False

theorem Wrote.later {r : StoredSets.Request} (h : s.Wrote k r) (hs : Later s t) : t.Wrote k r := by
  cases r with
  | upload b =>
    obtain ⟨n, items, hk, hn, hitems⟩ := h
    exact ⟨n, items, hk, hs.contents _ _ hn, hs.contents _ _ hitems⟩
  | remove set =>
    obtain ⟨n, items, hk, hn, hhas, hitems⟩ := h
    exact ⟨n, items, hk, hs.contents _ _ hn, hhas, hs.contents _ _ hitems⟩
  | fetch name => exact h
  | invalidate => exact h

theorem contents?_wrote (s : Shared) (items : NameMap Json) :
    (s.wrote items).contents? s.version = some s.items ∧
      (s.wrote items).contents? (s.version + 1) = some items := by
  have hversion : (s.wrote items).version = s.version + 1 := List.length_append
  constructor
  · rw [contents?, wrote, List.getElem?_append_left (by rw [List.length_append]; exact Nat.lt_succ_self _)]
    exact s.contents?_version
  · rw [← hversion]
    exact (s.wrote items).contents?_version

theorem keeps_invalidate (hk : k ≤ s.currentBorn) :
    invalidate.Keeps discipline (fun _ s' => Floor k s') s := by
  refine Task.keeps_once fun s' hs' hinv => ?_
  have hstate : (Op.result (Op.change workshopPart Workshop.invalidate) s').2 =
      s'.calmed s'.making s'.loading [] s'.workshop.engines.hits := rfl
  rw [hstate]
  obtain ⟨hi, hm⟩ := sound_calmed hinv s'.making s'.loading (fun p hp => absurd hp List.not_mem_nil)
    s'.workshop.engines.hits
  exact ⟨hi, hm, fun _ _ => ⟨Nat.le_trans hk hs'.current, fun p hp => absurd hp List.not_mem_nil⟩⟩

/-- A write that is done leaves a floor. -/
theorem keeps_finishWrite (hk : k ≤ s.version) :
    (finishWrite k).Keeps discipline (fun v s' => v = k ∧ Floor k s') s := by
  have hpersist : (Task.once (Store.memory.persist.zoom itemsPart)).Keeps discipline
      (fun _ s' => k ≤ s'.version) s :=
    Task.keeps_look (fun _ => rfl) fun s' hs' _ _ _ => Nat.le_trans hk hs'.version
  refine hpersist.bind fun _ s₁ _ hk₁ => ?_
  refine (Task.keeps_once (P := fun _ s' => k ≤ s'.currentBorn) fun s' hs' hinv => ?_).bind
    fun _ s₂ _ hk₂ => (keeps_invalidate hk₂).bind fun _ s₃ _ hk₃ => Task.keeps_pure ⟨rfl, hk₃⟩
  obtain ⟨hi, hm, hcurrent⟩ := sound_renewed hinv
  have hstate : (Op.result renew s').2 = s'.renewed := rfl
  rw [hstate]
  exact ⟨hi, hm, fun _ _ => hcurrent ▸ Nat.le_trans hk₁ hs'.version⟩

/-- A change of the store counts as a write. -/
theorem result_writing {op : Op (NameMap Json) Bool} {changed : Bool} {items : NameMap Json}
    (h : Op.result op s.items = (.ok changed, items)) : Op.result (writing op) s =
      (.ok changed, if changed then s.wrote items else { s with items }) := by
  have hzoom : Op.result (op.zoom itemsPart) s = (.ok changed, { s with items }) := by
    rw [Op.result_zoom, show Op.result op (itemsPart.get s) = _ from h]
    rfl
  rw [writing, Op.result_bind_of_ok (Op.result_get s), Op.result_bind_of_ok hzoom]
  cases changed <;> rfl

/-- The first step of an upload. -/
theorem result_upload_first {b : Bundle} (hb : b.name ≠ "") (s : Shared) :
    Op.result (do
      let _ ← writing do
        Store.memory.set b.name b.toJson
        return true
      return (← get).version) s =
      (.ok (s.version + 1), s.wrote (NameMap.insert s.items b.name b.toJson)) := by
  have hset : Op.result (do
      Store.memory.set b.name b.toJson
      return true) s.items = (.ok true, NameMap.insert s.items b.name b.toJson) := by
    rw [Op.result_bind_of_ok (Store.result_memory_set hb _ _)]
    rfl
  rw [Op.result_bind_of_ok (result_writing hset), if_pos rfl]
  show (Except.ok (s.wrote _).version, _) = _
  rw [version, wrote, List.length_append]
  rfl

theorem keeps_upload (b : Bundle) : (upload b).Keeps discipline
    (fun v s' => Floor v s' ∧ s'.Wrote v (.upload b)) s := by
  refine (Task.keeps_once (P := fun v s' => v ≤ s'.version ∧ s'.Wrote v (.upload b))
    fun s' _ hinv => ?_).bind fun v s₁ _ hv => (keeps_finishWrite hv.1).imp
      fun v' s' hs' hv' => hv'.1 ▸ ⟨hv'.2, hv.2.later hs'⟩
  by_cases hn : b.name = ""
  · have hstate : Op.result (do
        let _ ← writing do
          Store.memory.set b.name b.toJson
          return true
        return (← get).version) s' = (.error (.problem (.missingArgument "key")), s') := by
      rw [hn]
      rfl
    rw [hstate]
    exact ⟨hinv, Later.refl s', fun _ h => nomatch h⟩
  · rw [result_upload_first hn]
    obtain ⟨hi, hm, hversion⟩ := sound_wrote hinv (NameMap.insert s'.items b.name b.toJson)
    obtain ⟨hold, hnew⟩ := contents?_wrote s' (NameMap.insert s'.items b.name b.toJson)
    refine ⟨hi, hm, fun v hv => ?_⟩
    obtain rfl : s'.version + 1 = v := Except.ok.inj hv
    exact ⟨Nat.le_of_eq hversion.symm, s'.version, s'.items, rfl, hold, hnew⟩

/-- The first step of a removal. -/
theorem result_remove_first {set : String} (hset : set ≠ "") (s : Shared) :
    Op.result (do
      let there ← writing (Store.memory.delete set)
      return (there, (← get).version)) s =
      if NameMap.has s.items set = true then
        (.ok (true, s.version + 1), s.wrote (NameMap.erase s.items set))
      else (.ok (false, s.version), { s with items := NameMap.erase s.items set }) := by
  rw [Op.result_bind_of_ok (result_writing (Store.result_memory_delete hset s.items))]
  cases NameMap.has s.items set with
  | true =>
    show (Except.ok (true, (s.wrote _).version), _) = _
    rw [version, wrote, List.length_append]
    rfl
  | false => rfl

theorem keeps_remove (set : String) : (remove set).Keeps discipline
    (fun v s' => Floor v s' ∧ s'.Wrote v (.remove set)) s := by
  refine (Task.keeps_once (P := fun p s' => p.1 = true → p.2 ≤ s'.version ∧
    s'.Wrote p.2 (.remove set)) fun s' _ hinv => ?_).bind fun p s₁ _ hp => ?_
  · by_cases hn : set = ""
    · have hstate : Op.result (do
          let there ← writing (Store.memory.delete set)
          return (there, (← get).version)) s' = (.error (.problem (.missingArgument "key")), s') := by
        rw [hn]
        rfl
      rw [hstate]
      exact ⟨hinv, Later.refl s', fun _ h => nomatch h⟩
    rw [result_remove_first hn]
    by_cases hhas : NameMap.has s'.items set = true
    · rw [if_pos hhas]
      obtain ⟨hi, hm, hversion⟩ := sound_wrote hinv (NameMap.erase s'.items set)
      obtain ⟨hold, hnew⟩ := contents?_wrote s' (NameMap.erase s'.items set)
      refine ⟨hi, hm, fun p hp _ => ?_⟩
      obtain rfl : (true, s'.version + 1) = p := Except.ok.inj hp
      exact ⟨Nat.le_of_eq hversion.symm, s'.version, s'.items, rfl, hold, hhas, hnew⟩
    · have hsame : NameMap.erase s'.items set = s'.items :=
        NameMap.erase_of_has_eq_false (Bool.not_eq_true _ ▸ hhas)
      rw [if_neg hhas, hsame]
      exact ⟨hinv, Later.refl s', fun p hp htrue => by simp [← Except.ok.inj hp] at htrue⟩
  · obtain ⟨there, version⟩ := p
    cases there with
    | true =>
      obtain ⟨hv, hwrote⟩ := hp rfl
      exact (keeps_finishWrite hv).imp fun v' s' hs' hv' => hv'.1 ▸ ⟨hv'.2, hwrote.later hs'⟩
    | false => exact Task.keeps_ofExcept fun _ h => nomatch h

/-! ### All requests together -/

/-- The answer to a request is as it should be: a template was made since so many writes, and a write has
left a floor. -/
def Fair (k : Nat) (r : StoredSets.Request) (a : Answer) (s : Shared) : Prop :=
  match a with
  | .engine e o => ∃ name, r = .fetch name ∧ s.Made name k (e, o)
  | .written v => Floor v s ∧ s.Wrote v r
  | .invalidated => r = .invalidate

theorem stable_fair (k : Nat) (r : StoredSets.Request) (a : Answer) :
    Task.Stable discipline (Fair k r a) := by
  intro s t hs h
  cases a with
  | engine e o =>
    obtain ⟨name, hr, hmade⟩ := h
    exact ⟨name, hr, hmade.later hs⟩
  | written v => exact ⟨hs.floor v h.1, h.2.later hs⟩
  | invalidated => exact h

/-- The task of a request that begins above a floor. -/
theorem keeps_perform (hk : Floor k s) (r : StoredSets.Request) :
    (perform r).Keeps discipline (Fair k r) s := by
  cases r with
  | fetch name =>
    exact (keeps_fetch hk name).bind fun a _ _ ha => Task.keeps_pure ⟨name, rfl, ha⟩
  | upload b => exact (keeps_upload b).bind fun v _ _ hv => Task.keeps_pure hv
  | remove set => exact (keeps_remove set).bind fun v _ _ hv => Task.keeps_pure hv
  | invalidate =>
    exact (keeps_invalidate (Nat.zero_le _)).bind fun _ _ _ _ => Task.keeps_pure rfl

theorem sound_start (items : NameMap Json) (limit : Nat) :
    Sound (start items limit) ∧ Floor 0 (start items limit) := by
  have hfragments (j : Nat) (a : Fragments × List Nat) :
      cells.get? j (start items limit) ≠ some a := by
    intro ha
    obtain ⟨f, hf, -⟩ := Option.map_eq_some_iff.1 ha
    have hf' : ((#[none] : Array (Option Fragments))[j]?).bind id = some f := hf
    cases j with
    | zero => cases hf'
    | succ j => simp at hf'
  refine ⟨⟨Nat.zero_lt_one, Nat.le_refl _, fun p hp => absurd hp List.not_mem_nil, fun i a ha => ?_,
    fun j a ha => absurd ha (hfragments j a)⟩, Nat.le_refl _, fun p hp => absurd hp List.not_mem_nil⟩
  have hnone : slots.get? i (start items limit) = none := rfl
  rw [hnone] at ha
  cases ha

/-- What is asked of the answers of a crew: each is fair to its request, above a level of its own. -/
def FairTo (requests : List StoredSets.Request) (level : Nat → Nat) (i : Nat) (a : Answer)
    (s : Shared) : Prop :=
  ∃ r, requests[i]? = some r ∧ Fair (level i) r a s

theorem stable_fairTo (requests : List StoredSets.Request) (level : Nat → Nat) (i : Nat) (a : Answer) :
    Task.Stable discipline (FairTo requests level i a) := fun _ _ hs ⟨r, hr, h⟩ =>
  ⟨r, hr, stable_fair _ r a _ _ hs h⟩

variable {items : NameMap Json} {limit : Nat} {requests : List StoredSets.Request}

theorem keeps_crew (items : NameMap Json) (limit : Nat) (requests : List StoredSets.Request) :
    (crew items limit requests).Keeps discipline (FairTo requests fun _ => 0) := by
  obtain ⟨hsound, hfloor⟩ := sound_start items limit
  refine ⟨hsound, fun {i t} ht => ?_⟩
  obtain ⟨r, hr, rfl⟩ := List.getElem?_map .. ▸ ht |> Option.map_eq_some_iff.1
  exact (keeps_perform hfloor r).imp fun a _ _ ha => ⟨r, hr, ha⟩

/-- **A fetch that begins after a write is done sees the write.** Requests are made of a shared catalog,
and take their steps in any order. One of them has changed the store, as the `k`-th write, and is done
before another one, a fetch, takes its first step. Then the template that the fetch gives was made since
the `k`-th write: its text and every set of its fragments were read from the store after that many
writes or more, and it is compiled from what the store held then. -/
theorem made_since_write {before after : List Nat} {c : Crew Shared Answer} {w t : Nat}
    {e : Engine} {o : Origin} (hc : (crew items limit requests).run before = c)
    (hw : c.result? w = some (.ok (.written k))) (ht : requests[t]? = some (.fetch name))
    (hfresh : t ∉ before) (hresult : (c.run after).result? t = some (.ok (.engine e o))) :
    (∃ r, requests[w]? = some r ∧ (c.run after).state.Wrote k r) ∧
      (c.run after).state.Made name k (e, o) := by
  obtain ⟨hkeeps, -⟩ := (keeps_crew items limit requests).run (stable_fairTo _ _) before
  rw [hc] at hkeeps
  obtain ⟨r, hr, hfloor, hwrote⟩ := hkeeps.of_result? hw
  have htask : c.tasks[t]? = some (perform (.fetch name)) := by
    rw [← hc, Crew.getElem?_run hfresh]
    show (requests.map perform)[t]? = _
    rw [List.getElem?_map, ht]
    rfl
  -- From here on more is known of the answer to the fetch, since it begins above the floor.
  obtain ⟨level, hk, hzero⟩ : ∃ level : Nat → Nat, level t = k ∧ ∀ i, i ≠ t → level i = 0 :=
    ⟨fun i => if i = t then k else 0, if_pos rfl, fun _ hi => if_neg hi⟩
  have hlevel : c.Keeps discipline (FairTo requests level) := by
    refine ⟨hkeeps.inv, fun {i u} hu => ?_⟩
    by_cases hi : i = t
    · subst hi
      obtain rfl : perform (.fetch name) = u := Option.some.inj (htask.symm.trans hu)
      exact (keeps_perform hfloor _).imp fun a _ _ ha => ⟨_, ht, by rwa [hk]⟩
    · exact (hkeeps.task hu).imp fun a _ _ ⟨r, hr, ha⟩ => ⟨r, hr, by rwa [hzero i hi]⟩
  obtain ⟨hrun, hmay⟩ := hlevel.run (stable_fairTo _ _) after
  obtain ⟨r', hr', name', hname, hmade⟩ := hrun.of_result? hresult
  obtain rfl : name = name' := by
    rw [ht] at hr'
    rw [← Option.some.inj hr'] at hname
    exact StoredSets.Request.fetch.inj hname
  rw [hk] at hmade
  exact ⟨⟨r, hr, hwrote.later hmay⟩, hmade⟩

/-- What a task has given. -/
def given (c : Crew Shared Answer) (i : Nat) : Option Answer := (c.result? i).bind Except.toOption

def Answer.number? : Answer → Option Nat
  | .written k => some k
  | _ => none

def Answer.origin? : Answer → Option Origin
  | .engine _ o => some o
  | _ => none

theorem result?_of_given {c : Crew Shared Answer} {i : Nat} {a : Answer} (h : given c i = some a) :
    c.result? i = some (.ok a) := by
  obtain ⟨r, hr, ha⟩ := Option.bind_eq_some_iff.1 h
  cases r with
  | error e => cases ha
  | ok b => rw [hr, Option.some.inj ha]

theorem result?_of_number? {c : Crew Shared Answer} {i : Nat}
    (h : (given c i).bind Answer.number? = some k) : c.result? i = some (.ok (.written k)) := by
  obtain ⟨a, ha, hk⟩ := Option.bind_eq_some_iff.1 h
  cases a <;> cases hk
  exact result?_of_given ha

theorem exists_of_origin? {c : Crew Shared Answer} {i : Nat} {o : Origin}
    (h : (given c i).bind Answer.origin? = some o) : ∃ e, c.result? i = some (.ok (.engine e o)) := by
  obtain ⟨a, ha, ho⟩ := Option.bind_eq_some_iff.1 h
  cases a <;> cases ho
  exact ⟨_, result?_of_given ha⟩

/-- A fetch has read the old text when a set is uploaded, and still loads the fragments afterwards. The
next fetch of the template begins meanwhile, and does not get what the first one gets. -/
theorem made_since_write_overtaking :
    ∃ old new before after c e o e' o', (crew [("set", old)] 1 [.fetch "set/t", .upload new,
        .fetch "set/t"]).run before = c ∧
      c.result? 1 = some (.ok (.written 1)) ∧ 2 ∉ before ∧
      (c.run after).result? 0 = some (.ok (.engine e' o')) ∧ o'.text = 0 ∧
      (c.run after).result? 2 = some (.ok (.engine e o)) ∧ (c.run after).state.Made "set/t" 1 (e, o) := by
  obtain ⟨old, hold⟩ : ∃ j, j = (Bundle.build "set" [("t", "[]")] []).toJson := ⟨_, rfl⟩
  obtain ⟨new, hnew⟩ : ∃ b, b = Bundle.build "set" [("t", "\x7b\x7d")] [] := ⟨_, rfl⟩
  obtain ⟨before, hbefore⟩ : ∃ l, l = [0, 0, 0, 0, 0, 1, 1, 1, 1] := ⟨_, rfl⟩
  obtain ⟨after, hafter⟩ : ∃ l, l = [2, 2, 0, 2, 0, 2, 0, 2, 0, 2, 2, 2, 2] := ⟨_, rfl⟩
  obtain ⟨c, hc⟩ : ∃ c, (crew [("set", old)] 1 [.fetch "set/t", .upload new, .fetch "set/t"]).run
    before = c := ⟨_, rfl⟩
  have hwritten : (given c 1).bind Answer.number? = some 1 := by
    subst hc hold hnew hbefore
    decide +kernel
  have hfirst : (given (c.run after) 0).bind Answer.origin? = some ⟨0, [1, 1]⟩ := by
    subst hc hold hnew hbefore hafter
    decide +kernel
  have hsecond : (given (c.run after) 2).bind Answer.origin? = some ⟨1, [1, 1]⟩ := by
    subst hc hold hnew hbefore hafter
    decide +kernel
  have hfresh : 2 ∉ before := by
    subst hbefore
    decide
  obtain ⟨e', he'⟩ := exists_of_origin? hfirst
  obtain ⟨e, he⟩ := exists_of_origin? hsecond
  have hw := result?_of_number? hwritten
  exact ⟨old, new, before, after, c, e, _, e', _, hc, hw, hfresh, he', rfl, he,
    (made_since_write hc hw rfl hfresh he).2⟩

end Shared

end Stencil
