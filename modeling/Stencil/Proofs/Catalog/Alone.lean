import Stencil.Proofs.Catalog.Freshness

/-!
# A shared catalog that is not shared

A request that nobody interferes with does what it does on a catalog of its own. For tasks that obtain
values of cells this is said for any catalog (`Cells.carries_obtain`, `Cells.carries_fetch`); for the
catalog of a store it follows that if no fetch and no load is under way, a request's task comes to its
end and leaves the store and the workshop as the operation of the catalog does, with the same result
(`Shared.alone_perform`).
-/

namespace Stencil

/-! ### Cells -/

namespace Cells

variable {σ α : Type} {c : Cells σ α} {n : Nat} {make : Task σ α} {s s' : σ} {a : α}

theorem alone_obtain_of_some (h : c.get? n s = some a) (make : Task σ α) :
    (c.obtain n make).alone s = some (.ok a, s) := by
  have hwhen := Task.alone_when (fun s => (c.get? n s).isSome || !(c.busy.get s).contains n)
    (c.takeUp n) (s := s) (by simp [h])
  rw [result_takeUp_of_some h] at hwhen
  rw [obtain, Task.alone_bind_of_ok hwhen]
  rfl

/-- The state when the making of a value for a cell has come to its end. -/
def ended (c : Cells σ α) (n : Nat) (s : σ) : Except Fault α → σ
  | .ok a => c.busy.set ((c.busy.get (c.fill n a s)).erase n) (c.fill n a s)
  | .error _ => c.busy.set ((c.busy.get s).erase n) s

theorem alone_obtain_of_none (h : c.get? n s = none) (hn : n ∉ c.busy.get s) {r : Except Fault α}
    (hm : make.alone (c.busy.set (n :: c.busy.get s) s) = some (r, s')) :
    (c.obtain n make).alone s = some (r, c.ended n s' r) := by
  have hwhen := Task.alone_when (fun s => (c.get? n s).isSome || !(c.busy.get s).contains n)
    (c.takeUp n) (s := s) (by simp [hn])
  rw [result_takeUp_of_none h] at hwhen
  have hattempt : make.attempt.alone (c.busy.set (n :: c.busy.get s) s) = some (.ok r, s') := by
    rw [Task.alone_attempt, hm]
    rfl
  rw [obtain, Task.alone_bind_of_ok hwhen, Task.alone_bind_of_ok hattempt]
  cases r <;> rfl

theorem map_fst_noted {ω : Type} (x : Option α) (o : ω) : (x.map fun a => (a, o)).map Prod.fst = x := by
  cases x <;> rfl

theorem erase_of_eq {busy : List Nat} (h : busy = [n]) : busy.erase n = [] := by
  rw [h, List.erase_cons_head]

section Carries

variable {τ β : Type} {own : σ → τ} {g : α → β} {look : Nat → τ → Option β} {put : Nat → β → τ → τ}

/-- What the value of a cell is obtained by where nobody waits: it is made and put into the cell, unless
it is there. -/
def obtaining (look : Nat → τ → Option β) (put : Nat → β → τ → τ) (n : Nat) (op : Op τ β) : Op τ β := do
  match look n (← get) with
  | some b => pure b
  | none =>
    let b ← op
    modify (put n b)
    pure b

/-- To obtain the value of a cell that nobody fills, where the cells show as they are. -/
theorem carries_obtain {idle : σ → Prop} (taken : σ → Prop) {op : Op τ β}
    (hget : ∀ s, (c.get? n s).map g = look n (own s)) (hfree : ∀ s, idle s → n ∉ c.busy.get s)
    (htake : ∀ s, idle s → taken (c.busy.set (n :: c.busy.get s) s) ∧
      own (c.busy.set (n :: c.busy.get s) s) = own s)
    (hfill : ∀ s a, taken s → idle (c.ended n s (.ok a)) ∧
      own (c.ended n s (.ok a)) = put n (g a) (own s))
    (hrelease : ∀ s e, taken s → idle (c.ended n s (.error e)) ∧ own (c.ended n s (.error e)) = own s)
    (hmake : Task.Carries taken own make op g) :
    Task.Carries idle own (c.obtain n make) (obtaining look put n op) g := by
  intro s hs
  have hlook := hget s
  rw [obtaining, Op.result_bind_of_ok (Op.result_get (own s)), ← hlook]
  rcases hc : c.get? n s with _ | a
  · obtain ⟨htaken, hown⟩ := htake s hs
    obtain ⟨r, s', hm, hs', hop⟩ := hmake _ htaken
    rw [hown] at hop
    refine ⟨r, _, alone_obtain_of_none hc (hfree s hs) hm, ?_⟩
    cases r with
    | ok a =>
      obtain ⟨hidle, hput⟩ := hfill s' a hs'
      refine ⟨hidle, (Op.result_bind_of_ok hop).trans ?_⟩
      rw [hput]
      rfl
    | error e =>
      obtain ⟨hidle, hsame⟩ := hrelease s' e hs'
      refine ⟨hidle, (Op.result_bind_of_error hop).trans ?_⟩
      rw [hsame]
      rfl
  · exact ⟨.ok a, s, alone_obtain_of_some hc make, hs, rfl⟩

/-- To have the fragments of the cell in use. -/
theorem carries_fragments {idle : σ → Prop} {l : Lens τ Workshop} {load : Op τ Fragments}
    {g : α → Fragments} (current : σ → Nat)
    (hcurrent : ∀ s, (l.get (own s)).current = current s)
    (hobtain : ∀ n, Task.Carries idle own (c.obtain n make) (obtaining
      (fun n t => (l.get t).fragments? n) (fun n f t => l.set ((l.get t).fillCell n f) t) n load) g) :
    Task.Carries idle own (do
      let cell ← Task.once do return current (← get)
      c.obtain cell make) (Workshop.fragments l load) g := by
  intro s hs
  have hlook : (Task.once do return current (← get) : Task σ Nat).alone s =
      some (.ok (current s), s) := rfl
  obtain ⟨r, s', hr, hs', hop⟩ := hobtain (current s) s hs
  rw [obtaining, Op.result_bind_of_ok (Op.result_get (own s))] at hop
  rw [Task.alone_bind_of_ok hlook, Workshop.fragments, Op.result_bind_of_ok (Op.result_get (own s))]
  refine ⟨r, s', hr, hs', Eq.trans ?_ hop⟩
  simp only [hcurrent]
  cases (l.get (own s)).fragments? (current s) <;> rfl

/-- To fetch a value through a slot of a cache, where the cache shows as it is: in the end a failure drops
the slot. -/
theorem carries_fetch {idle : σ → Prop} {l : Lens τ (Cache β)} {name : String} {op : Op τ β}
    {reserve : Op σ Nat} {discard : Nat → Op σ Unit} {ending : Nat → Except Fault α → Task σ α}
    (hl : ∀ x t, l.get (l.set x t) = x)
    (hreserve : ∀ s, idle s → ∃ s₁,
      Op.result reserve s = (.ok ((l.get (own s)).reserve name).1, s₁) ∧ idle s₁ ∧
        own s₁ = l.set ((l.get (own s)).reserve name).2 (own s))
    (hobtain : ∀ n, Task.Carries idle own (c.obtain n make) (obtaining
      (fun n t => (l.get t).value? n) (fun n b t => l.set ((l.get t).fill n b) t) n op) g)
    (hdiscard : ∀ n, Task.Carries idle own (.once (discard n)) (Op.change l (·.discard name n)) id)
    (hok : ∀ n a, ending n (.ok a) = pure a)
    (herror : ∀ n e, ending n (.error e) = do
      Task.once (discard n)
      Task.ofExcept (.error e)) :
    Task.Carries idle own (do
      let slot ← Task.once do
        Op.requireKey "key" name
        reserve
      ending slot (← (c.obtain slot make).attempt)) (Cache.fetch l name op) g := by
  intro s hs
  by_cases hn : name = ""
  · subst hn
    exact ⟨_, s, rfl, hs, rfl⟩
  obtain ⟨slot, cache, hslot⟩ : ∃ slot cache, (l.get (own s)).reserve name = (slot, cache) := ⟨_, _, rfl⟩
  obtain ⟨s₁, hs₁, hidle₁, hown₁⟩ := hreserve s hs
  rw [hslot] at hs₁ hown₁
  -- Both begin with the slot of the name.
  have hfirst : (Task.once do
      Op.requireKey "key" name
      reserve).alone s = some (.ok slot, s₁) := by
    rw [Task.alone_once, Op.result_bind_of_ok (Op.result_requireKey "key" hn s), hs₁]
  have hmodify : Op.result (modify (l.set cache)) (own s) = (.ok ⟨⟩, own s₁) := by
    rw [hown₁]
    rfl
  have hcache : l.get (own s₁) = cache := by rw [hown₁, hl]
  obtain ⟨r, s₂, hr, hidle₂, hop⟩ := hobtain slot s₁ hidle₁
  have hattempt : (c.obtain slot make).attempt.alone s₁ = some (.ok r, s₂) := by
    rw [Task.alone_attempt, hr]
    rfl
  rw [Task.alone_bind_of_ok hfirst, Task.alone_bind_of_ok hattempt, Cache.fetch,
    Op.result_bind_of_ok (Op.result_requireKey "key" hn (own s)),
    Op.result_bind_of_ok (Op.result_get (own s)), hslot]
  simp only
  rw [Op.result_bind_of_ok hmodify]
  rw [obtaining, Op.result_bind_of_ok (Op.result_get (own s₁))] at hop
  simp only [hcache] at hop
  rcases hv : cache.value? slot with _ | b <;> simp only [hv] at hop ⊢
  · rw [Op.result_bind_of_ok (Op.result_attempt op (own s₁))]
    rcases hmade : Op.result op (own s₁) with ⟨e | b, t⟩
    · rw [Op.result_bind_of_error hmade] at hop
      cases r with
      | ok a => cases hop
      | error e' =>
        obtain ⟨rfl, rfl⟩ : e = e' ∧ t = own s₂ := by simpa [Except.map] using hop
        rw [herror]
        exact (hdiscard slot).bind (fun _ => Task.carries_error e g) s₂ hidle₂
    · rw [Op.result_bind_of_ok hmade] at hop
      cases r with
      | error e => cases hop
      | ok a =>
        rw [hok]
        exact ⟨.ok a, s₂, rfl, hidle₂, hop⟩
  · cases r with
    | error e => cases hop
    | ok a =>
      rw [hok]
      exact ⟨.ok a, s₂, rfl, hidle₂, hop⟩

end Carries

end Cells

namespace Shared

variable {α β γ δ : Type} {m l : List Nat} {s : Shared}

/-- What a catalog of its own would work on. -/
def own (s : Shared) : NameMap Json × Workshop := (s.items, s.workshop)

/-- Certain slots and cells are being filled by nobody. -/
def Idle (m l : List Nat) (s : Shared) : Prop := s.making = m ∧ s.loading = l

/-- Alone, with certain slots and cells being filled by nobody, the task does what an operation does. -/
abbrev Carries (m l : List Nat) (t : Task Shared α) (op : Op (NameMap Json × Workshop) β) (g : α → β) :
    Prop := t.Carries (Idle m l) own op g

/-! ### Reading -/

theorem carries_reading {op : Op (NameMap Json) α} (hop : op.Looks id fun _ => ()) :
    Carries m l (reading op) (op.zoom Lens.fst) Prod.fst := by
  intro s hs
  have hitems : Op.result op s.items = ((Op.result op s.items).1, s.items) :=
    Prod.ext rfl (hop.view_eq s.items)
  have halone := congrArg some (result_reading hop s)
  refine ⟨_, s, halone, hs, (Op.result_zoom_fst hitems s.workshop).trans ?_⟩
  cases (Op.result op s.items).1 <;> rfl

theorem carries_setNames : Carries m l setNames memorySets.setNames Prod.fst :=
  (carries_reading Store.readsFrom_memory.keys).bind fun _ => Task.carries_pure rfl

theorem carries_readSet (set : String) :
    Carries m l (readSet set) (memorySets.readSet set) Prod.fst := by
  refine (carries_reading (Store.readsFrom_memory.get set)).bind fun p => ?_
  obtain ⟨value, version⟩ := p
  cases value with
  | none => exact Task.carries_error _ _
  | some value => exact (Task.carries_ofExcept (Bundle.ofJson set value)).map fun _ => rfl

theorem carries_loadFragments : Carries m l loadFragments memorySets.loadFragments Prod.fst := by
  refine carries_setNames.bind fun p => (Task.carries_mapM carries_readSet p.1).bind fun bundles => ?_
  have hgather : Carries m l (do
      let f ← Task.ofExcept (Fragments.ofBundles (bundles.map (·.1)))
      return (f, p.2 :: bundles.map (·.2))) (Op.ofExcept (Fragments.ofBundles (bundles.map (·.1))))
      Prod.fst := (Task.carries_ofExcept _).map fun _ => rfl
  exact hgather

theorem carries_listTemplates : Carries m l listTemplates memorySets.listTemplates id := by
  refine carries_setNames.bind fun p => ?_
  refine (Task.carries_mapM (g := id) (fun set => ?_) p.1).bind fun names => Task.carries_pure ?_
  · exact (carries_readSet set).bind fun b => Task.carries_pure rfl
  · rw [List.map_id]
    rfl

theorem carries_failNotFound (name : String) :
    Carries m l (failNotFound name) (memorySets.failNotFound name) Prod.fst :=
  carries_listTemplates.bind fun _ => Task.carries_error _ _

theorem carries_readTemplate (name : String) :
    Carries m l (readTemplate name) (memorySets.readTemplate name) Prod.fst := by
  unfold readTemplate StoredSets.readTemplate
  rcases Catalog.splitName name with _ | ⟨set, template⟩
  · exact carries_failNotFound name
  refine (carries_reading (Store.readsFrom_memory.get set)).bind fun p => ?_
  obtain ⟨value, version⟩ := p
  cases value with
  | none => exact carries_failNotFound name
  | some value =>
    refine (Task.carries_ofExcept (Bundle.ofJson set value)).bind fun b => ?_
    rcases ht : NameMap.get? b.templates template with _ | text <;> simp only [id, ht]
    · exact carries_failNotFound name
    · exact Task.carries_pure rfl

/-! ### Fetching -/

theorem carries_fragments : Carries m [] fragments
    (Workshop.fragments memorySets.workshop memorySets.loadFragments) Prod.fst := by
  have hobtain (n : Nat) : Carries m [] (cells.obtain n loadFragments) (Cells.obtaining
      (fun n t => (memorySets.workshop.get t).fragments? n)
      (fun n f t => memorySets.workshop.set ((memorySets.workshop.get t).fillCell n f) t) n
      memorySets.loadFragments) Prod.fst := by
    refine cells.carries_obtain (Idle m [n]) (fun s => Cells.map_fst_noted _ _)
      (fun s hs => ?_) (fun s hs => ⟨⟨hs.1, congrArg (n :: ·) hs.2⟩, rfl⟩)
      (fun s a hs => ⟨⟨hs.1, Cells.erase_of_eq hs.2⟩, rfl⟩) (fun s e hs => ⟨⟨hs.1, Cells.erase_of_eq hs.2⟩, rfl⟩)
      carries_loadFragments
    rw [show cells.busy.get s = [] from hs.2]
    exact List.not_mem_nil
  exact cells.carries_fragments (l := memorySets.workshop) (fun s => s.workshop.current)
    (fun _ => rfl) hobtain

theorem carries_compile (name : String) : Carries m [] (compile name) (do
    let text ← memorySets.readTemplate name
    let f ← Workshop.fragments memorySets.workshop memorySets.loadFragments
    Op.ofExcept (Engine.compile name text f)) Prod.fst := by
  refine (carries_readTemplate name).bind fun p => carries_fragments.bind fun a => ?_
  exact (Task.carries_ofExcept (Engine.compile name p.1 a.1)).map fun _ => rfl

/-- A fetch alone. -/
theorem carries_fetch (name : String) :
    Carries [] [] (fetch name) (memorySets.catalog.fetch name) Prod.fst := by
  refine slots.carries_fetch (l := memorySets.workshop.comp Workshop.enginesLens) (fun _ _ => rfl)
    (fun s hs => ?_) (fun n => ?_) (fun n s hs => ?_) (fun _ _ => rfl) (fun _ _ => rfl)
  · exact ⟨_, rfl, hs, rfl⟩
  · refine slots.carries_obtain (Idle [n] []) (fun s => Cells.map_fst_noted _ _)
      (fun s hs => ?_) (fun s hs => ⟨⟨congrArg (n :: ·) hs.1, hs.2⟩, rfl⟩)
      (fun s a hs => ⟨⟨Cells.erase_of_eq hs.1, hs.2⟩, rfl⟩) (fun s e hs => ⟨⟨Cells.erase_of_eq hs.1, hs.2⟩, rfl⟩)
      (carries_compile name)
    rw [show slots.busy.get s = [] from hs.1]
    exact List.not_mem_nil
  · exact ⟨.ok (), _, rfl, hs, rfl⟩

/-! ### Writing -/

theorem carries_invalidate : Carries m l invalidate memorySets.catalog.invalidate id :=
  fun _ hs => ⟨.ok (), _, rfl, hs, rfl⟩

/-- What follows a change of the store. -/
theorem carries_finishWrite (version : Nat) : Carries m l (finishWrite version) (do
    memorySets.store.persist
    Op.change memorySets.workshop Workshop.reload) fun _ => () :=
  fun _ hs => ⟨.ok version, _, rfl, hs, rfl⟩

theorem carries_upload (b : Bundle) : Carries m l (upload b) (memorySets.upload b) fun _ => () := by
  refine Task.Carries.bind (g := fun _ => ⟨⟩) (fun s hs => ?_) carries_finishWrite
  by_cases hn : b.name = ""
  · refine ⟨.error (.problem (.missingArgument "key")), s, ?_, hs, ?_⟩
    · rw [hn]
      rfl
    · rw [hn]
      rfl
  · refine ⟨.ok (s.version + 1), s.wrote (NameMap.insert s.items b.name b.toJson), ?_, hs, ?_⟩
    · rw [Task.alone_once, result_upload_first hn]
    · exact Op.result_zoom_fst (Store.result_memory_set hn b.toJson s.items) s.workshop

theorem carries_remove (set : String) :
    Carries m l (remove set) (memorySets.catalog.removeSet set) fun _ => () := by
  refine Task.Carries.bind (g := Prod.fst) (fun s hs => ?_) fun p => ?_
  · by_cases hn : set = ""
    · refine ⟨.error (.problem (.missingArgument "key")), s, ?_, hs, ?_⟩
      · rw [hn]
        rfl
      · rw [hn]
        rfl
    · have hown : Op.result (memorySets.store.delete set) s.own =
          (.ok (NameMap.has s.items set), NameMap.erase s.items set, s.workshop) :=
        Op.result_zoom_fst (Store.result_memory_delete hn s.items) s.workshop
      rcases hhas : NameMap.has s.items set with _ | _ <;> rw [hhas] at hown
      · refine ⟨.ok (false, s.version), { s with items := NameMap.erase s.items set }, ?_, hs, hown⟩
        rw [Task.alone_once, result_remove_first hn, hhas, if_neg Bool.false_ne_true]
      · refine ⟨.ok (true, s.version + 1), s.wrote (NameMap.erase s.items set), ?_, hs, hown⟩
        rw [Task.alone_once, result_remove_first hn, hhas, if_pos rfl]
  · obtain ⟨there, version⟩ := p
    cases there with
    | true => exact carries_finishWrite version
    | false => exact Task.carries_error _ _

/-! ### All requests -/

theorem carries_perform (r : StoredSets.Request) :
    Carries [] [] (perform r) (memorySets.perform r) fun _ => () := by
  cases r with
  | upload b => exact (carries_upload b).map fun _ => rfl
  | remove set => exact (carries_remove set).map fun _ => rfl
  | fetch name => exact (carries_fetch name).bind fun _ => Task.carries_pure rfl
  | invalidate => exact carries_invalidate.map fun _ => rfl

/-- **Alone, a task does what the operation does**: if nothing is being made or loaded, the task of a
request comes to its end, succeeds or fails as the request does on a catalog of its own, and leaves the
store and the workshop as the request leaves them. -/
theorem alone_perform (hm : s.making = []) (hl : s.loading = []) (r : StoredSets.Request) :
    ∃ a s', (perform r).alone s = some (a, s') ∧ s'.making = [] ∧ s'.loading = [] ∧
      Op.result (memorySets.perform r) s.own = (a.map fun _ => (), s'.own) :=
  let ⟨a, s', ha, ⟨hm', hl'⟩, hop⟩ := carries_perform r s ⟨hm, hl⟩
  ⟨a, s', ha, hm', hl', hop⟩

end Shared

end Stencil
