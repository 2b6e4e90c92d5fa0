import Stencil.Catalog.Stored
import Stencil.Proofs.Catalog.Coherence
import Stencil.Proofs.Store.Reading

/-!
# What a catalog serves after its writes

A catalog over a store is a workshop whose source is what the store reads. Requests keep the workshop
coherent as long as every write that fails leaves what is read as it was: an upload or a removal that
succeeds drops all that was compiled, one that fails drops nothing.

So along any requests a fetch answers what a new catalog over the same store would, unless a write has
changed the store and failed since the last one that succeeded (`fetch_eq_fetch_new`). A store may do
so when it cannot make a change durable, and then what was compiled before is still served.
-/

namespace Stencil

/-! ### A store whose writes may fail -/

/-- Fails if the next entry of the list says so. -/
def Store.tryNext : Op (NameMap Json × List Bool) Unit := do
  let s ← MonadState.get
  MonadState.set (s.1, s.2.tail)
  if s.2.head? = some false then throw (.plain "the store cannot be reached")

/-- A store in memory whose writes succeed or fail as a list says, one entry for each of them. -/
def Store.unsteady : Store (NameMap Json × List Bool) where
  name := "unsteady"
  keys := Store.memory.keys.zoom Lens.fst
  has key := (Store.memory.has key).zoom Lens.fst
  get key := (Store.memory.get key).zoom Lens.fst
  set key value := do
    Store.tryNext
    (Store.memory.set key value).zoom Lens.fst
  delete key := do
    Store.tryNext
    (Store.memory.delete key).zoom Lens.fst
  persist := Store.tryNext

theorem Store.readsFrom_unsteady : Store.unsteady.ReadsFrom Prod.fst where
  keys := Store.readsFrom_memory.keys.zoom Lens.lawful_fst fun _ _ => rfl
  get key := (Store.readsFrom_memory.get key).zoom Lens.lawful_fst fun _ _ => rfl

namespace StoredSets

variable {σ ν : Type} {c : StoredSets σ} {view : σ → ν}

/-- The catalog reads its store through a view, of which its workshop is no part. -/
structure Reads (c : StoredSets σ) (view : σ → ν) : Prop where
  lawful : c.workshop.Lawful
  view_set : ∀ w s, view (c.workshop.set w s) = view s
  keys : c.store.keys.Looks view c.workshop.get
  get : ∀ key, (c.store.get key).Looks view c.workshop.get

namespace Reads

variable (h : c.Reads view)
include h

theorem setNames : c.setNames.Looks view c.workshop.get := h.keys.bind fun _ => Op.looks_pure _

theorem readSet (set : String) : (c.readSet set).Looks view c.workshop.get := by
  refine (h.get set).bind fun value => ?_
  cases value with
  | none => exact Op.looks_fail _
  | some value => exact Op.looks_ofExcept _

theorem loadFragments : c.loadFragments.Looks view c.workshop.get :=
  h.setNames.bind fun names => (Op.looks_mapM h.readSet names).bind fun _ => Op.looks_ofExcept _

theorem listTemplates : c.listTemplates.Looks view c.workshop.get :=
  h.setNames.bind fun names =>
    (Op.looks_mapM (fun set => (h.readSet set).bind fun _ => Op.looks_pure _) names).bind fun _ =>
      Op.looks_pure _

theorem readTemplate (name : String) : (c.readTemplate name).Looks view c.workshop.get := by
  have hnot : (c.failNotFound name).Looks view c.workshop.get :=
    h.listTemplates.bind fun _ => Op.looks_fail _
  unfold StoredSets.readTemplate
  split
  · exact hnot
  · rename_i set template _
    refine (h.get set).bind fun value => ?_
    cases value with
    | none => exact hnot
    | some value =>
      refine (Op.looks_ofExcept _).bind fun b => ?_
      cases NameMap.get? b.templates template with
      | none => exact hnot
      | some text => exact Op.looks_pure text

theorem sees : Workshop.Sees c.workshop view c.readTemplate c.loadFragments :=
  ⟨h.lawful, h.view_set, h.readTemplate, h.loadFragments⟩

end Reads

/-! ### Requests -/

/-- The state after a request, whether it succeeds or fails. -/
def after (c : StoredSets σ) (s : σ) (r : Request) : σ := (Op.result (c.perform r) s).2

/-- The state after requests. -/
def run (c : StoredSets σ) (s : σ) (requests : List Request) : σ := requests.foldl c.after s

/-- What a request makes of the calm of a catalog. A write that succeeds brings it back; one that fails
ends it if it has changed what is read. -/
def CalmAfter (c : StoredSets σ) (view : σ → ν) (calm : Prop) (s : σ) (r : Request) : Prop :=
  if r.writes then (Op.result (c.perform r) s).1 = .ok () ∨ (calm ∧ view (c.after s r) = view s)
  else calm

/-- No write has changed what is read and failed, since the last one that succeeded. -/
def Calm (c : StoredSets σ) (view : σ → ν) : Prop → σ → List Request → Prop
  | calm, _, [] => calm
  | calm, s, r :: rest => Calm c view (c.CalmAfter view calm s r) (c.after s r) rest

variable {st : Store σ} {known : KnownHashes} {s : σ × Workshop} {r : Request}

theorem reads_ofStore (h : st.ReadsFrom view) (known : KnownHashes) :
    (ofStore st known).Reads fun s => view s.1 where
  lawful := Lens.lawful_snd
  view_set _ _ := rfl
  keys := h.keys.zoom Lens.lawful_fst fun _ _ => rfl
  get key := (h.get key).zoom Lens.lawful_fst fun _ _ => rfl

/-! ### What a write does to the workshop -/

/-- How a write ends: it succeeds and the workshop starts afresh, or it fails and the workshop is what
it was. -/
inductive WriteEnds (w : Workshop) : Except Fault Unit × (σ × Workshop) → Prop where
  | succeeded (s : σ) : WriteEnds w (.ok (), s, w.reload)
  | failed (e : Fault) (s : σ) : WriteEnds w (.error e, s, w)

/-- An operation of the store in front of a write does not touch the workshop. -/
theorem writeEnds_bind {α : Type} {op : Op σ α} {f : α → Op (σ × Workshop) Unit} {w : Workshop}
    (hf : ∀ a s, WriteEnds w (Op.result (f a) (s, w))) (s : σ) :
    WriteEnds w (Op.result (op.zoom Lens.fst >>= f) (s, w)) := by
  rcases hr : Op.result op s with ⟨e | a, s'⟩
  · rw [Op.result_bind_of_error (Op.result_zoom_fst hr w)]
    exact .failed e s'
  · rw [Op.result_bind_of_ok (Op.result_zoom_fst hr w)]
    exact hf a s'

theorem writeEnds_persist (st : Store σ) (known : KnownHashes) (w : Workshop) (s : σ) :
    WriteEnds w (Op.result (do
      (ofStore st known).store.persist
      Op.change (ofStore st known).workshop Workshop.reload) (s, w)) :=
  writeEnds_bind (fun _ s' => .succeeded s') s

theorem writeEnds_perform (st : Store σ) (known : KnownHashes) (hr : r.writes = true)
    (s : σ × Workshop) : WriteEnds s.2 (Op.result ((ofStore st known).perform r) s) := by
  cases r with
  | upload b => exact writeEnds_bind (fun _ s' => writeEnds_persist st known s.2 s') s.1
  | remove set =>
    refine writeEnds_bind (fun there s' => ?_) s.1
    cases there with
    | false => exact .failed _ s'
    | true => exact writeEnds_persist st known s.2 s'
  | fetch name => simp [Request.writes] at hr
  | invalidate => simp [Request.writes] at hr

/-! ### Coherence along requests -/

/-- The workshop of a catalog agrees with the store. -/
def CoherentAt (c : StoredSets σ) (s : σ) : Prop :=
  Workshop.Coherent c.readTemplate c.loadFragments s (c.workshop.get s)

/-- A fetch compiles anew, as far as the answer goes. -/
theorem Reads.result_fetch {s : σ} (h : c.Reads view) (hc : c.CoherentAt s) (name : String) :
    ∃ s', Op.result (c.catalog.fetch name) s =
        ((Op.result (Workshop.compileAnew name (c.readTemplate name) c.loadFragments) s).1, s') ∧
      view s' = view s ∧ c.CoherentAt s' := by
  obtain ⟨s', hs', hv, hc'⟩ := Workshop.result_build h.sees hc name
  exact ⟨s', hs', hv, hc'.of_view_eq h.sees hv.symm⟩

/-- A request that leaves the catalog calm leaves it coherent. -/
theorem coherentAt_after (h : st.ReadsFrom view) {calm : Prop} (hc : calm → (ofStore st known).CoherentAt s)
    (ha : (ofStore st known).CalmAfter (fun s => view s.1) calm s r) :
    (ofStore st known).CoherentAt ((ofStore st known).after s r) := by
  have hreads := reads_ofStore h known
  cases hr : r.writes with
  | true =>
    have hends := writeEnds_perform st known hr s
    rw [CalmAfter, if_pos hr] at ha
    rw [after] at ha ⊢
    generalize Op.result ((ofStore st known).perform r) s = x at hends ha
    cases hends with
    | succeeded s' => exact Workshop.coherent_reload s.2
    | failed e s' =>
      obtain ⟨hcalm, hv⟩ : calm ∧ view s' = view s.1 := by simpa using ha
      exact (hc hcalm).of_view_eq hreads.sees hv.symm
  | false =>
    rw [CalmAfter, hr] at ha
    have hs := hc (by simpa using ha)
    cases r with
    | upload b => simp [Request.writes] at hr
    | remove set => simp [Request.writes] at hr
    | fetch name =>
      obtain ⟨s', hs', -, hc'⟩ := hreads.result_fetch hs name
      have hafter : (ofStore st known).after s (.fetch name) = s' := by
        rw [after, perform]
        rcases ho : (Op.result (Workshop.compileAnew name ((ofStore st known).readTemplate name)
          (ofStore st known).loadFragments) s).1 with e | engine <;> rw [ho] at hs'
        · rw [Op.result_bind_of_error hs']
        · rw [Op.result_bind_of_ok hs']
          rfl
      rw [hafter]
      exact hc'
    | invalidate => exact hs.invalidate.of_view_eq hreads.sees rfl

/-- Along requests that leave the catalog calm it stays coherent. -/
theorem coherentAt_run (h : st.ReadsFrom view) {calm : Prop} {requests : List Request}
    (hc : calm → (ofStore st known).CoherentAt s)
    (ha : (ofStore st known).Calm (fun s => view s.1) calm s requests) :
    (ofStore st known).CoherentAt ((ofStore st known).run s requests) := by
  induction requests generalizing calm s with
  | nil => exact hc ha
  | cons r rest ih => exact ih (coherentAt_after h hc) ha

/-- What is compiled is served as it is, whatever the store reads. -/
theorem result_fetch_contained {name : String} (hs : s.2.engines.contains name = true) (t : σ) :
    (Op.result ((ofStore st known).catalog.fetch name) (t, s.2)).1 =
      (Op.result ((ofStore st known).catalog.fetch name) s).1 := by
  by_cases hn : name = ""
  · subst hn
    rfl
  · obtain ⟨engine, hengine⟩ := Option.isSome_iff_exists.1 hs
    obtain ⟨slot, hslot, hv⟩ := Option.bind_eq_some_iff.1 hengine
    have hit (u : σ × Workshop) (hu : u.2 = s.2) :
        (Op.result ((ofStore st known).catalog.fetch name) u).1 = .ok engine := by
      rw [← hu] at hslot hv
      exact congrArg Prod.fst
        (Cache.result_fetch_hit (l := Lens.snd.comp Workshop.enginesLens) hn hslot hv)
    rw [hit (t, s.2) rfl, hit s rfl]

variable {limit : Nat} {s₀ : σ} {requests : List Request}

/-- **What a catalog serves along its requests**: the answer to a fetch is that of a new catalog over
the same store, as long as no write has changed what the store reads and failed since the last write
that succeeded. A write that fails drops nothing: what was compiled before it is served after it,
whatever it did to the store. -/
theorem fetch_eq_fetch_new (h : st.ReadsFrom view)
    (hs : (ofStore st known).run (s₀, Workshop.empty limit) requests = s) :
    ((ofStore st known).Calm (fun s => view s.1) True (s₀, Workshop.empty limit) requests →
      ∀ name limit', (Op.result ((ofStore st known).catalog.fetch name) s).1 =
        (Op.result ((ofStore st known).catalog.fetch name) (s.1, Workshop.empty limit')).1) ∧
    ∀ r, r.writes = true → (Op.result ((ofStore st known).perform r) s).1 ≠ .ok () →
      ∀ name, s.2.engines.contains name = true →
        (Op.result ((ofStore st known).catalog.fetch name) ((ofStore st known).after s r)).1 =
          (Op.result ((ofStore st known).catalog.fetch name) s).1 := by
  have hreads := reads_ofStore h known
  constructor
  · intro hcalm name limit'
    have hold : (ofStore st known).CoherentAt s :=
      hs ▸ coherentAt_run h (fun _ => Workshop.coherent_empty limit) hcalm
    have hnew : (ofStore st known).CoherentAt (s.1, Workshop.empty limit') :=
      Workshop.coherent_empty limit'
    obtain ⟨s₁, h₁, -⟩ := hreads.result_fetch hold name
    obtain ⟨s₂, h₂, -⟩ := hreads.result_fetch hnew name
    rw [h₁, h₂]
    exact (hreads.sees.compileAnew name).answer rfl
  · intro r hr hfail name hin
    have hends := writeEnds_perform st known hr s
    have hkept : ((ofStore st known).after s r).2 = s.2 := by
      rw [after]
      generalize Op.result ((ofStore st known).perform r) s = x at hends hfail
      cases hends with
      | succeeded s' => exact absurd rfl hfail
      | failed e s' => rfl
    have hpair : (ofStore st known).after s r = (((ofStore st known).after s r).1, s.2) := by rw [← hkept]
    rw [hpair]
    exact result_fetch_contained hin _

/-- How a catalog comes to disagree with its store: an upload to a file that cannot be written fails, yet
the set is in the store from then on, beside all that was compiled from the sets before. -/
theorem result_upload_file_of_error {path : String} {s : Store.FileState × Workshop} {b : Bundle}
    {m m' : NameMap Json} {e : Fault} {fs : Files} (hb : b.name ≠ "")
    (hm : Store.itemsOf path s.1 = .ok m) (hm' : NameMap.insert m b.name b.toJson = m')
    (he : Op.result (Files.replace path (Store.fileBytes m')) s.1.2 = (.error e, fs)) :
    Op.result ((ofStore (Store.file path) known).perform (.upload b)) s =
      (.error e, (some m', fs), s.2) := by
  have hset : Op.result ((ofStore (Store.file path) known).store.set b.name b.toJson) s =
      (.ok ⟨⟩, (some m', s.1.2), s.2) :=
    Op.result_zoom_fst (hm' ▸ Store.result_file_set hb b.toJson hm) s.2
  have hpersist : Op.result (ofStore (Store.file path) known).store.persist
      ((some m', s.1.2), s.2) = (.error e, (some m', fs), s.2) := by
    have hfile := Store.result_file_persist path m' s.1.2
    rw [he] at hfile
    exact Op.result_zoom_fst hfile s.2
  show Op.result ((ofStore (Store.file path) known).upload b) s = _
  rw [upload, Op.result_bind_of_ok hset, Op.result_bind_of_error hpersist]

/-- A directory stands where a store file is written before it takes its name. -/
def blockedFiles : Files := ⟨[(["work", "store.tmp"], .directory)], ["work"]⟩

/-- The same set uploaded in vain, another one uploaded, and then the first one in vain again. And a set in
a store file that cannot be written: it is served as it was when an upload of a new one has failed, though
the store holds the new one. -/
theorem fetch_after_failed_upload :
    (∃ old new s₀ s, (ofStore Store.unsteady .empty).run (s₀, Workshop.empty 1)
        [.fetch "set/t", .upload old, .upload new, .fetch "set/t"] = s ∧
      (∀ name limit', (Op.result ((ofStore Store.unsteady .empty).catalog.fetch name) s).1 =
        (Op.result ((ofStore Store.unsteady .empty).catalog.fetch name)
          (s.1, Workshop.empty limit')).1) ∧
      s.1.1 = [("set", new.toJson)] ∧
      ((ofStore Store.unsteady .empty).after s (.upload old)).1.1 = [("set", old.toJson)] ∧
      (Op.result ((ofStore Store.unsteady .empty).catalog.fetch "set/t")
          ((ofStore Store.unsteady .empty).after s (.upload old))).1 =
        (Op.result ((ofStore Store.unsteady .empty).catalog.fetch "set/t") s).1) ∧
    ∃ (old new : Bundle) (s : Store.FileState × Workshop), (ofStore (Store.file "store.json") .empty).run
        ((some [("set", old.toJson)], blockedFiles), Workshop.empty 1) [.fetch "set/t"] = s ∧
      s.1.1 = some [("set", old.toJson)] ∧
      ((ofStore (Store.file "store.json") .empty).after s (.upload new)).1.1 =
        some [("set", new.toJson)] ∧ old.toJson ≠ new.toJson ∧
      (Op.result ((ofStore (Store.file "store.json") .empty).catalog.fetch "set/t")
          ((ofStore (Store.file "store.json") .empty).after s (.upload new))).1 =
        (Op.result ((ofStore (Store.file "store.json") .empty).catalog.fetch "set/t") s).1 := by
  obtain ⟨old, hold⟩ : ∃ b : Bundle, b = ⟨"set", "", [("t", "[]")], []⟩ := ⟨_, rfl⟩
  obtain ⟨new, hnew⟩ : ∃ b : Bundle, b = ⟨"set", "", [("t", "\x7b\x7d")], []⟩ := ⟨_, rfl⟩
  constructor
  · obtain ⟨s₀, hs₀⟩ : ∃ s, s = ([("set", old.toJson)], [true, false, true, true, true, false]) :=
      ⟨_, rfl⟩
    obtain ⟨s, hs⟩ : ∃ s, (ofStore Store.unsteady .empty).run (s₀, Workshop.empty 1)
      [.fetch "set/t", .upload old, .upload new, .fetch "set/t"] = s := ⟨_, rfl⟩
    obtain ⟨hcalm, hfailed⟩ := fetch_eq_fetch_new Store.readsFrom_unsteady hs
    have hc : (ofStore Store.unsteady .empty).Calm (fun s => s.1.1) True (s₀, Workshop.empty 1)
        [.fetch "set/t", .upload old, .upload new, .fetch "set/t"] := by
      have hok : (Op.result ((ofStore Store.unsteady .empty).perform (.upload new))
          ((ofStore Store.unsteady .empty).after ((ofStore Store.unsteady .empty).after
            (s₀, Workshop.empty 1) (.fetch "set/t")) (.upload old))).1 = .ok () := by
        subst hs₀ hold hnew
        decide +kernel
      simp only [Calm, CalmAfter, Request.writes]
      exact .inl hok
    have hfails : (Op.result ((ofStore Store.unsteady .empty).perform (.upload old)) s).1 ≠ .ok () := by
      subst hs hs₀ hold hnew
      decide +kernel
    have hin : s.2.engines.contains "set/t" = true := by
      subst hs hs₀ hold hnew
      decide +kernel
    refine ⟨old, new, s₀, s, hs, hcalm hc, ?_, ?_, hfailed (.upload old) rfl hfails "set/t" hin⟩
    · subst hs hs₀ hold hnew
      decide +kernel
    · subst hs hs₀ hold hnew
      decide +kernel
  · obtain ⟨s, hs⟩ : ∃ s, (ofStore (Store.file "store.json") .empty).run
      ((some [("set", old.toJson)], blockedFiles), Workshop.empty 1) [.fetch "set/t"] = s := ⟨_, rfl⟩
    obtain ⟨-, hfailed⟩ := fetch_eq_fetch_new (Store.readsFrom_file "store.json") hs
    have hitems : s.1.1 = some [("set", old.toJson)] := by
      subst hs hold
      decide +kernel
    have hinsert : NameMap.insert [("set", old.toJson)] new.name new.toJson = [("set", new.toJson)] := by
      subst hold hnew
      decide +kernel
    have hblocked : (Op.result (Files.replace "store.json" (Store.fileBytes [("set", new.toJson)]))
        s.1.2).1 ≠ .ok () := by
      subst hs hold hnew
      decide +kernel
    rcases hwrite : Op.result (Files.replace "store.json" (Store.fileBytes [("set", new.toJson)]))
      s.1.2 with ⟨e | ⟨⟩, fs⟩
    swap
    · exact absurd (congrArg Prod.fst hwrite) hblocked
    have hupload : Op.result ((ofStore (Store.file "store.json") .empty).perform (.upload new)) s =
        (.error e, (some [("set", new.toJson)], fs), s.2) :=
      result_upload_file_of_error (by rw [hnew]; decide) (by rw [Store.itemsOf, hitems]) hinsert hwrite
    have hin : s.2.engines.contains "set/t" = true := by
      subst hs hold
      decide +kernel
    refine ⟨old, new, s, hs, hitems, ?_, ?_,
      hfailed (.upload new) rfl (by rw [hupload]; exact nofun) "set/t" hin⟩
    · rw [after, hupload]
    · subst hold hnew
      decide +kernel

end StoredSets

end Stencil
