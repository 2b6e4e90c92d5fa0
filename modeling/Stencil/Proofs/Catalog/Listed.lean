import Stencil.Proofs.Catalog.Names
import Stencil.Proofs.Catalog.Writes
import Stencil.Proofs.Except
import Stencil.Store.Appliance

/-!
# What a catalog of a store lists and what it fetches

A catalog of a store puts the full names that it lists together from the keys of the store and the
templates of the sets, and takes a name that it is to fetch apart again. `listed_iff_fetched` says that
the two agree on the names that can be taken apart, and that no other name is found. A set whose name
holds a slash can be stored, and so can a template with a slash in its name or without a name: their full
names are listed, and a fetch of them says that there is no such template.
-/

namespace Stencil

/-- A store whose values can be looked up under the keys that it lists, and under no others. -/
structure Store.Consistent {σ : Type} (st : Store σ) : Prop where
  lookup : ∀ {s keys key}, (Op.result st.keys s).1 = .ok keys → key ≠ "" →
    ∃ v, (Op.result (st.get key) s).1 = .ok v ∧ (v.isSome ↔ key ∈ keys)
  unnamed : ∀ s, ∃ e, (Op.result (st.get "") s).1 = .error e

theorem Store.Consistent.lift {σ τ : Type} {st : Store σ} (h : st.Consistent) (l : Lens τ σ) :
    (st.lift l).Consistent where
  lookup {t} _ _ hkeys hk := h.lookup (s := l.get t) hkeys hk
  unnamed t := h.unnamed (l.get t)

theorem Store.consistent_memory : Store.memory.Consistent where
  lookup {m keys key} h hk := by
    obtain rfl : NameMap.names m = keys := Except.ok.inj h
    refine ⟨NameMap.get? m key, ?_, ?_⟩
    · simp only [memory]
      rw [Op.result_bind_of_ok (Op.result_requireKey "key" hk m)]
      rfl
    · rw [NameMap.mem_names_iff, Option.isSome_iff_exists]
  unnamed _ := ⟨_, rfl⟩

theorem Store.consistent_file (path : String) : (Store.file path).Consistent where
  lookup {s keys key} h hk := by
    rcases hm : itemsOf path s with e | m
    · rw [result_file_keys_of_error hm] at h
      cases h
    · rw [result_file_keys hm] at h
      obtain rfl : NameMap.names m = keys := Except.ok.inj h
      exact ⟨NameMap.get? m key, by rw [result_file_get hk hm],
        by rw [NameMap.mem_names_iff, Option.isSome_iff_exists]⟩
  unnamed _ := ⟨_, rfl⟩

/-! ### Answers that deny a template -/

/-- The answer is that there is no template of the name. -/
def Denies {α : Type} (r : Except Fault α) : Prop :=
  ∃ e p, r = .error e ∧ e.problem? = some p ∧
    (p.kind = "TemplateNotFound" ∨ p.kind = "MissingArgument")

/-- Schema files that cannot be used are no problem of the catalog. -/
theorem not_denies_ofBundles (bundles : List Bundle) : ¬ Denies (Fragments.ofBundles bundles) := by
  rintro ⟨e, p, he, hp, -⟩
  obtain ⟨f, b, hb⟩ := foldlM_eq_error he
  obtain ⟨f', ⟨name, text⟩, ht⟩ := foldlM_eq_error hb
  simp only at ht
  split at ht
  · cases ht
  · rename_i cause hcause
    cases ht
    rw [Fragments.insertText] at hcause
    split at hcause <;> cases hcause <;> cases hp

/-- A template that does not compile is there. -/
theorem not_denies_compile (name text : String) (f : Fragments) :
    ¬ Denies (Engine.compile name text f) := by
  rintro ⟨e, p, he, hp, hkind⟩
  rw [Engine.compile, bind_eq_error_iff] at he
  rcases he with he | ⟨parts, -, he⟩
  · obtain ⟨q, hq, rfl⟩ := mapError_eq_error he
    obtain rfl : q = p := Option.some.inj hp
    obtain ⟨_, piece, _, -, -, hread⟩ := mapM_eq_error_iff.1 hq
    cases piece with
    | literal text => cases hread
    | token inside =>
      rw [Template.Piece.read] at hread
      split at hread <;> cases hread
      simp [Problem.kind] at hkind
  · rcases bind_eq_error_iff.1 he with he | ⟨parameters, -, he⟩
    · obtain ⟨q, hq, rfl⟩ := mapError_eq_error he
      obtain rfl : q = p := Option.some.inj hp
      obtain ⟨_, placeholder, _, -, -, hdescribe⟩ := mapM_eq_error_iff.1 hq
      rcases bind_eq_error_iff.1 hdescribe with hf | ⟨_, -, hf⟩
      · unfold Engine.fragmentOf at hf
        split at hf
        · cases hf
        · cases hf
        · split at hf <;> cases hf
          simp [Problem.kind] at hkind
      · cases hf
    · rcases bind_eq_error_iff.1 he with he | ⟨rules, -, he⟩
      · rw [Rules.ofSchema] at he
        split at he <;> cases he
        cases hp
      · cases he

namespace StoredSets

variable {σ ν : Type} {c : StoredSets σ} {view : σ → ν} {s : σ} {name set template : String}
  {names : List String}

/-! ### What is listed -/

/-- What is read as a set. -/
def setAt (c : StoredSets σ) (s : σ) (set : String) : Except Fault Bundle :=
  (Op.result (c.readSet set) s).1

/-- A set that can be read has a name. -/
theorem ne_empty_of_setAt (hk : c.store.Consistent) {b : Bundle} (hb : c.setAt s set = .ok b) :
    set ≠ "" := by
  rintro rfl
  obtain ⟨e, he⟩ := hk.unnamed s
  rcases hr : Op.result (c.store.get "") s with ⟨r, s'⟩
  rw [hr] at he
  obtain rfl : r = .error e := he
  rw [setAt, StoredSets.readSet, Op.result_bind_of_error hr] at hb
  cases hb

/-- The names that are listed are put together from the keys of the store and from the templates of
their sets, all of which can be read. -/
theorem Reads.of_list (h : c.Reads view) (hlist : (Op.result c.catalog.list s).1 = .ok names) :
    ∃ sets, (Op.result c.catalog.listSets s).1 = .ok sets ∧
      (∀ set ∈ sets, ∃ b, c.setAt s set = .ok b) ∧
        ∀ name, name ∈ names ↔ ∃ set ∈ sets, ∃ b, c.setAt s set = .ok b ∧
          ∃ template ∈ NameMap.names b.templates, Catalog.fullName set template = name := by
  have hnames (set : String) :
      (do return Catalog.fullNames set (← c.readSet set) : Op σ (List String)).Looks view
        c.workshop.get := (h.readSet set).bind fun _ => Op.looks_pure _
  have hanswer (set : String) : (Op.result
      (do return Catalog.fullNames set (← c.readSet set) : Op σ (List String)) s).1 =
        (c.setAt s set).map (Catalog.fullNames set) := by
    rw [(h.readSet set).answer_bind fun _ => Op.looks_pure _, setAt]
    cases (Op.result (c.readSet set) s).1 <;> rfl
  rw [show c.catalog.list = c.listTemplates from rfl, StoredSets.listTemplates,
    h.setNames.answer_bind fun sets => (Op.looks_mapM hnames sets).bind fun _ => Op.looks_pure _,
    bind_eq_ok_iff] at hlist
  obtain ⟨sets, hsets, hlist⟩ := hlist
  rw [(Op.looks_mapM hnames sets).answer_bind fun _ => Op.looks_pure _, bind_eq_ok_iff,
    Op.Looks.answer_mapM hnames] at hlist
  simp only [hanswer] at hlist
  obtain ⟨lists, hlists, hflat⟩ := hlist
  obtain rfl : lists.flatten = names := Except.ok.inj hflat
  exact ⟨sets, hsets, Catalog.mem_flatten_fullNames hlists⟩

/-- The sets that are listed are the keys of the store. -/
theorem Reads.exists_keys (h : c.Reads view) {sets : List String}
    (hsets : (Op.result c.catalog.listSets s).1 = .ok sets) :
    ∃ keys, (Op.result c.store.keys s).1 = .ok keys ∧ ∀ set, set ∈ sets ↔ set ∈ keys := by
  rw [show c.catalog.listSets = c.setNames from rfl, StoredSets.setNames,
    h.keys.answer_bind fun _ => Op.looks_pure _, bind_eq_ok_iff] at hsets
  obtain ⟨keys, hkeys, hsort⟩ := hsets
  obtain rfl := Except.ok.inj hsort
  exact ⟨keys, hkeys, fun set => List.mem_mergeSort⟩

/-! ### What is found -/

theorem Reads.looks_failNotFound (h : c.Reads view) (name : String) :
    (c.failNotFound name).Looks view c.workshop.get :=
  h.listTemplates.bind fun _ => Op.looks_fail _

theorem Reads.denies_failNotFound (h : c.Reads view)
    (hlist : (Op.result c.catalog.list s).1 = .ok names) (name : String) :
    Denies (Op.result (c.failNotFound name) s).1 := by
  rw [failNotFound, h.listTemplates.answer_bind fun _ => Op.looks_fail _,
    show (Op.result c.listTemplates s).1 = .ok names from hlist]
  exact ⟨_, _, rfl, rfl, .inl rfl⟩

theorem ofJson_of_setAt {v : Json} {b : Bundle}
    (hget : (Op.result (c.store.get set) s).1 = .ok (some v)) (hb : c.setAt s set = .ok b) :
    Bundle.ofJson set v = .ok b := by
  rcases hr : Op.result (c.store.get set) s with ⟨r, s'⟩
  obtain rfl : r = .ok (some v) := by rw [hr] at hget; exact hget
  rw [setAt, StoredSets.readSet, Op.result_bind_of_ok hr] at hb
  simp only at hb
  cases hv : Bundle.ofJson set v with
  | error e =>
    rw [hv] at hb
    cases hb
  | ok b' =>
    rw [hv] at hb
    exact hb

/-- Where a set that is listed has a template. -/
theorem mem_names_iff_of_split {sets : List String}
    (hsplit : Catalog.splitName name = some (set, template))
    (hmem : ∀ name, name ∈ names ↔ ∃ set ∈ sets, ∃ b, c.setAt s set = .ok b ∧
      ∃ template ∈ NameMap.names b.templates, Catalog.fullName set template = name) :
    name ∈ names ↔ set ∈ sets ∧ ∃ b, c.setAt s set = .ok b ∧
      template ∈ NameMap.names b.templates := by
  rw [hmem]
  constructor
  · rintro ⟨set', hset', b', hb', template', ht', hfull⟩
    obtain ⟨rfl, rfl⟩ := Catalog.fullName_inj (hfull ▸ hsplit)
    exact ⟨hset', b', hb', ht'⟩
  · rintro ⟨hset, b, hb, ht⟩
    exact ⟨set, hset, b, hb, template, ht, (Catalog.splitName_eq_some_iff.1 hsplit).1.symm⟩

/-- A template is found if its name can be taken apart and is listed; otherwise it is denied. -/
theorem Reads.found_or_denied (h : c.Reads view) (hk : c.store.Consistent)
    (hlist : (Op.result c.catalog.list s).1 = .ok names) (name : String) :
    ((∃ text, (Op.result (c.readTemplate name) s).1 = .ok text) ∧
      name ∈ names ∧ (Catalog.splitName name).isSome) ∨
    (Denies (Op.result (c.readTemplate name) s).1 ∧
      ¬ (name ∈ names ∧ (Catalog.splitName name).isSome)) := by
  cases hsplit : Catalog.splitName name with
  | none =>
    refine .inr ⟨?_, by simp⟩
    rw [StoredSets.readTemplate, hsplit]
    exact h.denies_failNotFound hlist name
  | some parts =>
    obtain ⟨set, template⟩ := parts
    obtain ⟨sets, hsets, hload, hmem⟩ := h.of_list hlist
    obtain ⟨keys, hkeys, hsame⟩ := h.exists_keys hsets
    have hname := mem_names_iff_of_split hsplit hmem
    obtain ⟨v, hget, hv⟩ := hk.lookup hkeys (Catalog.splitName_eq_some_iff.1 hsplit).2.1.1
    rw [← hsame] at hv
    have hview := (h.get set).view_eq s
    rcases hr : Op.result (c.store.get set) s with ⟨r, s'⟩
    obtain rfl : r = .ok v := by rw [hr] at hget; exact hget
    rw [hr] at hview
    have hdenied : Denies (Op.result (c.failNotFound name) s').1 := by
      rw [(h.looks_failNotFound name).answer hview]
      exact h.denies_failNotFound hlist name
    rw [StoredSets.readTemplate, hsplit]
    simp only [Option.isSome_some, and_true]
    rw [Op.result_bind_of_ok hr]
    cases v with
    | none =>
      have hset : set ∉ sets := fun hset => by simpa using hv.2 hset
      exact .inr ⟨hdenied, fun hmem => hset (hname.1 hmem).1⟩
    | some v =>
      have hset : set ∈ sets := hv.1 rfl
      obtain ⟨b, hb⟩ := hload set hset
      simp only [ofJson_of_setAt hget hb]
      rw [Op.result_bind_of_ok (Op.result_ofExcept_ok b s')]
      cases ht : NameMap.get? b.templates template with
      | none =>
        refine .inr ⟨hdenied, fun hmem => ?_⟩
        obtain ⟨-, b', hb', ht'⟩ := hname.1 hmem
        obtain rfl : b = b' := Except.ok.inj (hb.symm.trans hb')
        obtain ⟨text, htext⟩ := NameMap.mem_names_iff.1 ht'
        rw [ht] at htext
        cases htext
      | some text =>
        exact .inl ⟨⟨text, rfl⟩, hname.2 ⟨hset, b, hb, NameMap.mem_names_iff.2 ⟨text, ht⟩⟩⟩

/-- A template that is found is not denied when it is compiled. -/
theorem Reads.not_denies_compileAnew (h : c.Reads view)
    (hlist : (Op.result c.catalog.list s).1 = .ok names) (hn : name ≠ "") {text : String}
    (ht : (Op.result (c.readTemplate name) s).1 = .ok text) :
    ¬ Denies (Op.result (Workshop.compileAnew name (c.readTemplate name) c.loadFragments) s).1 := by
  obtain ⟨sets, hsets, hload, -⟩ := h.of_list hlist
  have hlook (bundles : List Bundle) : (Op.ofExcept (Fragments.ofBundles bundles) : Op σ Fragments).Looks
      view c.workshop.get := Op.looks_ofExcept _
  have hread (sets : List String) : (do
      let bundles ← sets.mapM c.readSet
      Op.ofExcept (Fragments.ofBundles bundles) : Op σ Fragments).Looks view c.workshop.get :=
    (Op.looks_mapM h.readSet sets).bind hlook
  obtain ⟨bundles, hbundles⟩ := exists_mapM_iff.2 hload
  have hfragments : (Op.result c.loadFragments s).1 = Fragments.ofBundles bundles := by
    rw [StoredSets.loadFragments, h.setNames.answer_bind hread,
      show (Op.result c.setNames s).1 = .ok sets from hsets]
    show (Op.result (sets.mapM c.readSet >>= _) s).1 = _
    rw [(Op.looks_mapM h.readSet sets).answer_bind hlook, Op.Looks.answer_mapM h.readSet,
      show sets.mapM (fun set => (Op.result (c.readSet set) s).1) = .ok bundles from hbundles]
    show (Op.result (Op.ofExcept (Fragments.ofBundles bundles)) s).1 = _
    cases Fragments.ofBundles bundles <;> rfl
  rw [h.sees.result_compileAnew hn ht, hfragments]
  rintro ⟨e, p, he, hp⟩
  rcases bind_eq_error_iff.1 he with he | ⟨f, -, he⟩
  · exact not_denies_ofBundles bundles ⟨e, p, he, hp⟩
  · exact not_denies_compile name text f ⟨e, p, he, hp⟩

/-- A coherent catalog denies the names that it does not list or that cannot be taken apart. -/
theorem Reads.denies_iff (h : c.Reads view) (hk : c.store.Consistent) (hc : c.CoherentAt s)
    (hlist : (Op.result c.catalog.list s).1 = .ok names) (name : String) :
    ¬ Denies (Op.result (c.catalog.fetch name) s).1 ↔
      name ∈ names ∧ (Catalog.splitName name).isSome := by
  obtain ⟨s', hs', -⟩ := h.result_fetch hc name
  rw [hs']
  by_cases hn : name = ""
  · subst hn
    exact ⟨fun hd => absurd ⟨_, _, rfl, rfl, .inr rfl⟩ hd, fun hname => nomatch hname.2⟩
  · rcases h.found_or_denied hk hlist name with ⟨⟨text, ht⟩, hname⟩ | ⟨⟨e, p, he, hp⟩, hname⟩
    · exact ⟨fun _ => hname, fun _ => h.not_denies_compileAnew hlist hn ht⟩
    · refine ⟨fun hd => absurd ⟨e, p, ?_, hp⟩ hd, fun h => absurd h hname⟩
      rw [Workshop.compileAnew, Op.result_bind_of_ok (Op.result_requireKey "key" hn s)]
      rcases hr : Op.result (c.readTemplate name) s with ⟨r, s''⟩
      rw [hr] at he
      obtain rfl : r = .error e := he
      rw [Op.result_bind_of_error hr]

/-! ### Runs -/

variable {st : Store σ} {known : KnownHashes} {requests : List Request}

/-- A workshop that keeps nothing. -/
def Blank (w : Workshop) : Prop := w.engines.entries = [] ∧ w.fragments? w.current = none

/-- Writes keep nothing in the workshop, whether they succeed or fail. -/
theorem blank_run {s : σ × Workshop} (hs : Blank s.2) (hr : ∀ r ∈ requests, r.writes = true) :
    Blank ((ofStore st known).run s requests).2 := by
  induction requests generalizing s with
  | nil => exact hs
  | cons r rest ih =>
    refine ih ?_ fun r' hr' => hr r' (List.mem_cons_of_mem _ hr')
    have hends := writeEnds_perform st known (hr r List.mem_cons_self) s
    rw [after]
    generalize Op.result ((ofStore st known).perform r) s = x at hends
    cases hends with
    | succeeded s' => exact ⟨rfl, by simp [Workshop.reload, Workshop.invalidate, Workshop.renew,
        Workshop.fragments?]⟩
    | failed e s' => exact hs

theorem coherentAt_of_blank {s : σ × Workshop} (h : Blank s.2) : (ofStore st known).CoherentAt s :=
  ⟨Cache.holds_of_entries_eq_nil h.1, fun f hf => by
    have hnone : s.2.fragments? s.2.current = some f := hf
    rw [h.2] at hnone
    cases hnone⟩

/-- **What a catalog of a store lists and what it fetches**, after uploads and removals from which it
keeps nothing, or after requests during which no write has changed the store and failed. On the names
that can be taken apart the two agree, and all others are denied. So a template of a stored set, which is
always listed, is denied if the name of the set holds a slash, or that of the template does or is
empty. -/
theorem listed_iff_fetched (h : st.ReadsFrom view) (hk : st.Consistent) {s₀ : σ} {limit : Nat}
    {s : σ × Workshop} (hs : (ofStore st known).run (s₀, Workshop.empty limit) requests = s)
    (hr : (∀ r ∈ requests, r.writes = true) ∨ (ofStore st known).Calm (fun s => view s.1) True
      (s₀, Workshop.empty limit) requests)
    (hlist : (Op.result (ofStore st known).catalog.list s).1 = .ok names) :
    (∀ name, (Catalog.splitName name).isSome →
      (name ∈ names ↔ ¬ Denies (Op.result ((ofStore st known).catalog.fetch name) s).1)) ∧
    (∀ name, Catalog.splitName name = none →
      Denies (Op.result ((ofStore st known).catalog.fetch name) s).1) ∧
    ∃ sets, (Op.result (ofStore st known).catalog.listSets s).1 = .ok sets ∧
      ∀ set ∈ sets, ∃ b, (Op.result ((ofStore st known).catalog.setData set) s).1 = .ok b ∧
        ∀ template ∈ NameMap.names b.templates, Catalog.fullName set template ∈ names ∧
          (Denies (Op.result ((ofStore st known).catalog.fetch (Catalog.fullName set template)) s).1 ↔
            '/' ∈ set.toList ∨ template = "" ∨ '/' ∈ template.toList) := by
  have hreads := reads_ofStore h known
  have hk' : (ofStore st known).store.Consistent := hk.lift Lens.fst
  have hc : (ofStore st known).CoherentAt s := by
    rcases hr with hr | hcalm
    · exact coherentAt_of_blank (hs ▸ blank_run ⟨rfl, rfl⟩ hr)
    · exact hs ▸ coherentAt_run h (fun _ => Workshop.coherent_empty limit) hcalm
  have hiff := hreads.denies_iff hk' hc hlist
  refine ⟨fun name hname => ?_, fun name hname => ?_, ?_⟩
  · rw [hiff]
    exact ⟨fun hmem => ⟨hmem, hname⟩, And.left⟩
  · by_contra hd
    have hsome := ((hiff name).1 hd).2
    rw [hname] at hsome
    cases hsome
  · obtain ⟨sets, hsets, hload, hmem⟩ := hreads.of_list hlist
    refine ⟨sets, hsets, fun set hset => ?_⟩
    obtain ⟨b, hb⟩ := hload set hset
    refine ⟨b, hb, fun template ht => ?_⟩
    have hlisted := (hmem (Catalog.fullName set template)).2 ⟨set, hset, b, hb, template, ht, rfl⟩
    refine ⟨hlisted, ?_⟩
    rw [← not_iff_not, hiff, Catalog.isSome_splitName_fullName (ne_empty_of_setAt hk' hb)]
    exact ⟨And.right, fun hgood => ⟨hlisted, hgood⟩⟩

/-- A set with two templates, one of which has a slash in its name: in memory, and in a store file that
cannot be written. -/
theorem listed_iff_fetched_slash :
    (∃ s names, (ofStore Store.memory .empty).run ([], Workshop.empty 1)
        [.upload (Bundle.build "s" [("t", "[]"), ("x/y", "[]")] [])] = s ∧
      (Op.result (ofStore Store.memory .empty).catalog.list s).1 = .ok names ∧
      "s/t" ∈ names ∧ ¬ Denies (Op.result ((ofStore Store.memory .empty).catalog.fetch "s/t") s).1 ∧
      "s/x/y" ∈ names ∧
        Denies (Op.result ((ofStore Store.memory .empty).catalog.fetch "s/x/y") s).1) ∧
    ∃ s names, (ofStore (Store.file "store.json") .empty).run ((none, blockedFiles), Workshop.empty 1)
        [.upload (Bundle.build "s" [("t", "[]"), ("x/y", "[]")] [])] = s ∧
      (Op.result (ofStore (Store.file "store.json") .empty).catalog.list s).1 = .ok names ∧
      "s/t" ∈ names ∧
        ¬ Denies (Op.result ((ofStore (Store.file "store.json") .empty).catalog.fetch "s/t") s).1 ∧
      "s/x/y" ∈ names ∧
        Denies (Op.result ((ofStore (Store.file "store.json") .empty).catalog.fetch "s/x/y") s).1 := by
  constructor
  · obtain ⟨s, hs⟩ : ∃ s, (ofStore Store.memory .empty).run ([], Workshop.empty 1)
        [.upload (Bundle.build "s" [("t", "[]"), ("x/y", "[]")] [])] = s := ⟨_, rfl⟩
    have hlist : (Op.result (ofStore Store.memory .empty).catalog.list s).1 = .ok ["s/t", "s/x/y"] := by
      subst hs
      decide +kernel
    obtain ⟨hagree, hdenied, -⟩ := listed_iff_fetched Store.readsFrom_memory Store.consistent_memory hs
      (.inl (by simp [Request.writes])) hlist
    exact ⟨s, _, hs, hlist, by simp, (hagree "s/t" (by decide)).1 (by simp), by simp,
      hdenied "s/x/y" (by decide)⟩
  · obtain ⟨s, hs⟩ : ∃ s, (ofStore (Store.file "store.json") .empty).run
        ((none, blockedFiles), Workshop.empty 1)
        [.upload (Bundle.build "s" [("t", "[]"), ("x/y", "[]")] [])] = s := ⟨_, rfl⟩
    have hlist : (Op.result (ofStore (Store.file "store.json") .empty).catalog.list s).1 =
        .ok ["s/t", "s/x/y"] := by
      subst hs
      decide +kernel
    obtain ⟨hagree, hdenied, -⟩ := listed_iff_fetched (Store.readsFrom_file "store.json")
      (Store.consistent_file "store.json") hs (.inl (by simp [Request.writes])) hlist
    exact ⟨s, _, hs, hlist, by simp, (hagree "s/t" (by decide)).1 (by simp), by simp,
      hdenied "s/x/y" (by decide)⟩

/-! ### Keys that an appliance does not take -/

/-- Under a name that is no key of an appliance nothing can be stored, yet a fetch does not deny the
template: it refuses the key, before it sends a command. -/
theorem result_fetch_misnamed {τ : Type} {z : Compression} {shell : Shell τ} {collection : Collection}
    {s : ApplianceStore.State τ × Workshop} (hsplit : Catalog.splitName name = some (set, template))
    {d : Char} (hd : set.toList.find? (fun c => !ApplianceStore.isKeyChar c) = some d)
    (hnew : s.2.engines.slot? name = none) :
    ∃ reason s', Op.result ((ofStore (Store.appliance z shell collection) known).catalog.fetch name) s =
      (.error (.problem (.invalidKey set "appliance" reason)), s') := by
  obtain ⟨rfl, ⟨hset, -⟩, -⟩ := Catalog.splitName_eq_some_iff.1 hsplit
  obtain ⟨reason, hget⟩ : ∃ reason, ∀ t, Op.result ((Store.appliance z shell collection).get set) t =
      (.error (.problem (.invalidKey set "appliance" reason)), t) := by
    refine ⟨"character " ++ Text.quotedChar d ++ " is not allowed, use letters, digits or one of '" ++
      ApplianceStore.keyPunctuation ++ "'", fun t => ?_⟩
    have hcheck : Op.result (ApplianceStore.checkKey set) t = (.error (.problem (.invalidKey set
        "appliance" ("character " ++ Text.quotedChar d ++
          " is not allowed, use letters, digits or one of '" ++ ApplianceStore.keyPunctuation ++
            "'"))), t) := by
      rw [ApplianceStore.checkKey, Op.result_bind_of_ok (Op.result_requireKey "key" hset t), hd]
      rfl
    simp only [Store.appliance]
    rw [Op.result_bind_of_error hcheck]
  have hread (t : ApplianceStore.State τ × Workshop) :
      Op.result ((ofStore (Store.appliance z shell collection) known).readTemplate
        (Catalog.fullName set template)) t =
          (.error (.problem (.invalidKey set "appliance" reason)), t) := by
    have hlift : Op.result ((ofStore (Store.appliance z shell collection) known).store.get set) t =
        (.error (.problem (.invalidKey set "appliance" reason)), t) :=
      Op.result_zoom_fst (hget t.1) t.2
    rw [StoredSets.readTemplate, hsplit, Op.result_bind_of_error hlift]
  refine ⟨reason, _, Cache.result_fetch_miss (l := Lens.snd.comp Workshop.enginesLens)
    (Catalog.fullName_ne_empty _ _) hnew (Op.result_bind_of_error (hread _))⟩

end StoredSets

end Stencil
