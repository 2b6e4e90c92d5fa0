import Stencil.Proofs.Catalog.FolderHistory
import Stencil.Proofs.Catalog.Freshness

/-!
# What is hidden or forgotten stays so

Every task of a shared catalog of a folder keeps the discipline of `SharedFolder.discipline`, step by step.
To hide a set drops the compiled templates of the set, and no others; to invalidate drops all. Since each
change leaves a floor for the names that it forgets, whoever finds a slot for such a name afterwards finds
one that was born later, and a template in it was made later still (`made_since_change`). Of a hidden set
nothing can be made any more, so what was hidden or forgotten stays so on every schedule
(`stays_hidden_or_forgotten`).
-/

namespace Stencil.SharedFolder

variable {f : Folder} {s t : SharedFolder} {k i : Nat} {name set : String}

/-! ### Looking -/

theorem looks_lookAt {α : Type} (look : Files → α) : (lookAt look).Looks :=
  Task.only_once fun _ => rfl

theorem looks_lookAtHidden {α : Type} (look : NameSet → α) : (lookAtHidden look).Looks :=
  Task.only_once fun _ => rfl

theorem looks_visibleSets : (visibleSets f).Looks := by
  refine (looks_lookAt _).bind fun r => ?_
  cases r with
  | ok entries =>
    exact (Task.only_mapM (fun entry => (looks_lookAtHidden _).bind fun _ => Task.only_pure _)
      entries).bind fun _ => Task.only_pure _
  | error e =>
    by_cases he : e.isMissing = true
    · simp only [he]
      trivial
    · simp only [he]
      trivial

theorem looks_readSet (set directory : String) : (readSet set directory).Looks := by
  refine (looks_lookAt _).bind fun r => ?_
  cases r with
  | error e => trivial
  | ok entries =>
    exact (Task.only_foldlM (fun _ _ => (looks_lookAt _).bind fun _ => Task.only_ofExcept _)
      entries _).bind fun _ => Task.only_pure _

theorem looks_loadSet (set : String) : (loadSet f set).Looks := by
  refine (looks_lookAtHidden _).bind fun shown => ?_
  cases shown with
  | false => trivial
  | true =>
    refine (looks_lookAt _).bind fun directory => ?_
    cases directory with
    | false => trivial
    | true => exact looks_readSet set _

theorem looks_loadFragments : (loadFragments f).Looks :=
  looks_visibleSets.bind fun _ => (Task.only_mapM looks_loadSet _).bind fun _ => Task.only_ofExcept _

theorem looks_listTemplates : (listTemplates f).Looks :=
  looks_visibleSets.bind fun _ =>
    (Task.only_mapM (fun set => (looks_loadSet set).bind fun _ => Task.only_pure _) _).bind
      fun _ => Task.only_pure _

/-- Nothing is found. -/
theorem keeps_failNotFound {α : Type} {Q : α → SharedFolder → Prop} (name : String) :
    (failNotFound f name).Keeps (discipline f) Q s :=
  looks_listTemplates.keeps.bind fun _ _ _ _ => Task.keeps_ofExcept fun _ h => nomatch h

/-- The text of a template is what its file holds when it is read, and before that its set is shown. -/
theorem keeps_readTemplate (hk : k ≤ s.version) (name : String) :
    (readTemplate f name).Keeps (discipline f) (fun p s' => ∃ v path, k ≤ v ∧ v ≤ p.2 ∧
      s'.Held v (fun w => f.templatePath w.2 name = some path) ∧
      s'.Held p.2 fun w => w.1.readText path = .ok p.1) s := by
  refine (Task.keeps_look (P := fun path? s' => ∀ path, path? = some path → ∃ v, k ≤ v ∧
    v ≤ s'.version ∧ s'.Held v fun w => f.templatePath w.2 name = some path) (fun _ => rfl)
      fun s' hs' _ path? hpath path hsome => ?_).bind fun path? s₁ _ hpath => ?_
  · obtain rfl : f.templatePath s'.kept.removed name = path? := Except.ok.inj hpath
    exact ⟨s'.version, Nat.le_trans hk hs'.version, Nat.le_refl _, _, s'.contents?_version, hsome⟩
  cases path? with
  | none => exact keeps_failNotFound name
  | some path =>
    obtain ⟨v, hkv, hv, hheld⟩ := hpath path rfl
    refine (Task.keeps_look (P := fun p s' => v ≤ p.2 ∧ s'.Held v (fun w =>
      f.templatePath w.2 name = some path) ∧ s'.Held p.2 fun w => w.1.readText path = p.1)
        (fun _ => rfl) fun s' hs' _ p hp => ?_).bind fun p s₂ _ hp => ?_
    · obtain rfl : (s'.files.readText path, s'.version) = p := Except.ok.inj hp
      exact ⟨Nat.le_trans hv hs'.version, hheld.later hs', _, s'.contents?_version, rfl⟩
    obtain ⟨r, version⟩ := p
    cases r with
    | ok text => exact Task.keeps_pure ⟨v, path, hkv, hp⟩
    | error e =>
      by_cases he : e.isMissing = true
      · simp only [he]
        exact keeps_failNotFound name
      · simp only [he]
        exact Task.keeps_ofExcept fun _ h => nomatch h

/-! ### Fetching -/

theorem keeps_fragments : (fragments f).Keeps (discipline f) (fun _ _ => True) s := by
  refine (Task.keeps_look (P := fun _ _ => True) (fun _ => rfl) fun _ _ _ _ _ => trivial).bind
    fun cell s₁ _ _ => cells.keeps_obtain (fun _ _ _ _ _ => trivial) (fun s' g _ hinv => ?_)
      (fun _ _ _ _ _ => trivial) (fun _ _ => looks_loadFragments.keeps) fun s' loaded _ hinv _ => ?_
  · exact sound_quiet hinv ⟨rfl, rfl, fun _ h => h⟩ rfl
  · exact sound_quiet hinv ⟨rfl, rfl, fun _ h => h⟩ rfl

theorem keeps_compile (hk : k ≤ s.version) (name : String) :
    (compile f name).Keeps (discipline f) (fun a s' => Made f s' name k a) s := by
  refine (keeps_readTemplate hk name).bind fun p s₁ _ hp => ?_
  obtain ⟨text, version⟩ := p
  obtain ⟨v, path, hkv, hv, hpath, htext⟩ := hp
  refine keeps_fragments.bind fun loaded s₂ hs₂ _ => ?_
  refine (Task.keeps_ofExcept (P := fun e s' => Made f s' name k (e, version)) fun e he => ?_).bind
    fun e s₃ _ he => Task.keeps_pure he
  exact ⟨v, path, text, loaded, hkv, hv, hpath.later hs₂, htext.later hs₂, he⟩

/-- A key either has a slot or gets a new one. -/
theorem result_reserve (key : String) (s : SharedFolder) :
    (∃ i hits, s.workshop.engines.slot? key = some i ∧ Op.result (reserve key) s = (.ok i,
      workshopPart.set { s.workshop with engines := { s.workshop.engines with hits } } s)) ∨
    s.workshop.engines.slot? key = none ∧
      Op.result (reserve key) s = (.ok s.slotCount, s.reserved key) := by
  rcases hslot : s.workshop.engines.slot? key with _ | i
  · have hreserve : s.workshop.engines.reserve key = (s.slotCount, s.workshop.engines.opened key) := by
      rw [Cache.opened, Cache.reserve_of_none hslot]
    refine .inr ⟨rfl, ?_⟩
    rw [reserve, Op.result_bind_of_ok (Op.result_get s), hreserve]
    simp only [hslot]
    rfl
  · obtain ⟨hits, hreserve⟩ := Cache.reserve_of_some hslot
    refine .inl ⟨i, hits, rfl, ?_⟩
    rw [reserve, Op.result_bind_of_ok (Op.result_get s), hreserve]
    simp only [hslot]
    rfl

/-- Above the floor, the slot of a key was born above it. -/
theorem keeps_reserve {P : String → Prop} (hk : Floor P k s) (hP : P name) :
    (Task.once do
      Op.requireKey "key" name
      reserve name).Keeps (discipline f) (fun i s' => i < s'.slotCount ∧ (s'.slotNotes i).key = name ∧
        k ≤ (s'.slotNotes i).born ∧ (s'.slotNotes i).born ≤ s'.version) s := by
  refine Task.keeps_once fun s' hs' hinv => ?_
  by_cases hn : name = ""
  · subst hn
    exact ⟨hinv, Later.refl s', fun _ h => nomatch h⟩
  rw [Op.result_bind_of_ok (Op.result_requireKey "key" hn s')]
  have hfloor := hs'.floor P k hk
  rcases result_reserve name s' with ⟨i, hits, hslot, hreserve⟩ | ⟨hslot, hreserve⟩ <;> rw [hreserve]
  · obtain ⟨hi, hm⟩ := sound_quiet (t := workshopPart.set
      { s'.workshop with engines := { s'.workshop.engines with hits } } s') hinv
        ⟨rfl, rfl, fun _ h => h⟩ rfl
    refine ⟨hi, hm, fun j hj => ?_⟩
    obtain rfl : i = j := Except.ok.inj hj
    have hmem := Cache.mem_entries_of_slot? hslot
    obtain ⟨hlt, hkey, hborn⟩ := hinv.entry _ hmem
    exact ⟨hlt, hkey, hfloor.entry _ hmem hP, hborn⟩
  · obtain ⟨hi, hm⟩ := sound_reserved hinv hslot
    refine ⟨hi, hm, fun j hj => ?_⟩
    obtain rfl : s'.slotCount = j := Except.ok.inj hj
    rw [slotNotes_reserved_self]
    exact ⟨by rw [slotCount_reserved hslot]; exact Nat.lt_succ_self _, rfl, hfloor.version,
      Nat.le_refl _⟩

/-- **A fetch that begins above a floor gives what was made above it.** -/
theorem keeps_fetch {P : String → Prop} (hk : Floor P k s) (hP : P name) :
    (fetch f name).Keeps (discipline f) (fun a s' => Made f s' name k a) s := by
  refine (keeps_reserve hk hP).bind fun i s₁ _ hi => ?_
  obtain ⟨hlt, hkey, hborn, hversion⟩ := hi
  have hsame {s' : SharedFolder} (hs' : Later s₁ s') :
      (s'.slotNotes i).key = name ∧ (s'.slotNotes i).born = (s₁.slotNotes i).born :=
    ⟨(hs'.slot i hlt).1.trans hkey, (hs'.slot i hlt).2⟩
  have hobtain : (slots.obtain i (compile f name)).Keeps (discipline f)
      (fun a s' => Made f s' name (s₁.slotNotes i).born a) s₁ := by
    refine slots.keeps_obtain (fun a _ _ hs' ha => ha.later hs') (fun s' g _ hinv => ?_)
      (fun s' a hs' hinv ha => ?_)
      (fun s' hs' => keeps_compile (Nat.le_trans hversion hs'.version) name)
      (fun s' a hs' hinv ha => ?_)
    · exact sound_quiet hinv ⟨rfl, rfl, fun _ h => h⟩ rfl
    · have hmade := hinv.engine i a ha
      rwa [(hsame hs').1, (hsame hs').2] at hmade
    · refine sound_fill_slot hinv ?_
      rw [(hsame hs').1, (hsame hs').2]
      exact ha
  refine hobtain.attempt.bind fun r s₂ _ hr => ?_
  cases r with
  | ok a => exact Task.keeps_pure ((hr a rfl).mono hborn)
  | error e =>
    refine (Task.keeps_once (P := fun _ _ => True) fun s' _ hinv => ?_).bind fun _ _ _ _ =>
      Task.keeps_ofExcept fun _ h => nomatch h
    obtain ⟨entries, hsub, hdiscard⟩ := s'.workshop.engines.exists_discard name i
    have hstate : (Op.result (Op.change (workshopPart.comp Workshop.enginesLens)
        (·.discard name i)) s').2 =
          workshopPart.set { s'.workshop with engines := { s'.workshop.engines with entries } } s' :=
      congrArg (fun c => workshopPart.set { s'.workshop with engines := c } s') hdiscard
    rw [hstate]
    obtain ⟨hi, hm⟩ := sound_quiet (t := workshopPart.set
      { s'.workshop with engines := { s'.workshop.engines with entries } } s') hinv
        ⟨rfl, rfl, fun _ hp => hsub.subset hp⟩ rfl
    exact ⟨hi, hm, fun _ _ => trivial⟩

/-! ### Changes -/

/-- What a request changes, of the files and the hidden sets. -/
def Request.effect? : Request → Option (Files × NameSet → Files × NameSet)
  | .ask (.fetch _) => none
  | .ask (.remove set) => some fun w => (w.1, NameSet.insert w.2 set)
  | .ask .invalidate => some id
  | .edit act => some fun w => (act w.1, w.2)

/-- The names whose compiled templates a request drops from the cache. -/
def Request.Forgets : Request → String → Prop
  | .ask (.remove set), name => Workshop.belongsTo set name = true
  | .ask .invalidate, _ => True
  | .ask (.fetch _), _ | .edit _, _ => False

/-- The change of a number is what a request asks for. -/
def Changed (s : SharedFolder) (k : Nat) (r : Request) : Prop :=
  ∃ n w effect, k = n + 1 ∧ r.effect? = some effect ∧
    s.contents? n = some w ∧ s.contents? k = some (effect w)

theorem Changed.later {r : Request} (h : s.Changed k r) (hs : Later s t) : t.Changed k r :=
  let ⟨n, w, effect, hk, heffect, hn, hw⟩ := h
  ⟨n, w, effect, hk, heffect, hs.contents _ _ hn, hs.contents _ _ hw⟩

theorem result_change {op : Op Folder.World Unit} {w : Folder.World}
    (h : Op.result op (s.files, s.kept) = (.ok (), w)) :
    Op.result (change op) s = (.ok (s.version + 1), s.changed w) := by
  have hzoom : Op.result (op.zoom worldPart) s = (.ok (), worldPart.set w s) := by
    rw [Op.result_zoom, show Op.result op (worldPart.get s) = _ from h]
  rw [change, Op.result_bind_of_ok (Op.result_get s), Op.result_bind_of_ok hzoom]
  rfl

/-- A request makes the change that it asks for, and leaves a floor for the names that it forgets. -/
theorem keeps_change {r : Request} {op : Op Folder.World Unit} {g : Folder.World → Folder.World}
    {effect : Files × NameSet → Files × NameSet} (hop : ∀ w, Op.result op w = (.ok (), g w))
    (heffect : r.effect? = some effect)
    (hg : ∀ w, ((g w).1, (g w).2.removed) = effect (w.1, w.2.removed))
    (hcells : ∀ w, (g w).2.workshop.engines.cells = w.2.workshop.engines.cells)
    (hentries : ∀ w, ∀ p ∈ (g w).2.workshop.engines.entries,
      p ∈ w.2.workshop.engines.entries ∧ ¬ r.Forgets p.1)
    (hremoved : ∀ w, ∀ set ∈ w.2.removed, set ∈ (g w).2.removed) :
    (Task.once (change op)).Keeps (discipline f) (fun k s' => s'.Changed k r ∧ Floor r.Forgets k s')
      s := by
  refine Task.keeps_once fun s' _ hinv => ?_
  obtain ⟨w, hw⟩ : ∃ w, g (s'.files, s'.kept) = w := ⟨_, rfl⟩
  have hentries' := hw ▸ hentries (s'.files, s'.kept)
  rw [result_change (hop _), hw]
  obtain ⟨hi, hm⟩ := sound_changed (w := w) hinv
    ⟨rfl, hw ▸ hcells (s'.files, s'.kept), fun p hp => (hentries' p hp).1⟩
    (hw ▸ hremoved (s'.files, s'.kept))
  refine ⟨hi, hm, fun k hk => ?_⟩
  obtain rfl : s'.version + 1 = k := Except.ok.inj hk
  refine ⟨⟨s'.version, (s'.files, s'.kept.removed), effect, rfl, heffect, ?_, ?_⟩,
    Nat.le_of_eq (version_changed s' w).symm, fun p hp hforgets => absurd hforgets (hentries' p hp).2⟩
  · exact hm.contents _ _ s'.contents?_version
  · rw [contents?_changed, if_pos rfl, ← hw, hg]

theorem keeps_hide (set : String) : (Task.once (change (Folder.hide set))).Keeps (discipline f)
    (fun k s' => s'.Changed k (.ask (.remove set)) ∧ Floor (Request.ask (.remove set)).Forgets k s')
      s := by
  refine keeps_change (fun w => rfl) rfl (fun w => rfl) (fun w => ?_) (fun w p hp => ?_)
    fun w other hother => NameSet.mem_insert_of_mem hother set
  · show (w.2.workshop.invalidateSet set).engines.cells = _
    rw [Workshop.engines_invalidateSet]
  · have hp' : p ∈ (w.2.workshop.invalidateSet set).engines.entries := hp
    rw [Workshop.engines_invalidateSet] at hp'
    obtain ⟨hmem, hother⟩ := List.mem_filter.1 hp'
    exact ⟨hmem, by simpa [Request.Forgets] using hother⟩

theorem keeps_remove (set : String) : (remove f set).Keeps (discipline f)
    (fun k s' => s'.Changed k (.ask (.remove set)) ∧ Floor (Request.ask (.remove set)).Forgets k s')
      s := by
  refine looks_visibleSets.keeps.bind fun sets s₁ _ _ => ?_
  by_cases hset : sets.contains set = true
  · simp only [hset]
    exact keeps_hide set
  · simp only [hset]
    exact Task.keeps_ofExcept fun _ h => nomatch h

theorem keeps_invalidate : invalidate.Keeps (discipline f)
    (fun k s' => s'.Changed k (.ask .invalidate) ∧ Floor (Request.ask .invalidate).Forgets k s') s :=
  keeps_change (fun _ => rfl) rfl (fun _ => rfl) (fun _ => rfl)
    (fun _ _ hp => absurd hp List.not_mem_nil) fun _ _ h => h

theorem keeps_edit (act : Files → Files) : (edit act).Keeps (discipline f)
    (fun k s' => s'.Changed k (.edit act) ∧ Floor (Request.edit act).Forgets k s') s :=
  keeps_change (fun _ => rfl) rfl (fun _ => rfl) (fun _ => rfl) (fun _ _ hp => ⟨hp, id⟩) fun _ _ h => h

/-! ### What hiding a set leaves in the cache -/

/-- The compiled template that the cache has for a name. -/
def cached (s : SharedFolder) (name : String) : Option Engine :=
  (s.workshop.engines.slot? name).bind s.workshop.engines.value?

/-- Whatever is in the cache stays there, but for the names that belong to a set. -/
def Spares (set : String) (s t : SharedFolder) : Prop :=
  ∀ name, Workshop.belongsTo set name = false → t.cached name = s.cached name

theorem only_remove (set : String) : (remove f set).Only (Spares set) := by
  refine (looks_visibleSets.mono fun s s' hs name _ => by rw [hs]).bind fun sets => ?_
  by_cases hset : sets.contains set = true
  · simp only [hset]
    refine Task.only_once fun s name hname => ?_
    obtain ⟨w, hw⟩ : ∃ w, (Op.result (Folder.hide set) (s.files, s.kept)).2 = w := ⟨_, rfl⟩
    have hengines : w.2.workshop.engines = (s.workshop.invalidateSet set).engines := by
      subst hw
      rfl
    rw [result_change (w := w) (Prod.ext rfl hw), cached, cached, Cache.slot?, Cache.slot?,
      show (s.changed w).workshop.engines = _ from hengines, Workshop.engines_invalidateSet,
      lookup_filter fun key => !Workshop.belongsTo set key, hname]
    rfl
  · simp only [hset]
    exact Task.only_ofExcept _

/-- The names of the templates in the cache can be taken apart. -/
theorem exists_split_of_cached (hs : Sound f s) {e : Engine} (h : s.cached name = some e) :
    ∃ set template, Catalog.splitName name = some (set, template) := by
  obtain ⟨i, hslot, hvalue⟩ := Option.bind_eq_some_iff.1 h
  obtain ⟨-, hkey, -⟩ := hs.entry _ (Cache.mem_entries_of_slot? hslot)
  obtain ⟨v, path, text, loaded, -, -, ⟨w, -, hpath⟩, -, -⟩ := hs.engine i (e, (s.slotNotes i).read)
    (congrArg (Option.map _) hvalue)
  obtain ⟨set, template, hsplit, -⟩ := Folder.templatePath_eq_some_iff.1 hpath
  rw [hkey] at hsplit
  exact ⟨set, template, hsplit⟩

/-! ### All requests together -/

/-- The answer to a request is as it should be: a template was made since so many changes, and a change is
what was asked for and has left a floor. -/
def Fair (f : Folder) (k : Nat) (r : Request) (a : Answer) (s : SharedFolder) : Prop :=
  match a with
  | .engine e read => ∃ name, r = .ask (.fetch name) ∧ Made f s name k (e, read)
  | .changed n => s.Changed n r ∧ Floor r.Forgets n s

theorem stable_fair (k : Nat) (r : Request) (a : Answer) :
    Task.Stable (discipline f) (Fair f k r a) := by
  intro s t hs h
  cases a with
  | engine e read =>
    obtain ⟨name, hr, hmade⟩ := h
    exact ⟨name, hr, hmade.later hs⟩
  | changed n => exact ⟨h.1.later hs, hs.floor _ n h.2⟩

/-- The task of a request, which begins above a floor for the name that it is to fetch. -/
theorem keeps_perform {P : String → Prop} (hk : Floor P k s) {r : Request}
    (hP : ∀ name, r = .ask (.fetch name) → P name) :
    (perform f r).Keeps (discipline f) (Fair f k r) s := by
  cases r with
  | ask r =>
    cases r with
    | fetch name =>
      exact (keeps_fetch hk (hP name rfl)).bind fun a _ _ ha => Task.keeps_pure ⟨name, rfl, ha⟩
    | remove set => exact (keeps_remove set).bind fun n _ _ hn => Task.keeps_pure hn
    | invalidate => exact keeps_invalidate.bind fun n _ _ hn => Task.keeps_pure hn
  | edit act => exact (keeps_edit act).bind fun n _ _ hn => Task.keeps_pure hn

/-- What is asked of the answers of a crew: each is fair to its request. -/
def FairTo (f : Folder) (requests : List Request) (i : Nat) (a : Answer) (s : SharedFolder) : Prop :=
  ∃ r, requests[i]? = some r ∧ Fair f 0 r a s

theorem stable_fairTo (requests : List Request) (i : Nat) (a : Answer) :
    Task.Stable (discipline f) (FairTo f requests i a) := fun _ _ hs ⟨r, hr, h⟩ =>
  ⟨r, hr, stable_fair _ r a _ _ hs h⟩

theorem floor_zero (P : String → Prop) (s : SharedFolder) : Floor P 0 s :=
  ⟨Nat.zero_le _, fun _ _ _ => Nat.zero_le _⟩

section Crews

variable {files : Files} {limit : Nat} {requests : List Request} {before after : List Nat}
  {c : Crew SharedFolder Answer}

theorem getElem?_crew {r : Request} (hr : requests[i]? = some r) :
    (crew f files limit requests).tasks[i]? = some (perform f r) := by
  show (requests.map (perform f))[i]? = _
  rw [List.getElem?_map, hr]
  rfl

theorem keeps_crew (files : Files) (limit : Nat) (requests : List Request) :
    (crew f files limit requests).Keeps (discipline f) (FairTo f requests) := by
  refine ⟨sound_start files limit, fun {i t} ht => ?_⟩
  obtain ⟨r, hr, rfl⟩ := List.getElem?_map .. ▸ ht |> Option.map_eq_some_iff.1
  exact (keeps_perform (P := fun _ => True) (floor_zero _ _) fun _ _ => trivial).imp
    fun a _ _ ha => ⟨r, hr, ha⟩

theorem fair_of_result? (hc : (crew f files limit requests).run before = c) {r : Request} {a : Answer}
    (hr : requests[i]? = some r) (ha : c.result? i = some (.ok a)) : Fair f 0 r a c.state := by
  subst hc
  obtain ⟨hkeeps, -⟩ := (keeps_crew (f := f) files limit requests).run (stable_fairTo _) before
  obtain ⟨r', hr', hfair⟩ := hkeeps.of_result? ha
  rw [hr] at hr'
  rwa [Option.some.inj hr']

/-- A fetch that begins after a change has been made gives what was made since then, if the change has
dropped the compiled template of the name. -/
theorem made_since_change (hc : (crew f files limit requests).run before = c) {w t : Nat} {r : Request}
    {a b : Answer} (hw : requests[w]? = some r) (ha : c.result? w = some (.ok a))
    (ht : requests[t]? = some (.ask (.fetch name))) (hforgets : r.Forgets name) (hfresh : t ∉ before)
    (hb : (c.run after).result? t = some (.ok b)) :
    ∃ k e read, a = .changed k ∧ (c.run after).state.Changed k r ∧ b = .engine e read ∧
      Made f (c.run after).state name k (e, read) := by
  obtain ⟨hkeeps, -⟩ := (keeps_crew (f := f) files limit requests).run (stable_fairTo _) before
  have hfair := fair_of_result? hc hw ha
  rw [hc] at hkeeps
  have hmay := (hkeeps.run (stable_fairTo _) after).2
  have htask : c.tasks[t]? = some (perform f (.ask (.fetch name))) := by
    rw [← hc, Crew.getElem?_run hfresh, getElem?_crew ht]
  cases a with
  | engine e read =>
    obtain ⟨other, rfl, -⟩ := hfair
    exact hforgets.elim
  | changed k =>
    obtain ⟨hchanged, hfloor⟩ := hfair
    have hfetched : Fair f k (.ask (.fetch name)) b (c.run after).state := by
      refine hkeeps.of_task (stable_fairTo _) (stable_fair k _) htask (keeps_perform hfloor ?_) hb
      rintro other hother
      obtain rfl : name = other := by simpa using hother
      exact hforgets
    cases b with
    | engine e read =>
      obtain ⟨other, hother, hmade⟩ := hfetched
      obtain rfl : name = other := by simpa using hother
      exact ⟨k, e, read, rfl, hchanged.later hmay, rfl, hmade⟩
    | changed n =>
      obtain ⟨⟨_, _, effect, -, heffect, -⟩, -⟩ := hfetched
      cases heffect

theorem sound_of_run (hc : (crew f files limit requests).run before = c) : Sound f c.state :=
  hc ▸ ((keeps_crew (f := f) files limit requests).run (stable_fairTo _) before).1.inv

/-- A set that was hidden is not shown later. -/
theorem not_made_of_hidden (hs : Sound f s) {set template : String} {a : Engine × Nat}
    (hchanged : s.Changed k (.ask (.remove set))) :
    ¬ Made f s (Catalog.fullName set template) k a := by
  rintro ⟨v, path, text, loaded, hkv, -, ⟨w, hw, hpath⟩, -, -⟩
  obtain ⟨n, w', effect, -, heffect, -, hk⟩ := hchanged
  obtain rfl := Option.some.inj heffect
  obtain ⟨other, template', hsplit, hshows, -⟩ := Folder.templatePath_eq_some_iff.1 hpath
  obtain ⟨rfl, -⟩ := Catalog.fullName_inj hsplit
  have hmem : set ∈ w.2 := hs.hidden hkv hk hw set (NameSet.mem_insert_self w'.2 set)
  rw [Folder.shows, Bool.and_eq_true] at hshows
  simp [hmem] at hshows

/-- **What is hidden or forgotten stays so.** Requests are made of a shared catalog of a folder whose files
are changed meanwhile, and all take their steps in any order. A fetch that begins after a set was hidden
gives no template of the set. A fetch that begins after the compiled templates were forgotten, as the
`k`-th change, gives one that was compiled from a text that its file held after so many changes or more.
And a template that goes from the cache in a step of hiding a set is one of the set. -/
theorem stays_hidden_or_forgotten (hc : (crew f files limit requests).run before = c)
    (after : List Nat) :
    (∀ w t set template a b, requests[w]? = some (.ask (.remove set)) →
      c.result? w = some (.ok a) →
      requests[t]? = some (.ask (.fetch (Catalog.fullName set template))) → t ∉ before →
      (c.run after).result? t ≠ some (.ok b)) ∧
    (∀ w t name a b, requests[w]? = some (.ask .invalidate) → c.result? w = some (.ok a) →
      requests[t]? = some (.ask (.fetch name)) → t ∉ before →
      (c.run after).result? t = some (.ok b) → ∃ k e read, a = .changed k ∧
        (c.run after).state.Changed k (.ask .invalidate) ∧ b = .engine e read ∧ k ≤ read ∧
        Made f (c.run after).state name k (e, read)) ∧
    ∀ w set name e, requests[w]? = some (.ask (.remove set)) → c.state.cached name = some e →
      (c.poll w).state.cached name = some e ∨
        ∃ template, Catalog.splitName name = some (set, template) := by
  refine ⟨fun w t set template a b hw ha ht hfresh hb => ?_,
    fun w t name a b hw ha ht hfresh hb => ?_, fun w set name e hw he => ?_⟩
  · obtain ⟨k, e, read, -, hchanged, -, hmade⟩ := made_since_change hc hw ha ht
      (Workshop.belongsTo_fullName set template) hfresh hb
    have hrun : (crew f files limit requests).run (before ++ after) = c.run after := by
      rw [Crew.run_append, hc]
    exact not_made_of_hidden (sound_of_run hrun) hchanged hmade
  · obtain ⟨k, e, read, hk, hchanged, hread, hmade⟩ := made_since_change hc hw ha ht trivial hfresh hb
    exact ⟨k, e, read, hk, hchanged, hread, hmade.le, hmade⟩
  · have honly : ∀ t, c.tasks[w]? = some t → t.Only (Spares set) := by
      subst hc
      refine Crew.only_run (fun t ht => ?_) before
      obtain rfl := Option.some.inj ((getElem?_crew hw).symm.trans ht)
      exact (only_remove set).bind fun _ => Task.only_pure _
    have hspares := Crew.poll_of_only (fun _ _ _ => rfl) honly
    obtain ⟨other, template, hsplit⟩ := exists_split_of_cached (sound_of_run hc) he
    by_cases hset : set = other
    · exact .inr ⟨template, hset ▸ hsplit⟩
    · refine .inl ((hspares name ?_).trans he)
      rw [Bool.eq_false_iff, ne_eq, Workshop.belongsTo_iff hsplit]
      exact hset

end Crews

/-- A folder with two sets. -/
def twoSets (text : String) : Files :=
  ⟨[(["work", "t"], .directory), (["work", "t", "s"], .directory),
    (["work", "t", "s", "y.mst"], .file (Text.bytes text)), (["work", "t", "u"], .directory),
    (["work", "t", "u", "y.mst"], .file (Text.bytes text))], ["work"]⟩

/-- The number of an answer, and whether there is a template with it. -/
def Answer.number : Answer → Nat × Bool
  | .engine _ read => (read, true)
  | .changed number => (number, false)

theorem exists_of_number {r : Option (Except Fault Answer)} {n : Nat × Bool}
    (h : r.map (·.map Answer.number) = some (.ok n)) : ∃ a, r = some (.ok a) ∧ a.number = n := by
  obtain ⟨x, rfl, hx⟩ := Option.map_eq_some_iff.1 h
  obtain ⟨a, rfl, ha⟩ := map_eq_ok hx
  exact ⟨a, rfl, ha⟩

/-- A fetch has read a text of the first set when the set is hidden, and gives its template in the end.
That of the other set stays in the cache, until everything is forgotten. Then the files are changed. Of
two fetches that begin afterwards one fails, and the other one gives what it reads from the new files. -/
theorem stays_hidden_or_forgotten_overtaking : ∃ requests early late after c c' e e' old,
    (crew ⟨"t", none⟩ (twoSets "[]") 3 requests).run early = c ∧
    c.state.cached "u/y" = some e ∧ (c.poll 1).state.cached "u/y" = some e ∧
    (crew ⟨"t", none⟩ (twoSets "[]") 3 requests).run late = c' ∧
    requests[1]? = some (.ask (.remove "s")) ∧ c'.result? 1 = some (.ok (.changed 1)) ∧
    requests[2]? = some (.ask .invalidate) ∧ c'.result? 2 = some (.ok (.changed 2)) ∧
    (c'.run after).result? 0 = some (.ok (.engine old 0)) ∧
    (∀ b, (c'.run after).result? 3 ≠ some (.ok b)) ∧
    (c'.run after).result? 4 = some (.ok (.engine e' 3)) ∧
    Made ⟨"t", none⟩ (c'.run after).state "u/y" 2 (e', 3) := by
  obtain ⟨requests, hrequests⟩ : ∃ l : List Request, l = [.ask (.fetch "s/y"), .ask (.remove "s"),
    .ask .invalidate, .ask (.fetch "s/y"), .ask (.fetch "u/y"), .edit fun _ => twoSets "\x7b\x7d",
    .ask (.fetch "u/y")] := ⟨_, rfl⟩
  obtain ⟨early, hearly⟩ : ∃ l, l = List.replicate 19 6 ++ [0, 0, 0, 0, 1, 1, 1] := ⟨_, rfl⟩
  obtain ⟨late, hlate⟩ : ∃ l, l = List.replicate 19 6 ++ [0, 0, 0, 0, 1, 1, 1, 1, 2] := ⟨_, rfl⟩
  obtain ⟨after, hafter⟩ : ∃ l, l = [5] ++ List.replicate 7 4 ++ [0, 0, 0] ++ List.replicate 14 3 :=
    ⟨_, rfl⟩
  obtain ⟨c, hc⟩ : ∃ c, (crew ⟨"t", none⟩ (twoSets "[]") 3 requests).run early = c := ⟨_, rfl⟩
  obtain ⟨c', hc'⟩ : ∃ c, (crew ⟨"t", none⟩ (twoSets "[]") 3 requests).run late = c := ⟨_, rfl⟩
  have hcached : (c.state.cached "u/y").isSome = true := by
    subst hc hrequests hearly
    decide +kernel
  have hgiven : (c'.result? 1).map (·.map Answer.number) = some (.ok (1, false)) ∧
      (c'.result? 2).map (·.map Answer.number) = some (.ok (2, false)) := by
    subst hc' hrequests hlate
    decide +kernel
  have hlater : ((c'.run after).result? 0).map (·.map Answer.number) = some (.ok (0, true)) ∧
      ((c'.run after).result? 4).map (·.map Answer.number) = some (.ok (3, true)) := by
    subst hc' hrequests hlate hafter
    decide +kernel
  have hfresh : 3 ∉ late ∧ 4 ∉ late := by
    subst hlate
    decide
  have hremove : requests[1]? = some (.ask (.remove "s")) := by rw [hrequests]; rfl
  have hinvalidate : requests[2]? = some (.ask .invalidate) := by rw [hrequests]; rfl
  obtain ⟨e, he⟩ := Option.isSome_iff_exists.1 hcached
  obtain ⟨removed, hr, hremoved⟩ := exists_of_number hgiven.1
  obtain ⟨dropped, hd, hdropped⟩ := exists_of_number hgiven.2
  obtain ⟨old, ho, hold⟩ := exists_of_number hlater.1
  obtain ⟨new, hn, hnew⟩ := exists_of_number hlater.2
  obtain ⟨-, -, hspared⟩ := stays_hidden_or_forgotten hc []
  obtain ⟨hhidden, hforgotten, -⟩ := stays_hidden_or_forgotten hc' after
  obtain ⟨k, e', read, rfl, -, rfl, -, hmade⟩ := hforgotten 2 4 "u/y" dropped new hinvalidate hd
    (by rw [hrequests]; rfl) hfresh.2 hn
  obtain ⟨rfl, -⟩ := Prod.mk.inj hdropped
  obtain ⟨rfl, -⟩ := Prod.mk.inj hnew
  cases removed with
  | engine => cases hremoved
  | changed n =>
    obtain ⟨rfl, -⟩ := Prod.mk.inj hremoved
    cases old with
    | changed => cases hold
    | engine old read =>
      obtain ⟨rfl, -⟩ := Prod.mk.inj hold
      refine ⟨requests, early, late, after, c, c', e, e', old, hc, he, ?_, hc', hremove, hr, hinvalidate,
        hd, ho, fun b => ?_, hn, hmade⟩
      · refine (hspared 1 "s" "u/y" e hremove he).resolve_right ?_
        rw [show Catalog.splitName "u/y" = some ("u", "y") by decide]
        simp
      · exact hhidden 1 3 "s" "y" _ b hremove hr (by rw [hrequests]; rfl) hfresh.1

end Stencil.SharedFolder
