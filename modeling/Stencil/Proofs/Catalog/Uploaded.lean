import Stencil.Proofs.Catalog.ContentHash
import Stencil.Proofs.Catalog.Offers
import Stencil.Session

/-!
# A folder and the store that it is uploaded to

When every set of a folder has been uploaded to an empty store in memory, the catalog of the store answers
like the catalog of the folder, in whatever order templates are fetched from the two. Uploading fails
only where a set cannot be read: not for a tree of texts, unless its paths are too long for the system.
-/

namespace Stencil

/-- Reads every set that a catalog lists, and uploads it. -/
def StoredSets.uploadAll {σ : Type} (c : StoredSets σ) (source : Catalog σ) : Op σ Unit := do
  forM (← source.listSets) fun set => do c.upload (← source.setData set)

/-- The state after a template was fetched from one of two catalogs, whatever came of it. -/
def Catalog.ask {σ : Type} (a b : Catalog σ) (s : σ) (asked : Bool × String) : σ :=
  (Op.result ((if asked.1 then a else b).fetch asked.2) s).2

/-- The name of a set that is shown is the one it is asked for. -/
theorem Folder.name_of_shownSet {f : Folder} {v : Files × NameSet} {set : String} {b : Bundle}
    (hfs : v.1.Sound) (h : f.shownSet set v = .ok b) : b.name = set := by
  rw [shownSet] at h
  split at h
  · rw [(readSet_eq_ok hfs h).2]
    rfl
  · cases h

/-- Sets that can be read are sets of certain names. -/
theorem Folder.exists_bundles {f : Folder} {v : Files × NameSet} {sets : List String} (hfs : v.1.Sound)
    (hread : ∀ set ∈ sets, ∃ b, f.shownSet set v = .ok b) :
    ∃ bundles : List Bundle, sets = bundles.map (·.name) ∧
      ∀ b ∈ bundles, f.shownSet b.name v = .ok b := by
  induction sets with
  | nil => exact ⟨[], rfl, fun b hb => absurd hb List.not_mem_nil⟩
  | cons set rest ih =>
    obtain ⟨b, hb⟩ := hread set List.mem_cons_self
    obtain ⟨more, rfl, hmore⟩ := ih fun c hc => hread c (List.mem_cons_of_mem _ hc)
    obtain rfl : b.name = set := name_of_shownSet hfs hb
    refine ⟨b :: more, rfl, fun c hc => ?_⟩
    rcases List.mem_cons.1 hc with rfl | hc
    · exact hb
    · exact hmore c hc

namespace Session

variable {τ : Type} {f : Folder} {known : KnownHashes} {bundles : List Bundle} {s : Session τ}

/-- A catalog of a folder, in which some sets are hidden, and one of an empty store in memory. Nothing
has been compiled yet. -/
def beside (files : Files) (removed : NameSet) (appliance : τ) (folderLimit storedLimit : Nat) :
    Session τ :=
  { start files appliance folderLimit storedLimit with folder := ⟨removed, Workshop.empty folderLimit⟩ }

/-- The sets of the store in memory. -/
def setsInMemory (known : KnownHashes) : StoredSets (Session τ) := setsOf memoryStore known

/-- What the catalog of the folder works on. -/
def world (s : Session τ) : Folder.World := (s.files, s.folder)

/-- The values of sets under their names. -/
def values (bundles : List Bundle) : NameMap Json := bundles.map fun b => (b.name, b.toJson)

theorem sorted_values (h : (bundles.map (·.name)).Pairwise (· < ·)) : (values bundles).Sorted :=
  List.pairwise_map.2 (List.pairwise_map.1 h)

theorem lawful_memoryPart : (memoryPart : Lens (Session τ) (NameMap Json)).Lawful :=
  ⟨fun _ _ => rfl, fun _ _ _ => rfl, fun _ => rfl⟩

/-- The catalog of the store reads the memory. -/
theorem reads_memory (known : KnownHashes) :
    (setsInMemory known : StoredSets (Session τ)).Reads (·.memory) where
  lawful := ⟨fun _ _ => rfl, fun _ _ _ => rfl, fun _ => rfl⟩
  view_set _ _ := rfl
  keys := Store.readsFrom_memory.keys.zoom lawful_memoryPart fun _ _ => rfl
  get key := (Store.readsFrom_memory.get key).zoom lawful_memoryPart fun _ _ => rfl

/-- It leaves the files and the other catalog alone. -/
theorem reads_setsInMemory (known : KnownHashes) :
    (setsInMemory known : StoredSets (Session τ)).Reads fun s => (s.memory, s.files, s.folder) where
  lawful := ⟨fun _ _ => rfl, fun _ _ _ => rfl, fun _ => rfl⟩
  view_set _ _ := rfl
  keys := by
    have hkeys : (Store.memory.keys.zoom (memoryPart : Lens (Session τ) _)).Looks (·.memory)
        fun s => ((s.files, s.folder), s.stored) :=
      Store.readsFrom_memory.keys.zoom lawful_memoryPart fun _ _ => rfl
    exact hkeys.beside
  get key := by
    have hget : ((Store.memory.get key).zoom (memoryPart : Lens (Session τ) _)).Looks (·.memory)
        fun s => ((s.files, s.folder), s.stored) :=
      (Store.readsFrom_memory.get key).zoom lawful_memoryPart fun _ _ => rfl
    exact hget.beside

/-! ### Uploading -/

/-- The session with other values in the store, and another workshop for it. -/
def stocked (s : Session τ) (m : NameMap Json) (w : Workshop) : Session τ :=
  { s with memory := m, stored := w }

/-- Reading a set from the folder. -/
theorem result_setData (f : Folder) (set : String) (s : Session τ) :
    Op.result ((folderCatalog f).setData set) s = (f.shownSet set (Folder.seen (world s)), s) := by
  show Op.result ((f.loadSet set).zoom (filesPart.both folderPart)) s = _
  rw [Op.result_zoom, show (filesPart.both folderPart).get s = world s from rfl, Folder.result_loadSet]
  rfl

theorem result_upload {b : Bundle} (hb : b.name ≠ "") (s : Session τ) :
    Op.result ((setsInMemory known).upload b) s =
      (.ok (), s.stocked (NameMap.insert s.memory b.name b.toJson) s.stored.reload) := by
  have hset : Op.result (memoryStore.set b.name b.toJson) s =
      (.ok ⟨⟩, s.stocked (NameMap.insert s.memory b.name b.toJson) s.stored) := by
    show Op.result ((Store.memory.set b.name b.toJson).zoom memoryPart) s = _
    rw [Op.result_zoom, Store.result_memory_set hb]
    rfl
  exact Op.result_bind_of_ok hset

/-- Reading a set from the folder and uploading it. -/
def copy (f : Folder) (known : KnownHashes) (set : String) : Op (Session τ) Unit := do
  (setsInMemory known).upload (← (folderCatalog f).setData set)

theorem result_copy {set : String} {b : Bundle} (hr : f.shownSet set (Folder.seen (world s)) = .ok b)
    (hb : b.name ≠ "") : Op.result (copy f known set) s =
      (.ok (), s.stocked (NameMap.insert s.memory b.name b.toJson) s.stored.reload) := by
  have hdata := result_setData f set s
  rw [hr] at hdata
  rw [copy, Op.result_bind_of_ok hdata, result_upload hb]

/-- The workshop agrees with every store. -/
def Fresh (τ : Type) (known : KnownHashes) (w : Workshop) : Prop := ∀ t : Session τ,
  Workshop.Coherent (setsInMemory known).readTemplate (setsInMemory known).loadFragments t w

/-- Sets that can be read are put into the store, one after another. -/
theorem result_copies (known : KnownHashes)
    (hread : ∀ b ∈ bundles, f.shownSet b.name (Folder.seen (world s)) = .ok b)
    (hn : ∀ b ∈ bundles, b.name ≠ "") (hw : Fresh τ known s.stored) :
    ∃ w, Fresh τ known w ∧ Op.result (forM (bundles.map (·.name)) (copy f known)) s = (.ok (),
      s.stocked ((values bundles).foldl (fun m p => NameMap.insert m p.1 p.2) s.memory) w) := by
  induction bundles generalizing s with
  | nil => exact ⟨s.stored, hw, rfl⟩
  | cons b rest ih =>
    obtain ⟨w, hw', hrest⟩ := ih
      (s := s.stocked (NameMap.insert s.memory b.name b.toJson) s.stored.reload)
      (fun c hc => hread c (List.mem_cons_of_mem _ hc)) (fun c hc => hn c (List.mem_cons_of_mem _ hc))
      fun _ => Workshop.coherent_reload _
    refine ⟨w, hw', ?_⟩
    rw [List.map_cons, List.forM_cons, Op.result_bind_of_ok
      (result_copy (hread b List.mem_cons_self) (hn b List.mem_cons_self)), hrest]
    rfl

/-- Sets that were put into the store could be read. -/
theorem exists_of_copies {sets : List String} (hfs : s.files.Sound) (hn : ∀ set ∈ sets, set ≠ "")
    (h : (Op.result (forM sets (copy f known)) s).1 = .ok ()) :
    ∀ set ∈ sets, ∃ b, f.shownSet set (Folder.seen (world s)) = .ok b := by
  induction sets generalizing s with
  | nil => exact fun set hset => absurd hset List.not_mem_nil
  | cons set rest ih =>
    rcases hr : f.shownSet set (Folder.seen (world s)) with e | b
    · have hcopy : Op.result (copy f known set) s = (.error e, s) := by
        have hdata := result_setData f set s
        rw [hr] at hdata
        exact Op.result_bind_of_error hdata
      rw [List.forM_cons, Op.result_bind_of_error hcopy] at h
      cases h
    · obtain rfl : b.name = set := Folder.name_of_shownSet hfs hr
      rw [List.forM_cons, Op.result_bind_of_ok (result_copy hr (hn _ List.mem_cons_self))] at h
      have hrest := ih (s := s.stocked (NameMap.insert s.memory b.name b.toJson) s.stored.reload) hfs
        (fun c hc => hn c (List.mem_cons_of_mem _ hc)) h
      intro c hc
      rcases List.mem_cons.1 hc with rfl | hc
      · exact ⟨b, hr⟩
      · exact hrest c hc

/-! ### Fetching from both -/

/-- Both catalogs hold the sets, and what they have compiled agrees with them. -/
structure Stocked (f : Folder) (known : KnownHashes) (bundles : List Bundle) (s : Session τ) : Prop where
  sound : s.files.Sound
  shown : f.shownSets (Folder.seen (world s)) = .ok (bundles.map (·.name))
  read : ∀ b ∈ bundles, f.shownSet b.name (Folder.seen (world s)) = .ok b
  memory : s.memory = values bundles
  folder : Workshop.Coherent f.readTemplate f.loadFragments (world s) s.folder.workshop
  stored : (setsInMemory known).CoherentAt s

theorem Stocked.ask (h : Stocked f known bundles s) (asked : Bool × String) :
    Stocked f known bundles (Catalog.ask (folderCatalog f) (setsInMemory known).catalog s asked) := by
  obtain ⟨side, name⟩ := asked
  cases side with
  | true =>
    obtain ⟨w, hw, hseen, hc⟩ := Workshop.result_build (Folder.sees f) h.folder name
    have hs' : Catalog.ask (folderCatalog f) (setsInMemory known).catalog s (true, name) =
        { s with files := w.1, folder := w.2 } := by
      show (filesPart.both folderPart).set
        (Op.result (Workshop.build Folder.workshopLens name (f.readTemplate name) f.loadFragments)
          (world s)).2 s = _
      rw [hw]
      rfl
    have hfiles : w.1 = s.files := congrArg Prod.fst hseen
    rw [hs']
    refine ⟨hfiles ▸ h.sound, ?_, ?_, h.memory, hc.of_view_eq (Folder.sees f) hseen.symm, ?_⟩
    · show f.shownSets (Folder.seen w) = _
      rw [hseen]
      exact h.shown
    · intro b hb
      show f.shownSet b.name (Folder.seen w) = _
      rw [hseen]
      exact h.read b hb
    · exact Workshop.Coherent.of_view_eq (reads_memory known).sees h.stored rfl
  | false =>
    obtain ⟨s', hs', hview, hc⟩ := (reads_setsInMemory known).result_fetch h.stored name
    have hask : Catalog.ask (folderCatalog f) (setsInMemory known).catalog s (false, name) = s' :=
      congrArg Prod.snd hs'
    obtain ⟨hmemory, hrest⟩ := Prod.mk.inj hview
    have hworld : world s' = world s := hrest
    rw [hask]
    refine ⟨?_, ?_, ?_, hmemory.trans h.memory, ?_, hc⟩
    · rw [show s'.files = s.files from congrArg Prod.fst hrest]
      exact h.sound
    · rw [hworld]
      exact h.shown
    · rw [hworld]
      exact h.read
    · rw [hworld, show s'.folder = s.folder from congrArg Prod.snd hrest]
      exact h.folder

theorem Stocked.asks (h : Stocked f known bundles s) (asked : List (Bool × String)) :
    Stocked f known bundles
      (asked.foldl (Catalog.ask (folderCatalog f) (setsInMemory known).catalog) s) := by
  induction asked generalizing s with
  | nil => exact h
  | cons p rest ih => exact ih (h.ask p)

/-- Both catalogs offer the sets. -/
theorem Stocked.offers (h : Stocked f known bundles s) :
    (folderCatalog f).Offers s bundles ∧ (setsInMemory known).catalog.Offers s bundles := by
  obtain ⟨hn, hfolder⟩ := Folder.offers (w := world s) h.sound h.shown h.read h.folder
  refine ⟨hfolder.lift rfl, ?_⟩
  have hsorted : (bundles.map (·.name)).Pairwise (· < ·) := Folder.shownSets_pairwise h.shown
  refine (setsInMemory known).offers (reads_memory known) hn hsorted ?_ (fun b hb => ?_) h.stored
  · show Op.result (Store.memory.keys.zoom memoryPart) s = _
    rw [Op.result_zoom]
    show (Except.ok (NameMap.names s.memory), _) = _
    rw [h.memory, NameMap.names, values, List.map_map]
    rfl
  · show Op.result ((Store.memory.get b.name).zoom memoryPart) s = _
    rw [Op.result_zoom]
    simp only [Store.memory]
    rw [Op.result_bind_of_ok (Op.result_requireKey "key" (hn b hb).name_ne _)]
    show (Except.ok (NameMap.get? s.memory b.name), _) = _
    rw [h.memory, NameMap.get?_of_mem (sorted_values hsorted) (List.mem_map_of_mem (f := fun b => (b.name, b.toJson)) hb)]
    rfl

/-- No set is newer in the folder. -/
theorem Stocked.result_status (h : Stocked f known bundles s) {b : Bundle} (hb : b ∈ bundles) :
    (Op.result ((setsInMemory known).status b.name (some (folderCatalog f))) s).1 =
      .ok ⟨b.name, b.hash, known.supports b.name b.hash, false⟩ := by
  obtain ⟨hfolder, hstored⟩ := h.offers
  have hhas : Op.result (f.catalog.hasSet b.name) (world s) = (.ok true, world s) := by
    show Op.result (do return (← f.visibleSets).contains b.name) (world s) = _
    rw [Op.result_bind_of_ok ((Folder.result_visibleSets f (world s)).trans (by rw [h.shown]))]
    rw [List.contains_iff_mem.2 (List.mem_map_of_mem hb)]
    rfl
  have hshown : Op.result ((folderCatalog f).hasSet b.name) s = (.ok true, s) := by
    show Op.result ((f.catalog.hasSet b.name).zoom (filesPart.both folderPart)) s = _
    rw [Op.result_zoom, show (filesPart.both folderPart).get s = world s from rfl, hhas]
    rfl
  rw [StoredSets.result_status _ (hstored.setData b hb) hshown (hfolder.setData b hb),
    bne_self_eq_false]
  rfl

/-! ### From the folder to the store -/

theorem result_listSets (f : Folder) (s : Session τ) :
    Op.result (folderCatalog f).listSets s = (f.shownSets (Folder.seen (world s)), s) := by
  show Op.result (f.visibleSets.zoom (filesPart.both folderPart)) s = _
  rw [Op.result_zoom, show (filesPart.both folderPart).get s = world s from rfl,
    Folder.result_visibleSets]
  rfl

theorem result_uploadAll {sets : List String}
    (hs : f.shownSets (Folder.seen (world s)) = .ok sets) :
    Op.result ((setsInMemory known).uploadAll (folderCatalog f)) s =
      Op.result (forM sets (copy f known)) s := by
  have hlist := result_listSets f s
  rw [hs] at hlist
  exact Op.result_bind_of_ok hlist

variable {files : Files} {removed : NameSet} {appliance : τ} {m n : Nat} {t u : Session τ}

theorem name_ne_of_shownSets (hfs : files.Sound) {v : NameSet} {sets : List String}
    (hs : f.shownSets (files, v) = .ok sets) : ∀ set ∈ sets, set ≠ "" := fun _ hset =>
  let ⟨_, hr, hmem, _⟩ := Folder.exists_of_shownSets hs hset
  (hfs.isName_of_listed hr hmem).ne_empty

/-- After everything was uploaded to an empty store, both catalogs hold the same sets. -/
theorem exists_stocked (hfs : files.Sound)
    (h : Op.result ((setsInMemory known).uploadAll (folderCatalog f))
      (beside files removed appliance m n) = (.ok (), t)) : ∃ bundles, Stocked f known bundles t := by
  rcases hs : f.shownSets (files, removed) with e | sets
  · have hlist := result_listSets f (beside files removed appliance m n)
    rw [show Folder.seen (world (beside files removed appliance m n)) = (files, removed) from rfl,
      hs] at hlist
    rw [StoredSets.uploadAll, Op.result_bind_of_error hlist] at h
    cases h
  · rw [result_uploadAll (show f.shownSets (Folder.seen (world (beside _ _ _ _ _))) = _ from hs)] at h
    have hne := name_ne_of_shownSets hfs hs
    obtain ⟨bundles, rfl, hread⟩ := Folder.exists_bundles hfs
      (exists_of_copies (s := beside files removed appliance m n) hfs hne (congrArg Prod.fst h))
    obtain ⟨w, hw, hres⟩ := result_copies known hread (fun b hb => hne _ (List.mem_map_of_mem hb))
      fun _ => Workshop.coherent_empty n
    have hvalues : (values bundles).foldl (fun m p => NameMap.insert m p.1 p.2) [] = values bundles :=
      NameMap.ofList_of_sorted (sorted_values (Folder.shownSets_pairwise hs))
    obtain rfl : t = (beside files removed appliance m n).stocked (values bundles) w := by
      rw [hres] at h
      rw [← (Prod.mk.inj h).2]
      exact congrArg (stocked _ · w) hvalues
    exact ⟨bundles, hfs, hs, hread, rfl, Workshop.coherent_empty m, hw _⟩

/-- A sound tree of texts can be uploaded, if the path of the folder is short enough. -/
theorem result_uploadAll_ok (known : KnownHashes) (appliance : τ) (m n : Nat) (hfs : files.Sound)
    (ht : ∀ x ∈ files.entries, Folder.IsText x.2)
    (hl : f.root.utf8ByteSize + 512 < 4096) {sets : List String}
    (hs : f.shownSets (files, removed) = .ok sets) :
    (Op.result ((setsInMemory known).uploadAll (folderCatalog f))
      (beside files removed appliance m n)).1 = .ok () := by
  have hread : ∀ set ∈ sets, ∃ b, f.shownSet set (files, removed) = .ok b := fun set hset => by
    obtain ⟨entries, hr, hmem, hshows⟩ := Folder.exists_of_shownSets hs hset
    obtain ⟨hdir, b, hb⟩ := Folder.exists_readSet hfs ht hl hr hmem
    exact ⟨b, (if_pos (Bool.and_eq_true_iff.2 ⟨hshows, hdir⟩)).trans hb⟩
  obtain ⟨bundles, rfl, hbundles⟩ := Folder.exists_bundles (v := (files, removed)) hfs hread
  have hne := name_ne_of_shownSets hfs hs
  obtain ⟨w, -, hres⟩ := result_copies (s := beside files removed appliance m n) known
    hbundles (fun b hb => hne _ (List.mem_map_of_mem hb)) fun _ => Workshop.coherent_empty n
  rw [result_uploadAll (show f.shownSets (Folder.seen (world (beside _ _ _ _ _))) = _ from hs), hres]

/-- **Uploading a folder is faithful.** Every set of a folder is read and uploaded to an empty store in
memory; this succeeds for a tree of texts whose sets can be listed, if the path of the folder is short
enough for two more names. Whatever is fetched from the two catalogs afterwards, and in whatever order:
both list the same sets and templates, a template is the same compiled template in both or fails with
the same failure, and for no set does the folder have an update. -/
theorem answers_uploaded (hfs : files.Sound) (f : Folder) (known : KnownHashes) (removed : NameSet)
    (appliance : τ) (m n : Nat) :
    ((∀ x ∈ files.entries, Folder.IsText x.2) → f.root.utf8ByteSize + 512 < 4096 →
      (∃ sets, (Op.result (folderCatalog f).listSets (beside files removed appliance m n)).1 =
        .ok sets) →
      ∃ t, Op.result ((setsInMemory known).uploadAll (folderCatalog f))
        (beside files removed appliance m n) = (.ok (), t)) ∧
    ∀ t, Op.result ((setsInMemory known).uploadAll (folderCatalog f))
        (beside files removed appliance m n) = (.ok (), t) →
      ∀ (asked : List (Bool × String)) (u : Session τ),
        asked.foldl (Catalog.ask (folderCatalog f) (setsInMemory known).catalog) t = u →
      ∃ sets names,
        (Op.result (folderCatalog f).listSets u).1 = .ok sets ∧
        (Op.result (setsInMemory known).catalog.listSets u).1 = .ok sets ∧
        (Op.result (folderCatalog f).list u).1 = .ok names ∧
        (Op.result (setsInMemory known).catalog.list u).1 = .ok names ∧
        (∀ name ∈ names, (Op.result ((folderCatalog f).fetch name) u).1 =
          (Op.result ((setsInMemory known).catalog.fetch name) u).1) ∧
        ∀ set ∈ sets, ∃ status, (Op.result ((setsInMemory known).status set (some (folderCatalog f)))
          u).1 = .ok status ∧ status.name = set ∧ status.updateAvailable = false := by
  constructor
  · rintro ht hl ⟨sets, hsets⟩
    rw [result_listSets] at hsets
    have hok := result_uploadAll_ok known appliance m n hfs ht hl hsets
    exact ⟨_, Prod.ext hok rfl⟩
  · rintro t ht asked u rfl
    obtain ⟨bundles, hstocked⟩ := exists_stocked hfs ht
    have hu := hstocked.asks asked
    obtain ⟨hfolder, hstored⟩ := hu.offers
    refine ⟨_, _, hfolder.listSets, hstored.listSets, hfolder.list, hstored.list, ?_, ?_⟩
    · intro name hname
      obtain ⟨names, hnames, hin⟩ := List.mem_flatten.1 hname
      obtain ⟨b, hb, rfl⟩ := List.mem_map.1 hnames
      obtain ⟨template, htemplate, rfl⟩ := List.mem_map.1 hin
      obtain ⟨p, hp, rfl⟩ := List.mem_map.1 htemplate
      rw [hfolder.fetch b hb p hp, hstored.fetch b hb p hp]
    · intro set hset
      obtain ⟨b, hb, rfl⟩ := List.mem_map.1 hset
      exact ⟨_, hu.result_status hb, rfl, rfl⟩

/-- Two sets, one of which refers to a schema file of the other, and a hidden directory beside them. -/
def smallTree : Files :=
  ⟨[(["work", "t"], .directory), (["work", "t", ".git"], .directory),
    (["work", "t", "a"], .directory), (["work", "t", "a", "x.mst"], .file (Text.bytes "\x7b\x7bp:s:f\x7d\x7d")),
    (["work", "t", "b"], .directory), (["work", "t", "b", "y.mst"], .file (Text.bytes "[]")),
    (["work", "t", "b", "s.json"], .file (Text.bytes "\x7b\"f\": \x7b\x7d\x7d"))], ["work"]⟩

/-- The small tree, fetched from both sides after it was uploaded. -/
theorem answers_uploaded_smallTree : ∃ t u : Session Unit,
    Op.result ((setsInMemory .empty).uploadAll (folderCatalog ⟨"t", none⟩))
      (beside smallTree [] () 1 1) = (.ok (), t) ∧
    [(false, "b/y"), (true, "a/x")].foldl
      (Catalog.ask (folderCatalog ⟨"t", none⟩) (setsInMemory .empty).catalog) t = u ∧
    ∃ sets names,
      (Op.result (folderCatalog ⟨"t", none⟩).listSets u).1 = .ok sets ∧
      (Op.result (setsInMemory .empty).catalog.listSets u).1 = .ok sets ∧
      (Op.result (folderCatalog ⟨"t", none⟩).list u).1 = .ok names ∧
      (Op.result (setsInMemory .empty).catalog.list u).1 = .ok names ∧
      (∀ name ∈ names, (Op.result ((folderCatalog ⟨"t", none⟩).fetch name) u).1 =
        (Op.result ((setsInMemory .empty).catalog.fetch name) u).1) ∧
      ∀ set ∈ sets, ∃ status, (Op.result ((setsInMemory .empty).status set
        (some (folderCatalog ⟨"t", none⟩))) u).1 = .ok status ∧ status.name = set ∧
          status.updateAvailable = false := by
  have hfs : smallTree.Sound := by decide +kernel
  have htext : ∀ x ∈ smallTree.entries, Folder.IsText x.2 := by decide +kernel
  obtain ⟨hok, hanswers⟩ := answers_uploaded hfs ⟨"t", none⟩ .empty [] () 1 1
  have hsets : (Op.result (folderCatalog ⟨"t", none⟩).listSets (beside smallTree [] () 1 1)).1 =
      .ok ["a", "b"] := by decide +kernel
  obtain ⟨t, ht⟩ := hok htext (by decide) ⟨_, hsets⟩
  exact ⟨t, _, ht, rfl, hanswers t ht _ _ rfl⟩

end Session

end Stencil
