import Stencil.Proofs.Catalog.Folder
import Stencil.Proofs.Files.Listing

/-!
# What can be reached in a folder

A catalog of a folder lists the directories in it that are shown. It reads a set by joining the name to
the path of the folder, and a template by joining two names, so it reaches whatever those paths lead to.
`reachable_iff` says how far the two agree: what is reached is listed if its name is one that a set can
be listed under, that is, a name without a slash that does not begin with a dot. Other spellings reach
sets that are hidden by a dot, sets that were removed, and files beside the folder.
-/

namespace Stencil

namespace Folder

variable {f : Folder} {fs : Files} {v : Files × NameSet} {w : World} {set template name text : String}
  {sets names : List String} {b : Bundle}

/-- A name that a set can be listed under. -/
structure IsSetName (set : String) : Prop where
  ne_empty : set ≠ ""
  slash : '/' ∉ set.toList
  dot : set.toList.head? ≠ some '.'

instance (set : String) : Decidable (IsSetName set) :=
  decidable_of_iff (set ≠ "" ∧ '/' ∉ set.toList ∧ set.toList.head? ≠ some '.')
    ⟨fun ⟨h₁, h₂, h₃⟩ => ⟨h₁, h₂, h₃⟩, fun ⟨h₁, h₂, h₃⟩ => ⟨h₁, h₂, h₃⟩⟩

/-! ### Sets -/

theorem mem_shownSets_iff (h : f.shownSets v = .ok sets) : set ∈ sets ↔
    ∃ entries, v.1.readDirectory f.root = .ok entries ∧ (set, .directory) ∈ entries ∧
      set.toList.head? ≠ some '.' ∧ f.shows v.2 set = true := by
  rw [shownSets] at h
  rcases hr : v.1.readDirectory f.root with e | entries <;> simp only [hr] at h
  · split at h <;> cases h
    simp
  · cases h
    simp [isListed, and_assoc]

/-- What a set that is shown is listed under. -/
theorem isSetName_of_mem (hfs : v.1.Sound) (h : f.shownSets v = .ok sets) (hset : set ∈ sets) :
    f.root ≠ "" ∧ IsSetName set := by
  obtain ⟨entries, hr, hmem, hdot, -⟩ := (mem_shownSets_iff h).1 hset
  have hname := hfs.isName_of_listed hr hmem
  refine ⟨?_, hname.ne_empty, hname.slash, hdot⟩
  intro hroot
  rw [hroot] at hr
  cases hr

theorem IsSetName.ne_dot (h : IsSetName set) : set ≠ "." := by
  rintro rfl
  exact h.dot rfl

theorem IsSetName.ne_dots (h : IsSetName set) : set ≠ ".." := by
  rintro rfl
  exact h.dot rfl

/-- A directory that is reached under the name of a set is shown. -/
theorem exists_mem_shownSets (hl : ∀ p, v.1.placeOf f.root = .ok p → v.1.Lists p)
    (hroot : f.root ≠ "") (hname : IsSetName set) (hshows : f.shows v.2 set = true) {q : Place}
    (hq : v.1.placeOf (f.directory set) = .ok q) (hdir : v.1.at? q = some .directory) :
    ∃ sets, f.shownSets v = .ok sets ∧ set ∈ sets := by
  obtain ⟨p, hp, ha, rfl⟩ :=
    Files.placeOf_of_join hroot hname.ne_empty hname.slash hname.ne_dot hname.ne_dots hq
  have hr := Files.readDirectory_of_placeOf hp ha
  refine ⟨_, by rw [shownSets, hr], ?_⟩
  have hn : set ∈ v.1.namesIn p := hl p hp set (by rw [hdir]; exact Option.some_ne_none _)
  exact (mem_shownSets_iff (by rw [shownSets, hr])).2
    ⟨_, hr, Files.mem_readDirectory hr hp hn hdir, hname.dot, hshows⟩

/-- A set that can be read is listed if its name is one of a set. -/
theorem shownSet_listed_iff (hfs : v.1.Sound) (hl : ∀ p, v.1.placeOf f.root = .ok p → v.1.Lists p)
    (hb : f.shownSet set v = .ok b) :
    (∃ sets, f.shownSets v = .ok sets ∧ set ∈ sets) ↔ f.root ≠ "" ∧ IsSetName set := by
  constructor
  · rintro ⟨sets, hsets, hset⟩
    exact isSetName_of_mem hfs hsets hset
  · rintro ⟨hroot, hname⟩
    rw [shownSet] at hb
    split at hb
    · rename_i hcond
      obtain ⟨hshows, -⟩ := Bool.and_eq_true_iff.1 hcond
      rcases hr : v.1.readDirectory (f.directory set) with e | entries
      · simp [readSet, hr] at hb
      · obtain ⟨q, hq, ha, -⟩ := Files.of_readDirectory_eq_ok hr
        exact exists_mem_shownSets hl hroot hname hshows hq ha
    · cases hb

/-! ### Templates -/

theorem mem_names_insert {m : NameMap String} {other : String}
    (h : other = name ∨ other ∈ NameMap.names m) (text : String) :
    other ∈ NameMap.names (NameMap.insert m name text) := by
  rw [NameMap.mem_names_iff] at h ⊢
  simp only [NameMap.get?_insert]
  by_cases ho : other = name
  · exact ⟨text, if_pos ho⟩
  · simpa [ho] using h

/-- A file that is added leaves the templates that were there. -/
theorem mem_names_addFile {d : String} {b b' : Bundle} {entry : String × Entry}
    (h : addFile fs d b entry = .ok b') {stem : String} (hs : stem ∈ NameMap.names b.templates) :
    stem ∈ NameMap.names b'.templates := by
  obtain ⟨n, e⟩ := entry
  rcases e with _ | bytes
  · cases h
    exact hs
  rcases hse : Path.stemAndExtension n with ⟨other, _ | extension⟩ <;> simp only [addFile, hse] at h
  · cases h
    exact hs
  split at h
  · rcases hr : fs.readText (Path.join d n) with e | text <;> simp only [hr] at h
    · cases h
    split at h
    · cases h
      exact mem_names_insert (.inr hs) text
    · cases h
      exact hs
  · cases h
    exact hs

/-- A template file that is added is a template of the set. -/
theorem mem_names_addFile_self {d stem : String} {b b' : Bundle} {bytes : List UInt8}
    (hs : stem ≠ "") (h : addFile fs d b (stem ++ "." ++ templateExtension, .file bytes) = .ok b') :
    stem ∈ NameMap.names b'.templates := by
  have hext : '.' ∉ templateExtension.toList := by decide
  simp only [addFile, Path.stemAndExtension_append hs hext] at h
  rcases hr : fs.readText (Path.join d (stem ++ "." ++ templateExtension)) with e | text <;>
    simp only [hr] at h
  · cases h
  · cases h
    exact mem_names_insert (.inl rfl) text

/-- The template files of a directory are the templates of its set. -/
theorem mem_names_foldlM {d stem : String} {entries : List (String × Entry)} {b b' : Bundle}
    (hs : stem ≠ "") (hf : entries.foldlM (addFile fs d) b = .ok b')
    (h : stem ∈ NameMap.names b.templates ∨
      ∃ bytes, (stem ++ "." ++ templateExtension, .file bytes) ∈ entries) :
    stem ∈ NameMap.names b'.templates := by
  induction entries generalizing b with
  | nil =>
    cases hf
    exact h.resolve_right fun ⟨bytes, hmem⟩ => absurd hmem List.not_mem_nil
  | cons x rest ih =>
    rw [List.foldlM_cons] at hf
    obtain ⟨c, hc, hrest⟩ := bind_eq_ok_iff.1 hf
    refine ih hrest ?_
    rcases h with h | ⟨bytes, hmem⟩
    · exact .inl (mem_names_addFile hc h)
    · rcases List.mem_cons.1 hmem with rfl | hmem
      · exact .inl (mem_names_addFile_self hs hc)
      · exact .inr ⟨bytes, hmem⟩

theorem mem_names_readSet {d stem : String} {entries : List (String × Entry)} {bytes : List UInt8}
    (hs : stem ≠ "") (hb : readSet fs set d = .ok b) (hr : fs.readDirectory d = .ok entries)
    (hmem : (stem ++ "." ++ templateExtension, .file bytes) ∈ entries) :
    stem ∈ NameMap.names b.templates := by
  rw [readSet, hr] at hb
  obtain ⟨c, hc, rfl⟩ := map_eq_ok hb
  have hnames := mem_names_foldlM hs hc (.inr ⟨bytes, hmem⟩)
  exact hnames

/-- The full names of the templates of all sets that are shown. -/
def shownNames (f : Folder) (v : Files × NameSet) : Except Fault (List String) := do
  let names ← (← f.shownSets v).mapM fun set => (f.shownSet set v).map (Catalog.fullNames set)
  return names.flatten

theorem result_listTemplates (f : Folder) (w : World) :
    Op.result f.listTemplates w = (f.shownNames (seen w), w) := by
  have hload (set : String) : Op.result (do return Catalog.fullNames set (← f.loadSet set)) w =
      ((f.shownSet set (seen w)).map (Catalog.fullNames set), w) :=
    Op.result_bind_same (g := fun b => .ok (Catalog.fullNames set b)) (result_loadSet f set w)
      fun b => rfl
  exact Op.result_bind_same (result_visibleSets f w) fun sets =>
    Op.result_bind_same (Op.result_mapM_same hload sets) fun names => rfl

/-- A name is listed if it is put together from a set that is shown and a template of it. -/
theorem of_shownNames (h : f.shownNames v = .ok names) : ∃ sets, f.shownSets v = .ok sets ∧
    (∀ set ∈ sets, ∃ b, f.shownSet set v = .ok b) ∧
      ∀ name, name ∈ names ↔ ∃ set ∈ sets, ∃ b, f.shownSet set v = .ok b ∧
        ∃ template ∈ NameMap.names b.templates, Catalog.fullName set template = name := by
  rw [shownNames, bind_eq_ok_iff] at h
  obtain ⟨sets, hsets, h⟩ := h
  obtain ⟨lists, hlists, h⟩ := bind_eq_ok_iff.1 h
  obtain rfl : lists.flatten = names := Except.ok.inj h
  exact ⟨sets, hsets, Catalog.mem_flatten_fullNames hlists⟩

theorem readSet_of_shownSet (h : f.shownSet set v = .ok b) :
    f.shows v.2 set = true ∧ readSet v.1 set (f.directory set) = .ok b := by
  rw [shownSet] at h
  split at h
  · rename_i hcond
    exact ⟨(Bool.and_eq_true_iff.1 hcond).1, h⟩
  · cases h

theorem not_ok_failNotFound (f : Folder) (name : String) (w : World) (text : String) :
    (Op.result (f.failNotFound name) w).1 ≠ .ok text := by
  rw [failNotFound, Op.result_bind]
  rcases Op.result f.listTemplates w with ⟨e | names, w'⟩
  · exact fun h => nomatch h
  · exact fun h => nomatch h

/-- A template is found if its name can be taken apart, its set is not hidden, and its path leads to a
text. -/
theorem readTemplate_ok_iff : (Op.result (f.readTemplate name) w).1 = .ok text ↔
    ∃ set template, Catalog.splitName name = some (set, template) ∧
      f.shows w.2.removed set = true ∧
        w.1.readText (Path.join (f.directory set) (template ++ "." ++ templateExtension)) = .ok text := by
  constructor
  · intro h
    rw [readTemplate_eq, Op.result_bind_of_ok (Op.result_get w), readTemplateAt] at h
    cases hpath : f.templatePath (seen w).2 name with
    | none =>
      simp only [hpath] at h
      exact absurd h (not_ok_failNotFound f name w text)
    | some path =>
      simp only [hpath] at h
      obtain ⟨set, template, hsplit, hshows, rfl⟩ := templatePath_eq_some_iff.1 hpath
      refine ⟨set, template, hsplit, hshows, ?_⟩
      rcases hread : (seen w).1.readText (Path.join (f.directory set)
        (template ++ "." ++ templateExtension)) with e | text' <;> simp only [hread] at h
      · split at h
        · exact absurd h (not_ok_failNotFound f name w text)
        · cases h
      · cases h
        exact hread
  · rintro ⟨set, template, hsplit, hshows, hread⟩
    rw [result_readTemplate hsplit hshows hread]

/-- The name of a template file is not a short one. -/
theorem templateFile_ne (template : String) {short : String} (h : short.length < 4) :
    template ++ "." ++ templateExtension ≠ short := by
  rintro rfl
  rw [String.length_append, String.length_append] at h
  have hdot : ".".length = 1 := rfl
  have hext : templateExtension.length = 3 := rfl
  omega

theorem slash_templateFile (h : '/' ∉ template.toList) :
    '/' ∉ (template ++ "." ++ templateExtension).toList := by
  have hend : '/' ∉ ("." ++ templateExtension).toList := by decide
  rw [String.append_assoc, String.toList_append, List.mem_append, not_or]
  exact ⟨h, hend⟩

/-- A template that is found is listed if the name of its set is one of a set. -/
theorem text_listed_iff (hfs : v.1.Sound) (hl : ∀ p, v.1.placeOf f.root = .ok p → v.1.Lists p)
    (hsplit : Catalog.splitName name = some (set, template)) (hshows : f.shows v.2 set = true)
    (ht : v.1.readText (Path.join (f.directory set) (template ++ "." ++ templateExtension)) = .ok text)
    (hnames : f.shownNames v = .ok names) : name ∈ names ↔ f.root ≠ "" ∧ IsSetName set := by
  obtain ⟨sets, hsets, hload, hmem⟩ := of_shownNames hnames
  obtain ⟨rfl, ⟨hs, hslash⟩, ht0, htslash⟩ := Catalog.splitName_eq_some_iff.1 hsplit
  rw [hmem]
  constructor
  · rintro ⟨set', hset', b, hb, template', ht', hfull⟩
    obtain ⟨rfl, -⟩ := Catalog.fullName_inj (hfull ▸ hsplit)
    exact isSetName_of_mem hfs hsets hset'
  · rintro ⟨hroot, hname⟩
    obtain ⟨bytes, hbytes⟩ : ∃ bytes, v.1.readBytes
        (Path.join (f.directory set) (template ++ "." ++ templateExtension)) = .ok bytes := by
      rw [Files.readText] at ht
      rcases hr : v.1.readBytes _ with e | bytes
      · simp [hr] at ht
      · exact ⟨bytes, rfl⟩
    obtain ⟨rest, hrest⟩ := Path.exists_join (n := set) hroot hname.slash
    have hd : f.directory set ≠ "" := by
      rw [directory, hrest]
      exact fun he => hroot (String.append_eq_empty_iff.1 he).1
    obtain ⟨q, entries, hq, hdir, hr, hfile⟩ := Files.mem_of_readBytes_join hd
      (templateFile_ne template (by decide)) (slash_templateFile htslash)
      (templateFile_ne template (by decide)) (templateFile_ne template (by decide)) hbytes
    obtain ⟨sets', hsets', hset⟩ := exists_mem_shownSets hl hroot hname hshows hq hdir
    obtain rfl : sets' = sets := Except.ok.inj (hsets'.symm.trans hsets)
    obtain ⟨b, hb⟩ := hload set hset
    exact ⟨set, hset, b, hb, template, mem_names_readSet ht0 (readSet_of_shownSet hb).2 hr hfile, rfl⟩

/-! ### What the catalog keeps -/

/-- The catalog finds a template, when the files and the hidden sets are these. -/
def Finds (f : Folder) (v : Files × NameSet) (name : String) : Prop :=
  ∃ set template text, Catalog.splitName name = some (set, template) ∧ f.shows v.2 set = true ∧
    v.1.readText (Path.join (f.directory set) (template ++ "." ++ templateExtension)) = .ok text

theorem finds_iff : f.Finds (seen w) name ↔ ∃ text, (Op.result (f.readTemplate name) w).1 = .ok text := by
  simp only [readTemplate_ok_iff]
  constructor
  · rintro ⟨set, template, text, h⟩
    exact ⟨text, set, template, h⟩
  · rintro ⟨text, set, template, h⟩
    exact ⟨set, template, text, h⟩

/-- Every compiled template is one that is found. -/
def Backed (f : Folder) (w : World) : Prop :=
  w.2.workshop.engines.Holds fun name _ => f.Finds (seen w) name

/-- The compiled templates that the catalog keeps. -/
abbrev engines : Lens World (Cache Engine) := workshopLens.comp Workshop.enginesLens

/-- The files, the hidden sets and the compiled templates are the same. -/
def SameBeside (w w' : World) : Prop :=
  seen w' = seen w ∧ w'.2.workshop.engines = w.2.workshop.engines

theorem leaves_fragments (w : World) : (Workshop.fragments workshopLens f.loadFragments).Leaves w
    (fun _ => SameBeside w) (SameBeside w) := by
  rw [Op.Leaves, Workshop.fragments, Op.result_bind_of_ok (Op.result_get w)]
  rcases hc : (workshopLens.get w).fragments? (workshopLens.get w).current with _ | fragments
  · simp only [hc]
    have hload := result_eq (looks_loadFragments (f := f)) w
    rcases hr : Op.result f.loadFragments w with ⟨e | fragments, w'⟩ <;> rw [hr] at hload <;>
      obtain rfl : w' = w := (Prod.mk.inj hload).2
    · rw [Op.result_bind_of_error hr]
      exact ⟨rfl, rfl⟩
    · rw [Op.result_bind_of_ok hr]
      exact ⟨rfl, rfl⟩
  · simp only [hc]
    exact ⟨rfl, rfl⟩

/-- A template that is compiled is found. -/
theorem leaves_compile (name : String) (w : World) : Op.Leaves (do
      let text ← f.readTemplate name
      let fragments ← Workshop.fragments workshopLens f.loadFragments
      Op.ofExcept (Engine.compile name text fragments)) w
    (fun _ w' => SameBeside w w' ∧ f.Finds (seen w) name) (SameBeside w) := by
  have hread := result_eq (looks_readTemplate (f := f) name) w
  have hfinds : f.Finds (seen w) name ↔ _ := finds_iff
  rcases hr : Op.result (f.readTemplate name) w with ⟨e | text, w'⟩ <;> rw [hr] at hread hfinds <;>
    obtain rfl : w' = w := (Prod.mk.inj hread).2
  · rw [Op.Leaves, Op.result_bind_of_error hr]
    exact ⟨rfl, rfl⟩
  · rw [Op.Leaves, Op.result_bind_of_ok hr, ← Op.Leaves]
    refine (leaves_fragments w').bind fun fragments u hu => ?_
    cases Engine.compile name text fragments with
    | error e => exact hu
    | ok engine => exact ⟨hu, hfinds.2 ⟨text, rfl⟩⟩

/-- A fetch goes through the cache, and what it makes is found. -/
theorem exists_fetch (f : Folder) (name : String) : ∃ make, f.catalog.fetch name =
    Cache.fetch engines name make ∧ ∀ w, make.Leaves w
      (fun _ w' => SameBeside w w' ∧ f.Finds (seen w) name) (SameBeside w) :=
  ⟨_, rfl, leaves_compile name⟩

/-- A fetch keeps the catalog backed, and what it gives is found. -/
theorem Backed.fetch (h : f.Backed w) (name : String) : (f.catalog.fetch name).Leaves w
    (fun _ w' => seen w' = seen w ∧ f.Backed w' ∧ f.Finds (seen w) name)
    (fun w' => seen w' = seen w ∧ f.Backed w') := by
  obtain ⟨make, hfetch, hmake⟩ := exists_fetch f name
  rw [hfetch]
  by_cases hn : name = ""
  · subst hn
    exact ⟨rfl, h⟩
  rcases hs : w.2.workshop.engines.slot? name with _ | slot
  · have hmade := hmake (engines.set (w.2.workshop.engines.opened name) w)
    rw [Op.Leaves] at hmade ⊢
    rcases hr : Op.result make (engines.set (w.2.workshop.engines.opened name) w)
      with ⟨e | engine, w'⟩ <;> rw [hr] at hmade <;> rw [Cache.result_fetch_miss hn hs hr]
    · obtain ⟨hseen, hopen⟩ := hmade
      refine ⟨hseen, ?_⟩
      show Cache.Holds (fun name _ => f.Finds (seen w') name) (w'.2.workshop.engines.discard name _)
      rw [hopen, hseen]
      exact h.discard_opened hs
    · obtain ⟨⟨hseen, hopen⟩, hfinds⟩ := hmade
      refine ⟨hseen, ?_, hfinds⟩
      show Cache.Holds (fun name _ => f.Finds (seen w') name) (w'.2.workshop.engines.fill _ engine)
      rw [hopen, hseen]
      exact h.fill_opened hs hfinds
  · obtain ⟨engine, hv, hfinds⟩ := Cache.Holds.of_slot h hs
    rw [Op.Leaves, Cache.result_fetch_hit hn hs hv]
    exact ⟨rfl, h, hfinds⟩

theorem shows_insert_of_ne {removed : NameSet} {other : String} (h : other ≠ set) :
    f.shows (NameSet.insert removed set) other = f.shows removed other := by
  have hmem : other ∈ NameSet.insert removed set ↔ other ∈ removed := by
    simp [NameSet.mem_insert_iff, h]
  simp [shows, hmem]

/-- What is found under a name of another set is found when a set is hidden. -/
theorem Finds.hide (h : f.Finds v name) (hset : Workshop.belongsTo set name = false) :
    f.Finds (v.1, NameSet.insert v.2 set) name := by
  obtain ⟨other, template, text, hsplit, hshows, hread⟩ := h
  refine ⟨other, template, text, hsplit, ?_, hread⟩
  rw [shows_insert_of_ne, hshows]
  rintro rfl
  rw [(Workshop.belongsTo_iff hsplit).2 rfl] at hset
  cases hset

theorem Backed.hide (h : f.Backed w) (set : String) : f.Backed (Op.result (hide set) w).2 := by
  show Cache.Holds _ (w.2.workshop.invalidateSet set).engines
  rw [Workshop.engines_invalidateSet]
  intro p hp
  obtain ⟨hmem, hset⟩ := List.mem_filter.1 hp
  obtain ⟨engine, hv, hfinds⟩ := h p hmem
  exact ⟨engine, hv, hfinds.hide (by simpa using hset)⟩

/-- The state after a request, whether it succeeds or fails. -/
def after (f : Folder) (w : World) (r : Request) : World := (Op.result (f.perform r) w).2

/-- The state after requests. -/
def run (f : Folder) (w : World) (requests : List Request) : World := requests.foldl f.after w

/-- A request leaves the files as they are and keeps the catalog backed. -/
theorem Backed.after (h : f.Backed w) (r : Request) :
    (f.after w r).1 = w.1 ∧ f.Backed (f.after w r) := by
  cases r with
  | fetch name =>
    have hfetch := h.fetch name
    rw [Op.Leaves] at hfetch
    rcases hr : Op.result (f.catalog.fetch name) w with ⟨e | engine, w'⟩ <;> rw [hr] at hfetch
    · rw [Folder.after, perform, Op.result_bind_of_error hr]
      exact ⟨(Prod.mk.inj hfetch.1).1, hfetch.2⟩
    · rw [Folder.after, perform, Op.result_bind_of_ok hr]
      exact ⟨(Prod.mk.inj hfetch.1).1, hfetch.2.1⟩
  | remove set =>
    have hsets := result_visibleSets f w
    rw [Folder.after, show f.perform (.remove set) = f.visibleSets >>= fun sets =>
      if sets.contains set then Folder.hide set else Op.fail (.setNotFound set) from rfl]
    rcases hr : f.shownSets (seen w) with e | sets <;> rw [hr] at hsets
    · rw [Op.result_bind_of_error hsets]
      exact ⟨rfl, h⟩
    · rw [Op.result_bind_of_ok hsets]
      split
      · exact ⟨rfl, h.hide set⟩
      · exact ⟨rfl, h⟩
  | invalidate => exact ⟨rfl, Cache.holds_of_entries_eq_nil rfl⟩

theorem Backed.run (h : f.Backed w) (requests : List Request) :
    (f.run w requests).1 = w.1 ∧ f.Backed (f.run w requests) := by
  induction requests generalizing w with
  | nil => exact ⟨rfl, h⟩
  | cons r rest ih =>
    obtain ⟨hfiles, hback⟩ := h.after r
    obtain ⟨hfiles', hback'⟩ := ih hback
    exact ⟨hfiles'.trans hfiles, hback'⟩

/-! ### What is reached -/

/-- **What a catalog of a folder reaches**, after any requests. A set that it reads is one that it lists
if and only if the path of the folder is not empty and the name is one that a set can be listed under. A
template that it fetches is found, and one that is found is listed under the same condition on the
name of its set. -/
theorem reachable_iff (hfs : fs.Sound) (hl : ∀ p, fs.placeOf f.root = .ok p → fs.Lists p)
    {limit : Nat} {requests : List Request} (hw : f.run (fs, start limit) requests = w) :
    (∀ set b, (Op.result (f.catalog.setData set) w).1 = .ok b →
      ((∃ sets, (Op.result f.catalog.listSets w).1 = .ok sets ∧ set ∈ sets) ↔
        f.root ≠ "" ∧ IsSetName set)) ∧
    (∀ name engine, (Op.result (f.catalog.fetch name) w).1 = .ok engine →
      ∃ text, (Op.result (f.readTemplate name) w).1 = .ok text) ∧
    ∀ name text, (Op.result (f.readTemplate name) w).1 = .ok text →
      ∃ set template, Catalog.splitName name = some (set, template) ∧
        ∀ names, (Op.result f.catalog.list w).1 = .ok names →
          (name ∈ names ↔ f.root ≠ "" ∧ IsSetName set) := by
  have hstart : f.Backed (fs, start limit) := Cache.holds_of_entries_eq_nil rfl
  obtain ⟨rfl, hback⟩ : w.1 = fs ∧ f.Backed w := hw ▸ hstart.run requests
  refine ⟨fun set b hb => ?_, fun name engine he => ?_, fun name text ht => ?_⟩
  · rw [show (Op.result (f.catalog.setData set) w).1 = f.shownSet set (seen w) from
      congrArg Prod.fst (result_loadSet f set w)] at hb
    rw [show (Op.result f.catalog.listSets w).1 = f.shownSets (seen w) from
      congrArg Prod.fst (result_visibleSets f w)]
    exact shownSet_listed_iff (v := seen w) hfs hl hb
  · have hfetch := hback.fetch name
    rw [Op.Leaves] at hfetch
    rcases hr : Op.result (f.catalog.fetch name) w with ⟨e | engine', w'⟩ <;> rw [hr] at hfetch he
    · cases he
    · exact finds_iff.1 hfetch.2.2
  · obtain ⟨set, template, hsplit, hshows, hread⟩ := readTemplate_ok_iff.1 ht
    refine ⟨set, template, hsplit, fun names hnames => ?_⟩
    rw [show (Op.result f.catalog.list w).1 = f.shownNames (seen w) from
      congrArg Prod.fst (result_listTemplates f w)] at hnames
    exact text_listed_iff (v := seen w) hfs hl hsplit hshows hread hnames

/-- A hidden directory and a set. -/
def hiddenTree : Files :=
  ⟨[(["work", "t"], .directory), (["work", "t", ".git"], .directory),
    (["work", "t", ".git", "x.mst"], .file (Text.bytes "[]")), (["work", "t", "s"], .directory),
    (["work", "t", "s", "y.mst"], .file (Text.bytes "[]"))], ["work"]⟩

/-- A template in the hidden directory is fetched, and the set is read after it was removed, with a
slash behind its name. Neither is listed. -/
theorem reachable_iff_hiddenTree : ∃ w : World,
    (⟨"t", none⟩ : Folder).run (hiddenTree, start 1) [.remove "s"] = w ∧
    (∃ b, (Op.result ((⟨"t", none⟩ : Folder).catalog.setData "s/") w).1 = .ok b) ∧
    (¬ ∃ sets, (Op.result (⟨"t", none⟩ : Folder).catalog.listSets w).1 = .ok sets ∧ "s/" ∈ sets) ∧
    (∃ engine, (Op.result ((⟨"t", none⟩ : Folder).catalog.fetch ".git/x") w).1 = .ok engine) ∧
    ∃ names, (Op.result (⟨"t", none⟩ : Folder).catalog.list w).1 = .ok names ∧ ".git/x" ∉ names := by
  have hfs : hiddenTree.Sound := by decide +kernel
  have hl : ∀ p, hiddenTree.placeOf "t" = .ok p → hiddenTree.Lists p := by
    intro p hp
    have hplace : hiddenTree.placeOf "t" = .ok ["work", "t"] := by decide +kernel
    obtain rfl : ["work", "t"] = p := Except.ok.inj (hplace.symm.trans hp)
    exact Files.lists_of_not_above fun n h => by simpa [hiddenTree] using h.length_le
  obtain ⟨w, hw⟩ : ∃ w, (⟨"t", none⟩ : Folder).run (hiddenTree, start 1) [.remove "s"] = w := ⟨_, rfl⟩
  obtain ⟨hset, hfetch, htext⟩ := reachable_iff (f := ⟨"t", none⟩) hfs hl hw
  have hdata : (Op.result ((⟨"t", none⟩ : Folder).catalog.setData "s/") w).1.toOption.isSome := by
    subst hw
    decide +kernel
  have hengine : (Op.result ((⟨"t", none⟩ : Folder).catalog.fetch ".git/x") w).1.toOption.isSome := by
    subst hw
    decide +kernel
  have hlist : (Op.result (⟨"t", none⟩ : Folder).catalog.list w).1 = .ok [] := by
    subst hw
    decide +kernel
  obtain ⟨b, hb⟩ := exists_of_isSome hdata
  obtain ⟨engine, he⟩ := exists_of_isSome hengine
  obtain ⟨text, ht⟩ := hfetch ".git/x" engine he
  obtain ⟨set, template, hsplit, hnames⟩ := htext ".git/x" text ht
  obtain rfl : ".git" = set := by
    rw [show Catalog.splitName ".git/x" = some (".git", "x") from by decide] at hsplit
    exact (Prod.mk.inj (Option.some.inj hsplit)).1
  refine ⟨w, hw, ⟨b, hb⟩, ?_, ⟨engine, he⟩, [], hlist, ?_⟩
  · rw [hset "s/" b hb]
    exact fun h => h.2.slash (by decide)
  · rw [hnames [] hlist]
    exact fun h => h.2.dot (by decide)

end Folder

end Stencil
