import Stencil.Catalog.Folder
import Stencil.Proofs.Catalog.Coherence
import Stencil.Proofs.Catalog.Names
import Stencil.Proofs.Except
import Stencil.Proofs.Files.Paths
import Stencil.Proofs.NameMap

/-!
# What the catalog of a folder reads

A set that is read from a directory holds, under the stem of each template file, the text that the path
of the template leads to (`readSet_eq_ok`). So a template is the same whether it is looked up in its set
or read by its name. The other way round, a directory of texts can be read (`exists_readSet`).
-/

namespace Stencil

/-! ### Sets in directories -/

namespace Folder

variable {fs : Files} {d set : String} {entries : List (String × Entry)} {b : Bundle}

/-- The texts of a set are in order; the path of each template leads to its text, and the name of the
template can be found in a full name again. -/
structure Holds (fs : Files) (directory : String) (b : Bundle) : Prop where
  templates_sorted : b.templates.Sorted
  schemas_sorted : b.schemas.Sorted
  text : ∀ p ∈ b.templates, p.1 ≠ "" ∧ '/' ∉ p.1.toList ∧
    fs.readText (Path.join directory (p.1 ++ "." ++ templateExtension)) = .ok p.2

theorem Holds.addFile {b' : Bundle} {entry : String × Entry} (h : Holds fs d b)
    (hslash : '/' ∉ entry.1.toList) (ha : addFile fs d b entry = .ok b') : Holds fs d b' := by
  obtain ⟨name, e⟩ := entry
  rcases e with _ | bytes
  · cases ha
    exact h
  rcases hse : Path.stemAndExtension name with ⟨stem, _ | extension⟩ <;>
    simp only [Folder.addFile, hse] at ha
  · cases ha
    exact h
  split at ha
  · rcases hr : fs.readText (Path.join d name) with e | text <;> simp only [hr] at ha
    · cases ha
    split at ha
    · rename_i hext
      cases ha
      obtain ⟨hname, hne⟩ := Path.stemAndExtension_eq hse
      refine ⟨NameMap.sorted_insert h.templates_sorted _ _, h.schemas_sorted, fun p hp => ?_⟩
      rcases NameMap.mem_insert hp with rfl | hp
      · refine ⟨hne, fun hmem => hslash ?_, ?_⟩
        · rw [hname, String.toList_append, String.toList_append]
          exact List.mem_append_left _ (List.mem_append_left _ hmem)
        · rw [← hext, ← hname]
          exact hr
      · exact h.text p hp
    · cases ha
      exact ⟨h.templates_sorted, NameMap.sorted_insert h.schemas_sorted _ _, h.text⟩
  · cases ha
    exact h

theorem Holds.foldlM_addFile {b' : Bundle} (hslash : ∀ x ∈ entries, '/' ∉ x.1.toList)
    (h : Holds fs d b) (hf : entries.foldlM (Folder.addFile fs d) b = .ok b') : Holds fs d b' := by
  induction entries generalizing b with
  | nil =>
    cases hf
    exact h
  | cons x rest ih =>
    rw [List.foldlM_cons] at hf
    obtain ⟨c, hc, hrest⟩ := bind_eq_ok_iff.1 hf
    exact ih (fun y hy => hslash y (List.mem_cons_of_mem _ hy))
      (h.addFile (hslash x List.mem_cons_self) hc) hrest

/-- **A set that is read holds the texts that its paths lead to**, under its own name and with the hash
of its content. -/
theorem readSet_eq_ok (hfs : fs.Sound) (h : readSet fs set d = .ok b) :
    Holds fs d b ∧ b = Bundle.build set b.templates b.schemas := by
  rw [readSet] at h
  rcases hr : fs.readDirectory d with e | entries <;> simp only [hr] at h
  · cases h
  · obtain ⟨c, hc, rfl⟩ := map_eq_ok h
    have hslash : ∀ x ∈ entries, '/' ∉ x.1.toList := fun x hx =>
      (hfs.isName_of_listed hr hx).slash
    have hstart : Holds fs d ⟨set, "", [], []⟩ :=
      ⟨List.Pairwise.nil, List.Pairwise.nil, fun p hp => absurd hp List.not_mem_nil⟩
    have hholds := hstart.foldlM_addFile hslash hc
    exact ⟨⟨hholds.templates_sorted, hholds.schemas_sorted, hholds.text⟩, rfl⟩

/-! ### Directories that can be read -/

/-- What the entry holds is text, if it is a file. -/
def IsText : Entry → Prop
  | .directory => True
  | .file bytes => (Text.ofBytes? bytes).isSome

instance : DecidablePred IsText := fun
  | .directory => inferInstanceAs (Decidable True)
  | .file bytes => inferInstanceAs (Decidable ((Text.ofBytes? bytes).isSome = true))

theorem exists_addFile {entry : String × Entry} (b : Bundle)
    (h : ∀ bytes, entry.2 = .file bytes → ∃ text, fs.readText (Path.join d entry.1) = .ok text) :
    ∃ b', addFile fs d b entry = .ok b' := by
  obtain ⟨name, e⟩ := entry
  rcases e with _ | bytes
  · exact ⟨b, rfl⟩
  obtain ⟨text, ht⟩ := h bytes rfl
  simp only [addFile, ht]
  split
  · split
    · split <;> exact ⟨_, rfl⟩
    · exact ⟨b, rfl⟩
  · exact ⟨b, rfl⟩

theorem exists_foldlM_addFile (b : Bundle)
    (h : ∀ x ∈ entries, ∀ bytes, x.2 = .file bytes →
      ∃ text, fs.readText (Path.join d x.1) = .ok text) :
    ∃ b', entries.foldlM (addFile fs d) b = .ok b' := by
  induction entries generalizing b with
  | nil => exact ⟨b, rfl⟩
  | cons x rest ih =>
    obtain ⟨c, hc⟩ := exists_addFile b (h x List.mem_cons_self)
    obtain ⟨b', hb'⟩ := ih c fun y hy => h y (List.mem_cons_of_mem _ hy)
    refine ⟨b', ?_⟩
    rw [List.foldlM_cons, hc]
    exact hb'

/-- A set that a sound folder of texts lists can be read, if the path of the folder is short enough for
two more names. -/
theorem exists_readSet {root : String} (hfs : fs.Sound) (ht : ∀ x ∈ fs.entries, IsText x.2)
    (hl : root.utf8ByteSize + 512 < 4096) (hr : fs.readDirectory root = .ok entries)
    (he : (set, .directory) ∈ entries) :
    fs.isDirectory (Path.join root set) = true ∧ ∃ b, readSet fs set (Path.join root set) = .ok b := by
  have hset := (hfs.isName_of_listed hr he).short
  have hjoin := Path.utf8ByteSize_join_le root set
  have hlookup : fs.lookup (Path.join root set) = .ok .directory :=
    Files.lookup_join hfs hr he (by omega)
  obtain ⟨listed, hlisted⟩ := Files.exists_readDirectory hlookup
  refine ⟨by rw [Files.isDirectory, hlookup], ?_⟩
  have hread : ∀ x ∈ listed, ∀ bytes, x.2 = .file bytes →
      ∃ text, fs.readText (Path.join (Path.join root set) x.1) = .ok text := by
    rintro ⟨n, e⟩ hx bytes rfl
    have hn := (hfs.isName_of_listed hlisted hx).short
    have hjoin' := Path.utf8ByteSize_join_le (Path.join root set) n
    obtain ⟨q, hq⟩ := Files.exists_mem_of_listed hlisted hx
    obtain ⟨text, htext⟩ := Option.isSome_iff_exists.1 (ht _ hq)
    refine ⟨text, ?_⟩
    rw [Files.readText, Files.readBytes, Files.lookup_join hfs hlisted hx (by omega)]
    simp only [htext]
  obtain ⟨b, hb⟩ := exists_foldlM_addFile ⟨set, "", [], []⟩ hread
  refine ⟨Bundle.build set b.templates b.schemas, ?_⟩
  rw [readSet, hlisted]
  simp only [hb]
  rfl

/-! ### The catalog looks at its files -/

variable {f : Folder} {w : World} {sets : List String}

/-- What the catalog reads: the files, and the names of the sets that were removed. -/
def seen (w : World) : Files × NameSet := (w.1, w.2.removed)

/-- The sets that are shown. -/
def shownSets (f : Folder) (v : Files × NameSet) : Except Fault (List String) :=
  match v.1.readDirectory f.root with
  | .ok entries => .ok ((entries.filter (f.isListed v.2)).map (·.1))
  | .error e =>
    if e.isMissing then .ok []
    else .error (.context ("Failed to read templates directory: " ++ f.root) (.io e))

/-- The set of a name, if it is shown. -/
def shownSet (f : Folder) (set : String) (v : Files × NameSet) : Except Fault Bundle :=
  if f.shows v.2 set && v.1.isDirectory (f.directory set) then readSet v.1 set (f.directory set)
  else .error (.problem (.setNotFound set))

theorem result_visibleSets (f : Folder) (w : World) :
    Op.result f.visibleSets w = (f.shownSets (seen w), w) := by
  show Op.result (match w.1.readDirectory f.root with
    | .ok entries => (pure ((entries.filter (f.isListed w.2.removed)).map (·.1)) : Op World _)
    | .error e => if e.isMissing then pure []
      else throw (.context ("Failed to read templates directory: " ++ f.root) (.io e))) w = _
  simp only [shownSets, seen]
  split
  · rfl
  · split <;> rfl

theorem result_loadSet (f : Folder) (set : String) (w : World) :
    Op.result (f.loadSet set) w = (f.shownSet set (seen w), w) := by
  show Op.result (if f.shows (seen w).2 set && (seen w).1.isDirectory (f.directory set) then
      Op.ofExcept (readSet (seen w).1 set (f.directory set))
    else (Op.fail (.setNotFound set) : Op World Bundle)) w = _
  rw [shownSet]
  split
  · cases readSet (seen w).1 set (f.directory set) <;> rfl
  · rfl

/-- A set that is shown is a directory in the folder. -/
theorem exists_of_shownSets {v : Files × NameSet} (h : f.shownSets v = .ok sets) (hset : set ∈ sets) :
    ∃ entries, v.1.readDirectory f.root = .ok entries ∧ (set, .directory) ∈ entries ∧
      f.shows v.2 set = true := by
  rw [shownSets] at h
  rcases hr : v.1.readDirectory f.root with e | entries <;> simp only [hr] at h
  · split at h <;> cases h
    exact absurd hset List.not_mem_nil
  · cases h
    obtain ⟨⟨name, e⟩, hmem, rfl⟩ := List.mem_map.1 hset
    obtain ⟨hentry, hlisted⟩ := List.mem_filter.1 hmem
    rw [isListed, Bool.and_eq_true, Bool.and_eq_true, beq_iff_eq] at hlisted
    obtain ⟨⟨rfl, -⟩, hshows⟩ := hlisted
    exact ⟨entries, rfl, hentry, hshows⟩

/-- The sets are shown in order. -/
theorem shownSets_pairwise {v : Files × NameSet} (h : f.shownSets v = .ok sets) :
    sets.Pairwise (· < ·) := by
  rw [shownSets] at h
  rcases hr : v.1.readDirectory f.root with e | entries <;> simp only [hr] at h
  · split at h <;> cases h
    exact List.Pairwise.nil
  · cases h
    exact (Files.listed_pairwise hr).sublist (List.filter_sublist.map _)

/-- What is read as the text of a template, when the files and the hidden sets are these. -/
def readTemplateAt (f : Folder) (name : String) (v : Files × NameSet) : Op World String :=
  match f.templatePath v.2 name with
  | none => f.failNotFound name
  | some path =>
    match v.1.readText path with
    | .ok text => pure text
    | .error e =>
      if e.isMissing then f.failNotFound name
      else throw (.context ("Failed to read template: " ++ path) (.io e))

theorem readTemplate_eq (f : Folder) (name : String) :
    f.readTemplate name = MonadState.get >>= fun w => f.readTemplateAt name (seen w) := rfl

/-- Which names have a path. -/
theorem templatePath_eq_some_iff {removed : NameSet} {name path : String} :
    f.templatePath removed name = some path ↔ ∃ set template,
      Catalog.splitName name = some (set, template) ∧ f.shows removed set = true ∧
        Path.join (f.directory set) (template ++ "." ++ templateExtension) = path := by
  rw [templatePath, Option.map_eq_some_iff]
  simp only [Option.filter_eq_some_iff, Prod.exists, and_assoc]

/-- The text of a template of a set that is shown. -/
theorem result_readTemplate {name template text : String}
    (hname : Catalog.splitName name = some (set, template)) (hs : f.shows w.2.removed set = true)
    (ht : w.1.readText (Path.join (f.directory set) (template ++ "." ++ templateExtension)) =
      .ok text) : Op.result (f.readTemplate name) w = (.ok text, w) := by
  have hpath : f.templatePath w.2.removed name =
      some (Path.join (f.directory set) (template ++ "." ++ templateExtension)) :=
    templatePath_eq_some_iff.2 ⟨set, template, hname, hs, rfl⟩
  rw [readTemplate_eq, Op.result_bind_of_ok (Op.result_get w), readTemplateAt,
    show f.templatePath (seen w).2 name = _ from hpath]
  simp only [show (seen w).1.readText _ = _ from ht]
  rfl

theorem looks_visibleSets : f.visibleSets.Looks seen workshopLens.get :=
  Op.looks_of_result (result_visibleSets f)

theorem looks_loadSet (set : String) : (f.loadSet set).Looks seen workshopLens.get :=
  Op.looks_of_result (result_loadSet f set)

theorem looks_loadFragments : f.loadFragments.Looks seen workshopLens.get :=
  looks_visibleSets.bind fun sets =>
    (Op.looks_mapM looks_loadSet sets).bind fun _ => Op.looks_ofExcept _

theorem looks_listTemplates : f.listTemplates.Looks seen workshopLens.get :=
  looks_visibleSets.bind fun sets =>
    (Op.looks_mapM (fun set => (looks_loadSet set).bind fun _ => Op.looks_pure _) sets).bind fun _ =>
      Op.looks_pure _

theorem looks_readTemplate (name : String) : (f.readTemplate name).Looks seen workshopLens.get := by
  have hnot : (f.failNotFound name).Looks seen workshopLens.get :=
    looks_listTemplates.bind fun _ => Op.looks_fail _
  rw [readTemplate_eq]
  refine Op.looks_get_bind fun v => ?_
  unfold readTemplateAt
  split
  · exact hnot
  · split
    · exact Op.looks_pure _
    · split
      · exact hnot
      · exact Op.looks_ofExcept (.error _)

theorem sees (f : Folder) : Workshop.Sees workshopLens seen f.readTemplate f.loadFragments :=
  ⟨⟨fun _ _ => rfl, fun _ _ _ => rfl, fun _ => rfl⟩, fun _ _ => rfl, looks_readTemplate,
    looks_loadFragments⟩

/-- What only looks at the files leaves the catalog as it is. -/
theorem result_eq {α : Type} {op : Op World α} (h : op.Looks seen workshopLens.get) (w : World) :
    Op.result op w = ((Op.result op w).1, w) :=
  h.result_eq (fun ⟨fs, st⟩ ⟨fs', st'⟩ hs hw => by
    obtain ⟨rfl, hremoved⟩ := Prod.mk.inj hs
    obtain ⟨removed, workshop⟩ := st
    obtain ⟨removed', workshop'⟩ := st'
    obtain rfl : removed = removed' := hremoved
    obtain rfl : workshop = workshop' := hw
    rfl) w

end Folder

end Stencil
