import Stencil.Proofs.Catalog.Alone
import Stencil.Proofs.Catalog.Forgotten

/-!
# A shared folder that is not shared

A request to the shared catalog of a folder that nobody interferes with does what it does on a catalog of
its own: if no fetch and no load is under way, its task comes to its end and leaves the files and what the
catalog keeps as the operation of the catalog does, with the same result (`SharedFolder.alone_perform`).
-/

namespace Stencil.SharedFolder

variable {f : Folder} {m l : List Nat} {s : SharedFolder} {α β : Type}

/-- What a catalog of its own would work on. -/
def own (s : SharedFolder) : Folder.World := (s.files, s.kept)

/-- Certain slots and cells are being filled by nobody. -/
def Idle (m l : List Nat) (s : SharedFolder) : Prop := s.making = m ∧ s.loading = l

/-- Alone, with certain slots and cells being filled by nobody, the task does what an operation does. -/
abbrev Carries (m l : List Nat) (t : Task SharedFolder α) (op : Op Folder.World β) (g : α → β) : Prop :=
  t.Carries (Idle m l) own op g

/-! ### Reading -/

theorem alone_lookAt (look : Files → α) (s : SharedFolder) :
    (lookAt look).alone s = some (.ok (look s.files), s) := rfl

theorem alone_lookAtHidden (look : NameSet → α) (s : SharedFolder) :
    (lookAtHidden look).alone s = some (.ok (look s.kept.removed), s) := rfl

theorem alone_visibleSets (s : SharedFolder) :
    (visibleSets f).alone s = some (f.shownSets (Folder.seen s.own), s) := by
  rw [visibleSets, Task.alone_bind_of_ok (alone_lookAt _ s), Folder.shownSets,
    show (Folder.seen s.own).1 = s.files from rfl]
  rcases s.files.readDirectory f.root with e | entries
  · by_cases he : e.isMissing = true <;> simp only [he] <;> rfl
  · have hlisted : (entries.mapM fun entry => do
        return (entry.1, ← lookAtHidden fun removed => f.isListed removed entry)).alone s =
          some (.ok (entries.map fun entry => (entry.1, f.isListed s.kept.removed entry)), s) := by
      rw [Task.alone_mapM_same (g := fun entry =>
        .ok (entry.1, f.isListed s.kept.removed entry)) (fun entry => rfl)]
      exact congrArg (fun x => some (x, s)) List.mapM_pure
    simp only
    rw [Task.alone_bind_of_ok hlisted, List.filter_map, List.map_map]
    rfl

theorem alone_readSet (set directory : String) (s : SharedFolder) :
    (readSet set directory).alone s = some (Folder.readSet s.files set directory, s) := by
  rw [readSet, Task.alone_bind_of_ok (alone_lookAt _ s), Folder.readSet]
  rcases s.files.readDirectory directory with e | entries
  · rfl
  · have hfold := Task.alone_foldlM_same (s := s) (f := fun b entry => do
      let r ← lookAt fun files => Folder.addFile files directory b entry
      Task.ofExcept r) (g := Folder.addFile s.files directory) (fun b entry => rfl) entries
        (⟨set, "", [], []⟩ : Bundle)
    simp only
    exact Task.alone_bind_same hfold fun b => rfl

theorem alone_loadSet (set : String) (s : SharedFolder) :
    (loadSet f set).alone s = some (f.shownSet set (Folder.seen s.own), s) := by
  rw [loadSet, Task.alone_bind_of_ok (alone_lookAtHidden _ s), Folder.shownSet,
    show (Folder.seen s.own).2 = s.kept.removed from rfl,
    show (Folder.seen s.own).1 = s.files from rfl]
  cases f.shows s.kept.removed set with
  | false => rfl
  | true =>
    simp only [if_true, Bool.true_and]
    rw [Task.alone_bind_of_ok (alone_lookAt _ s)]
    cases s.files.isDirectory (f.directory set) with
    | false => rfl
    | true => exact alone_readSet set _ s

theorem carries_visibleSets : Carries m l (visibleSets f) f.visibleSets id :=
  Task.carries_look alone_visibleSets (Folder.result_visibleSets f)

theorem carries_loadSet (set : String) : Carries m l (loadSet f set) (f.loadSet set) id :=
  Task.carries_look (alone_loadSet set) (Folder.result_loadSet f set)

theorem carries_loadFragments : Carries m l (loadFragments f) f.loadFragments id := by
  refine carries_visibleSets.bind fun sets => (Task.carries_mapM carries_loadSet sets).bind
    fun bundles => ?_
  rw [List.map_id]
  exact Task.carries_ofExcept _

theorem carries_listTemplates : Carries m l (listTemplates f) f.listTemplates id := by
  refine carries_visibleSets.bind fun sets => (Task.carries_mapM (g := id) (fun set => ?_) sets).bind
    fun names => Task.carries_pure (by rw [List.map_id]; rfl)
  exact (carries_loadSet set).bind fun b => Task.carries_pure rfl

theorem carries_failNotFound (g : α → String) (name : String) :
    Carries m l (failNotFound f name) (f.failNotFound name) g :=
  carries_listTemplates.bind fun _ => Task.carries_error _ _

theorem carries_readTemplate (name : String) :
    Carries m l (readTemplate f name) (f.readTemplate name) Prod.fst := by
  intro s hs
  rw [readTemplate, Task.alone_bind_of_ok (alone_lookAtHidden _ s), Folder.readTemplate_eq,
    Op.result_bind_of_ok (Op.result_get s.own), Folder.readTemplateAt,
    show (Folder.seen s.own).2 = s.kept.removed from rfl,
    show (Folder.seen s.own).1 = s.files from rfl]
  rcases f.templatePath s.kept.removed name with _ | path
  · exact carries_failNotFound _ name s hs
  have hread : (Task.once do
      let s ← get
      return (s.files.readText path, s.version) : Task SharedFolder _).alone s =
        some (.ok (s.files.readText path, s.version), s) := rfl
  simp only
  rw [Task.alone_bind_of_ok hread]
  rcases s.files.readText path with e | text
  · by_cases he : e.isMissing = true <;> simp only [he]
    · exact carries_failNotFound _ name s hs
    · exact Task.carries_error _ _ s hs
  · exact ⟨.ok (text, s.version), s, rfl, hs, rfl⟩

/-! ### Fetching -/

theorem carries_fragments : Carries m [] (fragments f)
    (Workshop.fragments Folder.workshopLens f.loadFragments) id := by
  have hobtain (n : Nat) : Carries m [] (cells.obtain n (loadFragments f)) (Cells.obtaining
      (fun n t => (Folder.workshopLens.get t).fragments? n)
      (fun n f t => Folder.workshopLens.set ((Folder.workshopLens.get t).fillCell n f) t) n
      f.loadFragments) id := by
    refine cells.carries_obtain (Idle m [n]) (fun s => Option.map_id')
      (fun s hs => ?_) (fun s hs => ⟨⟨hs.1, congrArg (n :: ·) hs.2⟩, rfl⟩)
      (fun s a hs => ⟨⟨hs.1, Cells.erase_of_eq hs.2⟩, rfl⟩)
      (fun s e hs => ⟨⟨hs.1, Cells.erase_of_eq hs.2⟩, rfl⟩) carries_loadFragments
    rw [show cells.busy.get s = [] from hs.2]
    exact List.not_mem_nil
  exact cells.carries_fragments (l := Folder.workshopLens) (fun s => s.workshop.current)
    (fun _ => rfl) hobtain

theorem carries_compile (name : String) : Carries m [] (compile f name) (do
    let text ← f.readTemplate name
    let loaded ← Workshop.fragments Folder.workshopLens f.loadFragments
    Op.ofExcept (Engine.compile name text loaded)) Prod.fst := by
  refine (carries_readTemplate name).bind fun p => carries_fragments.bind fun loaded => ?_
  exact (Task.carries_ofExcept (Engine.compile name p.1 loaded)).map fun _ => rfl

/-- A fetch alone. -/
theorem carries_fetch (name : String) :
    Carries [] [] (fetch f name) (f.catalog.fetch name) Prod.fst := by
  refine slots.carries_fetch (l := Folder.workshopLens.comp Workshop.enginesLens) (fun _ _ => rfl)
    (fun s hs => ?_) (fun n => ?_) (fun n s hs => ?_) (fun _ _ => rfl) (fun _ _ => rfl)
  · exact ⟨_, rfl, hs, rfl⟩
  · refine slots.carries_obtain (Idle [n] []) (fun s => Cells.map_fst_noted _ _)
      (fun s hs => ?_) (fun s hs => ⟨⟨congrArg (n :: ·) hs.1, hs.2⟩, rfl⟩)
      (fun s a hs => ⟨⟨Cells.erase_of_eq hs.1, hs.2⟩, rfl⟩)
      (fun s e hs => ⟨⟨Cells.erase_of_eq hs.1, hs.2⟩, rfl⟩) (carries_compile name)
    rw [show slots.busy.get s = [] from hs.1]
    exact List.not_mem_nil
  · exact ⟨.ok (), _, rfl, hs, rfl⟩

/-! ### All requests -/

theorem carries_change {op : Op Folder.World Unit} {act : Folder.World → Folder.World}
    (h : ∀ w, Op.result op w = (.ok (), act w)) :
    Carries m l (Task.once (change op)) op fun _ => () := fun s hs =>
  ⟨.ok (s.version + 1), s.changed (act s.own), congrArg some (result_change (h s.own)), hs, h s.own⟩

theorem carries_remove (set : String) :
    Carries m l (remove f set) (f.catalog.removeSet set) fun _ => () := by
  refine carries_visibleSets.bind fun sets => ?_
  by_cases hset : sets.contains set = true <;> simp only [id, hset]
  · exact carries_change fun _ => rfl
  · exact Task.carries_error _ _

theorem carries_perform (r : Folder.Request) :
    Carries [] [] (perform f (.ask r)) (f.perform r) fun _ => () := by
  cases r with
  | fetch name => exact (carries_fetch name).bind fun _ => Task.carries_pure rfl
  | remove set => exact (carries_remove set).map fun _ => rfl
  | invalidate => exact (carries_change fun _ => rfl).map fun _ => rfl

/-- **Alone, a task does what the operation does**: if nothing is being made or loaded, the task of a
request comes to its end, succeeds or fails as the request does on a catalog of its own, and leaves the
files and what the catalog keeps as the request leaves them. -/
theorem alone_perform (hm : s.making = []) (hl : s.loading = []) (r : Folder.Request) :
    ∃ a s', (perform f (.ask r)).alone s = some (a, s') ∧ s'.making = [] ∧ s'.loading = [] ∧
      Op.result (f.perform r) s.own = (a.map fun _ => (), s'.own) :=
  let ⟨a, s', ha, ⟨hm', hl'⟩, hop⟩ := carries_perform r s ⟨hm, hl⟩
  ⟨a, s', ha, hm', hl', hop⟩

end Stencil.SharedFolder
