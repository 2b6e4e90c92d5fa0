import Mathlib.Data.List.Basic
import Stencil.Proofs.NameMap
import Stencil.Proofs.Op
import Stencil.Proofs.Record.Listing

/-!
# What the simulated appliance makes of the store's commands

Each command of the store begins with the words of one verb, so it is carried out by that verb, and
the verb reads the collection's path from it. A collection of which neither the folder nor the name
holds a blank, with no slash in the name, can be addressed in this way.
-/

namespace Stencil

open Text

/-! ### Paths -/

/-- The commands of the appliance can address the collection. -/
structure Collection.Plain (c : Collection) : Prop where
  folder_unbroken : Unbroken c.folder.toList
  name_unbroken : Unbroken c.name.toList
  no_slash : '/' ∉ c.name.toList

namespace Collection

variable {c : Collection}

theorem toList_folderPath (c : Collection) :
    c.folderPath.toList = '/' :: (c.folder.toList ++ ['/']) := by
  unfold folderPath
  simp

theorem toList_path (c : Collection) :
    c.path.toList = '/' :: (c.folder.toList ++ '/' :: c.name.toList) := by
  unfold path
  simp

theorem Plain.folderPath_unbroken (h : c.Plain) : Unbroken c.folderPath.toList := by
  have hslash : isBlank '/' = false := by decide
  intro d hd
  rw [toList_folderPath, List.mem_cons, List.mem_append, List.mem_singleton] at hd
  rcases hd with rfl | hd | rfl
  · exact hslash
  · exact h.folder_unbroken d hd
  · exact hslash

theorem Plain.path_unbroken (h : c.Plain) : Unbroken c.path.toList := by
  have hslash : isBlank '/' = false := by decide
  intro d hd
  rw [toList_path, List.mem_cons, List.mem_append, List.mem_cons] at hd
  rcases hd with rfl | hd | rfl | hd
  · exact hslash
  · exact h.folder_unbroken d hd
  · exact hslash
  · exact h.name_unbroken d hd

theorem head?_path (c : Collection) : c.path.toList.head? = some '/' := by
  rw [toList_path]
  rfl

/-- The folder of a collection is found from its path. -/
theorem Plain.folderOf_path (h : c.Plain) : Appliance.folderOf c.path.toList = c.folderPath := by
  have hsplit : c.path.toList.reverse = c.name.toList.reverse ++ c.folderPath.toList.reverse := by
    rw [toList_path, toList_folderPath]
    simp
  have hslash : c.folderPath.toList.reverse.dropWhile (· != '/') = c.folderPath.toList.reverse := by
    rw [toList_folderPath]
    simp
  have hname : ∀ d ∈ c.name.toList.reverse, (d != '/') = true := by
    intro d hd
    rw [bne_iff_ne]
    rintro rfl
    exact h.no_slash (List.mem_reverse.1 hd)
  rw [Appliance.folderOf, hsplit, List.dropWhile_append_of_pos hname, hslash, List.reverse_reverse,
    String.ofList_toList]

/-- The path is the first word of whatever blank-led text stands behind it. -/
theorem Plain.firstWord_path (h : c.Plain) {t : List Char} (ht : ∀ d ∈ t.head?, isBlank d = true) :
    String.ofList (firstWord (c.path.toList ++ t)) = c.path := by
  rw [firstWord_append h.path_unbroken (by rw [toList_path]; simp) ht, String.ofList_toList]

end Collection

namespace Appliance

variable {c : Collection} {a : Appliance} {rs : List Record}

/-! ### Which verb carries out a command -/

theorem carryOut_createFolder (c : Collection) :
    carryOut c.createFolder.toList = createFolder c.createFolder.toList c.folderPath.toList := by
  have h : c.createFolder.toList = "create sys folder ".toList ++ c.folderPath.toList := by
    unfold Collection.createFolder
    rw [String.toList_append]
  rw [carryOut, verbs, List.findSome?_cons, h, after?_append]
  rfl

theorem carryOut_create (c : Collection) :
    carryOut c.create.toList =
      createGroup c.create.toList (c.path.toList ++ " type string".toList) := by
  have h : c.create.toList =
      "create ltm data-group internal ".toList ++ (c.path.toList ++ " type string".toList) := by
    unfold Collection.create
    rw [String.toList_append, String.toList_append, List.append_assoc]
  have hfolder (t : List Char) :
      after? "create sys folder ".toList ("create ltm data-group internal ".toList ++ t) = none := by
    simp [after?]
  rw [carryOut, verbs, List.findSome?_cons, h, hfolder, Option.map_none, List.findSome?_cons,
    after?_append]
  rfl

theorem carryOut_list (c : Collection) :
    carryOut c.list.toList = listGroup c.list.toList c.path.toList := by
  have h : c.list.toList = "list ltm data-group internal ".toList ++ c.path.toList := by
    unfold Collection.list
    rw [String.toList_append]
  have hfolder (t : List Char) :
      after? "create sys folder ".toList ("list ltm data-group internal ".toList ++ t) = none := by
    simp [after?]
  have hgroup (t : List Char) :
      after? "create ltm data-group internal ".toList
        ("list ltm data-group internal ".toList ++ t) = none := by
    simp [after?]
  rw [carryOut, verbs, List.findSome?_cons, h, hfolder, Option.map_none, List.findSome?_cons,
    hgroup, Option.map_none, List.findSome?_cons, after?_append]
  rfl

theorem carryOut_modify (c : Collection) (rs : List Record) :
    carryOut (c.modify rs).toList =
      modifyGroup (c.modify rs).toList
        (c.path.toList ++ (" records ".toList ++ Collection.recordsText rs)) := by
  have h : (c.modify rs).toList = "modify ltm data-group internal ".toList ++
      (c.path.toList ++ (" records ".toList ++ Collection.recordsText rs)) := by
    unfold Collection.modify
    rw [String.toList_ofList, String.toList_append, String.toList_append, List.append_assoc,
      List.append_assoc]
  have hfolder (t : List Char) :
      after? "create sys folder ".toList ("modify ltm data-group internal ".toList ++ t) = none := by
    simp [after?]
  have hgroup (t : List Char) :
      after? "create ltm data-group internal ".toList
        ("modify ltm data-group internal ".toList ++ t) = none := by
    simp [after?]
  have hlist (t : List Char) :
      after? "list ltm data-group internal ".toList
        ("modify ltm data-group internal ".toList ++ t) = none := by
    simp [after?]
  rw [carryOut, verbs, List.findSome?_cons, h, hfolder, Option.map_none, List.findSome?_cons,
    hgroup, Option.map_none, List.findSome?_cons, hlist, Option.map_none, List.findSome?_cons,
    after?_append]
  rfl

/-! ### What the commands do -/

/-- No failure is arranged for the command. -/
def Permits (a : Appliance) (command : String) : Prop :=
  ∀ f ∈ a.failures, ¬ f.1.toList <+: command.toList

theorem permits_of_failures_eq (h : a.failures = []) (command : String) : a.Permits command := by
  intro f hf
  rw [h] at hf
  cases hf

/-- No failure is arranged, and these are the records of the collection, which need not exist yet. -/
structure Holds (c : Collection) (rs : List Record) (a : Appliance) : Prop where
  failures_eq : a.failures = []
  records_eq : a.records c.path = rs

/-- The collection has been created. -/
def HasCollection (c : Collection) (a : Appliance) : Prop := NameMap.has a.groups c.path = true

/-- Something has been created, or was there before. -/
inductive Created : Except Fault String → Prop where
  | now (output : String) : Created (.ok output)
  | before {shown reason : String} (h : occursIn "already exists".toList reason.toList = true) :
    Created (.error (.problem (.commandFailed shown reason)))

theorem Holds.permits (h : a.Holds c rs) (command : String) : a.Permits command :=
  permits_of_failures_eq h.failures_eq command

theorem get?_of_holds (h : a.Holds c rs) (hc : a.HasCollection c) :
    NameMap.get? a.groups c.path = some rs := by
  obtain ⟨rs', hg⟩ := NameMap.has_eq_true_iff.1 hc
  have hr := h.records_eq
  rw [records, hg, Option.getD_some] at hr
  rw [hg, hr]

/-- Without a failure in the way, a command is carried out as it stands. -/
theorem result_execute {command : String} (h : a.Permits command) :
    Op.result (execute command) a =
      Op.result (carryOut command.toList) { a with received := command :: a.received } := by
  have hnone : (a.failures.find? fun f => f.1.toList.isPrefixOf command.toList) = none := by
    rw [List.find?_eq_none]
    intro f hf hprefix
    exact h f hf (List.isPrefixOf_iff_prefix.1 hprefix)
  rw [execute, Op.result_bind_of_ok (Op.result_modify _ a), Op.result_bind_of_ok (Op.result_get _)]
  simp only [hnone]

/-- A collection is listed as it is. -/
theorem result_list_of_get? (hp : c.Plain) (h : a.Permits c.list)
    (hget : NameMap.get? a.groups c.path = some rs) :
    Op.result (execute c.list) a =
      (.ok (listing c.path rs), { a with received := c.list :: a.received }) := by
  have hword := hp.firstWord_path (t := []) (by simp)
  rw [List.append_nil] at hword
  rw [result_execute h, carryOut_list, listGroup, Op.result_bind_of_ok (Op.result_get _), hword, hget]
  rfl

/-- A command that gives new records puts them in the place of the old ones. -/
theorem result_modify_of_has (hp : c.Plain) {new : List Record} (h : a.Permits (c.modify new))
    (hc : a.HasCollection c) (hnew : ∀ r ∈ new, r.Legible) :
    Op.result (execute (c.modify new)) a =
      (.ok "", { a with
        received := c.modify new :: a.received, groups := NameMap.insert a.groups c.path new }) := by
  have hword :=
    hp.firstWord_path (t := " records ".toList ++ Collection.recordsText new) (by simp; decide)
  have hstart : trimStart (c.path.toList ++ (" records ".toList ++ Collection.recordsText new)) =
      c.path.toList ++ (" records ".toList ++ Collection.recordsText new) := by
    rw [Collection.toList_path, List.cons_append, trimStart_cons (by decide)]
  have hdrop :
      (c.path.toList ++ (" records ".toList ++ Collection.recordsText new)).drop c.path.length =
      " records ".toList ++ Collection.recordsText new := by
    rw [← String.length_toList, List.drop_left]
  have hhas : NameMap.has a.groups c.path = true := hc
  rw [result_execute h, carryOut_modify, modifyGroup]
  simp only [hstart]
  rw [hword, hdrop, Record.recordsGiven_recordsText hnew, Op.result_bind_of_ok (Op.result_get _),
    if_pos hhas, Op.result_bind_of_ok (Op.result_modify _ _)]
  rfl

theorem created_already (shown before name : String) :
    Created (.error (.problem (.commandFailed shown
      (before ++ name ++ ") already exists in partition Common.")))) := by
  refine .before ?_
  have h : (before ++ name ++ ") already exists in partition Common.").toList =
      (before.toList ++ name.toList ++ [')', ' ']) ++
        ("already exists".toList ++ " in partition Common.".toList) := by
    simp
  rw [h]
  exact occursIn_append _ _ _

/-- After the first command of the store, the folder is there. -/
theorem result_createFolder (h : a.Holds c rs) (hp : c.Plain) :
    ∃ r a', Op.result (execute c.createFolder) a = (r, a') ∧ Created r ∧ a'.Holds c rs ∧
      c.folderPath ∈ a'.folders := by
  have htrim : String.ofList (trim c.folderPath.toList) = c.folderPath := by
    rw [trim_unbroken hp.folderPath_unbroken, String.ofList_toList]
  rw [result_execute (h.permits _), carryOut_createFolder, createFolder,
    Op.result_bind_of_ok (Op.result_get _), htrim]
  by_cases hf : a.folders.contains c.folderPath = true
  · rw [if_pos hf]
    exact ⟨_, _, rfl, created_already _ _ _, ⟨h.failures_eq, h.records_eq⟩,
      List.contains_iff_mem.1 hf⟩
  · rw [if_neg hf, Op.result_bind_of_ok (Op.result_modify _ _)]
    exact ⟨_, _, rfl, .now "", ⟨h.failures_eq, h.records_eq⟩, NameSet.mem_insert_self _ _⟩

/-- After the second one, the collection is, with the records it had. -/
theorem result_create (h : a.Holds c rs) (hp : c.Plain) (hf : c.folderPath ∈ a.folders) :
    ∃ r a', Op.result (execute c.create) a = (r, a') ∧ Created r ∧ a'.Holds c rs ∧
      a'.HasCollection c := by
  have hword := hp.firstWord_path (t := " type string".toList) (by simp; decide)
  rw [result_execute (h.permits _), carryOut_create, createGroup,
    Op.result_bind_of_ok (Op.result_get _), hword, hp.folderOf_path, if_neg (by simp [hf])]
  by_cases hg : NameMap.has a.groups c.path = true
  · rw [if_pos hg]
    exact ⟨_, _, rfl, created_already _ _ _, ⟨h.failures_eq, h.records_eq⟩, hg⟩
  · have hr : rs = [] := by
      have hnone : NameMap.get? a.groups c.path = none := by simpa [NameMap.has] using hg
      rw [← h.records_eq, records, hnone, Option.getD_none]
    have hget : NameMap.get? (NameMap.insert a.groups c.path []) c.path = some [] := by
      rw [NameMap.get?_insert, if_pos rfl]
    rw [if_neg hg, Op.result_bind_of_ok (Op.result_modify _ _)]
    refine ⟨_, _, rfl, .now "", ⟨h.failures_eq, ?_⟩, NameMap.has_eq_true_iff.2 ⟨[], hget⟩⟩
    rw [records, hget, hr, Option.getD_some]

theorem result_list (h : a.Holds c rs) (hp : c.Plain) (hc : a.HasCollection c) :
    ∃ a', Op.result (execute c.list) a = (.ok (listing c.path rs), a') ∧ a'.Holds c rs ∧
      a'.HasCollection c :=
  ⟨_, result_list_of_get? hp (h.permits _) (get?_of_holds h hc), ⟨h.failures_eq, h.records_eq⟩, hc⟩

theorem result_modify (h : a.Holds c rs) (hp : c.Plain) (hc : a.HasCollection c) {new : List Record}
    (hnew : ∀ r ∈ new, r.Legible) :
    ∃ a', Op.result (execute (c.modify new)) a = (.ok "", a') ∧ a'.Holds c new ∧
      a'.HasCollection c := by
  have hget : NameMap.get? (NameMap.insert a.groups c.path new) c.path = some new := by
    rw [NameMap.get?_insert, if_pos rfl]
  refine ⟨_, result_modify_of_has hp (h.permits _) hc hnew, ⟨h.failures_eq, ?_⟩,
    NameMap.has_eq_true_iff.2 ⟨new, hget⟩⟩
  rw [records, hget, Option.getD_some]

end Appliance

end Stencil
