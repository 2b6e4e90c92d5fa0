import Stencil.Catalog.Basic
import Stencil.Proofs.Except
import Stencil.Proofs.NameMap

/-!
# Full names

A full name is taken apart at its only slash: `Catalog.splitName` finds the set and the template that a
name was put together from, and finds none in any other text (`splitName_eq_some_iff`). So a name that
can be taken apart belongs to its set and to no other one.
-/

namespace Stencil

namespace Catalog

variable {name set template : String}

theorem toList_fullName (set template : String) :
    (fullName set template).toList = set.toList ++ '/' :: template.toList := by
  rw [fullName, String.toList_append, String.toList_append, List.append_assoc]
  rfl

theorem fullName_ne_empty (set template : String) : fullName set template ≠ "" := by
  intro he
  have hlist := toList_fullName set template
  rw [he] at hlist
  simp at hlist

theorem cutSlash_append {s : List Char} (h : '/' ∉ s) (t : List Char) :
    cutSlash (s ++ '/' :: t) = some (s, t) := by
  induction s with
  | nil => rfl
  | cons c s ih =>
    obtain ⟨hc, hs⟩ := not_or.1 (List.mem_cons.not.1 h)
    rw [List.cons_append, cutSlash, if_neg (Ne.symm hc), ih hs]
    rfl

/-- A text is cut at its first slash and nowhere else. -/
theorem of_cutSlash {s a b : List Char} (h : cutSlash s = some (a, b)) :
    s = a ++ '/' :: b ∧ '/' ∉ a := by
  induction s generalizing a with
  | nil => cases h
  | cons c s ih =>
    rw [cutSlash] at h
    split at h
    · rename_i hc
      cases h
      exact ⟨by rw [hc]; rfl, List.not_mem_nil⟩
    · rename_i hc
      obtain ⟨⟨a', b'⟩, hcut, heq⟩ := Option.map_eq_some_iff.1 h
      cases heq
      obtain ⟨rfl, hmem⟩ := ih hcut
      exact ⟨rfl, List.not_mem_cons_of_ne_of_not_mem (Ne.symm hc) hmem⟩

/-- The names that can be taken apart: two names without a slash, and a slash between them. -/
theorem splitName_eq_some_iff : splitName name = some (set, template) ↔
    name = fullName set template ∧ (set ≠ "" ∧ '/' ∉ set.toList) ∧
      template ≠ "" ∧ '/' ∉ template.toList := by
  constructor
  · intro h
    obtain ⟨⟨a, b⟩, hcut, hparts⟩ := Option.bind_eq_some_iff.1 h
    obtain ⟨hname, ha⟩ := of_cutSlash hcut
    simp only at hparts
    split at hparts
    · cases hparts
    · rename_i hgood
      simp only [Bool.or_eq_true, List.isEmpty_iff, List.contains_iff_mem, not_or] at hgood
      obtain ⟨⟨ha0, hb0⟩, hb⟩ := hgood
      cases hparts
      refine ⟨String.toList_inj.1 ?_, ⟨?_, ?_⟩, ?_, ?_⟩
      · rw [toList_fullName, String.toList_ofList, String.toList_ofList, hname]
      · exact fun he => ha0 (by rw [← String.toList_ofList (l := a), he]; rfl)
      · rwa [String.toList_ofList]
      · exact fun he => hb0 (by rw [← String.toList_ofList (l := b), he]; rfl)
      · rwa [String.toList_ofList]
  · rintro ⟨rfl, ⟨hs, hslash⟩, ht, htslash⟩
    rw [splitName, toList_fullName, cutSlash_append hslash, Option.bind_some]
    have hs' : set.toList.isEmpty = false := by simpa using hs
    have ht' : template.toList.isEmpty = false := by simpa using ht
    have hc : template.toList.contains '/' = false := by simpa using htslash
    simp only [hs', ht', hc]
    simp

/-- A full name is cut where it was put together. -/
theorem splitName_fullName (hs : set ≠ "") (hslash : '/' ∉ set.toList) (ht : template ≠ "")
    (htslash : '/' ∉ template.toList) : splitName (fullName set template) = some (set, template) :=
  splitName_eq_some_iff.2 ⟨rfl, ⟨hs, hslash⟩, ht, htslash⟩

/-- The full names of the templates of sets that are read one after another. -/
theorem mem_flatten_fullNames {read : String → Except Fault Bundle} {sets : List String}
    {lists : List (List String)}
    (h : sets.mapM (fun set => (read set).map (fullNames set)) = .ok lists) :
    (∀ set ∈ sets, ∃ b, read set = .ok b) ∧
      ∀ name, name ∈ lists.flatten ↔ ∃ set ∈ sets, ∃ b, read set = .ok b ∧
        ∃ template ∈ NameMap.names b.templates, fullName set template = name := by
  refine ⟨fun set hset => ?_, fun name => ?_⟩
  · obtain ⟨list, hlist⟩ := exists_mapM_iff.1 ⟨lists, h⟩ set hset
    obtain ⟨b, hb, -⟩ := map_eq_ok hlist
    exact ⟨b, hb⟩
  · rw [List.mem_flatten]
    constructor
    · rintro ⟨list, hlist, hname⟩
      obtain ⟨set, hset, hmap⟩ := (mem_of_mapM h).1 hlist
      obtain ⟨b, hb, rfl⟩ := map_eq_ok hmap
      obtain ⟨template, ht, hfull⟩ := List.mem_map.1 hname
      exact ⟨set, hset, b, hb, template, ht, hfull⟩
    · rintro ⟨set, hset, b, hb, template, ht, rfl⟩
      refine ⟨fullNames set b, (mem_of_mapM h).2 ⟨set, hset, ?_⟩, List.mem_map_of_mem ht⟩
      rw [hb]
      rfl

end Catalog

theorem Workshop.belongsTo_fullName (set template : String) :
    belongsTo set (Catalog.fullName set template) = true := by
  rw [belongsTo, List.isPrefixOf_iff_prefix, Catalog.toList_fullName]
  exact ⟨template.toList, by rw [List.append_assoc]; rfl⟩

/-- A name that can be taken apart belongs to its set alone. -/
theorem Workshop.belongsTo_iff {name set template other : String}
    (h : Catalog.splitName name = some (set, template)) :
    belongsTo other name = true ↔ other = set := by
  obtain ⟨rfl, ⟨-, hslash⟩, -, htslash⟩ := Catalog.splitName_eq_some_iff.1 h
  constructor
  · rw [belongsTo, List.isPrefixOf_iff_prefix, Catalog.toList_fullName]
    rintro ⟨rest, hrest⟩
    have hcut : other.toList ++ '/' :: rest = set.toList ++ '/' :: template.toList := by
      rw [← hrest, List.append_assoc]
      rfl
    -- The set holds no slash, and neither does the template behind it.
    rcases List.append_eq_append_iff.1 hcut with ⟨u, hu, hrest⟩ | ⟨u, hu, hrest⟩
    · cases u with
      | nil => exact String.toList_inj.1 (by rw [hu, List.append_nil])
      | cons c u =>
        rw [List.cons_append, List.cons.injEq] at hrest
        refine absurd ?_ hslash
        rw [hu, ← hrest.1]
        simp
    · cases u with
      | nil => exact String.toList_inj.1 (by rw [hu, List.append_nil])
      | cons c u =>
        rw [List.cons_append, List.cons.injEq] at hrest
        refine absurd ?_ htslash
        rw [hrest.2]
        simp
  · rintro rfl
    exact belongsTo_fullName _ _

/-- A name that can be taken apart is put together in one way. -/
theorem Catalog.fullName_inj {set template set' template' : String}
    (h : splitName (fullName set' template') = some (set, template)) :
    set' = set ∧ template' = template := by
  obtain rfl : set' = set :=
    (Workshop.belongsTo_iff h).1 (Workshop.belongsTo_fullName set' template')
  have hname := congrArg String.toList (splitName_eq_some_iff.1 h).1
  rw [toList_fullName, toList_fullName, List.append_cancel_left_eq, List.cons.injEq] at hname
  exact ⟨rfl, String.toList_inj.1 hname.2⟩

/-- Which full names can be taken apart. -/
theorem Catalog.isSome_splitName_fullName {set template : String} (hs : set ≠ "") :
    (splitName (fullName set template)).isSome ↔
      ¬ ('/' ∈ set.toList ∨ template = "" ∨ '/' ∈ template.toList) := by
  rw [Option.isSome_iff_exists, not_or, not_or]
  constructor
  · rintro ⟨⟨set', template'⟩, h⟩
    obtain ⟨rfl, rfl⟩ := fullName_inj h
    obtain ⟨-, ⟨-, hslash⟩, ht⟩ := splitName_eq_some_iff.1 h
    exact ⟨hslash, ht⟩
  · rintro ⟨hslash, ht, htslash⟩
    exact ⟨_, splitName_fullName hs hslash ht htslash⟩

/-! ### Forgetting a set -/

theorem Cache.foldl_invalidate {α : Type} (keys : List String) (c : Cache α) :
    keys.foldl Cache.invalidate c = { c with entries := c.entries.filter fun p => p.1 ∉ keys } := by
  induction keys generalizing c with
  | nil => simp
  | cons key keys ih =>
    rw [List.foldl_cons, ih, invalidate]
    simp only [List.filter_filter]
    congr 1
    refine List.filter_congr fun p _ => ?_
    by_cases hk : p.1 = key <;> by_cases hm : p.1 ∈ keys <;> simp [hk, hm]

/-- Forgetting a set drops the entries whose names belong to it, and no others. -/
theorem Workshop.engines_invalidateSet (w : Workshop) (set : String) :
    (w.invalidateSet set).engines =
      { w.engines with entries := w.engines.entries.filter fun p => !belongsTo set p.1 } := by
  rw [invalidateSet, Cache.foldl_invalidate]
  refine congrArg (fun entries => { w.engines with entries }) (List.filter_congr fun p hp => ?_)
  have hkey : p.1 ∈ w.engines.keys := List.mem_map_of_mem hp
  by_cases h : belongsTo set p.1 = true <;> simp [h, hkey]

end Stencil
