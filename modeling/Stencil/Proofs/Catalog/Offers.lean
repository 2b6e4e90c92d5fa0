import Stencil.Proofs.Catalog.Folder
import Stencil.Proofs.Catalog.Writes
import Stencil.Proofs.Template.Bundle

/-!
# Catalogs that hold the same sets

What a catalog answers when it holds certain sets (`Catalog.Offers`) is a matter of the sets alone. A
catalog of a folder answers so for the sets that it reads from its directories, a catalog of a store for
the sets whose values the store keeps. The one finds a template by a path, the other one in its set, and
both compile it with the fragments of all sets.
-/

namespace Stencil

/-- A set whose names can be put together to full names and taken apart again. -/
structure Bundle.Nameable (b : Bundle) : Prop where
  name_ne : b.name ≠ ""
  name_slash : '/' ∉ b.name.toList
  templates_sorted : b.templates.Sorted
  schemas_sorted : b.schemas.Sorted
  template_names : ∀ p ∈ b.templates, p.1 ≠ "" ∧ '/' ∉ p.1.toList

namespace Catalog

variable {σ τ : Type} {bundles : List Bundle} {s : σ}

/-- The catalog answers as one that holds sets, in the order of their names. -/
structure Offers (c : Catalog σ) (s : σ) (bundles : List Bundle) : Prop where
  listSets : (Op.result c.listSets s).1 = .ok (bundles.map (·.name))
  list : (Op.result c.list s).1 = .ok (bundles.map fun b => fullNames b.name b).flatten
  setData : ∀ b ∈ bundles, Op.result (c.setData b.name) s = (.ok b, s)
  fetch : ∀ b ∈ bundles, ∀ p ∈ b.templates, (Op.result (c.fetch (fullName b.name p.1)) s).1 =
    (Fragments.ofBundles bundles >>= Engine.compile (fullName b.name p.1) p.2)

theorem Offers.lift {c : Catalog σ} {l : Lens τ σ} {t : τ} (h : c.Offers (l.get t) bundles)
    (hl : l.set (l.get t) t = t) : (c.lift l).Offers t bundles :=
  ⟨h.listSets, h.list, fun b hb => by
    show Op.result ((c.setData b.name).zoom l) t = _
    rw [Op.result_zoom, h.setData b hb, hl], h.fetch⟩

/-- The full name is taken apart into the names of the set and of the template. -/
theorem splitName_of_nameable {b : Bundle} (hb : b.Nameable) {p : String × String}
    (hp : p ∈ b.templates) : splitName (fullName b.name p.1) = some (b.name, p.1) :=
  splitName_fullName hb.name_ne hb.name_slash (hb.template_names p hp).1 (hb.template_names p hp).2

/-! ### Sets that are read one after another -/

section

variable {sets : Op σ (List String)} {read : String → Op σ Bundle}
  (hsets : Op.result sets s = (.ok (bundles.map (·.name)), s))
  (hread : ∀ b ∈ bundles, Op.result (read b.name) s = (.ok b, s))
include hsets hread

theorem result_fragments : Op.result (do
      let bundles ← (← sets).mapM read
      Op.ofExcept (Fragments.ofBundles bundles)) s = (Fragments.ofBundles bundles, s) := by
  rw [Op.result_bind_of_ok hsets, Op.result_bind_of_ok (Op.result_mapM (k := id) hread), List.map_id]
  cases Fragments.ofBundles bundles <;> rfl

theorem result_fullNames : Op.result (do
      let names ← (← sets).mapM fun set => do return fullNames set (← read set)
      return names.flatten) s = (.ok (bundles.map fun b => fullNames b.name b).flatten, s) := by
  have hnames : ∀ b ∈ bundles, Op.result (do return fullNames b.name (← read b.name)) s =
      (.ok (fullNames b.name b), s) := fun b hb => by
    rw [Op.result_bind_of_ok (hread b hb)]
    rfl
  rw [Op.result_bind_of_ok hsets, Op.result_bind_of_ok (Op.result_mapM hnames)]
  rfl

end

end Catalog

/-! ### The two catalogs -/

/-- **A catalog of a folder offers the sets that it reads.** -/
theorem Folder.offers {f : Folder} {w : World} {bundles : List Bundle} (hfs : w.1.Sound)
    (hsets : f.shownSets (seen w) = .ok (bundles.map (·.name)))
    (hread : ∀ b ∈ bundles, f.shownSet b.name (seen w) = .ok b)
    (hc : Workshop.Coherent f.readTemplate f.loadFragments w w.2.workshop) :
    (∀ b ∈ bundles, b.Nameable) ∧ f.catalog.Offers w bundles := by
  have hlist : Op.result f.visibleSets w = (.ok (bundles.map (·.name)), w) := by
    rw [result_visibleSets, hsets]
  have hload : ∀ b ∈ bundles, Op.result (f.loadSet b.name) w = (.ok b, w) := fun b hb => by
    rw [result_loadSet, hread b hb]
  -- What is known of a set that is shown: its name is one of a directory, and its texts are there.
  have hset : ∀ b ∈ bundles, Files.IsName b.name ∧ f.shows w.2.removed b.name = true ∧
      Holds w.1 (f.directory b.name) b := fun b hb => by
    obtain ⟨entries, hr, hmem, hshows⟩ := exists_of_shownSets hsets (List.mem_map_of_mem hb)
    have hb' := hread b hb
    rw [shownSet] at hb'
    split at hb'
    · exact ⟨hfs.isName_of_listed hr hmem, hshows, (readSet_eq_ok hfs hb').1⟩
    · cases hb'
  have hnameable : ∀ b ∈ bundles, b.Nameable := fun b hb => by
    obtain ⟨hname, -, hholds⟩ := hset b hb
    exact ⟨hname.ne_empty, hname.slash, hholds.templates_sorted, hholds.schemas_sorted, fun p hp =>
      ⟨(hholds.text p hp).1, (hholds.text p hp).2.1⟩⟩
  refine ⟨hnameable, congrArg Prod.fst hlist, congrArg Prod.fst (Catalog.result_fullNames hlist hload),
    hload, fun b hb p hp => ?_⟩
  obtain ⟨-, hshows, hholds⟩ := hset b hb
  have htext : (Op.result (f.readTemplate (Catalog.fullName b.name p.1)) w).1 = .ok p.2 :=
    congrArg Prod.fst (result_readTemplate (Catalog.splitName_of_nameable (hnameable b hb) hp) hshows
      (hholds.text p hp).2.2)
  obtain ⟨w', hw', -⟩ := Workshop.result_build (sees f) hc (Catalog.fullName b.name p.1)
  show (Op.result (Workshop.build workshopLens _ (f.readTemplate _) f.loadFragments) w).1 = _
  rw [hw', (sees f).result_compileAnew (Catalog.fullName_ne_empty _ _) htext,
    show (Op.result f.loadFragments w).1 = Fragments.ofBundles bundles from
      congrArg Prod.fst (Catalog.result_fragments hlist hload)]

/-- **A catalog of a store offers the sets whose values the store keeps.** -/
theorem StoredSets.offers {σ ν : Type} {c : StoredSets σ} {view : σ → ν} {s : σ}
    {bundles : List Bundle} (h : c.Reads view) (hn : ∀ b ∈ bundles, b.Nameable)
    (hsorted : (bundles.map (·.name)).Pairwise (· < ·))
    (hkeys : Op.result c.store.keys s = (.ok (bundles.map (·.name)), s))
    (hget : ∀ b ∈ bundles, Op.result (c.store.get b.name) s = (.ok (some b.toJson), s))
    (hc : c.CoherentAt s) : c.catalog.Offers s bundles := by
  have hlist : Op.result c.setNames s = (.ok (bundles.map (·.name)), s) := by
    rw [setNames, Op.result_bind_of_ok hkeys, List.mergeSort_of_pairwise
      (hsorted.imp fun hlt => decide_eq_true (Std.le_of_lt hlt))]
    rfl
  have hvalue : ∀ b ∈ bundles, Bundle.ofJson b.name b.toJson = .ok b := fun b hb =>
    Bundle.ofJson_toJson b.name (hn b hb).templates_sorted (hn b hb).schemas_sorted
  have hload : ∀ b ∈ bundles, Op.result (c.readSet b.name) s = (.ok b, s) := fun b hb => by
    rw [readSet, Op.result_bind_of_ok (hget b hb)]
    simp only [hvalue b hb, Op.result_ofExcept_ok]
  refine ⟨congrArg Prod.fst hlist, congrArg Prod.fst (Catalog.result_fullNames hlist hload),
    hload, fun b hb p hp => ?_⟩
  have htext : (Op.result (c.readTemplate (Catalog.fullName b.name p.1)) s).1 = .ok p.2 := by
    rw [readTemplate, Catalog.splitName_of_nameable (hn b hb) hp]
    simp only
    rw [Op.result_bind_of_ok (hget b hb)]
    simp only [hvalue b hb]
    rw [Op.result_bind_of_ok (Op.result_ofExcept_ok b s),
      NameMap.get?_of_mem (hn b hb).templates_sorted hp]
    rfl
  obtain ⟨s', hs', -⟩ := h.result_fetch hc (Catalog.fullName b.name p.1)
  rw [hs', h.sees.result_compileAnew (Catalog.fullName_ne_empty _ _) htext,
    show (Op.result c.loadFragments s).1 = Fragments.ofBundles bundles from
      congrArg Prod.fst (Catalog.result_fragments hlist hload)]

end Stencil
