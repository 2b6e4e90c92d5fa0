import Stencil.Proofs.Except
import Stencil.Proofs.Json.Pretty
import Stencil.Proofs.NameMap
import Stencil.Template.Bundle

/-!
# A set read back from its value

What a store keeps of a set is the set again, since the names of its texts rise in the value as they do
in the set.
-/

namespace Stencil.Bundle

theorem readEntries_texts (m : List (String × String)) :
    readEntries (m.map fun (k, t) => (k, .str t)) = .ok m := by
  induction m with
  | nil => rfl
  | cons p rest ih =>
    obtain ⟨k, t⟩ := p
    rw [List.map_cons, readEntries, ih]
    rfl

theorem readTexts_textsToJson {m : NameMap String} (h : m.Sorted) :
    readTexts (textsToJson m) = .ok m := by
  rw [textsToJson, readTexts, readEntries_texts]
  exact congrArg _ (NameMap.ofList_of_sorted h)

/-- **A stored set is read back as it was**, whatever its hash. -/
theorem ofJson_toJson (key : String) {b : Bundle} (ht : b.templates.Sorted) (hs : b.schemas.Sorted) :
    ofJson key b.toJson = .ok b := by
  have hread : read b.toJson = .ok b := by
    simp only [toJson, read, readObject, List.foldlM_cons, List.foldlM_nil, Fields.read,
      readTexts_textsToJson ht, readTexts_textsToJson hs]
    rfl
  rw [ofJson, hread]

/-! ### The value of a set -/

/-- The texts of the set are in order. -/
structure Sorted (b : Bundle) : Prop where
  templates : b.templates.Sorted
  schemas : b.schemas.Sorted

theorem textsToJson_plain (m : NameMap String) :
    (textsToJson m).Numberless ∧ (textsToJson m).depth ≤ 1 := by
  rw [textsToJson]
  refine ⟨Json.numberlessMembers_of_forall ?_, Nat.succ_le_succ (Json.depthMembers_le_of_forall ?_)⟩
  · intro p hp
    obtain ⟨q, -, rfl⟩ := List.mem_map.1 hp
    trivial
  · intro p hp
    obtain ⟨q, -, rfl⟩ := List.mem_map.1 hp
    exact Nat.le_refl 0

/-- There is no number in the value of a set, and little is nested in it. -/
theorem toJson_plain (b : Bundle) : b.toJson.Numberless ∧ b.toJson.depth ≤ 2 := by
  obtain ⟨ht, htdepth⟩ := textsToJson_plain b.templates
  obtain ⟨hs, hsdepth⟩ := textsToJson_plain b.schemas
  refine ⟨⟨trivial, trivial, ht, hs, trivial⟩, ?_⟩
  simp only [toJson, Json.depth, Json.depthMembers]
  omega

theorem merged_textsToJson {m : NameMap String} (h : m.Sorted) :
    (textsToJson m).merged = textsToJson m := by
  have hdistinct : Members.Distinct ([] ++ m.map fun p => (p.1, .str p.2)) := by
    have hn := NameMap.nodup_names h
    rw [NameMap.names] at hn
    rw [List.nil_append, Members.Distinct, Members.names, List.map_map]
    exact hn
  rw [textsToJson, Json.merged, Json.mergedMembers_eq_self]
  · exact congrArg _ (Members.insertAll_of_distinct hdistinct)
  · intro p hp
    obtain ⟨q, -, rfl⟩ := List.mem_map.1 hp
    rfl

/-- No name occurs twice in an object of the value. -/
theorem merged_toJson {b : Bundle} (h : b.Sorted) : b.toJson.merged = b.toJson := by
  simp only [toJson, Json.merged, Json.mergedMembers, merged_textsToJson h.templates,
    merged_textsToJson h.schemas]
  rfl

end Stencil.Bundle
