import Mathlib.Data.List.Basic
import Stencil.Json.Basic

/-!
# Filling in values

`Json.fill` puts values in the place of strings, and strings in the place of member names. What
becomes of the depth and of equal names depends on the depth and the merged form of the values only.
-/

namespace Stencil

namespace Json

/-- The name of a member, or the string that takes its place. -/
def fillName (σ : String → Option Json) (k : String) : String :=
  match σ k with
  | some (.str s) => s
  | _ => k

mutual

/-- The value with other values in the place of some of its strings. -/
def fill (σ : String → Option Json) : Json → Json
  | .str s => (σ s).getD (.str s)
  | .arr items => .arr (fillItems σ items)
  | .obj ms => .obj (fillMembers σ ms)
  | j => j

/-- Fills in each item. -/
def fillItems (σ : String → Option Json) : List Json → List Json
  | [] => []
  | j :: js => fill σ j :: fillItems σ js

/-- Fills in the name and the value of each member. -/
def fillMembers (σ : String → Option Json) : List (String × Json) → List (String × Json)
  | [] => []
  | (k, j) :: ms => (fillName σ k, fill σ j) :: fillMembers σ ms

end

mutual

/-- The strings of a value, member names among them, in the order of the text. -/
def strings : Json → List String
  | .str s => [s]
  | .arr items => stringsItems items
  | .obj ms => stringsMembers ms
  | _ => []

/-- The strings of the items. -/
def stringsItems : List Json → List String
  | [] => []
  | j :: js => strings j ++ stringsItems js

/-- The strings of the members. -/
def stringsMembers : List (String × Json) → List String
  | [] => []
  | (k, j) :: ms => k :: (strings j ++ stringsMembers ms)

end

mutual

/-- The names of the members at all depths. -/
def memberNames : Json → List String
  | .arr items => memberNamesItems items
  | .obj ms => memberNamesMembers ms
  | _ => []

/-- The names of the members within the items. -/
def memberNamesItems : List Json → List String
  | [] => []
  | j :: js => memberNames j ++ memberNamesItems js

/-- The names of the members and of those within them. -/
def memberNamesMembers : List (String × Json) → List String
  | [] => []
  | (k, j) :: ms => k :: (memberNames j ++ memberNamesMembers ms)

end

mutual

/-- Without values to fill in, nothing changes. -/
theorem fill_none : ∀ j : Json, j.fill (fun _ => none) = j
  | .null | .bool _ | .num _ | .str _ => rfl
  | .arr items => by rw [fill, fillItems_none items]
  | .obj ms => by rw [fill, fillMembers_none ms]

theorem fillItems_none : ∀ js : List Json, fillItems (fun _ => none) js = js
  | [] => rfl
  | j :: js => by rw [fillItems, fill_none j, fillItems_none js]

theorem fillMembers_none : ∀ ms : Members, fillMembers (fun _ => none) ms = ms
  | [] => rfl
  | (k, j) :: ms => by rw [fillMembers, fill_none j, fillMembers_none ms, fillName]

end

/-! ### Depth -/

variable {σ τ : String → Option Json}

mutual

/-- The depth depends on the depths of the values only. -/
theorem depth_fill_congr (h : ∀ s, (σ s).map depth = (τ s).map depth) :
    ∀ j : Json, (j.fill σ).depth = (j.fill τ).depth
  | .null | .bool _ | .num _ => rfl
  | .str s => by
    have hs := h s
    rw [fill, fill]
    cases hσ : σ s <;> cases hτ : τ s <;> simp_all
  | .arr items => by simp only [fill, depth, depthItems_fill_congr h items]
  | .obj ms => by simp only [fill, depth, depthMembers_fill_congr h ms]

theorem depthItems_fill_congr (h : ∀ s, (σ s).map depth = (τ s).map depth) :
    ∀ js : List Json, depthItems (fillItems σ js) = depthItems (fillItems τ js)
  | [] => rfl
  | j :: js => by simp only [fillItems, depthItems, depth_fill_congr h j, depthItems_fill_congr h js]

theorem depthMembers_fill_congr (h : ∀ s, (σ s).map depth = (τ s).map depth) :
    ∀ ms : Members, depthMembers (fillMembers σ ms) = depthMembers (fillMembers τ ms)
  | [] => rfl
  | (k, j) :: ms => by
    simp only [fillMembers, depthMembers, depth_fill_congr h j, depthMembers_fill_congr h ms]

end

/-! ### Equal names -/

theorem merged_eq_str_iff {j : Json} {s : String} : j.merged = .str s ↔ j = .str s := by
  cases j <;> simp [merged]

theorem fillName_eq_of_merged (h : ∀ s, (σ s).map merged = (τ s).map merged) (k : String) :
    fillName σ k = fillName τ k := by
  have hiff (s : String) : σ k = some (.str s) ↔ τ k = some (.str s) := by
    have hk := h k
    cases hσ : σ k <;> cases hτ : τ k <;> simp_all
    rw [← merged_eq_str_iff, hk, merged_eq_str_iff]
  unfold fillName
  split
  · rename_i s hs
    rw [(hiff s).1 hs]
  · rename_i hσ
    split
    · rename_i s hs
      exact absurd ((hiff s).2 hs) (hσ s)
    · rfl

mutual

/-- The merged value depends on the merged values only. -/
theorem merged_fill_congr (h : ∀ s, (σ s).map merged = (τ s).map merged) :
    ∀ j : Json, (j.fill σ).merged = (j.fill τ).merged
  | .null | .bool _ | .num _ => rfl
  | .str s => by
    have hs := h s
    rw [fill, fill]
    cases hσ : σ s <;> cases hτ : τ s <;> simp_all
  | .arr items => by simp only [fill, merged, mergedItems_fill_congr h items]
  | .obj ms => by simp only [fill, merged, mergedMembers_fill_congr h ms]

theorem mergedItems_fill_congr (h : ∀ s, (σ s).map merged = (τ s).map merged) :
    ∀ js : List Json, mergedItems (fillItems σ js) = mergedItems (fillItems τ js)
  | [] => rfl
  | j :: js => by
    simp only [fillItems, mergedItems, merged_fill_congr h j, mergedItems_fill_congr h js]

theorem mergedMembers_fill_congr (h : ∀ s, (σ s).map merged = (τ s).map merged) :
    ∀ ms : Members, mergedMembers (fillMembers σ ms) = mergedMembers (fillMembers τ ms)
  | [] => rfl
  | (k, j) :: ms => by
    simp only [fillMembers, mergedMembers, merged_fill_congr h j, mergedMembers_fill_congr h ms,
      fillName_eq_of_merged h k]

end

end Json

end Stencil
