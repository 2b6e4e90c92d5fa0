import Mathlib.Data.List.Basic
import Mathlib.Data.List.Induction
import Mathlib.Data.List.Nodup
import Stencil.Json.Reader
import Stencil.Proofs.Except
import Stencil.Proofs.NameMap

/-!
# Merging equal names

Members that are inserted one after another keep the order in which their names first occur
(`names_insertAll`), and of each name the last value (`get?_insertAll`). Every name is left once, and
members whose names are distinct come out as they are; so merging equal names a second time changes
nothing (`merged_merged`).
-/

namespace Stencil

namespace Members

theorem has_eq_true_iff {ms : Members} {name : String} : has ms name = true ↔ name ∈ names ms := by
  simp [has, names]

theorem mem_names_iff {ms : Members} {name : String} :
    name ∈ names ms ↔ ∃ v, get? ms name = some v :=
  NameMap.mem_names_iff

theorem has_iff_exists {ms : Members} {name : String} :
    has ms name = true ↔ ∃ v, get? ms name = some v := by
  rw [has_eq_true_iff, mem_names_iff]

theorem names_insert (ms : Members) (name : String) (v : Json) :
    names (insert ms name v) = if has ms name then names ms else names ms ++ [name] := by
  unfold insert
  split
  · rw [names, names, List.map_map]
    refine List.map_congr_left fun m _ => ?_
    by_cases h : m.1 = name <;> simp [h]
  · simp [names]

theorem get?_cons (m : String × Json) (ms : Members) (name : String) :
    get? (m :: ms) name = if name = m.1 then some m.2 else get? ms name :=
  lookup_cons_eq m ms name

theorem get?_append (ms more : Members) (name : String) :
    get? (ms ++ more) name = (get? ms name).or (get? more name) :=
  List.lookup_append

theorem get?_insert (ms : Members) (name : String) (v : Json) (other : String) :
    get? (insert ms name v) other = if other = name then some v else get? ms other :=
  lookup_put ms name v other

/-- **The last value**: of members of one name the one that is inserted last counts. -/
theorem get?_insertAll (ms more : Members) (name : String) :
    get? (insertAll ms more) name = (get? more.reverse name).or (get? ms name) := by
  induction more generalizing ms with
  | nil => rfl
  | cons m more ih =>
    have hstep : insertAll ms (m :: more) = insertAll (insert ms m.1 m.2) more := rfl
    rw [hstep, ih, get?_insert, List.reverse_cons, get?_append, get?_cons]
    by_cases h : name = m.1 <;> simp [h, get?]

/-- **The first position**: names stand in the order in which they first occur. -/
theorem names_insertAll (more : Members) : names (insertAll [] more) = (names more).eraseDups := by
  induction more using List.reverseRecOn with
  | nil => rfl
  | append_singleton more m ih =>
    have hstep : insertAll [] (more ++ [m]) = insert (insertAll [] more) m.1 m.2 := List.foldl_append
    have hnames : names (more ++ [m]) = names more ++ [m.1] := List.map_append
    have hhas : has (insertAll [] more) m.1 = true ↔ m.1 ∈ names more := by
      rw [has_eq_true_iff, ih, List.mem_eraseDups]
    rw [hstep, hnames, names_insert, eraseDups_append_singleton, ih]
    simp only [hhas]

theorem distinct_insert {ms : Members} (h : Distinct ms) (name : String) (v : Json) :
    Distinct (insert ms name v) := by
  rw [Distinct, names_insert]
  split
  · exact h
  · rename_i hn
    rw [has_eq_true_iff] at hn
    exact List.nodup_append'.2 ⟨h, List.nodup_singleton _, by simpa using hn⟩

theorem mem_insert {ms : Members} {name : String} {v : Json} {m : String × Json}
    (h : m ∈ insert ms name v) : m = (name, v) ∨ m ∈ ms := by
  unfold insert at h
  split at h
  · obtain ⟨m', hm, rfl⟩ := List.mem_map.1 h
    split
    · exact .inl rfl
    · exact .inr hm
  · simpa [or_comm] using h

theorem distinct_insertAll {ms : Members} (h : Distinct ms) (more : Members) :
    Distinct (insertAll ms more) := by
  induction more generalizing ms with
  | nil => exact h
  | cons m more ih => exact ih (distinct_insert h m.1 m.2)

theorem mem_insertAll {ms more : Members} {m : String × Json} (h : m ∈ insertAll ms more) :
    m ∈ ms ∨ m ∈ more := by
  induction more generalizing ms with
  | nil => exact .inl h
  | cons p more ih =>
    obtain h | h := ih h
    · obtain rfl | h := mem_insert h
      · exact .inr List.mem_cons_self
      · exact .inl h
    · exact .inr (List.mem_cons_of_mem _ h)

/-- Members with distinct names are inserted one behind the other. -/
theorem insertAll_of_distinct {ms more : Members} (h : Distinct (ms ++ more)) :
    insertAll ms more = ms ++ more := by
  induction more generalizing ms with
  | nil => exact (List.append_nil ms).symm
  | cons m more ih =>
    have hn : has ms m.1 = false := by
      rw [← Bool.not_eq_true, has_eq_true_iff]
      intro hm
      rw [Distinct, names, List.map_append, List.nodup_append'] at h
      exact h.2.2 hm (by simp)
    have hm : insert ms m.1 m.2 = ms ++ [m] := by simp [insert, hn]
    have hstep : insertAll ms (m :: more) = insertAll (insert ms m.1 m.2) more := rfl
    rw [hstep, hm, ih (by simpa using h)]
    simp

/-! ### Giving members values -/

/-- The new object is the old one with values given to some members: each in its place, and those that
were not there behind all others. -/
structure Updates (old entries new : Members) : Prop where
  names : names new = names old ++ (names entries).filter (· ∉ names old)
  get? (name : String) : get? new name = (get? entries name).or (get? old name)

/-- In an object of distinct names the last member of a name is the first one. -/
theorem get?_reverse {ms : Members} (h : Distinct ms) (name : String) :
    get? ms.reverse name = get? ms name := by
  induction ms with
  | nil => rfl
  | cons m ms ih =>
    obtain ⟨hm, hrest⟩ := List.nodup_cons.1 h
    rw [List.reverse_cons, get?_append, ih hrest, get?_cons, get?_cons]
    by_cases hname : name = m.1
    · have hnone : get? ms name = none := by
        refine List.lookup_eq_none_iff.2 fun p hp => bne_iff_ne.2 fun he => hm ?_
        show m.1 ∈ names ms
        rw [← hname, he]
        exact List.mem_map_of_mem hp
      simp [hname, hname ▸ hnone]
    · simp [hname, get?]

theorem updates_insertAll (ms : Members) {entries : Members} (h : Distinct entries) :
    Updates ms entries (insertAll ms entries) where
  names := by
    induction entries generalizing ms with
    | nil => simp [insertAll, names]
    | cons m entries ih =>
      obtain ⟨hm, hrest⟩ := List.nodup_cons.1 h
      have hstep : insertAll ms (m :: entries) = insertAll (insert ms m.1 m.2) entries := rfl
      have hcons : names (m :: entries) = m.1 :: names entries := rfl
      -- what follows are other names
      have hfilter : (names entries).filter (· ∉ names (insert ms m.1 m.2)) =
          (names entries).filter (· ∉ names ms) := by
        refine List.filter_congr fun name hname => ?_
        have hne : name ≠ m.1 := by
          rintro rfl
          exact hm hname
        rw [names_insert]
        split <;> simp [hne]
      rw [hstep, ih _ hrest, hfilter, names_insert, hcons]
      by_cases hin : m.1 ∈ names ms
      · simp [has_eq_true_iff.2 hin, hin]
      · simp [mt has_eq_true_iff.1 hin, hin]
  get? name := by rw [get?_insertAll, get?_reverse h]

theorem updates_insert (ms : Members) (name : String) (v : Json) :
    Updates ms [(name, v)] (insert ms name v) :=
  updates_insertAll ms (List.nodup_singleton name)

end Members

namespace Json

theorem mergedMembers_eq_self {ms : Members} (h : ∀ m ∈ ms, m.2.merged = m.2) :
    mergedMembers ms = ms := by
  induction ms with
  | nil => rfl
  | cons m ms ih =>
    rw [mergedMembers, h m List.mem_cons_self, ih fun p hp => h p (List.mem_cons_of_mem _ hp)]

mutual

/-- Merging twice is merging once. -/
theorem merged_merged : ∀ j : Json, j.merged.merged = j.merged
  | .null | .bool _ | .num _ | .str _ => rfl
  | .arr items => by rw [merged, merged, mergedItems_merged items]
  | .obj ms => by
    have h0 : Members.Distinct [] := List.nodup_nil
    have hd : Members.insertAll [] (Members.insertAll [] (mergedMembers ms)) =
        Members.insertAll [] (mergedMembers ms) :=
      Members.insertAll_of_distinct (Members.distinct_insertAll h0 (mergedMembers ms))
    have hm : ∀ m ∈ Members.insertAll [] (mergedMembers ms), m.2.merged = m.2 := by
      intro m h
      exact mergedMembers_merged ms m ((Members.mem_insertAll h).resolve_left List.not_mem_nil)
    rw [merged, merged, mergedMembers_eq_self hm, hd]

theorem mergedItems_merged : ∀ js : List Json, mergedItems (mergedItems js) = mergedItems js
  | [] => rfl
  | j :: js => by rw [mergedItems, mergedItems, merged_merged j, mergedItems_merged js]

theorem mergedMembers_merged : ∀ (ms : Members), ∀ m ∈ mergedMembers ms, m.2.merged = m.2
  | [], _, h => by cases h
  | (k, j) :: ms, m, h => by
    rw [mergedMembers, List.mem_cons] at h
    obtain rfl | h := h
    · exact merged_merged j
    · exact mergedMembers_merged ms m h

end

/-- An object without equal names anywhere names each member once, and so do its values. -/
theorem distinct_of_merged {ms : Members} (h : (Json.obj ms).merged = .obj ms) :
    Members.Distinct ms ∧ ∀ m ∈ ms, m.2.merged = m.2 := by
  have h0 : Members.Distinct [] := List.nodup_nil
  have hms : Members.insertAll [] (mergedMembers ms) = ms := Json.obj.inj h
  constructor
  · rw [← hms]
    exact Members.distinct_insertAll h0 (mergedMembers ms)
  · intro m hm
    rw [← hms] at hm
    exact mergedMembers_merged ms m ((Members.mem_insertAll hm).resolve_left List.not_mem_nil)

end Json

/-- In what a text stands for, equal names are merged. -/
theorem merged_of_parse {text : List Char} {j : Json} (h : Json.parse text = .ok j) : j.merged = j := by
  obtain ⟨raw, -, rfl⟩ := map_eq_ok h
  exact Json.merged_merged raw

end Stencil
