import Stencil.Proofs.Template.Stitching
import Stencil.Proofs.Template.Validation

/-!
# What an input has influence on

Rendering looks at the parameters of a template and at two more names, for which stitching asks. Two
views that agree there fill the slots with the same text, and they move the same units; the whole view
goes nowhere but into the records (`render_agree`). So a member of the input that has none of these names
is seen again in the recorded view, and changes nothing else (`render_insert`).

## The model

* `Agree` says that two views have the same values for some names.
* `overRecords` changes the record of every unit of a document.
* `outcome` is what two runs are compared by.
-/

namespace Stencil

namespace Json

/-- The value with its members changed, if it is an object. -/
def overMembers (f : Members → Members) : Json → Json
  | .obj ms => .obj (f ms)
  | j => j

end Json

namespace Members

/-- The members with the values of a name changed. -/
def mapAt (name : String) (f : Json → Json) (ms : Members) : Members :=
  ms.map fun m => if m.1 = name then (m.1, f m.2) else m

theorem mapAt_insert (ms : Members) (name : String) (f : Json → Json) (v : Json) :
    mapAt name f (insert ms name v) = insert ms name (f v) := by
  unfold insert
  by_cases h : has ms name = true
  · rw [if_pos h, if_pos h, mapAt, List.map_map]
    refine List.map_congr_left fun m _ => ?_
    by_cases hm : m.1 = name <;> simp [hm]
  · have hother (m : String × Json) (hm : m ∈ ms) : m.1 ≠ name := fun he =>
      h (has_eq_true_iff.2 (he ▸ List.mem_map_of_mem hm))
    rw [if_neg h, if_neg h, mapAt, List.map_append, List.map_congr_left fun m hm => if_neg (hother m hm)]
    simp

theorem erase_insert (ms : Members) (name : String) (v : Json) :
    erase (insert ms name v) name = erase ms name := by
  unfold insert
  split
  · have hkeep : (fun m : String × Json => m.1 != name) ∘ (fun m => if m.1 == name then (name, v) else m) =
        fun m => m.1 != name := by
      funext m
      by_cases hm : m.1 = name <;> simp [hm]
    rw [erase, List.filter_map, hkeep]
    refine (List.map_congr_left fun m hm => ?_).trans (List.map_id _)
    have hne : m.1 ≠ name := bne_iff_ne.1 (List.mem_filter.1 hm).2
    simp [hne]
  · simp [erase]

end Members

namespace Engine

variable {e : Engine} {template groupingKey source target fresh fresh' : String}
  {view view' grouping input : Members} {f : Members → Members}

/-! ### What is compared -/

/-- A member with the members of its value changed, if the value is of a kind. -/
def overMember (kind : Json → Bool) (f : Members → Members) (m : String × Json) : String × Json :=
  if kind m.2 then (m.1, m.2.overMembers f) else m

/-- A member of a grouping with its record changed, if it is a unit. -/
def overUnit (f : Members → Members) : String × Json → String × Json :=
  overMember isUnit (Members.mapAt "constants" (Json.overMembers f))

/-- A member of the root with the records of its units changed, if it is a grouping. -/
def overGrouping (f : Members → Members) : String × Json → String × Json :=
  overMember isGrouping (List.map (overUnit f))

/-- A document with the records of its units changed. -/
def overRecords (f : Members → Members) : Json → Json := Json.overMembers (List.map (overGrouping f))

/-- A document without the views in the records of its units. -/
def withoutViews : Json → Json := overRecords fun record => Members.erase record "view"

/-- What a run is compared by: the document, changed, or the kind of the problem. -/
def outcome (f : Json → Json) (r : Except Problem Json) : Except String Json :=
  (r.map f).mapError Problem.kind

/-- Two views have the same values for these names. -/
def Agree (names : List String) (view view' : Members) : Prop :=
  ∀ n ∈ names, Members.get? view n = Members.get? view' n

/-- The names that rendering looks at. -/
def influential (e : Engine) : List String :=
  [appName, applicationName] ++ e.parameters.map (·.name)

/-- The records for two views are the same once they are changed. -/
def Hides (f : Members → Members) (template : String) (view view' : Members) : Prop :=
  ∀ groupingKey key old, (constants template view groupingKey key old).overMembers f =
    (constants template view' groupingKey key old).overMembers f

/-- The view as it is recorded for a unit. -/
def recordedView (view : Members) (groupingKey key : String) : Members :=
  Members.insert (Members.insert view tenantName (.str groupingKey)) applicationName (.str key)

/-- The view is put into the record last. -/
theorem constants_eq (template : String) (view : Members) (groupingKey key : String)
    (old : Option Json) : constants template view groupingKey key old = .obj (Members.insert
      (Members.insertAll (membersOf old) [("class", .str "Constants"), ("template", .str template)])
      "view" (.obj (recordedView view groupingKey key))) := rfl

/-! ### Filling in -/

theorem segmentText_agree (h : Agree e.influential view view') (s : Segment) :
    e.segmentText view s = e.segmentText view' s := by
  cases s with
  | literal text => rfl
  | slot i =>
    cases hq : e.parameters[i]? with
    | none => simp [segmentText, hq]
    | some q =>
      have hname : q.name ∈ e.influential :=
        List.mem_append_right _ (List.mem_map_of_mem (List.mem_of_getElem? hq))
      simp [segmentText, hq, h q.name hname]

theorem substitute_agree (h : Agree e.influential view view') :
    e.substitute view = e.substitute view' := by
  rw [substitute, substitute, funext (segmentText_agree h)]

/-! ### Stitching -/

theorem renameOf_agree (h : Agree [appName, applicationName] view view') (grouping : Members) :
    renameOf view grouping = renameOf view' grouping := by
  unfold renameOf chosenUnit
  rw [h appName (by simp), h applicationName (by simp)]

theorem isUnit_attach (unit : Members) (key : String) :
    isUnit (.obj (attach template view groupingKey key unit)) = isUnit (.obj unit) := by
  have hclass : Members.get? (attach template view groupingKey key unit) "class" =
      Members.get? unit "class" := by
    rw [attach, Members.get?_insert, if_neg (by decide)]
  simp only [isUnit, hasClass, Json.get?, Json.members?, Option.bind_some, hclass]

/-- A unit that is stitched has the record that is made for it, changed. -/
theorem overUnit_attach {unit : Members} (h : IsUnit (.obj unit)) (key : String) :
    overUnit f (key, .obj (attach template view groupingKey key unit)) =
      (key, .obj (Members.insert unit "constants" (Json.overMembers f
        (constants template view groupingKey key (Members.get? unit "constants"))))) := by
  have hunit : isUnit (.obj (attach template view groupingKey key unit)) = true :=
    (isUnit_attach unit key).trans (isUnit_iff.2 h)
  rw [overUnit, overMember, if_pos hunit, Json.overMembers, attach, Members.mapAt_insert]

theorem overUnit_stitchMember (hf : Hides f template view view') (m : String × Json) :
    overUnit f (stitchMember template view groupingKey m) =
      overUnit f (stitchMember template view' groupingKey m) := by
  obtain ⟨key, node⟩ := m
  by_cases hunit : IsUnit node
  · obtain ⟨unit, rfl, hclass⟩ := hunit
    have hunit : IsUnit (.obj unit) := ⟨unit, rfl, hclass⟩
    rw [stitchMember_of_isUnit hunit, stitchMember_of_isUnit hunit, overUnit_attach hunit,
      overUnit_attach hunit, hf]
  · rw [stitchMember_of_not_isUnit hunit, stitchMember_of_not_isUnit hunit]

/-- Stitching leaves keys and texts as they are. -/
theorem text?_stitchMember (m : String × Json) :
    (stitchMember template view groupingKey m).1 = m.1 ∧
      (stitchMember template view groupingKey m).2.text? = m.2.text? := by
  obtain ⟨key, node⟩ := m
  unfold stitchMember
  cases node with
  | obj unit =>
    simp only
    split <;> exact ⟨rfl, rfl⟩
  | _ => exact ⟨rfl, rfl⟩

theorem isGrouping_map_stitchMember (ms : Members) :
    isGrouping (.obj (ms.map (stitchMember template view groupingKey))) = isGrouping (.obj ms) := by
  have hclass : (Members.get? (ms.map (stitchMember template view groupingKey)) "class").bind Json.text? =
      (Members.get? ms "class").bind Json.text? := by
    induction ms with
    | nil => rfl
    | cons m ms ih =>
      obtain ⟨hkey, htext⟩ : (stitchMember template view groupingKey m).1 = m.1 ∧
          (stitchMember template view groupingKey m).2.text? = m.2.text? := text?_stitchMember m
      rw [List.map_cons, Members.get?_cons, Members.get?_cons, hkey]
      split
      · exact htext
      · exact ih
  simp only [isGrouping, hasClass, Json.get?, Json.members?, Option.bind_some, hclass]

theorem overGrouping_map_stitchMember (hf : Hides f template view view') {ms : Members}
    (hg : IsGrouping (.obj ms)) :
    overGrouping f (groupingKey, .obj (ms.map (stitchMember template view groupingKey))) =
      overGrouping f (groupingKey, .obj (ms.map (stitchMember template view' groupingKey))) := by
  have hmembers : (ms.map (stitchMember template view groupingKey)).map (overUnit f) =
      (ms.map (stitchMember template view' groupingKey)).map (overUnit f) := by
    rw [List.map_map, List.map_map]
    exact List.map_congr_left fun m _ => overUnit_stitchMember hf m
  have hgrouping (view : Members) :
      isGrouping (.obj (ms.map (stitchMember template view groupingKey))) = true :=
    (isGrouping_map_stitchMember ms).trans (isGrouping_iff.2 hg)
  rw [overGrouping, overMember, overMember, if_pos (hgrouping view), if_pos (hgrouping view'),
    Json.overMembers, Json.overMembers, hmembers]

theorem get?_renameMember {name : String} (hs : name ≠ source) (ht : name ≠ target) (ms : Members) :
    Members.get? (renameMember source target ms) name = Members.get? ms name := by
  induction ms with
  | nil => rfl
  | cons m ms ih =>
    have hcons : renameMember source target (m :: ms) =
        (if m.1 = source then (target, m.2) else m) :: renameMember source target ms := rfl
    rw [hcons, Members.get?_cons, Members.get?_cons, ih]
    by_cases hm : m.1 = source
    · simp [hm, hs, ht]
    · simp [hm]

/-- A unit that moves leaves the class of its grouping alone. -/
theorem isGrouping_renameMember (hd : Members.Distinct grouping) (hg : IsGrouping (.obj grouping))
    (hmove : Moves view grouping source target) (htarget : ¬ Members.has grouping target = true) :
    IsGrouping (.obj (renameMember source target grouping)) := by
  obtain ⟨_, ⟨⟩, hclass⟩ := hg
  refine ⟨_, rfl, (get?_renameMember ?_ ?_ grouping).trans hclass⟩
  · rintro rfl
    obtain ⟨unit, hmem, ms, rfl, -⟩ := hmove.chosen.exists_unit
    cases (lookup_of_mem hd hmem).symm.trans hclass
  · rintro rfl
    exact htarget (Members.has_iff_exists.2 ⟨_, hclass⟩)

theorem stitchGrouping_agree (hd : Members.Distinct grouping) (hg : IsGrouping (.obj grouping))
    (h : Agree [appName, applicationName] view view') (hf : Hides f template view view') :
    (stitchGrouping template view groupingKey grouping).map
        (fun ms => overGrouping f (groupingKey, .obj ms)) =
      (stitchGrouping template view' groupingKey grouping).map
        (fun ms => overGrouping f (groupingKey, .obj ms)) := by
  unfold stitchGrouping
  rw [renameOf_agree h]
  split
  · exact congrArg Except.ok (overGrouping_map_stitchMember hf hg)
  · rename_i source target hmove
    split
    · rfl
    · rename_i htarget
      have hg := isGrouping_renameMember hd hg ((renameOf_eq_some_iff hd).1 hmove) htarget
      exact congrArg Except.ok (overGrouping_map_stitchMember hf hg)

theorem stitchRoot_agree (h : Agree [appName, applicationName] view view')
    (hf : Hides f template view view') {m : String × Json} (hm : m.2.merged = m.2) :
    (stitchRoot template view m).map (overGrouping f) =
      (stitchRoot template view' m).map (overGrouping f) := by
  obtain ⟨key, node⟩ := m
  by_cases hg : IsGrouping node
  · obtain ⟨grouping, rfl, hclass⟩ := hg
    have hg : IsGrouping (.obj grouping) := ⟨grouping, rfl, hclass⟩
    rw [stitchRoot_of_isGrouping hg, stitchRoot_of_isGrouping hg, map_map, map_map]
    exact stitchGrouping_agree (Json.distinct_of_merged hm).1 hg h hf
  · rw [stitchRoot_of_not_isGrouping hg, stitchRoot_of_not_isGrouping hg]

/-- **Stitching** with two views that agree on what it asks for gives documents that differ in the
records at most. -/
theorem stitch_agree (h : Agree [appName, applicationName] view view')
    (hf : Hides f template view view') {doc : Json} (hdoc : doc.merged = doc) :
    (stitch template view doc).map (overRecords f) = (stitch template view' doc).map (overRecords f) := by
  cases doc with
  | obj root =>
    have hroot : root.mapM (fun m => (stitchRoot template view m).map (overGrouping f)) =
        root.mapM fun m => (stitchRoot template view' m).map (overGrouping f) :=
      mapM_congr fun m hm => stitchRoot_agree h hf ((Json.distinct_of_merged hdoc).2 m hm)
    have hstitch (view : Members) : (stitch template view (.obj root)).map (overRecords f) =
        (root.mapM fun m => (stitchRoot template view m).map (overGrouping f)).map .obj := by
      rw [stitch, map_mapM, map_map, map_map]
      rfl
    rw [hstitch, hstitch, hroot]
  | _ => rfl

/-! ### Rendering -/

/-- Two runs have the same outcome if they come as far, up to the kind of a problem, and go on to the same
outcome. -/
theorem outcome_bind_congr {α : Type} {x x' : Except Problem α} {k k' : α → Except Problem Json}
    {g : Json → Json} (hx : x.mapError Problem.kind = x'.mapError Problem.kind)
    (hk : ∀ a, x = .ok a → outcome g (k a) = outcome g (k' a)) :
    outcome g (x >>= k) = outcome g (x' >>= k') := by
  cases x with
  | error p =>
    cases x' with
    | error p' => exact congrArg Except.error (Except.error.inj hx)
    | ok a' => cases hx
  | ok a =>
    cases x' with
    | error p' => cases hx
    | ok a' =>
      obtain rfl : a = a' := Except.ok.inj hx
      exact hk a rfl

/-- What is wrong with a text is worded with the view, but it is of one kind. -/
theorem kind_readDocument (e : Engine) (view : Members) (text : List Char) :
    (e.readDocument view text).mapError Problem.kind =
      (Json.parse text).mapError fun _ => "MalformedOutput" := by
  unfold readDocument
  cases Json.parse text <;> rfl

/-- **Two runs** whose views agree on the names that rendering looks at have the same outcome, apart from
the records. -/
theorem render_agree {input' : Members}
    (h : Agree e.influential (e.viewOf fresh input) (e.viewOf fresh' input'))
    (hf : Hides f e.name (e.viewOf fresh input) (e.viewOf fresh' input')) :
    outcome (overRecords f) (e.render fresh (.obj input)) =
      outcome (overRecords f) (e.render fresh' (.obj input')) := by
  have hrender (fresh : String) (input : Members) : e.render fresh (.obj input) =
      (e.substitute (e.viewOf fresh input) >>= fun text =>
        e.readDocument (e.viewOf fresh input) text >>= fun doc =>
          stitch e.name (e.viewOf fresh input) (unwrap doc)) := rfl
  have hstitch : Agree [appName, applicationName] (e.viewOf fresh input) (e.viewOf fresh' input') :=
    fun n hn => h n (List.mem_append_left _ hn)
  rw [hrender, hrender]
  refine outcome_bind_congr (congrArg _ (substitute_agree h)) fun text _ => ?_
  refine outcome_bind_congr ?_ fun doc hread => ?_
  · rw [kind_readDocument, kind_readDocument]
  · have hdoc := merged_unwrap (merged_of_parse (mapError_eq_ok hread))
    exact congrArg (·.mapError Problem.kind) (stitch_agree hstitch hf hdoc)

/-! ### Members that are no parameters -/

/-- An input that has an identifier is not given a fresh one. -/
theorem viewOf_of_uuid {u : Json} (huuid : Members.get? input uuidName = some u) (hu : u ≠ .null) :
    e.viewOf fresh input = e.rules.prepare input := by
  have hget : Members.get? (e.rules.prepare input) uuidName = some (e.rules.coerced uuidName u) := by
    rw [Rules.get?_prepare, huuid]
    rfl
  have hnull : (e.rules.coerced uuidName u).isNull = false := by
    unfold Rules.coerced
    cases u <;> first | exact absurd rfl hu | (split <;> rfl)
  simp [viewOf, hget, hnull]

theorem hides_withoutViews (template : String) (view view' : Members) :
    Hides (fun record => Members.erase record "view") template view view' := by
  intro groupingKey key old
  rw [constants_eq, constants_eq, Json.overMembers, Json.overMembers, Members.erase_insert,
    Members.erase_insert]

/-- Take an input that has an identifier, and give it a member that is no parameter, none of the names
that stitching asks for, and not the identifier. Rendering fails with a problem of the same kind as
before, or it gives the same document as before, apart from the views in the records of the units. -/
theorem render_insert (e : Engine) (fresh fresh' : String) {u : Json}
    (huuid : Members.get? input uuidName = some u) (hu : u ≠ .null) {m : String}
    (hparameter : m ∉ e.parameters.map (·.name)) (happ : m ≠ appName)
    (happlication : m ≠ applicationName) (hm : m ≠ uuidName) (x : Json) :
    outcome withoutViews (e.render fresh (.obj (Members.insert input m x))) =
      outcome withoutViews (e.render fresh' (.obj input)) := by
  have huuid' : Members.get? (Members.insert input m x) uuidName = some u := by
    rw [Members.get?_insert, if_neg hm.symm, huuid]
  refine render_agree (fun n hn => ?_) (hides_withoutViews e.name _ _)
  have hne : n ≠ m := by
    rintro rfl
    rcases List.mem_append.1 hn with hn | hn
    · simp [happ, happlication] at hn
    · exact hparameter hn
  rw [viewOf_of_uuid huuid' hu, viewOf_of_uuid huuid hu, Rules.get?_prepare, Rules.get?_prepare,
    Members.get?_insert, if_neg hne]

/-- A template with one unit in one grouping. -/
def unitText : String :=
  "\x7b\"t\": \x7b\"class\": \"Tenant\", \"a\": \x7b\"class\": \"Application\", \"v\": {{v}} \x7d\x7d\x7d"

/-- The color that is recorded for the unit. -/
def recordedColor (doc : Json) : Option Json :=
  ["t", "a", "constants", "view", "color"].foldlM Json.get? doc

/-- The recorded view shows a color, which has no other influence. -/
theorem render_insert_color : ∃ e doc doc', compile "x" unitText .empty = .ok e ∧
    e.render "id" (.obj [(uuidName, .str "u"), ("v", .str "w")]) = .ok doc ∧
    e.render "id" (.obj [(uuidName, .str "u"), ("v", .str "w"), ("color", .str "blue")]) = .ok doc' ∧
    recordedColor doc = none ∧ recordedColor doc' = some (.str "blue") ∧
    withoutViews doc' = withoutViews doc := by
  have hrun : (compile "x" unitText .empty).toOption.map (fun e => (e.parameters.map (·.name),
      (e.render "id" (.obj [(uuidName, .str "u"), ("v", .str "w")])).toOption.map recordedColor,
      (e.render "id" (.obj [(uuidName, .str "u"), ("v", .str "w"), ("color", .str "blue")])).toOption.map
        recordedColor)) = some (["v"], some none, some (some (.str "blue"))) := by
    decide +kernel
  obtain ⟨e, he, hrun⟩ := exists_of_toOption hrun
  obtain ⟨hnames, hrun⟩ := Prod.mk.inj hrun
  obtain ⟨hplain, hcolored⟩ := Prod.mk.inj hrun
  obtain ⟨doc, hdoc, hnone⟩ := exists_of_toOption hplain
  obtain ⟨doc', hdoc', hblue⟩ := exists_of_toOption hcolored
  have huuid : Members.get? [(uuidName, .str "u"), ("v", .str "w")] uuidName = some (.str "u") := rfl
  have hsame := render_insert e "id" "id" huuid nofun (m := "color") (by simp [hnames]) (by decide)
    (by decide) (by decide) (.str "blue")
  have hinsert : Members.insert [(uuidName, .str "u"), ("v", .str "w")] "color" (.str "blue") =
      [(uuidName, .str "u"), ("v", .str "w"), ("color", .str "blue")] := rfl
  rw [hinsert, hdoc, hdoc'] at hsame
  exact ⟨e, doc, doc', he, hdoc, hdoc', hnone, hblue, Except.ok.inj hsame⟩

end Engine

end Stencil
