import Stencil.Proofs.Template.Checked
import Stencil.Proofs.Template.Influence

/-!
# Parameters that are left out

A parameter that is left out takes its default. The default of the description and the one of the schema
are set together, but only the second one is filled in, and it is filled in as it stands, while a value
that is passed is wrapped for an array parameter first. So leaving a parameter out is the same as passing
its default where the schema of the parameter is an object and the default needs no wrapping, and there
only (`FilledAsPassed`, `render_omitted`).

What is compared are the outcomes of two runs, with the members of the recorded views in the order of
their names.
-/

namespace Stencil

namespace Members

/-- The members in the order of their names. Of members of one name the first one stays, which is the one
that counts. -/
def byName (ms : Members) : Members := NameMap.ofList ms.reverse

theorem get?_byName (ms : Members) (n : String) : NameMap.get? (byName ms) n = get? ms n := by
  rw [byName, NameMap.get?_ofList, List.reverse_reverse]
  rfl

/-- Members that answer alike are the same once they are in order. -/
theorem byName_congr {ms ms' : Members} (h : ∀ n, get? ms n = get? ms' n) : byName ms = byName ms' := by
  refine NameMap.eq_of_sorted (NameMap.sorted_ofList _) (NameMap.sorted_ofList _) fun n => ?_
  exact (get?_byName ms n).trans ((h n).trans (get?_byName ms' n).symm)

end Members

namespace Rules

theorem wrap_eq_self_iff {d : Json} : wrap d = d ↔ d = .null ∨ ∃ items, d = .arr items := by
  cases d <;> simp [wrap]

end Rules

namespace Engine

open Template

variable {name source template : String} {fragments : Fragments} {e : Engine} {q : Parameter} {d : Json}
  {view view' input : Members}

/-- The default of a parameter is filled in as it would be passed: the schema of the parameter can hold
it, and it is not wrapped. -/
structure FilledAsPassed (q : Parameter) (d : Json) : Prop where
  object : ∃ ms, q.schema = .obj ms
  array : Rules.describesArray q.schema = true → d = .null ∨ ∃ items, d = .arr items

/-- A document with the members of the views in its records in the order of their names. -/
def inOrder : Json → Json := overRecords (Members.mapAt "view" (Json.overMembers Members.byName))

theorem hides_inOrder (h : ∀ n, Members.get? view n = Members.get? view' n) :
    Hides (Members.mapAt "view" (Json.overMembers Members.byName)) template view view' := by
  intro groupingKey key old
  have hrecorded : Members.byName (recordedView view groupingKey key) =
      Members.byName (recordedView view' groupingKey key) := by
    refine Members.byName_congr fun n => ?_
    simp only [recordedView, Members.get?_insert, h]
  have hconstants (view : Members) : (constants template view groupingKey key old).overMembers
      (Members.mapAt "view" (Json.overMembers Members.byName)) = .obj (Members.insert
        (Members.insertAll (membersOf old) [("class", .str "Constants"), ("template", .str template)])
        "view" (.obj (Members.byName (recordedView view groupingKey key)))) := by
    rw [constants_eq, Json.overMembers, Members.mapAt_insert, Json.overMembers]
  rw [hconstants, hconstants, hrecorded]

/-! ### The parameters of a compiled template -/

/-- The schema of a parameter that has a default has the same default, if it is an object. -/
theorem get?_schema_of_compile [Validator] (h : compile name source fragments = .ok e) (hq : q ∈ e.parameters)
    (hd : q.default = some d) {ms : Members} (hms : q.schema = .obj ms) :
    q.schema.get? "default" = some d := by
  obtain ⟨spans, -, hqs, -⟩ := exists_scan_of_compile h
  obtain ⟨w, -, hdescribe⟩ := exists_of_mem_right hqs hq
  obtain ⟨fragment, widget, -, rfl⟩ := describe_eq_ok_iff.1 hdescribe
  obtain hd : defaultOf w fragment = some d := hd
  simp only [hd] at hms ⊢
  cases fragment with
  | obj keywords =>
    show Members.get? (Members.insert keywords "default" d) "default" = some d
    rw [Members.get?_insert, if_pos rfl]
  | _ => cases hms

/-- Every parameter has a slot. -/
theorem exists_slot [Validator] (h : compile name source fragments = .ok e) (hq : q ∈ e.parameters) :
    ∃ i q', .slot i ∈ e.segments ∧ e.parameters[i]? = some q' ∧ q'.name = q.name := by
  obtain ⟨spans, -, hqs, hslots, -⟩ := exists_scan_of_compile h
  obtain ⟨w, hw, hdescribe⟩ := exists_of_mem_right hqs hq
  have hmem := (mem_winners_iff.1 hw).mem
  have hslot : (winners (occurrences spans)).findIdx (·.name == w.name) ∈ slots e.segments := by
    rw [hslots]
    exact List.mem_map_of_mem hmem
  obtain ⟨segment, hsegment, hindex⟩ := List.mem_filterMap.1 hslot
  obtain ⟨q', hq', hname⟩ := getElem?_parameters hqs (mem_winners.2 (List.mem_map_of_mem hmem))
  cases segment with
  | literal text => cases hindex
  | slot i =>
    obtain rfl := Option.some.inj hindex
    exact ⟨_, q', hsegment, hq', hname.trans (describe_eq_ok hdescribe).1.symm⟩

theorem of_segmentText_eq_error {s : Segment} {p : Problem} (h : e.segmentText view s = .error p) :
    ∃ n, p = .missingParameter e.name n := by
  unfold segmentText at h
  split at h
  · cases h
  · split at h
    · cases h
    · split at h
      · cases h
      · exact ⟨_, (Except.error.inj h).symm⟩

/-- Filling in fails where the view has no value for a parameter. -/
theorem exists_missing [Validator] (h : compile name source fragments = .ok e) (hq : q ∈ e.parameters)
    (hnone : Members.get? view q.name = none) :
    ∃ n, e.substitute view = .error (.missingParameter e.name n) := by
  obtain ⟨i, q', hslot, hq', hname⟩ := exists_slot h hq
  have hfails : ¬ ∃ texts, e.segments.mapM (e.segmentText view) = .ok texts := by
    rw [exists_mapM_iff]
    intro hall
    obtain ⟨text, htext⟩ := hall _ hslot
    simp [segmentText, hq', hname, hnone] at htext
  unfold substitute
  cases hp : e.segments.mapM (e.segmentText view) with
  | ok texts => exact absurd ⟨texts, hp⟩ hfails
  | error p =>
    obtain ⟨_, segment, _, -, -, hsegment⟩ := mapM_eq_error_iff.1 hp
    obtain ⟨n, rfl⟩ := of_segmentText_eq_error hsegment
    exact ⟨n, rfl⟩

/-! ### Two runs -/

theorem get?_prepare_omitted [Validator] (h : compile name source fragments = .ok e) (hq : q ∈ visible e)
    (homitted : Members.get? input q.name = none) :
    Members.get? (e.rules.prepare input) q.name = q.schema.get? "default" := by
  rw [Rules.get?_prepare, homitted, (ruled_of_compile h).get?_defaults hq]
  rfl

theorem get?_prepare_passed [Validator] (h : compile name source fragments = .ok e) (hq : q ∈ visible e)
    (d : Json) : Members.get? (e.rules.prepare (Members.insert input q.name d)) q.name =
      some (if Rules.describesArray q.schema then Rules.wrap d else d) := by
  rw [Rules.get?_prepare, Members.get?_insert, if_pos rfl, Option.map_some,
    (ruled_of_compile h).coerced_eq hq]
  rfl

/-- **The views are the same** where the default is filled in as it would be passed, and there only. -/
theorem filledAsPassed_iff [Validator] (h : compile name source fragments = .ok e) (hq : q ∈ visible e)
    (hd : q.default = some d) (homitted : Members.get? input q.name = none) :
    FilledAsPassed q d ↔ ∀ n, Members.get? (e.rules.prepare input) n =
      Members.get? (e.rules.prepare (Members.insert input q.name d)) n := by
  have hmem := (List.mem_filter.1 hq).1
  constructor
  · rintro ⟨⟨ms, hms⟩, harray⟩ n
    by_cases hn : n = q.name
    · subst hn
      have hwrap : (if Rules.describesArray q.schema then Rules.wrap d else d) = d := by
        split
        · rename_i hdescribes
          exact Rules.wrap_eq_self_iff.2 (harray hdescribes)
        · rfl
      rw [get?_prepare_omitted h hq homitted, get?_prepare_passed h hq, hwrap,
        get?_schema_of_compile h hmem hd hms]
    · rw [Rules.get?_prepare, Rules.get?_prepare, Members.get?_insert, if_neg hn]
  · intro hsame
    have hdefault := hsame q.name
    rw [get?_prepare_omitted h hq homitted, get?_prepare_passed h hq] at hdefault
    obtain ⟨ms, hms⟩ : ∃ ms, q.schema = .obj ms := by
      cases hschema : q.schema with
      | obj ms => exact ⟨ms, rfl⟩
      | _ =>
        rw [hschema] at hdefault
        cases hdefault
    refine ⟨⟨ms, hms⟩, fun hdescribes => Rules.wrap_eq_self_iff.1 ?_⟩
    rw [get?_schema_of_compile h hmem hd hms, if_pos hdescribes] at hdefault
    exact (Option.some.inj hdefault).symm

/-- Take a parameter that has a default and is not reserved, and an input that has an identifier and
leaves the parameter out. If the default is filled in as it would be passed, the input has the same
outcome as the one that passes the default: problems of the same kind, or documents that are equal up to
the order in the recorded views. Then and only then the two runs have the same view. If the schema of the
parameter is no object, nothing is filled in, and the input fails for a missing parameter. -/
theorem render_omitted [Validator] (h : compile name source fragments = .ok e) (hq : q ∈ e.parameters)
    (hreserved : q.reserved = false) (hd : q.default = some d) {u : Json}
    (huuid : Members.get? input uuidName = some u) (hu : u ≠ .null)
    (homitted : Members.get? input q.name = none) (fresh fresh' : String) :
    (FilledAsPassed q d → outcome inOrder (e.render fresh (.obj input)) =
      outcome inOrder (e.render fresh' (.obj (Members.insert input q.name d)))) ∧
    (FilledAsPassed q d ↔ ∀ n, Members.get? (e.viewOf fresh input) n =
      Members.get? (e.viewOf fresh' (Members.insert input q.name d)) n) ∧
    ((∀ ms, q.schema ≠ .obj ms) →
      ∃ n, e.render fresh (.obj input) = .error (.missingParameter e.name n)) := by
  have hvisible : q ∈ visible e := by
    obtain ⟨spans, -, hqs, -⟩ := exists_scan_of_compile h
    rw [← filter_reserved hqs]
    exact List.mem_filter.2 ⟨hq, by simp [hreserved]⟩
  have hname : uuidName ≠ q.name := (of_decide_eq_true (List.mem_filter.1 hvisible).2).1.symm
  have huuid' : Members.get? (Members.insert input q.name d) uuidName = some u := by
    rw [Members.get?_insert, if_neg hname, huuid]
  have hview : e.viewOf fresh input = e.rules.prepare input := viewOf_of_uuid huuid hu
  have hview' : e.viewOf fresh' (Members.insert input q.name d) =
      e.rules.prepare (Members.insert input q.name d) := viewOf_of_uuid huuid' hu
  have hsame : FilledAsPassed q d ↔ ∀ n, Members.get? (e.viewOf fresh input) n =
      Members.get? (e.viewOf fresh' (Members.insert input q.name d)) n := by
    rw [hview, hview']
    exact filledAsPassed_iff h hvisible hd homitted
  refine ⟨fun hfilled => ?_, hsame, fun hschema => ?_⟩
  · have hagree := hsame.1 hfilled
    exact render_agree (fun n _ => hagree n) (hides_inOrder hagree)
  · have hnone : Members.get? (e.viewOf fresh input) q.name = none := by
      rw [hview, get?_prepare_omitted h hvisible homitted]
      cases hj : q.schema with
      | obj ms => exact absurd hj (hschema ms)
      | _ => rfl
    obtain ⟨n, hn⟩ := exists_missing h hq hnone
    refine ⟨n, bind_eq_error_iff.2 (.inr ⟨_, rfl, bind_eq_error_iff.2 (.inl hn)⟩)⟩

/-- A fragment for arrays whose default is a single item. -/
def itemArray : Json := .obj [("type", .str "array"), ("default", .str "x")]

/-- A plain parameter can be left out. The one for arrays gets the item itself if it is left out, and an
array of the item if it is passed. -/
theorem render_omitted_itemArray : ∃ e q q',
    compile "x" "[{{v}},{{a:s:f}}]" ⟨[("s", [("f", itemArray)])]⟩ = .ok e ∧
    q ∈ e.parameters ∧ q.default = some (.str "") ∧ FilledAsPassed q (.str "") ∧
    outcome inOrder (e.render "id" (.obj [(uuidName, .str "u")])) =
      outcome inOrder (e.render "id" (.obj [(uuidName, .str "u"), ("v", .str "")])) ∧
    q' ∈ e.parameters ∧ q'.default = some (.str "x") ∧ ¬ FilledAsPassed q' (.str "x") ∧
    (e.render "id" (.obj [(uuidName, .str "u")])).toOption = some (.arr [.str "", .str "x"]) ∧
    (e.render "id" (.obj [(uuidName, .str "u"), ("a", .str "x")])).toOption =
      some (.arr [.str "", .arr [.str "x"]]) := by
  have hcompile : (compile "x" "[{{v}},{{a:s:f}}]" ⟨[("s", [("f", itemArray)])]⟩).toOption.map
      (fun e => e.parameters.map fun q => (q.name, q.default, q.schema, q.reserved)) =
      some [("v", some (.str ""), withDefault (.obj [("type", .str "string")]) (some (.str "")), false),
        ("a", some (.str "x"), itemArray, false)] := by
    decide +kernel
  have hrender : (compile "x" "[{{v}},{{a:s:f}}]" ⟨[("s", [("f", itemArray)])]⟩).toOption.map
      (fun e => ((e.render "id" (.obj [(uuidName, .str "u")])).toOption,
        (e.render "id" (.obj [(uuidName, .str "u"), ("a", .str "x")])).toOption)) =
      some (some (.arr [.str "", .str "x"]), some (.arr [.str "", .arr [.str "x"]])) := by
    decide +kernel
  obtain ⟨e, he, hparameters⟩ := exists_of_toOption hcompile
  rw [he] at hrender
  obtain ⟨hdoc, hdoc'⟩ := Prod.mk.inj (Option.some.inj hrender)
  have hfields {fields : String × Option Json × Json × Bool}
      (h : fields ∈ [("v", some (.str ""), withDefault (.obj [("type", .str "string")]) (some (.str "")),
        false), ("a", some (.str "x"), itemArray, false)]) :
      ∃ q ∈ e.parameters, (q.name, q.default, q.schema, q.reserved) = fields := by
    rw [← hparameters] at h
    exact List.mem_map.1 h
  obtain ⟨q, hq, hv⟩ := hfields List.mem_cons_self
  obtain ⟨q', hq', ha⟩ := hfields (List.mem_cons_of_mem _ List.mem_cons_self)
  simp only [Prod.mk.injEq] at hv ha
  obtain ⟨hname, hdefault, hschema, hreserved⟩ := hv
  obtain ⟨-, hdefault', hschema', -⟩ := ha
  have hfilled : FilledAsPassed q (.str "") :=
    ⟨⟨_, hschema⟩, fun harray => absurd (hschema ▸ harray) (by decide)⟩
  have huuid : Members.get? [(uuidName, .str "u")] uuidName = some (.str "u") := rfl
  have homitted : Members.get? [(uuidName, .str "u")] q.name = none := by
    rw [hname]
    rfl
  have hsame := (render_omitted he hq hreserved hdefault huuid nofun homitted "id" "id").1 hfilled
  rw [hname] at hsame
  refine ⟨e, q, q', he, hq, hdefault, hfilled, hsame, hq', hdefault', fun hfilled' => ?_, hdoc, hdoc'⟩
  obtain h | ⟨items, h⟩ := hfilled'.array (by rw [hschema']; rfl) <;> cases h

end Engine

end Stencil
