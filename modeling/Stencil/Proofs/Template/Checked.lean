import Stencil.Proofs.Template.Stitching
import Stencil.Proofs.Template.Substitution
import Stencil.Proofs.Template.Validation

/-!
# Rendering what was checked

Checking an input wraps the values of array parameters, and rendering wraps them and then fills in
defaults; so the value of a slot is the one that was checked. An input that passes has a value for
every parameter that is not reserved. A value is written as it is only for numbers and truth values,
and then the schema of its parameter has let no string pass. Hence an input that passes fills every
slot with JSON, apart from those of the reserved parameters: this is the text that is filled in, and what
is rendered is stitched from the document that it says (`render_of_checked`).
-/

namespace Stencil

/-- Only a string is ever written as it is. -/
theorem Interpolation.write_eq_print {i : Interpolation} {v : Json} (h : i = .raw → ∀ s, v ≠ .str s) :
    i.write v = v.print := by
  cases i with
  | json => cases v <;> rfl
  | raw =>
    cases v with
    | str s => exact absurd rfl (h rfl s)
    | _ => rfl

/-- The types whose values are written as they are. -/
theorem ParameterType.exists_of_raw {type : ParameterType} (h : type.interpolation = .raw) :
    ∃ p, type = .primitive p ∧ ∀ v, Schema.hasType p.name v = true → ∀ s, v ≠ .str s := by
  cases type with
  | text => cases h
  | fragment set name => cases h
  | primitive p =>
    refine ⟨p, rfl, ?_⟩
    rintro v hv s rfl
    cases p with
    | object | array | string => cases h
    | boolean | number | integer => cases hv

namespace Engine

open Template

variable {name source fresh : String} {fragments : Fragments} {e : Engine} {input view : Members}

/-! ### The view of a checked input -/

theorem get?_viewOf (e : Engine) (fresh : String) (input : Members) {n : String} (hn : n ≠ uuidName) :
    Members.get? (e.viewOf fresh input) n = Members.get? (e.rules.prepare input) n := by
  rw [viewOf]
  split
  · rw [Members.get?_insert, if_neg hn]
  · rfl

/-- There always is an identifier. -/
theorem exists_uuid (e : Engine) (fresh : String) (input : Members) :
    ∃ v, Members.get? (e.viewOf fresh input) uuidName = some v := by
  rw [viewOf]
  split
  · exact ⟨.str fresh, by rw [Members.get?_insert, if_pos rfl]⟩
  · rename_i h
    cases hv : Members.get? (e.rules.prepare input) uuidName with
    | none => simp [hv] at h
    | some v => exact ⟨v, rfl⟩

/-- A parameter that is not reserved has a value in the view of an input that passes. Where the schema of
the parameter tells a type, the value has it. -/
theorem exists_value [Validator] [Validator.Standard] (h : compile name source fragments = .ok e)
    (hi : e.issues (.obj input) = []) (fresh : String) {q : Parameter} (hq : q ∈ visible e) :
    ∃ v, Members.get? (e.viewOf fresh input) q.name = some v ∧
      ∀ type default, Schema.TypeSchema type default q.schema → Schema.hasType type v = true := by
  obtain ⟨v, hv, htype⟩ := (ruled_of_compile h).exists_of_issues_eq_nil hi hq
  have hname : q.name ≠ uuidName := (of_decide_eq_true (List.mem_filter.1 hq).2).1
  refine ⟨e.rules.coerced q.name v, ?_, htype⟩
  rw [get?_viewOf e fresh input hname, Rules.get?_prepare, hv]
  rfl

/-! ### Slots -/

/-- What a slot may take as it is has no string among its values, so each is written as JSON. -/
theorem write_eq_print_of_hasType [Validator] (h : compile name source fragments = .ok e) {q : Parameter}
    (hq : q ∈ visible e) {v : Json}
    (hv : ∀ type default, Schema.TypeSchema type default q.schema → Schema.hasType type v = true) :
    q.interpolation.write v = v.print := by
  obtain ⟨spans, hs, hqs, -⟩ := exists_scan_of_compile h
  refine Interpolation.write_eq_print fun hraw => ?_
  have hinterpolation : q.interpolation = q.type.interpolation := by
    obtain ⟨w, -, hdescribe⟩ := exists_of_mem_right hqs (List.mem_filter.1 hq).1
    obtain ⟨fragment, widget, -, rfl⟩ := describe_eq_ok_iff.1 hdescribe
    rfl
  obtain ⟨p, hp, hstring⟩ := ParameterType.exists_of_raw (hinterpolation.symm.trans hraw)
  have hbasic : q.type.basic? = some p := by rw [hp]; rfl
  rw [← filter_reserved hqs] at hq
  obtain ⟨p', d, hp', -, hschema⟩ := isPlain_of_basic? hs hqs hq hbasic
  obtain rfl := Option.some.inj (hbasic.symm.trans hp')
  exact hstring v (hv _ _ hschema)

/-- A slot holds the index of a parameter. -/
theorem exists_parameter_of_slot [Validator] (h : compile name source fragments = .ok e) {i : Nat}
    (hi : .slot i ∈ e.segments) : ∃ q, e.parameters[i]? = some q := by
  obtain ⟨spans, -, hqs, hslots, -⟩ := exists_scan_of_compile h
  have hmem : i ∈ slots e.segments := List.mem_filterMap.2 ⟨.slot i, hi, rfl⟩
  rw [hslots] at hmem
  obtain ⟨p, hp, rfl⟩ := List.mem_map.1 hmem
  obtain ⟨q, hq, -⟩ := getElem?_parameters hqs (mem_winners.2 (List.mem_map_of_mem hp))
  exact ⟨q, hq⟩

/-- What is written for a segment: literal text as it is, and for a slot the JSON of the value that the
view has for its parameter. A reserved parameter is written in its own way. -/
inductive Inserts (e : Engine) (view : Members) : Segment → List Char → Prop where
  | literal (text : List Char) : Inserts e view (.literal text) text
  | value {i : Nat} {q : Parameter} {v : Json} (hq : e.parameters[i]? = some q)
      (huuid : q.name ≠ uuidName) (happ : q.name ≠ applicationName)
      (hv : Members.get? view q.name = some v) : Inserts e view (.slot i) v.print
  | reserved {i : Nat} {q : Parameter} {v : Json} (hq : e.parameters[i]? = some q)
      (hname : q.name = uuidName ∨ q.name = applicationName)
      (hv : Members.get? view q.name = some v) : Inserts e view (.slot i) (q.interpolation.write v)

/-- Every segment of a template can be written for an input that passes, unless `application_name` has no
value. -/
theorem exists_inserts [Validator] [Validator.Standard] (h : compile name source fragments = .ok e)
    (hi : e.issues (.obj input) = []) (fresh : String) {s : Segment} (hs : s ∈ e.segments) :
    (∃ text, e.segmentText (e.viewOf fresh input) s = .ok text ∧
      e.Inserts (e.viewOf fresh input) s text) ∨
    Members.get? (e.viewOf fresh input) applicationName = none ∧
      e.segmentText (e.viewOf fresh input) s = .error (.missingParameter e.name applicationName) := by
  cases s with
  | literal text => exact .inl ⟨text, rfl, .literal text⟩
  | slot i =>
    obtain ⟨q, hq⟩ := exists_parameter_of_slot h hs
    by_cases happ : q.name = applicationName
    · cases hv : Members.get? (e.viewOf fresh input) q.name with
      | none =>
        rw [happ] at hv
        exact .inr ⟨hv, by simp [segmentText, hq, happ, hv]⟩
      | some v => exact .inl ⟨_, segmentText_eq_ok hq hv, .reserved hq (.inr happ) hv⟩
    · by_cases huuid : q.name = uuidName
      · obtain ⟨v, hv⟩ := exists_uuid e fresh input
        rw [← huuid] at hv
        exact .inl ⟨_, segmentText_eq_ok hq hv, .reserved hq (.inl huuid) hv⟩
      · have hvisible : q ∈ visible e :=
          List.mem_filter.2 ⟨List.mem_of_getElem? hq, by simp [huuid, happ]⟩
        obtain ⟨v, hv, htype⟩ := exists_value h hi fresh hvisible
        refine .inl ⟨v.print, ?_, .value hq huuid happ hv⟩
        rw [segmentText_eq_ok hq hv, write_eq_print_of_hasType h hvisible htype]

/-! ### Rendering -/

/-- **The text of a template for an input that passes**: what is written for its segments, one behind the
other. -/
theorem substitute_of_checked [Validator] [Validator.Standard]
    (h : compile name source fragments = .ok e) (hi : e.issues (.obj input) = []) (fresh : String) :
    (∃ pieces, e.substitute (e.viewOf fresh input) = .ok pieces.flatten ∧
      List.Forall₂ (e.Inserts (e.viewOf fresh input)) e.segments pieces) ∨
    Members.get? (e.viewOf fresh input) applicationName = none ∧
      e.substitute (e.viewOf fresh input) = .error (.missingParameter e.name applicationName) := by
  cases hpieces : e.segments.mapM (e.segmentText (e.viewOf fresh input)) with
  | ok pieces =>
    refine .inl ⟨pieces, by rw [substitute, hpieces]; rfl, ?_⟩
    have htexts := (List.forall₂_and_left (p := (· ∈ e.segments)) _ _).2
      ⟨fun _ hs => hs, mapM_eq_ok_iff.1 hpieces⟩
    refine htexts.imp fun s piece hpair => ?_
    obtain ⟨hs, hpiece⟩ := hpair
    rcases exists_inserts h hi fresh hs with ⟨text, htext, hinserts⟩ | ⟨-, hfail⟩
    · rwa [Except.ok.inj (hpiece.symm.trans htext)]
    · rw [hpiece] at hfail
      cases hfail
  | error problem =>
    obtain ⟨before, s, after, hsegments, -, hs⟩ := mapM_eq_error_iff.1 hpieces
    rcases exists_inserts h hi fresh (s := s) (by simp [hsegments]) with ⟨text, htext, -⟩ | ⟨hnone, hfail⟩
    · rw [hs] at htext
      cases htext
    · refine .inr ⟨hnone, ?_⟩
      rw [substitute, hpieces, ← Except.error.inj (hs.symm.trans hfail)]
      rfl

/-- Neither the view nor reading nor stitching misses a parameter. -/
theorem substitute_of_render_missing {input : Json} {template parameter : String}
    (h : e.render fresh input = .error (.missingParameter template parameter)) :
    ∃ view, e.view fresh input = .ok view ∧
      e.substitute view = .error (.missingParameter template parameter) := by
  rcases bind_eq_error_iff.1 h with hview | ⟨view, hview, h⟩
  · cases input <;> cases hview
  refine ⟨view, hview, ?_⟩
  rcases bind_eq_error_iff.1 h with hsubstitute | ⟨text, -, h⟩
  · exact hsubstitute
  rcases bind_eq_error_iff.1 h with hread | ⟨doc, hread, hstitch⟩
  · obtain ⟨fault, -, hfault⟩ := mapError_eq_error hread
    cases hfault
  · have hmerged := merged_unwrap (merged_of_parse (mapError_eq_ok hread))
    obtain ⟨_, m, _, -, -, hm⟩ := (stitch_eq_error_iff hmerged).1 hstitch
    obtain ⟨_, _, _, -, -, -, -, hproblem⟩ := hm
    cases hproblem

/-- A document is stitched from what the filled-in text says. -/
theorem exists_of_render_eq_ok {input doc : Json} (h : e.render fresh input = .ok doc)
    (hview : e.view fresh input = .ok view) : ∃ text document, e.substitute view = .ok text ∧
      Json.parse text = .ok document ∧ stitch e.name view (unwrap document) = .ok doc := by
  obtain ⟨view', hview', h⟩ := bind_eq_ok_iff.1 h
  obtain rfl := Except.ok.inj (hview.symm.trans hview')
  obtain ⟨text, hsubstitute, h⟩ := bind_eq_ok_iff.1 h
  obtain ⟨document, hread, hstitch⟩ := bind_eq_ok_iff.1 h
  exact ⟨text, document, hsubstitute, mapError_eq_ok hread, hstitch⟩

/-- **What passes is safe to render.** Where nothing is wrong with an input, rendering it can miss no
parameter but `application_name`. Unless that one is missing, the text of the template is filled in: each
slot of a parameter that is not reserved takes the JSON of the value that the view has for it. What is
rendered is stitched from the document that this text says. -/
theorem render_of_checked [Validator] [Validator.Standard] (h : compile name source fragments = .ok e)
    (input : Json) (hi : e.issues input = []) (fresh : String) :
    (∀ template parameter, e.render fresh input = .error (.missingParameter template parameter) →
      parameter = applicationName) ∧
    ∃ view, e.view fresh input = .ok view ∧
      ((∃ pieces, e.substitute view = .ok pieces.flatten ∧
          List.Forall₂ (e.Inserts view) e.segments pieces) ∨
        Members.get? view applicationName = none ∧
          e.substitute view = .error (.missingParameter e.name applicationName)) ∧
      ∀ doc, e.render fresh input = .ok doc → ∃ text document, e.substitute view = .ok text ∧
        Json.parse text = .ok document ∧ stitch e.name view (unwrap document) = .ok doc := by
  cases input with
  | obj ms =>
    have hsubstitute := substitute_of_checked h hi fresh
    refine ⟨fun template parameter hrender => ?_, _, rfl, hsubstitute,
      fun doc hdoc => exists_of_render_eq_ok hdoc rfl⟩
    obtain ⟨view, hview, hmissing⟩ := substitute_of_render_missing hrender
    obtain rfl := Except.ok.inj hview
    rcases hsubstitute with ⟨pieces, hok, -⟩ | ⟨-, hfail⟩
    · rw [hok] at hmissing
      cases hmissing
    · rw [hfail] at hmissing
      exact (Problem.missingParameter.inj (Except.error.inj hmissing)).2.symm
  | _ => cases hi

/-- A number of a fragment, a text, a number, and the name that rendering gives. -/
def assorted : String :=
  "\x7b\"p\": {{p:net:port}}, \"s\": {{s}}, \"n\": {{n:integer}}, \"a\": {{application_name}}\x7d"

/-- Values for all of them. -/
def assortedInput : Members :=
  [("p", .num (.int 1)), ("s", .str "x\"y"), ("n", .num (.int 2)), ("application_name", .str "b")]

/-- What is filled in for these values. -/
def assortedOutput : String := "\x7b\"p\": 1, \"s\": \"x\\\"y\", \"n\": 2, \"a\": \"b\"\x7d"

/-- The text is quoted, and the numbers stand as they are. -/
theorem render_of_checked_assorted : ∃ e pieces doc document,
    compile "x" assorted ⟨[("net", [("port", .obj [("type", .str "number")])])]⟩ = .ok e ∧
      e.issues (.obj assortedInput) = [] ∧
      e.substitute (e.viewOf "id" assortedInput) = .ok pieces.flatten ∧
      List.Forall₂ (e.Inserts (e.viewOf "id" assortedInput)) e.segments pieces ∧
      pieces.flatten = assortedOutput.toList ∧ e.render "id" (.obj assortedInput) = .ok doc ∧
      Json.parse assortedOutput.toList = .ok document ∧
      stitch e.name (e.viewOf "id" assortedInput) (unwrap document) = .ok doc := by
  have hcompile : (compile "x" assorted
      ⟨[("net", [("port", .obj [("type", .str "number")])])]⟩).toOption.map (fun e =>
        (e.issues (.obj assortedInput), (e.substitute (e.viewOf "id" assortedInput)).toOption,
          (e.render "id" (.obj assortedInput)).toOption.isSome)) =
      some ([], some assortedOutput.toList, true) := by
    decide +kernel
  obtain ⟨e, he, hcompile⟩ := exists_of_toOption hcompile
  obtain ⟨hissues, hrest⟩ := Prod.mk.inj hcompile
  obtain ⟨hsome, hrender⟩ := Prod.mk.inj hrest
  have htext : e.substitute (e.viewOf "id" assortedInput) = .ok assortedOutput.toList := by
    cases hs : e.substitute (e.viewOf "id" assortedInput) with
    | ok text => rw [hs] at hsome; exact congrArg _ (Option.some.inj hsome)
    | error problem => rw [hs] at hsome; cases hsome
  obtain ⟨doc, hdoc⟩ := exists_of_isSome hrender
  obtain ⟨-, view, hview, hfilled, hstitched⟩ := render_of_checked he _ hissues "id"
  obtain rfl := Except.ok.inj hview
  obtain ⟨text, document, hsubstitute, hparse, hstitch⟩ := hstitched doc hdoc
  rcases hfilled with ⟨pieces, hpieces, hinserts⟩ | ⟨-, hmissing⟩
  · obtain rfl := Except.ok.inj (htext.symm.trans hsubstitute)
    exact ⟨e, pieces, doc, document, he, hissues, hpieces, hinserts,
      Except.ok.inj (hpieces.symm.trans htext), hdoc, hparse, hstitch⟩
  · rw [htext] at hmissing
    cases hmissing

end Engine

end Stencil
