import Mathlib.Algebra.Order.Ring.Nat
import Stencil.Proofs.Schema.Objects
import Stencil.Proofs.Template.Parameters

/-!
# Validation of plain templates

A template whose placeholders are bare or have a type of their own, and refer to no fragments, compiles
as soon as its tokens can be read. An input for it passes if each parameter that is not reserved is
there with a value of its type (`ParameterType.Accepts`). Preparing the input puts in what is left out,
with defaults that pass themselves; so what is wrong with a prepared input is wrong with a value that
was given (`validation_of_plain`).
-/

namespace Stencil

/-! ### Types and their values -/

/-- The number has no fraction: `2 ^ 1074` divides its significand, scaled. -/
def Number.Whole : Number → Prop
  | .int _ => True
  | .float x => 2 ^ 1074 ∣ x.significand * 2 ^ x.scale

/-- The type of the values, if the type of a parameter gives one. -/
def ParameterType.basic? : ParameterType → Option Primitive
  | .primitive p => some p
  | .text => some .string
  | .fragment _ _ => none

/-- The value is an instance of the type. For an array any value but null will do, because it can be
made the only item of one. -/
inductive ParameterType.Accepts : ParameterType → Json → Prop where
  | boolean (b : Bool) : Accepts (.primitive .boolean) (.bool b)
  | object (ms : Members) : Accepts (.primitive .object) (.obj ms)
  | array {v : Json} (hv : v ≠ .null) : Accepts (.primitive .array) v
  | number (n : Number) : Accepts (.primitive .number) (.num n)
  | string (s : String) : Accepts (.primitive .string) (.str s)
  | integer {n : Number} (hn : n.Whole) : Accepts (.primitive .integer) (.num n)
  | text (s : String) : Accepts .text (.str s)

theorem dvd_mul_pow_iff {a b n : Nat} (h : a ≤ b) : 2 ^ b ∣ n * 2 ^ a ↔ 2 ^ (b - a) ∣ n := by
  obtain ⟨c, rfl⟩ := Nat.exists_eq_add_of_le h
  rw [Nat.add_sub_cancel_left, Nat.pow_add, Nat.mul_comm (2 ^ a)]
  exact Nat.mul_dvd_mul_iff_right (Nat.two_pow_pos a)

theorem Number.isIntegral_iff (n : Number) : n.isIntegral = true ↔ n.Whole := by
  cases n with
  | int i => simp [isIntegral, Whole]
  | float x =>
    have hinteger : x.isInteger = true ↔ x.ratio.1 % x.ratio.2 = 0 := beq_iff_eq
    rw [isIntegral, Whole, hinteger, Binary64.ratio]
    by_cases h : 1074 ≤ x.scale
    · have hdvd : 2 ^ 1074 ∣ x.significand * 2 ^ x.scale :=
        (pow_dvd_pow 2 h).mul_left _
      rw [if_pos h]
      exact iff_of_true (Nat.mod_one _) hdvd
    · rw [if_neg h, dvd_mul_pow_iff (Nat.le_of_not_le h), Nat.dvd_iff_mod_eq_zero, Nat.shiftLeft_eq,
        Nat.one_mul]

namespace Rules

/-! ### What is prepared -/

theorem wrap_wrap (v : Json) : wrap (wrap v) = wrap v := by
  cases v <;> rfl

/-- The value of a member, as it is checked. -/
def coerced (r : Rules) (name : String) (v : Json) : Json :=
  if r.arrays.contains name then wrap v else v

theorem get?_coerce (r : Rules) (ms : Members) (name : String) :
    Members.get? (r.coerce ms) name = (Members.get? ms name).map (r.coerced name) := by
  induction ms with
  | nil => rfl
  | cons m ms ih =>
    have hcons : r.coerce (m :: ms) = (m.1, r.coerced m.1 m.2) :: r.coerce ms := by
      unfold coerced
      simp only [coerce, List.map_cons]
      split <;> rfl
    rw [hcons, Members.get?_cons, Members.get?_cons, ih]
    by_cases h : name = m.1 <;> simp [h]

theorem get?_fillOne (ms : Members) (entry : String × Json) (name : String) :
    Members.get? (fillOne ms entry) name =
      (Members.get? ms name).or (if name = entry.1 then some entry.2 else none) := by
  unfold fillOne
  split
  · rename_i h
    obtain ⟨v, hv⟩ := Members.has_iff_exists.1 h
    by_cases hname : name = entry.1
    · simp [hname, hv]
    · simp [hname]
  · rw [Members.get?_append, Members.get?_cons]
    rfl

theorem get?_foldl_fillOne (ms entries : Members) (name : String) :
    Members.get? (entries.foldl fillOne ms) name =
      (Members.get? ms name).or (Members.get? entries name) := by
  induction entries generalizing ms with
  | nil => simp [Members.get?]
  | cons entry entries ih =>
    rw [List.foldl_cons, ih, get?_fillOne, Members.get?_cons, Option.or_assoc]
    by_cases h : name = entry.1 <;> simp [h]

/-- **What is prepared**: the values that are given, wrapped, and the defaults of the others. -/
theorem get?_prepare (r : Rules) (input : Members) (name : String) :
    Members.get? (r.prepare input) name =
      ((Members.get? input name).map (r.coerced name)).or (Members.get? r.defaults name) := by
  rw [prepare, fill, get?_foldl_fillOne, get?_coerce]

theorem mem_arraysOf_iff {schema : Json} (hd : (properties schema).Distinct) {m : String × Json}
    (hm : m ∈ properties schema) : m.1 ∈ arraysOf schema ↔ describesArray m.2 = true := by
  constructor
  · intro h
    obtain ⟨m', hm', hname⟩ := List.mem_map.1 h
    obtain ⟨hm', harray⟩ := List.mem_filter.1 hm'
    have hsame := (lookup_of_mem hd hm').symm.trans (hname ▸ lookup_of_mem hd hm)
    rwa [← Option.some.inj hsame]
  · intro h
    exact List.mem_map_of_mem (List.mem_filter.2 ⟨hm, h⟩)

/-- The default of a property is the one of its fragment. -/
theorem get?_defaultsOf {schema : Json} (hd : (properties schema).Distinct) {m : String × Json}
    (hm : m ∈ properties schema) : Members.get? (defaultsOf schema) m.1 = m.2.get? "default" := by
  have hlookup := lookup_filterMap (fun fragment : Json => fragment.get? "default") hd m.1
  rw [lookup_of_mem hd hm] at hlookup
  exact hlookup

end Rules

/-! ### Values and defaults of a type -/

theorem Primitive.mem_allTypes (p : Primitive) : p.name ∈ Schema.allTypes := by
  cases p <;> decide

/-- A value as it is checked against a type. -/
def Primitive.wrapped (p : Primitive) (v : Json) : Json := if p = .array then Rules.wrap v else v

theorem Primitive.wrapped_wrapped (p : Primitive) (v : Json) : p.wrapped (p.wrapped v) = p.wrapped v := by
  unfold wrapped
  split
  · exact Rules.wrap_wrap v
  · rfl

theorem hasType_integer (n : Number) :
    Schema.hasType Primitive.integer.name (.num n) = true ↔ n.Whole :=
  n.isIntegral_iff

/-- A default of a type has it, and is not changed before it is checked. -/
theorem Primitive.hasType_of_admits {p : Primitive} {d : Json} (h : p.admits d = true) :
    Schema.hasType p.name (p.wrapped d) = true := by
  cases p with
  | integer =>
    cases d with
    | num n =>
      cases n with
      | int i => exact (hasType_integer _).2 trivial
      | float x => cases h
    | _ => cases h
  | _ => cases d <;> first | rfl | cases h

/-- **The instances of a type** are the values that pass as it. -/
theorem ParameterType.accepts_iff {type : ParameterType} {p : Primitive} (h : type.basic? = some p)
    {v : Json} : type.Accepts v ↔ Schema.hasType p.name (p.wrapped v) = true := by
  constructor
  · intro hv
    cases hv with
    | array hv =>
      obtain rfl := Option.some.inj h
      cases v <;> first | rfl | exact absurd rfl hv
    | integer hn =>
      obtain rfl := Option.some.inj h
      exact (hasType_integer _).2 hn
    | _ =>
      obtain rfl := Option.some.inj h
      rfl
  · intro hv
    cases type with
    | fragment set name => cases h
    | text =>
      obtain rfl := Option.some.inj h
      cases v with
      | str s => exact .text s
      | _ => cases hv
    | primitive q =>
      obtain rfl := Option.some.inj h
      cases q with
      | boolean =>
        cases v with
        | bool b => exact .boolean b
        | _ => cases hv
      | object =>
        cases v with
        | obj ms => exact .object ms
        | _ => cases hv
      | array =>
        refine .array ?_
        rintro rfl
        cases hv
      | number =>
        cases v with
        | num n => exact .number n
        | _ => cases hv
      | string =>
        cases v with
        | str s => exact .string s
        | _ => cases hv
      | integer =>
        cases v with
        | num n => exact .integer ((hasType_integer n).1 hv)
        | _ => cases hv

namespace Template

/-! ### Defaults that are declared -/

variable {p : Primitive} {w : Placeholder}

theorem Basic.basic?_eq {kind : List Char} {type : ParameterType} (h : Basic kind type p) :
    type.basic? = some p := by
  cases h <;> rfl

/-- A default that is declared is one of the type. -/
theorem admits_of_declares {name kind : List Char} {extra : Option (List Char)} {type : ParameterType}
    {default : Option Json} (h : Declares name kind extra type default) (hp : type.basic? = some p) :
    ∀ d ∈ default, p.admits d = true := by
  cases h with
  | plain => simp
  | fragment => simp
  | renamed => simp
  | default hkind hv =>
    obtain rfl := Option.some.inj (hkind.basic?_eq.symm.trans hp)
    rintro d ⟨⟩
    cases hv with
    | spelled hread hv => exact hv
    | verbatim hp hread =>
      subst hp
      rfl

theorem admits_of_declaresToken {inside : List Char} (h : DeclaresToken inside (.placeholder w))
    (hp : w.type.basic? = some p) : ∀ d ∈ w.default, p.admits d = true := by
  cases h with
  | bare => simp
  | typed hcore hparts hname htype => exact admits_of_declares htype hp

/-- The placeholders of a text are declared in it. -/
theorem exists_declares_of_mem {name source : String} {spans : List Span}
    (hs : scan name source = .ok spans) (hw : w ∈ occurrences spans) :
    ∃ inside, DeclaresToken inside (.placeholder w) := by
  obtain ⟨span, hspan, htoken⟩ := List.mem_filterMap.1 hw
  rw [scan_eq] at hs
  obtain ⟨site, -, hread⟩ := (mem_of_mapM hs).1 hspan
  obtain ⟨hdeclares, -, -⟩ := Site.read_eq_ok_iff.1 hread
  refine ⟨site.inside, ?_⟩
  cases h : span.token with
  | comment text =>
    rw [h] at htoken
    cases htoken
  | placeholder q =>
    rw [h] at htoken hdeclares
    obtain rfl := Option.some.inj htoken
    exact hdeclares

end Template

/-- The parameter takes the values of a type. Its schema gives the type, with a default of it. -/
def Parameter.IsPlain (q : Parameter) : Prop :=
  ∃ p d, q.type.basic? = some p ∧ p.admits d = true ∧ Schema.TypeSchema p.name d q.schema

/-- What passes the schema of a plain parameter has the type of its values. -/
theorem Schema.TypeSchema.describesArray_iff {p : Primitive} {d schema : Json}
    (h : TypeSchema p.name d schema) : Rules.describesArray schema = true ↔ p = .array := by
  have hname : p.name = "array" ↔ p = .array := by cases p <;> decide
  rw [← hname]
  cases h <;> exact beq_iff_eq.trans Option.some_inj

namespace Engine

open Template

/-! ### Plain parameters -/

variable {p : Primitive} {w : Placeholder} {q : Parameter} {name source : String}
  {fragments : Fragments} {e : Engine} {spans : List Span}

theorem exists_chooseDefault (name : String) {fragment : Json} {explicit : Option Json}
    (htype : declaredType fragment = some p) (hdefault : fragment.get? "default" = none)
    (hchoices : choices fragment = none) (hexplicit : ∀ d ∈ explicit, p.admits d = true) :
    ∃ d, chooseDefault name explicit fragment = some d ∧ p.admits d = true := by
  cases explicit with
  | some d => exact ⟨d, rfl, hexplicit d rfl⟩
  | none =>
    cases hcustomary : customaryFor name fragment with
    | some d =>
      refine ⟨d, by simp [chooseDefault, hcustomary], ?_⟩
      have hfits := (Option.filter_eq_some_iff.1 hcustomary).2
      simpa [htype, hchoices] using hfits
    | none =>
      refine ⟨p.synthetic, ?_, p.admits_synthetic⟩
      simp [chooseDefault, hcustomary, hdefault, hchoices, htype]

/-- A type of values stands for a fragment without a default and without choices. -/
theorem exists_fragmentOf (name : String) (fragments : Fragments) {type : ParameterType}
    (hp : type.basic? = some p) : ∃ fragment widget,
      fragmentOf name fragments type = .ok (fragment, widget) ∧ declaredType fragment = some p ∧
        fragment.get? "default" = none ∧ choices fragment = none ∧
        ∀ d, Schema.TypeSchema p.name d (withDefault fragment (some d)) := by
  cases type with
  | fragment set fragment => cases hp
  | text =>
    obtain rfl := Option.some.inj hp
    exact ⟨_, _, rfl, by decide, rfl, rfl, fun d => .formatted "text"⟩
  | primitive q =>
    obtain rfl := Option.some.inj hp
    exact ⟨_, _, rfl, q.ofName?_name, rfl, rfl, fun d => .plain⟩

theorem exists_describe (hp : w.type.basic? = some p) : ∃ q, describe name fragments w = .ok q := by
  obtain ⟨fragment, widget, hfragment, -⟩ := exists_fragmentOf name fragments hp
  exact ⟨_, describe_eq_ok_iff.2 ⟨fragment, widget, hfragment, rfl⟩⟩

/-- A placeholder that refers to no fragment describes a plain parameter. -/
theorem isPlain_of_describe (h : describe name fragments w = .ok q) (hp : w.type.basic? = some p)
    (hdefault : ∀ d ∈ w.default, p.admits d = true) (hreserved : q.reserved = false) : q.IsPlain := by
  obtain ⟨fragment, widget, hfragment, htype, hnone, hchoices, hschema⟩ :=
    exists_fragmentOf name fragments hp
  obtain ⟨fragment', widget', hfragment', rfl⟩ := describe_eq_ok_iff.1 h
  obtain ⟨rfl, rfl⟩ := Prod.mk.inj (Except.ok.inj (hfragment.symm.trans hfragment'))
  obtain ⟨d, hd, hadmits⟩ := exists_chooseDefault w.name htype hnone hchoices hdefault
  have hdefaultOf : defaultOf w fragment = some d := by
    rw [defaultOf, if_neg (by simpa using hreserved), hd]
  refine ⟨p, d, hp, hadmits, ?_⟩
  show Schema.TypeSchema p.name d (withDefault fragment (defaultOf w fragment))
  rw [hdefaultOf]
  exact hschema d

/-! ### Plain templates -/

/-- No placeholder refers to a fragment. -/
def Plain (ps : List Placeholder) : Prop :=
  ∀ w ∈ ps, ∀ set fragment, w.declared ≠ some (.fragment set fragment)

theorem Plain.exists_basic? {ps : List Placeholder} (h : Plain ps) (hw : w ∈ ps) :
    ∃ p, w.type.basic? = some p := by
  cases hdeclared : w.declared with
  | none => exact ⟨.string, by simp [Placeholder.type, hdeclared, ParameterType.basic?]⟩
  | some type =>
    rw [Placeholder.type, hdeclared, Option.getD_some]
    cases type with
    | primitive p => exact ⟨p, rfl⟩
    | text => exact ⟨.string, rfl⟩
    | fragment set fragment => exact absurd hdeclared (h w hw set fragment)

theorem schemaOf_eq (name description : String) (qs : List Parameter) :
    schemaOf name description qs = Schema.object name description
      ((qs.filter (!·.reserved)).map fun q => (q.name, q.schema)) := by
  simp [schemaOf, Schema.object, Schema.objectKeywords, Members.names, Function.comp_def]

section Described

variable {qs : List Parameter}

/-- A parameter that is not reserved is plain if its type refers to no fragment. -/
theorem isPlain_of_basic? (hs : scan name source = .ok spans)
    (hqs : List.Forall₂ (fun w q => describe name fragments w = .ok q)
      (winners (occurrences spans)) qs) (hq : q ∈ qs.filter (!·.reserved))
    (hp : q.type.basic? = some p) : q.IsPlain := by
  obtain ⟨hq, hreserved⟩ := List.mem_filter.1 hq
  obtain ⟨w, hw, hdescribe⟩ := exists_of_mem_right hqs hq
  obtain ⟨inside, hinside⟩ := exists_declares_of_mem hs (mem_winners_iff.1 hw).mem
  have htype : w.type = q.type := by
    obtain ⟨fragment, widget, -, rfl⟩ := describe_eq_ok_iff.1 hdescribe
    rfl
  rw [← htype] at hp
  exact isPlain_of_describe hdescribe hp (admits_of_declaresToken hinside hp) (by simpa using hreserved)

/-- The parameters of a plain template are plain, apart from the reserved ones. -/
theorem isPlain_of_mem (hs : scan name source = .ok spans) (hplain : Plain (occurrences spans))
    (hqs : List.Forall₂ (fun w q => describe name fragments w = .ok q)
      (winners (occurrences spans)) qs) : ∀ q ∈ qs.filter (!·.reserved), q.IsPlain := by
  intro q hq
  obtain ⟨w, hw, hdescribe⟩ := exists_of_mem_right hqs (List.mem_filter.1 hq).1
  obtain ⟨p, hp⟩ := hplain.exists_basic? (mem_winners_iff.1 hw).mem
  refine isPlain_of_basic? hs hqs hq (p := p) ?_
  obtain ⟨fragment, widget, -, rfl⟩ := describe_eq_ok_iff.1 hdescribe
  exact hp

theorem nodup_filter_reserved {ps : List Placeholder}
    (hqs : List.Forall₂ (fun w q => describe name fragments w = .ok q) (winners ps) qs) :
    ((qs.filter (!·.reserved)).map (·.name)).Nodup := by
  refine (nodup_names_winners ps).sublist ?_
  rw [← map_name_parameters hqs]
  exact List.Sublist.map _ List.filter_sublist

/-- **A plain template compiles** as soon as its tokens can be read. -/
theorem exists_compile_of_plain [Validator] [Validator.Standard] (fragments : Fragments)
    (hs : scan name source = .ok spans) (hplain : Plain (occurrences spans)) : ∃ e, compile name source fragments = .ok e := by
  obtain ⟨qs, hqs⟩ : ∃ qs, (winners (occurrences spans)).mapM (describe name fragments) = .ok qs := by
    refine exists_mapM_iff.2 fun w hw => ?_
    obtain ⟨p, hp⟩ := hplain.exists_basic? (mem_winners_iff.1 hw).mem
    exact exists_describe hp
  have hdescribed := mapM_eq_ok_iff.1 hqs
  have hfault (description : String) : Validator.fault? (schemaOf name description qs) = none := by
    rw [schemaOf_eq]
    refine Validator.Standard.fault?_object ?_ (List.forall_mem_map.2 fun q hq => ?_)
    · simpa [Members.Distinct, Members.names, Function.comp_def] using nodup_filter_reserved hdescribed
    · obtain ⟨p, d, -, -, hschema⟩ := isPlain_of_mem hs hplain hdescribed q hq
      exact ⟨p.name, p.mem_allTypes, d, hschema⟩
  obtain ⟨parts, hparts, rfl⟩ := map_eq_ok hs
  rw [occurrences_spansFrom] at hqs
  exact ⟨_, compile_eq_ok_iff.2 ⟨parts, qs, _, hparts, hqs, by rw [Rules.ofSchema, hfault], rfl⟩⟩

end Described

/-- The schema of a template tells of the visible parameters, each under a name of its own, and the rules
are made from it. -/
structure Ruled (e : Engine) : Prop where
  schema : ∃ title description,
    e.schema = Schema.object title description ((visible e).map fun q => (q.name, q.schema))
  rules : e.rules = ⟨e.schema, Rules.arraysOf e.schema, Rules.defaultsOf e.schema⟩
  nodup : ((visible e).map (·.name)).Nodup

theorem ruled_of_compile [Validator] (h : compile name source fragments = .ok e) : e.Ruled := by
  obtain ⟨spans, -, hqs, -, hschema, hrules⟩ := exists_scan_of_compile h
  refine ⟨⟨name, _, by rw [hschema, schemaOf_eq, filter_reserved hqs]⟩, ?_, ?_⟩
  · rw [Rules.ofSchema] at hrules
    split at hrules
    · cases hrules
    · exact (Except.ok.inj hrules).symm
  · rw [← filter_reserved hqs]
    exact nodup_filter_reserved hqs

namespace Ruled

theorem properties_eq (he : e.Ruled) :
    Rules.properties e.schema = (visible e).map fun q => (q.name, q.schema) := by
  obtain ⟨title, description, hschema⟩ := he.schema
  rw [hschema]
  rfl

theorem distinct_visible (he : e.Ruled) :
    Members.Distinct ((visible e).map fun q => (q.name, q.schema)) := by
  rw [Members.Distinct, Members.names, List.map_map]
  exact he.nodup

theorem distinct (he : e.Ruled) : (Rules.properties e.schema).Distinct := by
  rw [he.properties_eq]
  exact he.distinct_visible

theorem mem_properties (he : e.Ruled) (hq : q ∈ visible e) :
    (q.name, q.schema) ∈ Rules.properties e.schema := by
  rw [he.properties_eq]
  exact List.mem_map_of_mem hq

/-- A value for a parameter is wrapped if the schema of the parameter describes arrays. -/
theorem coerced_eq (he : e.Ruled) (hq : q ∈ visible e) (v : Json) :
    e.rules.coerced q.name v = if Rules.describesArray q.schema then Rules.wrap v else v := by
  have harray : q.name ∈ e.rules.arrays ↔ Rules.describesArray q.schema = true := by
    rw [he.rules]
    exact Rules.mem_arraysOf_iff he.distinct (he.mem_properties hq)
  simp [Rules.coerced, harray]

/-- The default that is filled in for a parameter is the one in its schema. -/
theorem get?_defaults (he : e.Ruled) (hq : q ∈ visible e) :
    Members.get? e.rules.defaults q.name = q.schema.get? "default" := by
  rw [he.rules]
  exact Rules.get?_defaultsOf he.distinct (he.mem_properties hq)

/-- What is wrong with an object is what the schema finds, once values are wrapped. -/
theorem issues_eq [Validator] (he : e.Ruled) (input : Members) : ∃ title description,
    e.issues (.obj input) = Validator.issues (Schema.object title description
      ((visible e).map fun q => (q.name, q.schema))) (.obj (e.rules.coerce input)) := by
  obtain ⟨title, description, hschema⟩ := he.schema
  refine ⟨title, description, ?_⟩
  have hrules : e.rules.schema = e.schema := by rw [he.rules]
  rw [← hschema, ← hrules]
  rfl

/-- An object that passes has a value for each visible parameter. Where the schema of the parameter tells a
type, the value has it once it is wrapped. -/
theorem exists_of_issues_eq_nil [Validator] [Validator.Standard] (he : e.Ruled) {input : Members}
    (h : e.issues (.obj input) = []) (hq : q ∈ visible e) :
    ∃ v, Members.get? input q.name = some v ∧ ∀ type default, Schema.TypeSchema type default q.schema →
      Schema.hasType type (e.rules.coerced q.name v) = true := by
  obtain ⟨title, description, hissues⟩ := he.issues_eq input
  rw [hissues] at h
  have hmem := List.mem_map_of_mem (f := fun q : Parameter => (q.name, q.schema)) hq
  obtain ⟨w, hw, htype⟩ := Validator.Standard.exists_of_issues_eq_nil he.distinct_visible h hmem
  rw [Rules.get?_coerce, Option.map_eq_some_iff] at hw
  obtain ⟨v, hv, rfl⟩ := hw
  exact ⟨v, hv, htype⟩

end Ruled

/-- What is known of a template whose parameters are plain. -/
structure IsPlain (e : Engine) : Prop extends Ruled e where
  parameters : ∀ q ∈ visible e, q.IsPlain

theorem isPlain_of_compile [Validator] (h : compile name source fragments = .ok e)
    (hs : scan name source = .ok spans) (hplain : Plain (occurrences spans)) : e.IsPlain := by
  obtain ⟨spans', hs', hqs, -⟩ := exists_scan_of_compile h
  obtain rfl := Except.ok.inj (hs'.symm.trans hs)
  refine ⟨ruled_of_compile h, ?_⟩
  rw [← filter_reserved hqs]
  exact isPlain_of_mem hs hplain hqs

namespace IsPlain

/-- A value for an array is wrapped before it is checked, and no other one is. -/
theorem coerced_eq (he : e.IsPlain) (hq : q ∈ visible e) (hp : q.type.basic? = some p) (v : Json) :
    e.rules.coerced q.name v = p.wrapped v := by
  obtain ⟨p', d, hp', -, hschema⟩ := he.parameters q hq
  obtain rfl := Option.some.inj (hp.symm.trans hp')
  simp [he.toRuled.coerced_eq hq, Primitive.wrapped, hschema.describesArray_iff]

/-- The default of a parameter has its type. -/
theorem exists_default (he : e.IsPlain) (hq : q ∈ visible e) :
    ∃ d, Members.get? e.rules.defaults q.name = some d ∧ q.type.Accepts d := by
  obtain ⟨p, d, hp, hadmits, hschema⟩ := he.parameters q hq
  refine ⟨d, ?_, (ParameterType.accepts_iff hp).2 (Primitive.hasType_of_admits hadmits)⟩
  exact (he.get?_defaults hq).trans hschema.get?_default

theorem accepts_coerced_iff (he : e.IsPlain) (hq : q ∈ visible e) (v : Json) :
    q.type.Accepts (e.rules.coerced q.name v) ↔ q.type.Accepts v := by
  obtain ⟨p, d, hp, -⟩ := he.parameters q hq
  rw [he.coerced_eq hq hp, ParameterType.accepts_iff hp, ParameterType.accepts_iff hp,
    Primitive.wrapped_wrapped]

/-- **An input passes** if every parameter is there with a value of its type. -/
theorem issues_eq_nil_iff [Validator] [Validator.Standard] (he : e.IsPlain) (input : Members) :
    e.issues (.obj input) = [] ↔
      ∀ q ∈ visible e, ∃ v, Members.get? input q.name = some v ∧ q.type.Accepts v := by
  have haccepts (q : Parameter) (hq : q ∈ visible e) (p : Primitive) (hp : q.type.basic? = some p)
      (v : Json) : q.type.Accepts v ↔ Schema.hasType p.name (e.rules.coerced q.name v) = true := by
    rw [ParameterType.accepts_iff hp, he.coerced_eq hq hp]
  constructor
  · intro h q hq
    obtain ⟨p, d, hp, -, hschema⟩ := he.parameters q hq
    obtain ⟨v, hv, htype⟩ := he.exists_of_issues_eq_nil h hq
    exact ⟨v, hv, (haccepts q hq p hp v).2 (htype _ _ hschema)⟩
  · intro h
    obtain ⟨title, description, hissues⟩ := he.issues_eq input
    rw [hissues]
    refine Validator.Standard.issues_eq_nil he.distinct_visible
      (List.forall_mem_map.2 fun q hq => ?_)
    obtain ⟨p, d, hp, -, hschema⟩ := he.parameters q hq
    obtain ⟨v, hv, hvalue⟩ := h q hq
    refine ⟨p.name, d, hschema, _, ?_, (haccepts q hq p hp v).1 hvalue⟩
    rw [Rules.get?_coerce, hv]
    rfl

/-- **A prepared input passes** if the values that were given have their types. -/
theorem issues_prepare_eq_nil_iff [Validator] [Validator.Standard] (he : e.IsPlain) (input : Members) :
    e.issues (.obj (e.rules.prepare input)) = [] ↔
      ∀ q ∈ visible e, ∀ v, Members.get? input q.name = some v → q.type.Accepts v := by
  rw [he.issues_eq_nil_iff]
  refine forall₂_congr fun q hq => ?_
  rw [Rules.get?_prepare]
  cases Members.get? input q.name with
  | none =>
    obtain ⟨d, hd, haccepts⟩ := he.exists_default hq
    simp [hd, haccepts]
  | some v => simp [he.accepts_coerced_iff hq]

end IsPlain

/-- What holds of the parameters that the schema tells of holds of the winning placeholders whose names
are not reserved. -/
theorem forall_visible_iff {ps : List Placeholder} {Q : String → ParameterType → Prop}
    (hqs : List.Forall₂ (fun w q => describe name fragments w = .ok q) (winners ps) e.parameters) :
    (∀ q ∈ visible e, Q q.name q.type) ↔
      ∀ w, Wins ps w → w.name ≠ uuidName → w.name ≠ applicationName → Q w.name w.type := by
  constructor
  · intro h w hw huuid happ
    obtain ⟨q, hq, hdescribe⟩ := exists_of_mem_right hqs.flip (mem_winners_iff.2 hw)
    obtain ⟨fragment, widget, -, rfl⟩ := describe_eq_ok_iff.1 hdescribe
    exact h _ (List.mem_filter.2 ⟨hq, by simp [huuid, happ]⟩)
  · intro h q hq
    obtain ⟨hq, hname⟩ := List.mem_filter.1 hq
    obtain ⟨w, hw, hdescribe⟩ := exists_of_mem_right hqs hq
    obtain ⟨fragment, widget, -, rfl⟩ := describe_eq_ok_iff.1 hdescribe
    obtain ⟨huuid, happ⟩ := of_decide_eq_true hname
    exact h w (mem_winners_iff.1 hw) huuid happ

/-- A template whose tokens can be read, and none of whose placeholders refers to a fragment, compiles.
An input for it passes if and only if each parameter that is not reserved is there, with a value of the
type of the placeholder that describes it. Once the input is prepared, it passes if and only if the
values of the parameters that are there have their types; so no default is ever at fault. -/
theorem validation_of_plain [Validator] [Validator.Standard] (fragments : Fragments)
    (hs : scan name source = .ok spans) (hplain : Plain (occurrences spans)) : ∃ e, compile name source fragments = .ok e ∧ ∀ input,
      (e.issues (.obj input) = [] ↔ ∀ w, Wins (occurrences spans) w → w.name ≠ uuidName →
        w.name ≠ applicationName → ∃ v, Members.get? input w.name = some v ∧ w.type.Accepts v) ∧
      (e.issues (.obj (e.rules.prepare input)) = [] ↔ ∀ w, Wins (occurrences spans) w →
        w.name ≠ uuidName → w.name ≠ applicationName →
          ∀ v, Members.get? input w.name = some v → w.type.Accepts v) := by
  obtain ⟨e, h⟩ := exists_compile_of_plain fragments hs hplain
  have he := isPlain_of_compile h hs hplain
  obtain ⟨spans', hs', hqs, -⟩ := exists_scan_of_compile h
  obtain rfl := Except.ok.inj (hs'.symm.trans hs)
  refine ⟨e, h, fun input => ⟨?_, ?_⟩⟩
  · rw [he.issues_eq_nil_iff]
    exact forall_visible_iff (Q := fun n type => ∃ v, Members.get? input n = some v ∧ type.Accepts v) hqs
  · rw [he.issues_prepare_eq_nil_iff]
    exact forall_visible_iff
      (Q := fun n type => ∀ v, Members.get? input n = some v → type.Accepts v) hqs

/-- Placeholders without a type, of two types, and with a reserved name. -/
def mixed : List Placeholder :=
  [⟨"a", "a", none, none⟩, ⟨"b", "b:array", some (.primitive .array), none⟩,
    ⟨"n", "n:integer:4", some (.primitive .integer), some (.num (.int 4))⟩, ⟨"uuid", "uuid", none, none⟩]

/-- With a number for the array and nothing else, an input passes once it is prepared, and not before. -/
theorem validation_of_plain_mixed : ∃ spans e,
    scan "x" "{{a}} {{b:array}} {{n:integer:4}} {{uuid}}" = .ok spans ∧ occurrences spans = mixed ∧
      Plain mixed ∧ compile "x" "{{a}} {{b:array}} {{n:integer:4}} {{uuid}}" .empty = .ok e ∧
      e.issues (.obj [("b", .num (.int 1))]) ≠ [] ∧
      e.issues (.obj (e.rules.prepare [("b", .num (.int 1))])) = [] := by
  have hmixed : (scan "x" "{{a}} {{b:array}} {{n:integer:4}} {{uuid}}").toOption.map occurrences =
      some mixed := by decide +kernel
  obtain ⟨spans, hs, hmixed⟩ := exists_of_toOption hmixed
  have hplain : Plain mixed := by simp [Plain, mixed]
  obtain ⟨e, he, hvalid⟩ := validation_of_plain .empty hs (hmixed ▸ hplain)
  obtain ⟨hinput, hprepared⟩ := hvalid [("b", .num (.int 1))]
  rw [hmixed] at hinput hprepared
  refine ⟨spans, e, hs, hmixed, hplain, he, fun h => ?_, hprepared.2 fun w hw _ _ v hv => ?_⟩
  · have ha : Wins mixed ⟨"a", "a", none, none⟩ :=
      mem_winners_iff.1 (by decide +kernel)
    obtain ⟨v, hv, -⟩ := hinput.1 h _ ha (by decide) (by decide)
    cases hv
  · have hmem := hw.mem
    simp only [mixed, List.mem_cons, List.not_mem_nil, or_false] at hmem
    rcases hmem with rfl | rfl | rfl | rfl
    · cases hv
    · obtain rfl := Option.some.inj hv
      exact .array nofun
    · cases hv
    · cases hv

end Engine

end Stencil
