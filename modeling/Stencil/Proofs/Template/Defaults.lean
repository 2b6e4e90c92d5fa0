import Stencil.Proofs.Json.Merged
import Stencil.Proofs.Template.Parameters

/-!
# Where defaults come from

A default can come from five sources: the placeholder, the customary value of the name, the fragment,
its first choice, and its type. The property of a parameter has the default of the first source that
gives one (`defaults_of_compile`). There is one exception. The customary value has to be of the type that
the fragment asks for, but this is looked at only where the type is the name of a single primitive one. A
customary value for a fragment that asks for one of several types, or for null, comes in front whatever
its type is (`Displaces`).
-/

namespace Stencil

theorem Primitive.ofName?_eq_some_iff {s : String} {p : Primitive} :
    ofName? s = some p ↔ p.name = s := by
  constructor
  · intro h
    simpa using List.find?_some (p := fun p : Primitive => p.name == s) h
  · rintro rfl
    exact p.ofName?_name

namespace Engine

open Template

variable {name source : String} {fragments : Fragments} {e : Engine} {fragment d : Json}
  {w : Placeholder} {p : Primitive}

/-! ### Sources -/

/-- The value is of the type, or of one of the types, that the fragment asks for. -/
def HasAskedType (fragment value : Json) : Prop :=
  ∀ arg, fragment.get? "type" = some arg →
    ∃ type ∈ Schema.typeNames arg, Schema.hasType type value = true

/-- The value is one of the choices that the fragment lists. -/
def IsChoice (fragment value : Json) : Prop :=
  ∀ options, fragment.get? "enum" = some (.arr options) → value ∈ options

/-- Where a default can come from. -/
inductive Source where
  /-- The placeholder declares it. -/
  | placeholder
  /-- It is the customary value of the name. -/
  | custom
  /-- The fragment has it. -/
  | fragment
  /-- It is the first choice. -/
  | choices
  /-- It is the plain value of the type. -/
  | type

/-- The default that a source gives for a placeholder and the fragment that its type stands for. -/
inductive Gives (w : Placeholder) (fragment : Json) : Source → Json → Prop where
  | placeholder {d : Json} (h : w.default = some d) : Gives w fragment .placeholder d
  | custom {d : Json} (h : customary w.name = some d) (htype : HasAskedType fragment d)
      (hchoice : IsChoice fragment d) : Gives w fragment .custom d
  | fragment {d : Json} (h : fragment.get? "default" = some d) : Gives w fragment .fragment d
  | choices {d : Json} {more : List Json} (h : fragment.get? "enum" = some (.arr (d :: more))) :
      Gives w fragment .choices d
  | type {p : Primitive} (h : fragment.get? "type" = some (.str p.name)) :
      Gives w fragment .type p.synthetic

/-- The first of some sources that gives a default gives this one, or none of them gives one. -/
inductive FirstGiven (w : Placeholder) (fragment : Json) : List Source → Option Json → Prop where
  | none : FirstGiven w fragment [] none
  | here {s : Source} {ss : List Source} {d : Json} (h : Gives w fragment s d) :
      FirstGiven w fragment (s :: ss) (some d)
  | later {s : Source} {ss : List Source} {default : Option Json}
      (h : ∀ d, ¬ Gives w fragment s d) (hrest : FirstGiven w fragment ss default) :
      FirstGiven w fragment (s :: ss) default

/-- The sources, the one that goes first in front. -/
def sources : List Source := [.placeholder, .custom, .fragment, .choices, .type]

/-- The customary value comes in front of the other sources although the fragment asks for other types:
it is one of the choices, and what the fragment asks for is not the name of a single primitive type. -/
structure Displaces (w : Placeholder) (fragment d : Json) : Prop where
  undeclared : w.default = none
  customary : customary w.name = some d
  choice : IsChoice fragment d
  other : ¬ HasAskedType fragment d
  unnamed (p : Primitive) : fragment.get? "type" ≠ some (.str p.name)

/-! ### What is chosen -/

theorem declaredType_eq_some_iff :
    declaredType fragment = some p ↔ fragment.get? "type" = some (.str p.name) := by
  simp [declaredType, Option.bind_eq_some_iff, Json.text?_eq_some_iff,
    Primitive.ofName?_eq_some_iff]

theorem choices_eq_some_iff {options : List Json} :
    choices fragment = some options ↔ fragment.get? "enum" = some (.arr options) := by
  simp [choices, Option.bind_eq_some_iff, Json.items?_eq_some_iff]

/-- A customary value is of a type in the sense of schemas if it is in the sense of placeholders. -/
theorem hasType_customary (h : customary name = some d) (p : Primitive) :
    Schema.hasType p.name d = p.admits d := by
  unfold customary at h
  split_ifs at h <;> cases h <;> cases p <;> rfl

theorem customaryFor_eq_some_iff : customaryFor name fragment = some d ↔ customary name = some d ∧
    (∀ p : Primitive, fragment.get? "type" = some (.str p.name) → p.admits d = true) ∧
      IsChoice fragment d := by
  have htype : (declaredType fragment).all (·.admits d) = true ↔
      ∀ p : Primitive, fragment.get? "type" = some (.str p.name) → p.admits d = true := by
    simp only [← declaredType_eq_some_iff]
    cases declaredType fragment <;> simp
  have hchoice : (choices fragment).all (·.contains d) = true ↔ IsChoice fragment d := by
    simp only [IsChoice, ← choices_eq_some_iff]
    cases choices fragment <;> simp
  rw [customaryFor, Option.filter_eq_some_iff, Bool.and_eq_true, htype, hchoice]

theorem hasAskedType_iff (h : fragment.get? "type" = some (.str p.name)) :
    HasAskedType fragment d ↔ Schema.hasType p.name d = true := by
  simp [HasAskedType, h, Schema.typeNames]

theorem gives_placeholder_iff : Gives w fragment .placeholder d ↔ w.default = some d := by
  constructor
  · rintro ⟨⟩
    assumption
  · exact .placeholder

/-- The customary value is given where it is chosen, unless it displaces others. -/
theorem gives_custom_iff (hnone : w.default = none) (h : ∀ d, ¬ Displaces w fragment d) :
    Gives w fragment .custom d ↔ customaryFor w.name fragment = some d := by
  rw [customaryFor_eq_some_iff]
  constructor
  · intro hgives
    cases hgives with
    | custom hcustom htype hchoice =>
      refine ⟨hcustom, fun p hp => ?_, hchoice⟩
      rw [← hasType_customary hcustom p]
      exact (hasAskedType_iff hp).1 htype
  · rintro ⟨hcustom, htype, hchoice⟩
    refine .custom hcustom (by_contra fun hother => ?_) hchoice
    refine h d ⟨hnone, hcustom, hchoice, hother, fun p hp => hother ?_⟩
    rw [hasAskedType_iff hp, hasType_customary hcustom p]
    exact htype p hp

theorem gives_fragment_iff : Gives w fragment .fragment d ↔ fragment.get? "default" = some d := by
  constructor
  · rintro ⟨⟩
    assumption
  · exact .fragment

theorem gives_choices_iff :
    Gives w fragment .choices d ↔ (choices fragment).bind List.head? = some d := by
  simp only [Option.bind_eq_some_iff, choices_eq_some_iff]
  constructor
  · rintro ⟨⟩
    exact ⟨_, ‹_›, rfl⟩
  · rintro ⟨options, h, hd⟩
    obtain ⟨more, rfl⟩ := List.head?_eq_some_iff.1 hd
    exact .choices h

theorem gives_type_iff :
    Gives w fragment .type d ↔ (declaredType fragment).map Primitive.synthetic = some d := by
  simp only [Option.map_eq_some_iff, declaredType_eq_some_iff]
  constructor
  · rintro ⟨⟩
    exact ⟨_, ‹_›, rfl⟩
  · rintro ⟨p, h, rfl⟩
    exact .type h

theorem firstGiven_nil {o : Option Json} : FirstGiven w fragment [] o ↔ none = o := by
  constructor
  · rintro ⟨⟩
    rfl
  · rintro rfl
    exact .none

/-- The first source decides if it gives a default, and the others do if it gives none. -/
theorem firstGiven_cons {s : Source} {ss : List Source} {given rest o : Option Json}
    (hs : ∀ d, Gives w fragment s d ↔ given = some d)
    (hss : given = none → (FirstGiven w fragment ss o ↔ rest = o)) :
    FirstGiven w fragment (s :: ss) o ↔ (given <|> rest) = o := by
  cases given with
  | none =>
    refine Iff.trans ?_ (hss rfl)
    constructor
    · intro h
      cases h with
      | here h => cases (hs _).1 h
      | later _ hrest => exact hrest
    · exact .later fun d hd => by cases (hs d).1 hd
  | some d =>
    constructor
    · intro h
      cases h with
      | here h => exact (hs _).1 h
      | later h => exact absurd ((hs d).2 rfl) (h d)
    · rintro rfl
      exact .here ((hs d).2 rfl)

/-- **The first source** that gives a default is the one that is chosen, unless the customary value
displaces others. -/
theorem firstGiven_iff {o : Option Json} (h : ∀ d, ¬ Displaces w fragment d) :
    FirstGiven w fragment sources o ↔ chooseDefault w.name w.default fragment = o := by
  have htype : FirstGiven w fragment [.type] o ↔
      ((declaredType fragment).map Primitive.synthetic <|> none) = o :=
    firstGiven_cons (fun _ => gives_type_iff) fun _ => firstGiven_nil
  have hlast : ((declaredType fragment).map Primitive.synthetic <|> none) =
      (declaredType fragment).map Primitive.synthetic := by
    cases declaredType fragment <;> rfl
  rw [hlast] at htype
  exact firstGiven_cons (fun _ => gives_placeholder_iff) fun hnone =>
    firstGiven_cons (fun _ => gives_custom_iff hnone h) fun _ =>
      firstGiven_cons (fun _ => gives_fragment_iff) fun _ =>
        firstGiven_cons (fun _ => gives_choices_iff) fun _ => htype

theorem chooseDefault_of_displaces (h : Displaces w fragment d) :
    chooseDefault w.name w.default fragment = some d := by
  have hcustom : customaryFor w.name fragment = some d :=
    customaryFor_eq_some_iff.2 ⟨h.customary, fun p hp => absurd hp (h.unnamed p), h.choice⟩
  simp [chooseDefault, h.undeclared, hcustom]

/-! ### What is written into the schema -/

/-- A fragment that is an object holds the default that is chosen for it, and none if none is. -/
theorem get?_withDefault (name : String) (explicit : Option Json) (ms : Members) :
    (withDefault (.obj ms) (chooseDefault name explicit (.obj ms))).get? "default" =
      chooseDefault name explicit (.obj ms) := by
  cases h : chooseDefault name explicit (.obj ms) with
  | some d =>
    show Members.get? (Members.insert ms "default" d) "default" = some d
    rw [Members.get?_insert, if_pos rfl]
  | none =>
    -- a default of its own would have been chosen
    show (Json.obj ms).get? "default" = none
    simp only [chooseDefault, Option.orElse_eq_orElse, Option.orElse_eq_or,
      Option.or_eq_none_iff] at h
    exact h.2.2.1

/-- Let a template compile, and take a property of its schema. The placeholder that describes the
parameter stands for a fragment. If that is an object, the property has the default of the first source
that gives one, and none if no source does. Only a customary value that displaces others is the default
of the property itself. -/
theorem defaults_of_compile [Validator] (h : compile name source fragments = .ok e) :
    ∃ spans properties, scan name source = .ok spans ∧
      e.schema.get? "properties" = some (.obj properties) ∧
      ∀ m ∈ properties, ∃ w fragment widget, Wins (occurrences spans) w ∧ w.name = m.1 ∧
        fragmentOf name fragments w.type = .ok (fragment, widget) ∧
        ∀ keywords, fragment = .obj keywords →
          ((∀ d, ¬ Displaces w fragment d) → ∀ default,
            FirstGiven w fragment sources default ↔ m.2.get? "default" = default) ∧
          ∀ d, Displaces w fragment d → m.2.get? "default" = some d := by
  obtain ⟨spans, hs, hparameters, -, hschema, -⟩ := exists_scan_of_compile h
  refine ⟨spans, _, hs, by rw [hschema]; rfl, List.forall_mem_map.2 fun q hq => ?_⟩
  obtain ⟨hq, hreserved⟩ := List.mem_filter.1 hq
  obtain ⟨w, hw, hdescribe⟩ := exists_of_mem_right hparameters hq
  obtain ⟨fragment, widget, hfragment, rfl⟩ := describe_eq_ok_iff.1 hdescribe
  refine ⟨w, fragment, widget, wins_of_mem_winners hw, rfl, hfragment, ?_⟩
  rintro ms rfl
  have hdefault : defaultOf w (.obj ms) = chooseDefault w.name w.default (.obj ms) :=
    if_neg (by simpa using hreserved)
  have hget : (withDefault (.obj ms) (defaultOf w (.obj ms))).get? "default" =
      chooseDefault w.name w.default (.obj ms) := by
    rw [hdefault, get?_withDefault]
  constructor
  · intro hdisplaces default
    rw [firstGiven_iff hdisplaces]
    exact hget ▸ Iff.rfl
  · intro d hd
    exact hget.trans (chooseDefault_of_displaces hd)

/-- A fragment that asks for a string or for null. -/
def stringOrNull : Json := .obj [("type", .arr [.str "string", .str "null"]), ("default", .str "http")]

theorem hasAskedType_stringOrNull : HasAskedType stringOrNull d ↔
    Schema.hasType "string" d = true ∨ Schema.hasType "null" d = true := by
  have htype : stringOrNull.get? "type" = some (.arr [.str "string", .str "null"]) := rfl
  simp [HasAskedType, htype, Schema.typeNames, Json.text?]

theorem isChoice_stringOrNull (d : Json) : IsChoice stringOrNull d := fun options h => by cases h

/-- A placeholder that refers to the fragment `port` of the schema file `net`. -/
def portOf (name : String) : Placeholder :=
  ⟨name, name ++ ":net:port", some (.fragment "net" "port"), none⟩

/-- Where a string or null is asked for, a customary number displaces the default of the fragment. -/
theorem displaces_portOf : FirstGiven (portOf "virtual_port") stringOrNull sources (some (.str "http")) ∧
    Displaces (portOf "virtual_port") stringOrNull (.num (.int 443)) := by
  have hother : ¬ HasAskedType stringOrNull (.num (.int 443)) :=
    mt hasAskedType_stringOrNull.1 (by decide)
  constructor
  · refine .later (fun d h => ?_) (.later (fun d h => ?_) (.here (.fragment rfl)))
    · cases h with
      | placeholder h => cases h
    · cases h with
      | custom h htype =>
        cases h
        exact hother htype
  · exact ⟨rfl, rfl, isChoice_stringOrNull _, hother, fun p h => by cases h⟩

/-- A customary string does not displace anything there. -/
theorem not_displaces_portOf (d : Json) : ¬ Displaces (portOf tenantName) stringOrNull d := by
  intro h
  obtain rfl : .str "t1" = d := Option.some.inj h.customary
  exact h.other (hasAskedType_stringOrNull.2 (.inl rfl))

/-- One parameter has the customary string, and the other one has the customary number instead of the
default of the fragment. -/
theorem defaults_of_compile_stringOrNull : ∃ e p p',
    compile "x" "{{tenant_name:net:port}}{{virtual_port:net:port}}"
      ⟨[("net", [("port", stringOrNull)])]⟩ = .ok e ∧
    e.schema.get? "properties" = some (.obj [(tenantName, p), ("virtual_port", p')]) ∧
    FirstGiven (portOf tenantName) stringOrNull sources (p.get? "default") ∧
    FirstGiven (portOf "virtual_port") stringOrNull sources (some (.str "http")) ∧
    p'.get? "default" = some (.num (.int 443)) := by
  have hcompile : (compile "x" "{{tenant_name:net:port}}{{virtual_port:net:port}}"
      ⟨[("net", [("port", stringOrNull)])]⟩).toOption.map (fun e => e.schema.get? "properties") =
      some (some (.obj [(tenantName, withDefault stringOrNull (some (.str "t1"))),
        ("virtual_port", withDefault stringOrNull (some (.num (.int 443))))])) := by
    decide +kernel
  have hscan : scan "x" "{{tenant_name:net:port}}{{virtual_port:net:port}}" =
      .ok [⟨0, 24, .placeholder (portOf tenantName)⟩, ⟨24, 49, .placeholder (portOf "virtual_port")⟩] := by
    decide +kernel
  obtain ⟨e, he, hproperties⟩ := exists_of_toOption hcompile
  obtain ⟨spans, properties, hs, hget, hdefaults⟩ := defaults_of_compile he
  obtain rfl := Except.ok.inj (hscan.symm.trans hs)
  obtain rfl := Json.obj.inj (Option.some.inj (hproperties.symm.trans hget))
  refine ⟨e, _, _, he, hget, ?_, displaces_portOf.1, ?_⟩
  · obtain ⟨w, fragment, widget, hw, hname, hfragment, h⟩ := hdefaults _ List.mem_cons_self
    obtain rfl | rfl : w = portOf tenantName ∨ w = portOf "virtual_port" := by
      simpa [occurrences, Token.placeholder?] using hw.mem
    · obtain ⟨rfl, -⟩ := Prod.mk.inj (Except.ok.inj hfragment)
      exact ((h _ rfl).1 not_displaces_portOf _).2 rfl
    · exact absurd hname (by decide)
  · obtain ⟨w, fragment, widget, hw, hname, hfragment, h⟩ :=
      hdefaults _ (List.mem_cons_of_mem _ List.mem_cons_self)
    obtain rfl | rfl : w = portOf tenantName ∨ w = portOf "virtual_port" := by
      simpa [occurrences, Token.placeholder?] using hw.mem
    · exact absurd hname (by decide)
    · obtain ⟨rfl, -⟩ := Prod.mk.inj (Except.ok.inj hfragment)
      exact (h _ rfl).2 _ displaces_portOf.2

end Engine

end Stencil
