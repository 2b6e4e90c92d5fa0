import Stencil.Proofs.Json.Merged
import Stencil.Schema.Form

/-!
# Schemas for objects

A schema can give each member of an object a schema of its own and ask for all of these members. An
object passes it if each member is there and passes its own schema (`issues_object_eq_nil_iff`). Where
these only tell the types of the members, nothing is wrong with the schema itself
(`fault?_object`).

Templates are checked by any `Validator`. `Validator.Standard` is what they rely on, and `Schema` keeps to
it.
-/

namespace Stencil

namespace Schema

open Members

/-- A schema for the values of a type. A format and a default go with it, and ask for nothing. -/
inductive TypeSchema (type : String) (default : Json) : Json → Prop where
  | plain : TypeSchema type default (.obj [("type", .str type), ("default", default)])
  | formatted (format : String) : TypeSchema type default
      (.obj [("type", .str type), ("format", .str format), ("default", default)])

theorem TypeSchema.get?_type {type : String} {default schema : Json}
    (h : TypeSchema type default schema) : schema.get? "type" = some (.str type) := by
  cases h <;> rfl

theorem TypeSchema.get?_default {type : String} {default schema : Json}
    (h : TypeSchema type default schema) : schema.get? "default" = some default := by
  cases h <;> rfl

/-- The keywords of a schema for objects that have certain members. -/
def objectKeywords (title description : String) (members : Members) : Members :=
  [("type", .str "object"), ("title", .str title), ("description", .str description),
    ("properties", .obj members), ("required", .arr ((names members).map .str))]

/-- A schema for objects that have certain members. -/
def object (title description : String) (members : Members) : Json :=
  .obj (objectKeywords title description members)

/-- The keywords that ask for nothing. -/
def notes : List String := ["title", "description", "format", "default"]

/-! ### What passes -/

section Keywords

variable {refer : String → Option Json} {check : Checker} {cover : Json → Json → Coverage}
  {keywords : Members} {value : Json} {path : Path}

theorem keywordIssues_note {keyword : String} (h : keyword ∈ notes) (arg : Json) :
    keywordIssues refer check cover keywords keyword arg value path = [] := by
  simp only [notes, List.mem_cons, List.not_mem_nil, or_false] at h
  rcases h with rfl | rfl | rfl | rfl <;> rfl

theorem keywordIssues_type_eq_nil_iff (type : String) :
    keywordIssues refer check cover keywords "type" (.str type) value path = [] ↔
      hasType type value = true := by
  have hkeyword : keywordIssues refer check cover keywords "type" (.str type) value path =
      if [type].any (hasType · value) then [] else [issue path (wrongType [type] value)] := rfl
  rw [hkeyword]
  by_cases h : hasType type value = true <;> simp [h]

theorem keywordIssues_properties_eq_nil_iff {members ms : Members}
    (h : restrictsMembers keywords = false) :
    keywordIssues refer check cover keywords "properties" (.obj members) (.obj ms) path = [] ↔
      ∀ m ∈ members, ∀ v, get? ms m.1 = some v → check m.2 v (m.1 :: path) = [] := by
  show (if restrictsMembers keywords then [] else List.flatMap _ members) = [] ↔ _
  rw [h, if_neg Bool.false_ne_true, List.flatMap_eq_nil_iff]
  refine forall₂_congr fun (name, schema) _ => ?_
  simp only [get?]
  cases ms.lookup name <;> simp

theorem keywordIssues_required_eq_nil_iff {required : List String} {ms : Members} :
    keywordIssues refer check cover keywords "required" (.arr (required.map .str)) (.obj ms) path = [] ↔
      ∀ name ∈ required, ∃ v, get? ms name = some v := by
  have hnames : (required.map Json.str).filterMap Json.text? = required := by
    simp [List.filterMap_map, Function.comp_def, Json.text?]
  have hkeyword : keywordIssues refer check cover keywords "required" (.arr (required.map .str))
      (.obj ms) path = ((required.map Json.str).filterMap Json.text?).filterMap fun name =>
        if has ms name then none else some (missing path name) := rfl
  rw [hkeyword, hnames, List.filterMap_eq_nil_iff]
  refine forall₂_congr fun name _ => ?_
  rw [← has_iff_exists]
  simp

end Keywords

theorem issuesWithin_obj_eq_nil_iff {refer : String → Option Json} {n : Nat} {keywords : Members}
    {v : Json} {path : Path} : issuesWithin refer (n + 1) (.obj keywords) v path = [] ↔
      ∀ m ∈ keywords, keywordIssues refer (issuesWithin refer n)
        (coverageWithin refer (issuesWithin refer n) n) keywords m.1 m.2 v path = [] :=
  List.flatMap_eq_nil_iff

/-- A value passes the schema of a type if it has that type. -/
theorem TypeSchema.issuesWithin_eq_nil_iff {type : String} {default schema : Json}
    (h : TypeSchema type default schema) (refer : String → Option Json) (n : Nat) (v : Json)
    (path : Path) : issuesWithin refer (n + 1) schema v path = [] ↔ hasType type v = true := by
  have hdefault : "default" ∈ notes := by decide
  have hformat : "format" ∈ notes := by decide
  cases h <;> simp [issuesWithin_obj_eq_nil_iff, keywordIssues_note hdefault,
    keywordIssues_note hformat, keywordIssues_type_eq_nil_iff]

/-- One step is for the object, and another one for its members. -/
theorem exists_stepsFor_object (title description : String) (members : Members) (v : Json) :
    ∃ n, stepsFor (object title description members) v = n + 2 := by
  refine ⟨stepsFor (object title description members) v - 2, ?_⟩
  simp only [stepsFor, object, Json.depth]
  omega

/-- An object that passes has all members that are asked for, and each of them passes its own schema. -/
theorem exists_of_issues_object_eq_nil {title description : String} {members ms : Members}
    (h : issues (object title description members) (.obj ms) = []) {m : String × Json}
    (hm : m ∈ members) : ∃ v, get? ms m.1 = some v ∧
      ∃ refer n path, issuesWithin refer (n + 1) m.2 v path = [] := by
  obtain ⟨n, hn⟩ := exists_stepsFor_object title description members (.obj ms)
  rw [issues, hn, object, issuesWithin_obj_eq_nil_iff] at h
  have hproperties := (keywordIssues_properties_eq_nil_iff rfl).1
    (h ("properties", .obj members) (by simp [objectKeywords]))
  have hrequired := keywordIssues_required_eq_nil_iff.1
    (h ("required", .arr ((names members).map .str)) (by simp [objectKeywords]))
  obtain ⟨v, hv⟩ := hrequired m.1 (List.mem_map_of_mem hm)
  exact ⟨v, hv, _, _, _, hproperties m hm v hv⟩

/-- **An object passes** if it has all members that are asked for, and each of them passes its own
schema. `P` tells what that means. -/
theorem issues_object_eq_nil_iff {title description : String} {members ms : Members}
    {P : String × Json → Json → Prop}
    (hP : ∀ m ∈ members, ∀ refer n v path, issuesWithin refer (n + 1) m.2 v path = [] ↔ P m v) :
    issues (object title description members) (.obj ms) = [] ↔
      ∀ m ∈ members, ∃ v, get? ms m.1 = some v ∧ P m v := by
  constructor
  · intro h m hm
    obtain ⟨v, hv, refer, n, path, hpass⟩ := exists_of_issues_object_eq_nil h hm
    exact ⟨v, hv, (hP m hm _ _ _ _).1 hpass⟩
  · intro h
    obtain ⟨n, hn⟩ := exists_stepsFor_object title description members (.obj ms)
    rw [issues, hn, object, issuesWithin_obj_eq_nil_iff]
    intro keyword hkeyword
    simp only [objectKeywords, List.mem_cons, List.not_mem_nil, or_false] at hkeyword
    rcases hkeyword with rfl | rfl | rfl | rfl | rfl
    · exact (keywordIssues_type_eq_nil_iff "object").2 rfl
    · exact keywordIssues_note (by simp [notes]) _
    · exact keywordIssues_note (by simp [notes]) _
    · refine (keywordIssues_properties_eq_nil_iff rfl).2 fun m hm v hv => ?_
      obtain ⟨v', hv', hpass⟩ := h m hm
      obtain rfl := Option.some.inj (hv.symm.trans hv')
      exact (hP m hm _ _ _ _).2 hpass
    · refine keywordIssues_required_eq_nil_iff.2 (List.forall_mem_map.2 fun m hm => ?_)
      obtain ⟨v, hv, -⟩ := h m hm
      exact ⟨v, hv⟩

/-! ### Schemas that are well formed -/

/-- Each keyword stands in the table once. -/
theorem lookup_table {entry : String × Form} (h : entry ∈ table) :
    table.lookup entry.1 = some entry.2 := by
  have hnames : (table.map (·.1)).Nodup := by decide +kernel
  exact lookup_of_mem hnames h

/-- Keywords whose arguments have the forms of the table make up a schema. -/
theorem faultWithin_obj_eq_none {n : Nat} {keywords : Members}
    (h : ∀ m ∈ keywords, ∃ form, table.lookup m.1 = some form ∧
      form.fault? (faultWithin n) m.2 = none) : faultWithin (n + 1) (.obj keywords) = none := by
  refine List.findSome?_eq_none_iff.2 fun entry hentry => ?_
  refine Option.bind_eq_none_iff.2 fun arg harg => ?_
  obtain ⟨form, hform, hfault⟩ := h (entry.1, arg) (mem_of_lookup harg)
  obtain rfl := Option.some.inj (hform.symm.trans (lookup_table hentry))
  exact hfault

/-- The keywords that hold no schemas and no texts that could be wrong. -/
def inert : List String := ["type", "title", "description", "format", "default", "required"]

theorem textFault_of_inert {keyword : String} (h : keyword ∈ inert) (root arg : Json) :
    textFault root keyword arg = none := by
  simp only [inert, List.mem_cons, List.not_mem_nil, or_false] at h
  rcases h with rfl | rfl | rfl | rfl | rfl | rfl <;> rfl

theorem subschemas_of_inert {keyword : String} (h : keyword ∈ inert) (keywords : Members)
    (arg : Json) : subschemas keywords keyword arg = [] := by
  simp only [inert, List.mem_cons, List.not_mem_nil, or_false] at h
  rcases h with rfl | rfl | rfl | rfl | rfl | rfl <;> rfl

theorem textFaultWithin_obj_eq_none {root : Json} {n : Nat} {keywords : Members}
    (h : ∀ m ∈ keywords, m.1 ∈ inert ∨ m.1 = "properties" ∧
      ∀ p ∈ m.2.members?.getD [], textFaultWithin root n p.2 = none) :
    textFaultWithin root (n + 1) (.obj keywords) = none := by
  refine List.findSome?_eq_none_iff.2 fun m hm => ?_
  rcases h m hm with hinert | ⟨hname, hsub⟩
  · rw [textFault_of_inert hinert, subschemas_of_inert hinert]
    rfl
  · have hschemas : subschemas keywords m.1 m.2 = (m.2.members?.getD []).map (·.2) := by
      rw [hname]
      rfl
    have htext : textFault root m.1 m.2 = none := by
      rw [hname]
      rfl
    have hfirst : firstOf (textFaultWithin root n) ((m.2.members?.getD []).map (·.2)) = none := by
      refine List.findSome?_eq_none_iff.2 fun schema hschema => ?_
      obtain ⟨p, hp, rfl⟩ := List.mem_map.1 hschema
      exact hsub p hp
    rw [htext, hschemas, hfirst]
    rfl

theorem TypeSchema.faultWithin_eq_none {type : String} {default schema : Json}
    (h : TypeSchema type default schema) (htype : type ∈ allTypes) (n : Nat) :
    faultWithin n schema = none := by
  cases n with
  | zero => rfl
  | succ n =>
    have hnames : Form.fault? (faultWithin n) .types (.str type) = none :=
      if_pos (List.contains_iff_mem.2 htype)
    cases h with
    | plain =>
      refine faultWithin_obj_eq_none ?_
      simp only [List.forall_mem_cons]
      exact ⟨⟨_, rfl, hnames⟩, ⟨_, rfl, rfl⟩, by simp⟩
    | formatted format =>
      refine faultWithin_obj_eq_none ?_
      simp only [List.forall_mem_cons]
      exact ⟨⟨_, rfl, hnames⟩, ⟨_, rfl, rfl⟩, ⟨_, rfl, rfl⟩, by simp⟩

theorem TypeSchema.textFaultWithin_eq_none {type : String} {default schema : Json}
    (h : TypeSchema type default schema) (root : Json) (n : Nat) :
    textFaultWithin root n schema = none := by
  cases n with
  | zero => rfl
  | succ n => cases h <;> exact textFaultWithin_obj_eq_none (by simp [inert])

theorem equal_str (a b : String) : equal (.str a) (.str b) = (a == b) := rfl

theorem allDistinct_map_str {ks : List String} (h : ks.Nodup) :
    allDistinct (ks.map .str) = true := by
  induction ks with
  | nil => rfl
  | cons k ks ih =>
    obtain ⟨hk, hks⟩ := List.nodup_cons.1 h
    rw [List.map_cons, allDistinct, ih hks, Bool.and_true, List.all_map, List.all_eq_true]
    intro other ho
    have hne : k ≠ other := fun he => hk (he ▸ ho)
    simp [equal_str, hne]

/-- Different names are what `required` asks for. -/
theorem namesFault_map_str {ks : List String} (h : ks.Nodup) :
    namesFault (.arr (ks.map .str)) = none := by
  have harray : typeFault "array" (.arr (ks.map .str)) = none := rfl
  have hstrings : firstOf (typeFault "string") (ks.map .str) = none := by
    refine List.findSome?_eq_none_iff.2 fun j hj => ?_
    obtain ⟨k, -, rfl⟩ := List.mem_map.1 hj
    rfl
  simp [namesFault, harray, Json.items?, hstrings, allDistinct_map_str h]

/-- **Nothing is wrong with a schema** that tells the types of members with different names. -/
theorem fault?_object {title description : String} {members : Members} (hd : Distinct members)
    (h : ∀ m ∈ members, ∃ type ∈ allTypes, ∃ default, TypeSchema type default m.2) :
    fault? (object title description members) = none := by
  have hform (n : Nat) : faultWithin (n + 1) (object title description members) = none := by
    have hmembers : firstOf (fun m => faultWithin n m.2) members = none := by
      refine List.findSome?_eq_none_iff.2 fun m hm => ?_
      obtain ⟨type, htype, default, hschema⟩ := h m hm
      exact hschema.faultWithin_eq_none htype n
    refine faultWithin_obj_eq_none ?_
    simp only [objectKeywords, List.forall_mem_cons]
    exact ⟨⟨_, rfl, rfl⟩, ⟨_, rfl, rfl⟩, ⟨_, rfl, rfl⟩, ⟨_, rfl, hmembers⟩,
      ⟨_, rfl, namesFault_map_str hd⟩, by simp⟩
  have htext (root : Json) (n : Nat) :
      textFaultWithin root (n + 1) (object title description members) = none := by
    have hmembers : ∀ m ∈ members, textFaultWithin root n m.2 = none := fun m hm => by
      obtain ⟨type, -, default, hschema⟩ := h m hm
      exact hschema.textFaultWithin_eq_none root n
    refine textFaultWithin_obj_eq_none ?_
    simpa [objectKeywords, inert, Json.members?] using hmembers
  rw [fault?, hform, htext]
  rfl

end Schema

/-! ### What is relied on -/

open Schema in
/-- A validator keeps to the standard in what templates rely on: `required` asks for members, `properties`
and `type` ask for their types, and notes ask for nothing. -/
class Validator.Standard [Validator] : Prop where
  /-- A schema that tells the types of members is well formed. -/
  fault?_object {title description : String} {members : Members} (hd : members.Distinct)
    (h : ∀ m ∈ members, ∃ type ∈ allTypes, ∃ default, TypeSchema type default m.2) :
    Validator.fault? (object title description members) = none
  /-- An object that passes has the members that are asked for. Where the schema of one tells its type,
  the value has the type. -/
  exists_of_issues_eq_nil {title description : String} {members ms : Members} (hd : members.Distinct)
    (h : Validator.issues (object title description members) (.obj ms) = []) {m : String × Json}
    (hm : m ∈ members) : ∃ v, Members.get? ms m.1 = some v ∧
      ∀ type default, TypeSchema type default m.2 → hasType type v = true
  /-- Where the schemas of the members tell their types, nothing else is asked for. -/
  issues_eq_nil {title description : String} {members ms : Members} (hd : members.Distinct)
    (h : ∀ m ∈ members, ∃ type default, TypeSchema type default m.2 ∧
      ∃ v, Members.get? ms m.1 = some v ∧ hasType type v = true) :
    Validator.issues (object title description members) (.obj ms) = []

instance : Validator.Standard where
  fault?_object := Schema.fault?_object
  exists_of_issues_eq_nil _ h m hm := by
    obtain ⟨v, hv, refer, n, path, hpass⟩ := Schema.exists_of_issues_object_eq_nil h hm
    exact ⟨v, hv, fun type default htype => (htype.issuesWithin_eq_nil_iff refer n v path).1 hpass⟩
  issues_eq_nil {title description members ms} _ h := by
    refine (Schema.issues_object_eq_nil_iff
      (P := fun m v => ∀ type default, Schema.TypeSchema type default m.2 → Schema.hasType type v = true)
      fun m hm refer n v path => ?_).2 fun m hm => ?_
    · obtain ⟨type, default, htype, -⟩ := h m hm
      constructor
      · exact fun hpass type' default' htype' => (htype'.issuesWithin_eq_nil_iff refer n v path).1 hpass
      · exact fun hv => (htype.issuesWithin_eq_nil_iff refer n v path).2 (hv _ _ htype)
    · obtain ⟨type, default, htype, v, hv, hasType⟩ := h m hm
      refine ⟨v, hv, fun type' default' htype' => ?_⟩
      obtain rfl := Json.str.inj (Option.some.inj (htype.get?_type.symm.trans htype'.get?_type))
      exact hasType

end Stencil
