import Stencil.Proofs.Except
import Stencil.Template.Engine

/-!
# What a compiled template is made of

The parts of a template are cut from its text, and nothing is lost by it (`flatMap_source_parts`). A
template that compiles has a parameter for the name of every placeholder, at the index that the slots
of that name hold (`getElem?_parameters`).
-/

namespace Stencil

namespace Template

/-! ### Cutting -/

/-- The text that is read but not yet cut. -/
def pending (before : List Char) : Option (List Char) → List Char
  | none => before.reverse
  | some inside => before.reverse ++ '{' :: '{' :: inside.reverse

theorem flatMap_source_literalOf (reversed : List Char) :
    (literalOf reversed).flatMap Piece.source = reversed.reverse := by
  unfold literalOf
  split
  · simp_all
  · simp [Piece.source]

theorem flatMap_source_cutFrom (before : List Char) (opened : Option (List Char)) (text : List Char) :
    (cutFrom before opened text).flatMap Piece.source = pending before opened ++ text := by
  fun_induction cutFrom before opened text <;>
    simp_all [pending, Piece.source, flatMap_source_literalOf]

/-- The pieces of a text are the text. -/
theorem flatMap_source_cut (text : List Char) : (cut text).flatMap Piece.source = text :=
  flatMap_source_cutFrom [] none text

/-- Literal text is read as it is, and a token with what its inside declares. -/
theorem read_eq_ok_iff {name : String} {piece : Piece} {part : Part} : piece.read name = .ok part ↔
    (∃ text, piece = .literal text ∧ part = .literal text) ∨
      ∃ inside token, piece = .token inside ∧ readToken inside = .ok token ∧
        part = .token inside token := by
  cases piece with
  | literal text => simp [Piece.read, eq_comm]
  | token inside => cases hread : readToken inside <;> simp [Piece.read, hread, eq_comm]

/-- Reading a piece keeps its text. -/
theorem source_of_read {name : String} {piece : Piece} {part : Part} (h : piece.read name = .ok part) :
    part.source = piece.source := by
  rcases read_eq_ok_iff.1 h with ⟨text, rfl, rfl⟩ | ⟨inside, token, rfl, -, rfl⟩ <;> rfl

/-- **The parts of a text are the text.** -/
theorem flatMap_source_parts {name : String} {text : List Char} {ps : List Part}
    (h : parts name text = .ok ps) : ps.flatMap Part.source = text := by
  have hread := mapM_eq_ok_iff.1 h
  rw [← flatMap_source_cut text]
  generalize cut text = pieces at hread
  clear h
  induction hread with
  | nil => rfl
  | cons h _ ih => rw [List.flatMap_cons, List.flatMap_cons, source_of_read h, ih]

end Template

namespace Engine

/-! ### Parameters -/

theorem mem_note {name : String} {ws : List Placeholder} {p : Placeholder} :
    name ∈ (note ws p).map (·.name) ↔ name ∈ ws.map (·.name) ∨ name = p.name := by
  induction ws with
  | nil => simp [note]
  | cons w ws ih =>
    rw [note]
    split
    · rename_i hw
      split <;> simp [hw] <;> tauto
    · simp only [List.map_cons, List.mem_cons, ih]
      tauto

/-- The winning placeholders have the names of all placeholders. -/
theorem mem_winners {name : String} {ps : List Placeholder} :
    name ∈ (winners ps).map (·.name) ↔ name ∈ ps.map (·.name) := by
  have hfold (ws : List Placeholder) :
      name ∈ (ps.foldl note ws).map (·.name) ↔ name ∈ ws.map (·.name) ∨ name ∈ ps.map (·.name) := by
    induction ps generalizing ws with
    | nil => simp
    | cons p ps ih => rw [List.foldl_cons, ih, mem_note, List.map_cons, List.mem_cons, or_assoc]
  rw [winners, hfold []]
  simp

/-- The default of a parameter with a fragment; a reserved name has none. -/
def defaultOf (p : Placeholder) (fragment : Json) : Option Json :=
  if reservedNames.contains p.name then none else chooseDefault p.name p.default fragment

/-- A parameter is described by its placeholder and the fragment that the type stands for. -/
theorem describe_eq_ok_iff {template : String} {fragments : Fragments} {p : Placeholder}
    {q : Parameter} : describe template fragments p = .ok q ↔ ∃ fragment widget,
      fragmentOf template fragments p.type = .ok (fragment, widget) ∧
      q = { name := p.name, token := p.raw, type := p.type
            schema := withDefault fragment (defaultOf p fragment), default := defaultOf p fragment
            reserved := reservedNames.contains p.name, widget
            interpolation := p.type.interpolation } := by
  unfold describe
  simp only [bind_eq_ok_iff, Except.ok.injEq, Prod.exists]
  constructor
  · rintro ⟨fragment, widget, hfragment, rfl⟩
    exact ⟨fragment, widget, hfragment, rfl⟩
  · rintro ⟨fragment, widget, hfragment, rfl⟩
    exact ⟨fragment, widget, hfragment, rfl⟩

/-- A parameter has the name of its placeholder, and is written as the type says. -/
theorem describe_eq_ok {template : String} {fragments : Fragments} {p : Placeholder} {q : Parameter}
    (h : describe template fragments p = .ok q) :
    q.name = p.name ∧ q.interpolation = p.type.interpolation := by
  obtain ⟨fragment, widget, -, rfl⟩ := describe_eq_ok_iff.1 h
  exact ⟨rfl, rfl⟩

/-- A template compiles where its text has parts, each of its winning placeholders is described, and
the schema of them is well formed. -/
theorem compile_eq_ok_iff [Validator] {name source : String} {fragments : Fragments} {e : Engine} :
    compile name source fragments = .ok e ↔ ∃ parts parameters rules,
      Template.parts name source.toList = .ok parts ∧
      (winners (parts.filterMap placeholderOf)).mapM (describe name fragments) = .ok parameters ∧
      Rules.ofSchema (schemaOf name ((parts.filterMap commentOf).head?.getD "") parameters) =
        .ok rules ∧
      e = { name, source, description := (parts.filterMap commentOf).head?.getD ""
            segments := parts.filterMap (segmentOf (winners (parts.filterMap placeholderOf)))
            parameters, rules
            schema := schemaOf name ((parts.filterMap commentOf).head?.getD "") parameters } := by
  unfold compile
  simp only [bind_eq_ok_iff, mapError_eq_ok_iff, Except.ok.injEq]
  constructor
  · rintro ⟨parts, hparts, parameters, hparameters, rules, hrules, rfl⟩
    exact ⟨parts, parameters, rules, hparts, hparameters, hrules, rfl⟩
  · rintro ⟨parts, parameters, rules, hparts, hparameters, hrules, rfl⟩
    exact ⟨parts, hparts, parameters, hparameters, rules, hrules, rfl⟩

/-- A template that compiles has parts; its slots and its parameters come from them. -/
theorem compile_eq_ok [Validator] {name source : String} {fragments : Fragments} {e : Engine}
    (h : compile name source fragments = .ok e) :
    ∃ parts, Template.parts name source.toList = .ok parts ∧
      e.segments = parts.filterMap (segmentOf (winners (parts.filterMap placeholderOf))) ∧
      List.Forall₂ (fun p q => describe name fragments p = .ok q)
        (winners (parts.filterMap placeholderOf)) e.parameters := by
  obtain ⟨parts, parameters, rules, hparts, hparameters, -, rfl⟩ := compile_eq_ok_iff.1 h
  exact ⟨parts, hparts, rfl, mapM_eq_ok_iff.1 hparameters⟩

/-- **The parameter of a placeholder** stands at the index that its slots hold. -/
theorem getElem?_parameters {template : String} {fragments : Fragments} {ws : List Placeholder}
    {qs : List Parameter}
    (h : List.Forall₂ (fun p q => describe template fragments p = .ok q) ws qs) {name : String}
    (hname : name ∈ ws.map (·.name)) :
    ∃ q, qs[ws.findIdx (·.name == name)]? = some q ∧ q.name = name := by
  induction h with
  | nil => cases hname
  | @cons p q ws qs hq _ ih =>
    by_cases hp : p.name = name
    · refine ⟨q, ?_, (describe_eq_ok hq).1.trans hp⟩
      simp [List.findIdx_cons, hp]
    · obtain ⟨q', hq', hname'⟩ := ih (by simpa [Ne.symm hp] using hname)
      refine ⟨q', ?_, hname'⟩
      rw [List.findIdx_cons, beq_false_of_ne hp]
      exact hq'

end Engine

end Stencil
