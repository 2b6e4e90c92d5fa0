import Mathlib.Data.List.Induction
import Stencil.Proofs.NameMap
import Stencil.Proofs.Template.Compiled
import Stencil.Proofs.Template.Insertion

/-!
# The parameters of a template

A placeholder may occur often. The parameters are the names in the order in which they first occur, and
each one is described by a single occurrence: the last one with a type, or the first one if none has a
type (`Wins`). The schema lists the parameters that are not reserved, in the same order. So a bare
placeholder that is written behind another one of its name changes none of this.
-/

namespace Stencil

/-- The placeholder, if the token is one. -/
def Token.placeholder? : Token → Option Placeholder
  | .comment _ => none
  | .placeholder p => some p

/-- The remark, if the token is one. -/
def Token.remark? : Token → Option String
  | .comment text => some text
  | .placeholder _ => none

namespace Template

/-- The placeholders among tokens, in order. -/
def occurrences (spans : List Span) : List Placeholder :=
  spans.filterMap fun span => span.token.placeholder?

/-- The remarks among tokens, in order. -/
def remarks (spans : List Span) : List String := spans.filterMap fun span => span.token.remark?

theorem occurrences_spansFrom (start : Nat) (parts : List Part) :
    occurrences (spansFrom start parts) = parts.filterMap Engine.placeholderOf := by
  induction parts generalizing start with
  | nil => rfl
  | cons part parts ih =>
    cases part with
    | literal text => exact ih _
    | token inside token =>
      cases token with
      | comment text => exact ih _
      | placeholder p => exact congrArg (p :: ·) (ih _)

theorem remarks_spansFrom (start : Nat) (parts : List Part) :
    remarks (spansFrom start parts) = parts.filterMap Engine.commentOf := by
  induction parts generalizing start with
  | nil => rfl
  | cons part parts ih =>
    cases part with
    | literal text => exact ih _
    | token inside token =>
      cases token with
      | comment text => exact congrArg (text :: ·) (ih _)
      | placeholder p => exact ih _

/-! ### Bare placeholders that are written again -/

/-- The second text is the first one with bare placeholders written into it. Wherever one is written,
it is a token of the text, and a placeholder of its name stands in front of it. -/
inductive Repeats (s : List Char) : List Char → Prop where
  | refl : Repeats s s
  | write {u v inside : List Char} {before after : List Site} {p : Placeholder}
      (h : Repeats s (u ++ v))
      (hsites : Tokens [] (u ++ ((Piece.token inside).source ++ v)) (before ++ ⟨u, inside⟩ :: after))
      (hdeclares : DeclaresToken inside (.placeholder p)) (hbare : p.isTyped = false)
      (hknown : ∃ site ∈ before, ∃ q, DeclaresToken site.inside (.placeholder q) ∧
        q.name = p.name) :
      Repeats s (u ++ ((Piece.token inside).source ++ v))

theorem scan_of_tokens {name : String} {text : List Char} {sites : List Site} (h : Tokens [] text sites) :
    scan name (String.ofList text) = sites.mapM (Site.read name) := by
  rw [scan_eq, String.toList_ofList, tokens_iff.1 h]

/-- Sites with the same insides are read as the same tokens. -/
theorem exists_read_of_inside {name : String} {sites sites' : List Site} {spans : List Span}
    (h : sites'.map Site.inside = sites.map Site.inside)
    (hread : sites.mapM (Site.read name) = .ok spans) :
    ∃ spans', sites'.mapM (Site.read name) = .ok spans' ∧
      spans'.map Span.token = spans.map Span.token := by
  simp only [mapM_eq_ok_iff, Site.read_eq_ok_iff] at hread ⊢
  induction hread generalizing sites' with
  | nil => exact ⟨[], by simpa using h, rfl⟩
  | @cons site span sites spans hsite _ ih =>
    obtain ⟨site', rest, rfl, hinside, hrest⟩ := List.map_eq_cons_iff.1 h
    obtain ⟨spans', hspans', htokens⟩ := ih hrest
    refine ⟨⟨site'.start, site'.stop, span.token⟩ :: spans', .cons ⟨?_, rfl, rfl⟩ hspans', ?_⟩
    · rw [hinside]
      exact hsite.1
    · simp [htokens]

/-- A token that is written into a text leaves the tokens in front of it where they are, and those
behind it what they are. -/
theorem exists_scan_written {name : String} {u v inside : List Char} {before after : List Site}
    {spans : List Span} {token : Token} (hs : scan name (String.ofList (u ++ v)) = .ok spans)
    (hsites : Tokens [] (u ++ ((Piece.token inside).source ++ v)) (before ++ ⟨u, inside⟩ :: after))
    (hdeclares : DeclaresToken inside token) : ∃ first last last' span,
      spans = first ++ last ∧ before.mapM (Site.read name) = .ok first ∧
      scan name (String.ofList (u ++ ((Piece.token inside).source ++ v))) =
        .ok (first ++ span :: last') ∧
      span.token = token ∧ last'.map Span.token = last.map Span.token := by
  obtain ⟨after', hsites', hinside⟩ := exists_tokens_removed hsites
  rw [scan_of_tokens hsites', List.mapM_append] at hs
  obtain ⟨first, hfirst, hs⟩ := bind_eq_ok_iff.1 hs
  obtain ⟨last, hlast, hs⟩ := bind_eq_ok_iff.1 hs
  obtain rfl := Except.ok.inj hs
  obtain ⟨last', hlast', htokens⟩ := exists_read_of_inside hinside.symm hlast
  obtain ⟨span, htoken, hnew⟩ : ∃ span : Span, span.token = token ∧
      Site.read name ⟨u, inside⟩ = .ok span :=
    ⟨⟨_, _, token⟩, rfl, Site.read_eq_ok_iff.2 ⟨hdeclares, rfl, rfl⟩⟩
  refine ⟨first, last, last', span, rfl, hfirst, ?_, htoken, htokens⟩
  rw [scan_of_tokens hsites, List.mapM_append, hfirst, List.mapM_cons, hnew, hlast']
  rfl

/-- What is read off the tokens depends on no place. -/
theorem filterMap_token_congr {α : Type} (f : Token → Option α) {spans spans' : List Span}
    (h : spans'.map Span.token = spans.map Span.token) :
    (spans'.filterMap fun span => f span.token) = spans.filterMap fun span => f span.token := by
  have hmap (spans : List Span) :
      (spans.filterMap fun span => f span.token) = (spans.map Span.token).filterMap f := by
    rw [List.filterMap_map]
    rfl
  rw [hmap, hmap, h]

theorem occurrences_append (spans more : List Span) :
    occurrences (spans ++ more) = occurrences spans ++ occurrences more :=
  List.filterMap_append

theorem remarks_append (spans more : List Span) :
    remarks (spans ++ more) = remarks spans ++ remarks more :=
  List.filterMap_append

end Template

namespace Engine

open Template

variable {w p : Placeholder} {ws ps : List Placeholder}

/-! ### Winning placeholders -/

/-- The occurrence that describes its parameter: the last one with a type, or the first one of all if
none has a type. -/
inductive Wins (ps : List Placeholder) (w : Placeholder) : Prop where
  | typed {before after : List Placeholder} (hps : ps = before ++ w :: after)
      (htyped : w.isTyped = true) (hlast : ∀ p ∈ after, p.name = w.name → p.isTyped = false)
  | bare {before after : List Placeholder} (hps : ps = before ++ w :: after)
      (hfirst : ∀ p ∈ before, p.name ≠ w.name)
      (hbare : ∀ p ∈ ps, p.name = w.name → p.isTyped = false)

theorem Wins.mem (h : Wins ps w) : w ∈ ps := by
  cases h with
  | typed hps => simp [hps]
  | bare hps => simp [hps]

theorem winners_append (ps : List Placeholder) (p : Placeholder) :
    winners (ps ++ [p]) = note (winners ps) p := by
  simp [winners]

theorem names_note (ws : List Placeholder) (p : Placeholder) : (note ws p).map (·.name) =
    if p.name ∈ ws.map (·.name) then ws.map (·.name) else ws.map (·.name) ++ [p.name] := by
  induction ws with
  | nil => simp [note]
  | cons w ws ih =>
    by_cases hw : w.name = p.name
    · by_cases hp : p.isTyped <;> simp [note, hw, hp]
    · by_cases hmem : p.name ∈ ws.map (·.name)
      · simp [note, hw, ih, hmem]
      · simp [note, hw, ih, hmem, Ne.symm hw]

/-- **The order of the parameters**: names stand in the order in which they first occur. -/
theorem names_winners (ps : List Placeholder) :
    (winners ps).map (·.name) = (ps.map (·.name)).eraseDups := by
  induction ps using List.reverseRecOn with
  | nil => rfl
  | append_singleton ps p ih =>
    rw [winners_append, names_note, ih, List.map_append, List.map_singleton,
      eraseDups_append_singleton]
    simp only [List.mem_eraseDups]

theorem nodup_names_winners (ps : List Placeholder) : ((winners ps).map (·.name)).Nodup := by
  rw [names_winners]
  exact nodup_eraseDups _

/-- Taking note of a placeholder adds it where its name is new or it has a type, and leaves what it
does not replace. -/
theorem of_mem_note (hd : (ws.map (·.name)).Nodup) (h : w ∈ note ws p) :
    w = p ∧ (p.name ∈ ws.map (·.name) → p.isTyped = true) ∨
      w ∈ ws ∧ (w.name = p.name → p.isTyped = false) := by
  induction ws with
  | nil => exact .inl ⟨by simpa [note] using h, by simp⟩
  | cons v ws ih =>
    obtain ⟨hv, hrest⟩ := List.nodup_cons.1 hd
    rw [note] at h
    split at h
    · rename_i hname
      rcases List.mem_cons.1 h with hw | hw
      · by_cases hp : p.isTyped = true
        · rw [if_pos hp] at hw
          exact .inl ⟨hw, fun _ => hp⟩
        · rw [if_neg hp] at hw
          exact .inr ⟨by simp [hw], fun _ => by simpa using hp⟩
      · refine .inr ⟨List.mem_cons_of_mem _ hw, fun hwp => absurd ?_ hv⟩
        -- the name is there once
        exact List.mem_map.2 ⟨w, hw, hwp.trans hname.symm⟩
    · rename_i hname
      rcases List.mem_cons.1 h with rfl | hw
      · exact .inr ⟨List.mem_cons_self, fun hwp => absurd hwp hname⟩
      · rcases ih hrest hw with ⟨rfl, hnew⟩ | ⟨hw, hkept⟩
        · refine .inl ⟨rfl, fun hmem => hnew ?_⟩
          simpa [Ne.symm hname] using hmem
        · exact .inr ⟨List.mem_cons_of_mem _ hw, hkept⟩

/-- A winner stays one until a placeholder of its name with a type follows. -/
theorem Wins.append (h : Wins ps w) (hp : w.name = p.name → p.isTyped = false) :
    Wins (ps ++ [p]) w := by
  cases h with
  | @typed before after hps htyped hlast =>
    have happend : ps ++ [p] = before ++ w :: (after ++ [p]) := by simp [hps]
    refine .typed happend htyped fun q hq hname => ?_
    rcases List.mem_append.1 hq with hq | hq
    · exact hlast q hq hname
    · obtain rfl := List.mem_singleton.1 hq
      exact hp hname.symm
  | @bare before after hps hfirst hbare =>
    have happend : ps ++ [p] = before ++ w :: (after ++ [p]) := by simp [hps]
    refine .bare happend hfirst fun q hq hname => ?_
    rcases List.mem_append.1 hq with hq | hq
    · exact hbare q hq hname
    · obtain rfl := List.mem_singleton.1 hq
      exact hp hname.symm

/-- The last placeholder wins if its name is new or it has a type. -/
theorem wins_last (h : p.name ∈ ps.map (·.name) → p.isTyped = true) : Wins (ps ++ [p]) p := by
  by_cases hp : p.isTyped = true
  · exact .typed rfl hp fun q hq => absurd hq List.not_mem_nil
  · have hnew : ∀ q ∈ ps, q.name ≠ p.name := fun q hq hname =>
      hp (h (List.mem_map.2 ⟨q, hq, hname⟩))
    refine .bare rfl hnew fun q hq hname => ?_
    rcases List.mem_append.1 hq with hq | hq
    · exact absurd hname (hnew q hq)
    · obtain rfl := List.mem_singleton.1 hq
      simpa using hp

theorem wins_of_mem_winners (h : w ∈ winners ps) : Wins ps w := by
  induction ps using List.reverseRecOn generalizing w with
  | nil => cases h
  | append_singleton ps p ih =>
    rw [winners_append] at h
    rcases of_mem_note (nodup_names_winners ps) h with ⟨rfl, hnew⟩ | ⟨hw, hkept⟩
    · exact wins_last fun hmem => hnew (mem_winners.2 hmem)
    · exact (ih hw).append hkept

/-- Of two places in a list, one is the other or stands in front of it. -/
theorem eq_or_mem_of_append_eq {α : Type} {a b : α} {as bs cs ds : List α}
    (h : as ++ a :: bs = cs ++ b :: ds) : a = b ∨ b ∈ bs ∧ a ∈ cs ∨ a ∈ ds ∧ b ∈ as := by
  rcases List.append_eq_append_iff.1 h with ⟨u, rfl, hu⟩ | ⟨u, rfl, hu⟩
  · cases u with
    | nil => exact .inl (by simpa using (List.cons.inj hu).1)
    | cons c u =>
      obtain ⟨rfl, rfl⟩ := List.cons.inj hu
      exact .inr (.inl ⟨by simp, by simp⟩)
  · cases u with
    | nil => exact .inl (by simpa using (List.cons.inj hu).1.symm)
    | cons c u =>
      obtain ⟨rfl, rfl⟩ := List.cons.inj hu
      exact .inr (.inr ⟨by simp, by simp⟩)

/-- A name has one winner. -/
theorem Wins.unique {w' : Placeholder} (h : Wins ps w) (h' : Wins ps w') (hname : w.name = w'.name) :
    w = w' := by
  cases h with
  | typed hps htyped hlast =>
    cases h' with
    | typed hps' htyped' hlast' =>
      rcases eq_or_mem_of_append_eq (hps.symm.trans hps') with he | ⟨hmem, -⟩ | ⟨hmem, -⟩
      · exact he
      · rw [hlast w' hmem hname.symm] at htyped'
        cases htyped'
      · rw [hlast' w hmem hname] at htyped
        cases htyped
    | bare _ _ hbare =>
      rw [hbare w (by simp [hps]) hname] at htyped
      cases htyped
  | bare hps hfirst hbare =>
    cases h' with
    | typed hps' htyped' =>
      rw [hbare w' (by simp [hps']) hname.symm] at htyped'
      cases htyped'
    | bare hps' hfirst' =>
      rcases eq_or_mem_of_append_eq (hps.symm.trans hps') with he | ⟨-, hmem⟩ | ⟨-, hmem⟩
      · exact he
      · exact absurd hname (hfirst' w hmem)
      · exact absurd hname.symm (hfirst w' hmem)

/-- **The winning placeholders** are the ones that describe their parameters. -/
theorem mem_winners_iff : w ∈ winners ps ↔ Wins ps w := by
  refine ⟨wins_of_mem_winners, fun h => ?_⟩
  have hname : w.name ∈ (winners ps).map (·.name) :=
    mem_winners.2 (List.mem_map_of_mem (f := (·.name)) h.mem)
  obtain ⟨w', hw', hname⟩ := List.mem_map.1 hname
  rwa [h.unique (wins_of_mem_winners hw') hname.symm]

/-- A bare placeholder of a name that is known changes nothing. -/
theorem note_of_known (hname : p.name ∈ ws.map (·.name)) (hp : p.isTyped = false) :
    note ws p = ws := by
  induction ws with
  | nil => cases hname
  | cons w ws ih =>
    by_cases hw : w.name = p.name
    · simp [note, hw, hp]
    · have hrest : p.name ∈ ws.map (·.name) := by simpa [Ne.symm hw] using hname
      simp [note, hw, ih hrest]

theorem winners_repeated {after : List Placeholder} (hname : p.name ∈ ps.map (·.name))
    (hp : p.isTyped = false) : winners (ps ++ p :: after) = winners (ps ++ after) := by
  have hnote : note (winners ps) p = winners ps := note_of_known (mem_winners.2 hname) hp
  unfold winners at hnote ⊢
  rw [List.foldl_append, List.foldl_cons, hnote, List.foldl_append]

/-! ### What compiling makes of the tokens -/

variable {name source : String} {fragments : Fragments} {e : Engine}

/-- The indices in the slots, in the order of the text. -/
def slots (segments : List Segment) : List Nat :=
  segments.filterMap fun
    | .literal _ => none
    | .slot index => some index

/-- The parameters that the schema tells of. -/
def visible (e : Engine) : List Parameter :=
  e.parameters.filter fun q => q.name ≠ uuidName ∧ q.name ≠ applicationName

theorem slots_segments (parts : List Part) : slots (parts.filterMap (segmentOf ws)) =
    (parts.filterMap placeholderOf).map fun p => ws.findIdx (·.name == p.name) := by
  induction parts with
  | nil => rfl
  | cons part parts ih =>
    cases part with
    | literal text => exact ih
    | token inside token =>
      cases token with
      | comment text => exact ih
      | placeholder p => exact congrArg (_ :: ·) ih

/-- A template that compiles has tokens, and is made of them. -/
theorem exists_scan_of_compile [Validator] (h : compile name source fragments = .ok e) :
    ∃ spans, scan name source = .ok spans ∧
      List.Forall₂ (fun p q => describe name fragments p = .ok q) (winners (occurrences spans))
        e.parameters ∧
      slots e.segments = (occurrences spans).map
        (fun p => (winners (occurrences spans)).findIdx (·.name == p.name)) ∧
      e.schema = schemaOf name ((remarks spans).head?.getD "") e.parameters ∧
      Rules.ofSchema e.schema = .ok e.rules := by
  obtain ⟨parts, parameters, rules, hparts, hparameters, hrules, rfl⟩ := compile_eq_ok_iff.1 h
  refine ⟨spansFrom 0 parts, by rw [scan, hparts]; rfl, ?_⟩
  rw [occurrences_spansFrom, remarks_spansFrom]
  exact ⟨mapM_eq_ok_iff.1 hparameters, slots_segments parts, rfl, hrules⟩

/-- Tokens with the same winners and the same first remark make the same parameters and the same
schema. -/
theorem exists_compile_of_scan [Validator] {source' : String} {spans spans' : List Span}
    (h : compile name source fragments = .ok e) (hs : scan name source = .ok spans)
    (hs' : scan name source' = .ok spans')
    (hwinners : winners (occurrences spans') = winners (occurrences spans))
    (hremarks : remarks spans' = remarks spans) :
    ∃ e', compile name source' fragments = .ok e' ∧ e'.parameters = e.parameters ∧
      e'.schema = e.schema := by
  obtain ⟨spans₁, hs₁, hparameters, -, hschema, hrules⟩ := exists_scan_of_compile h
  obtain rfl := Except.ok.inj (hs₁.symm.trans hs)
  obtain ⟨parts, hparts, rfl⟩ := map_eq_ok hs'
  rw [occurrences_spansFrom] at hwinners
  rw [remarks_spansFrom] at hremarks
  rw [hschema] at hrules
  refine ⟨_, compile_eq_ok_iff.2 ⟨parts, e.parameters, e.rules, hparts, ?_, ?_, rfl⟩, rfl, ?_⟩
  · rw [hwinners]
    exact mapM_eq_ok_iff.2 hparameters
  · rwa [hremarks]
  · rw [hschema, hremarks]

/-! ### Bare placeholders that are written again -/

/-- A bare placeholder that is written behind one of its name leaves parameters and schema as they
are. -/
theorem exists_compile_written [Validator] {u v inside : List Char} {before after : List Template.Site}
    {p : Placeholder} (h : compile name (String.ofList (u ++ v)) fragments = .ok e)
    (hsites : Tokens [] (u ++ ((Piece.token inside).source ++ v)) (before ++ ⟨u, inside⟩ :: after))
    (hdeclares : DeclaresToken inside (.placeholder p)) (hbare : p.isTyped = false)
    (hknown : ∃ site ∈ before, ∃ q, DeclaresToken site.inside (.placeholder q) ∧ q.name = p.name) :
    ∃ e', compile name (String.ofList (u ++ ((Piece.token inside).source ++ v))) fragments = .ok e' ∧
      e'.parameters = e.parameters ∧ e'.schema = e.schema := by
  obtain ⟨spans, hs, -⟩ := exists_scan_of_compile h
  obtain ⟨first, last, last', ⟨start, stop, _⟩, rfl, hfirst, hs', rfl, htokens⟩ :=
    exists_scan_written hs hsites hdeclares
  -- the name is known from what stands in front
  have hname : p.name ∈ (occurrences first).map (·.name) := by
    obtain ⟨site, hsite, q, hq, hname⟩ := hknown
    have hspan : ⟨site.start, site.stop, .placeholder q⟩ ∈ first :=
      (mem_of_mapM hfirst).2 ⟨site, hsite, Template.Site.read_eq_ok_iff.2 ⟨hq, rfl, rfl⟩⟩
    exact List.mem_map.2 ⟨q, List.mem_filterMap.2 ⟨_, hspan, rfl⟩, hname⟩
  have hlast : occurrences last' = occurrences last := filterMap_token_congr _ htokens
  have hremarks : remarks last' = remarks last := filterMap_token_congr _ htokens
  refine exists_compile_of_scan h hs hs' ?_ ?_
  · have hwritten : occurrences (first ++ ⟨start, stop, .placeholder p⟩ :: last') =
        occurrences first ++ p :: occurrences last := by
      rw [occurrences_append, ← hlast]
      rfl
    rw [hwritten, occurrences_append, winners_repeated hname hbare]
  · rw [remarks_append, remarks_append, ← hremarks]
    rfl

theorem exists_compile_of_repeats [Validator] {s t : List Char} (hrepeats : Repeats s t)
    (h : compile name (String.ofList s) fragments = .ok e) :
    ∃ e', compile name (String.ofList t) fragments = .ok e' ∧ e'.parameters = e.parameters ∧
      e'.schema = e.schema := by
  induction hrepeats with
  | refl => exact ⟨e, h, rfl, rfl⟩
  | write _ hsites hdeclares hbare hknown ih =>
    obtain ⟨e₁, h₁, hparameters₁, hschema₁⟩ := ih
    obtain ⟨e₂, h₂, hparameters₂, hschema₂⟩ :=
      exists_compile_written h₁ hsites hdeclares hbare hknown
    exact ⟨e₂, h₂, hparameters₂.trans hparameters₁, hschema₂.trans hschema₁⟩

/-! ### The parameters -/

theorem map_name_parameters {ws : List Placeholder} {qs : List Parameter}
    (h : List.Forall₂ (fun p q => describe name fragments p = .ok q) ws qs) :
    qs.map (·.name) = ws.map (·.name) := by
  induction h with
  | nil => rfl
  | cons hq _ ih => rw [List.map_cons, List.map_cons, (describe_eq_ok hq).1, ih]

/-- A parameter is reserved if it has a name with a meaning of its own. -/
theorem filter_reserved {ws : List Placeholder}
    (h : List.Forall₂ (fun p q => describe name fragments p = .ok q) ws e.parameters) :
    e.parameters.filter (!·.reserved) = visible e := by
  refine List.filter_congr fun q hq => ?_
  obtain ⟨p, -, hp⟩ := exists_of_mem_right h hq
  obtain ⟨fragment, widget, -, rfl⟩ := describe_eq_ok_iff.1 hp
  by_cases huuid : p.name = uuidName <;> by_cases happ : p.name = applicationName <;>
    simp [reservedNames, huuid, happ]

/-- A template that compiles has one parameter for each name of its placeholders, in the order in which
the names first occur, and the last occurrence with a type, or else the first one, describes it. Each
occurrence has a slot, in the order of the text, that holds the index of the parameter of its name. The
schema tells of the parameters whose names have no meaning of their own, and of no others, in that
order. Bare placeholders that are written behind others of their names change no parameter and no
schema. -/
theorem parameters_of_compile [Validator] (h : compile name source fragments = .ok e) :
    ∃ spans, scan name source = .ok spans ∧
      e.parameters.map (·.name) = ((occurrences spans).map (·.name)).eraseDups ∧
      (∀ q ∈ e.parameters, ∃ w, Wins (occurrences spans) w ∧ q.name = w.name ∧ q.token = w.raw ∧
        describe name fragments w = .ok q) ∧
      List.Forall₂ (fun p index => ∃ q, e.parameters[index]? = some q ∧ q.name = p.name)
        (occurrences spans) (slots e.segments) ∧
      e.schema.get? "properties" = some (.obj ((visible e).map fun q => (q.name, q.schema))) ∧
      e.schema.get? "required" = some (.arr ((visible e).map fun q => .str q.name)) ∧
      ∀ text, Repeats source.toList text.toList →
        ∃ e', compile name text fragments = .ok e' ∧ e'.parameters = e.parameters ∧
          e'.schema = e.schema := by
  obtain ⟨spans, hs, hparameters, hslots, hschema, -⟩ := exists_scan_of_compile h
  refine ⟨spans, hs, ?_, fun q hq => ?_, ?_, ?_, ?_, fun text hrepeats => ?_⟩
  · rw [map_name_parameters hparameters, names_winners]
  · obtain ⟨w, hw, hdescribe⟩ := exists_of_mem_right hparameters hq
    obtain ⟨fragment, widget, -, rfl⟩ := describe_eq_ok_iff.1 hdescribe
    exact ⟨w, wins_of_mem_winners hw, rfl, rfl, hdescribe⟩
  · rw [hslots, List.forall₂_map_right_iff, List.forall₂_same]
    intro p hp
    exact getElem?_parameters hparameters
      (mem_winners.2 (List.mem_map_of_mem (f := (·.name)) hp))
  · rw [hschema, ← filter_reserved hparameters]
    rfl
  · rw [hschema, ← filter_reserved hparameters]
    rfl
  · rw [← String.ofList_toList (s := source)] at h
    rw [← String.ofList_toList (s := text)]
    exact exists_compile_of_repeats hrepeats h

/-- The occurrence with a type describes the parameter, and the name may be written once more behind its
first occurrence. -/
theorem parameters_of_compile_repeated : ∃ e e',
    compile "x" "{{a}} {{a:integer}}" .empty = .ok e ∧ e.table = [("a", "a:integer")] ∧
      compile "x" "{{a}}{{a}} {{a:integer}}" .empty = .ok e' ∧ e'.parameters = e.parameters ∧
      e'.schema = e.schema := by
  have htable : ((compile "x" "{{a}} {{a:integer}}" .empty).toOption.map table) =
      some [("a", "a:integer")] := by decide +kernel
  obtain ⟨e, he, htable⟩ := exists_of_toOption htable
  have hread : readToken ['a'] = .ok (.placeholder ⟨"a", "a", none, none⟩) := by decide +kernel
  have hdeclares := readToken_eq_ok_iff.1 hread
  have hsites : Tokens [] ("{{a}}".toList ++ ((Piece.token ['a']).source ++ " {{a:integer}}".toList))
      ([⟨[], ['a']⟩] ++ ⟨"{{a}}".toList, ['a']⟩ :: [⟨"{{a}}{{a}} ".toList, "a:integer".toList⟩]) :=
    tokens_iff.2 rfl
  have hrepeats : Repeats "{{a}} {{a:integer}}".toList "{{a}}{{a}} {{a:integer}}".toList :=
    .write (u := "{{a}}".toList) (v := " {{a:integer}}".toList) .refl hsites hdeclares rfl
      ⟨_, List.mem_singleton_self _, _, hdeclares, rfl⟩
  obtain ⟨spans, -, -, -, -, -, -, hsame⟩ := parameters_of_compile he
  obtain ⟨e', he', hparameters, hschema⟩ := hsame _ hrepeats
  exact ⟨e, e', he, htable, he', hparameters, hschema⟩

end Engine

end Stencil
