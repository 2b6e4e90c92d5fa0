import Stencil.Proofs.Json.Merged
import Stencil.Proofs.Json.Slots
import Stencil.Proofs.Template.Compiled
import Stencil.Template.Render

/-!
# Substitution is structural

A template whose text is JSON once a fresh word in quotes stands in each of its slots has the shape
of that JSON, whatever the values are: the text with the values filled in is read as the value with
the words replaced (`exists_substitute_parse`). No value can end early, run on into the text behind
it, or change what stands around it. Only equal member names meet: the last value stays, at the place
of the first (`Members.get?_insertAll`, `Members.names_insertAll`).

## The model

* `skeleton` is the text of a template with words in its slots and without its comments.
* `Fresh` says that the words are distinct and that nothing else in the skeleton spells one.
* `filling` gives each word the value of the parameter whose slot it stands in.
-/

namespace Stencil

open Read Template

namespace Engine

/-- The text of the parts without the comments, with the next word in quotes for each placeholder. -/
def skeleton : List Part → List String → List Char
  | .literal text :: ps, words => text ++ skeleton ps words
  | .token _ (.comment _) :: ps, words => skeleton ps words
  | .token _ (.placeholder _) :: ps, w :: words => '"' :: (w.toList ++ '"' :: skeleton ps words)
  | .token _ (.placeholder _) :: _, [] => []
  | [], _ => []

/-- The value of the parameter whose slot holds the word. -/
def filling (parts : List Part) (words : List String) (view : Members) (w : String) : Option Json :=
  ((words.zip (parts.filterMap placeholderOf)).lookup w).bind fun p => Members.get? view p.name

/-- Distinct words of lower-case letters that nothing else in a value spells: each is there at most
once, and every string that has one for a part is one. -/
structure Fresh (words : List String) (D : Json) : Prop where
  nodup : words.Nodup
  isWord : ∀ w ∈ words, IsWord w
  count_le_one : ∀ w ∈ words, D.strings.count w ≤ 1
  mem_of_infix : ∀ w ∈ words, ∀ s ∈ D.strings, w.toList <:+: s.toList → s ∈ words

/-- The view has a value for the parameter, which is written as JSON text and reads back. -/
def Supplies (view : Members) (p : Parameter) : Prop :=
  ∃ v, Members.get? view p.name = some v ∧ p.interpolation.write v = v.print ∧ v.ReadsBack

/-! ### Marks -/

/-- The parts as characters and slots, with the values that stand for the words in the slots. -/
def marks (raw : Json → Json) (σ : String → Option Json) : List Part → List String → List Mark
  | .literal text :: ps, words => text.map .char ++ marks raw σ ps words
  | .token _ (.comment _) :: ps, words => marks raw σ ps words
  | .token _ (.placeholder _) :: ps, w :: words =>
    .slot w ((σ w).getD .null).print (raw ((σ w).getD .null)) :: marks raw σ ps words
  | .token _ (.placeholder _) :: _, [] => []
  | [], _ => []

variable {raw : Json → Json} {σ : String → Option Json} {view : Members} {parts : List Part}
  {words : List String}

theorem asked_marks (parts : List Part) (words : List String) :
    asked (marks raw σ parts words) = skeleton parts words := by
  fun_induction skeleton parts words <;> simp_all [marks, asked_slot]

theorem wordsOf_marks (h : words.length = (parts.filterMap placeholderOf).length) :
    wordsOf (marks raw σ parts words) = words := by
  fun_induction marks raw σ parts words with
  | case1 text ps words ih => simpa using ih h
  | case2 inside remark ps words ih => exact ih h
  | case3 inside p ps w words ih => exact congrArg (w :: ·) (ih (Nat.succ.inj h))
  | case4 => cases h
  | case5 words => exact (List.length_eq_zero_iff.1 h).symm

theorem eq_of_slot_mem_marks {w : String} {text : List Char} {v : Json}
    (h : .slot w text v ∈ marks raw σ parts words) :
    w ∈ words ∧ text = ((σ w).getD .null).print ∧ v = raw ((σ w).getD .null) := by
  fun_induction marks raw σ parts words with
  | case1 text ps words ih => exact ih (by simpa using h)
  | case2 inside remark ps words ih => exact ih h
  | case3 inside p ps w' words ih =>
    rw [List.mem_cons] at h
    obtain h | h := h
    · obtain ⟨rfl, rfl, rfl⟩ := Mark.slot.inj h
      exact ⟨List.mem_cons_self, rfl, rfl⟩
    · obtain ⟨hw, hv⟩ := ih h
      exact ⟨List.mem_cons_of_mem _ hw, hv⟩
  | case4 => cases h
  | case5 => cases h

/-! ### The text of a template -/

theorem segmentText_eq_ok {e : Engine} {i : Nat} {q : Parameter} {v : Json}
    (hq : e.parameters[i]? = some q) (hv : Members.get? view q.name = some v) :
    e.segmentText view (.slot i) = .ok (q.interpolation.write v) := by
  simp [segmentText, hq, hv]

/-- Where each slot is written as the value that stands for its word, the template is written as the
marks are given. -/
theorem substitute_eq_ok {e : Engine} {ws : List Placeholder}
    (hseg : e.segments = parts.filterMap (segmentOf ws))
    (hlen : words.length = (parts.filterMap placeholderOf).length)
    (h : ∀ w p, (w, p) ∈ words.zip (parts.filterMap placeholderOf) → ∃ v, σ w = some v ∧
      e.segmentText view (.slot (ws.findIdx (·.name == p.name))) = .ok v.print) :
    e.substitute view = .ok (given (marks raw σ parts words)) := by
  have htexts : ∃ texts,
      List.Forall₂ (fun s t => e.segmentText view s = .ok t) (parts.filterMap (segmentOf ws)) texts ∧
        texts.flatten = given (marks raw σ parts words) := by
    clear hseg
    fun_induction marks raw σ parts words with
    | case1 text ps words ih =>
      obtain ⟨texts, htexts, hflat⟩ := ih hlen h
      exact ⟨text :: texts, .cons rfl htexts, by simp [hflat]⟩
    | case2 inside remark ps words ih => exact ih hlen h
    | case3 inside p ps w words ih =>
      obtain ⟨v, hv, htext⟩ := h w p List.mem_cons_self
      obtain ⟨texts, htexts, hflat⟩ := ih (Nat.succ.inj hlen) fun w' q hq =>
        h w' q (List.mem_cons_of_mem _ hq)
      refine ⟨v.print :: texts, .cons htext htexts, ?_⟩
      rw [given_slot, List.flatten_cons, hflat, hv, Option.getD_some]
    | case4 => cases hlen
    | case5 => exact ⟨[], .nil, rfl⟩
  obtain ⟨texts, htexts, hflat⟩ := htexts
  rw [substitute, hseg, mapM_eq_ok_iff.2 htexts, ← hflat]
  rfl

/-! ### Values for the words -/

theorem exists_mem_zip {ps : List Placeholder} (h : words.length = ps.length) {w : String}
    (hw : w ∈ words) : ∃ p, (w, p) ∈ words.zip ps := by
  obtain ⟨i, hi, rfl⟩ := List.getElem_of_mem hw
  exact ⟨ps[i], List.mem_iff_getElem.2 ⟨i, by simpa [← h] using hi, List.getElem_zip⟩⟩

theorem filling_eq_some_iff (hd : words.Nodup) {w : String} {v : Json} :
    filling parts words view w = some v ↔
      ∃ p, (w, p) ∈ words.zip (parts.filterMap placeholderOf) ∧ Members.get? view p.name = some v := by
  have hlookup (ps : List Placeholder) (p : Placeholder) :
      (words.zip ps).lookup w = some p ↔ (w, p) ∈ words.zip ps := by
    induction words generalizing ps with
    | nil => simp
    | cons w' words ih =>
      cases ps with
      | nil => simp
      | cons p' ps =>
        rw [List.zip_cons_cons, List.mem_cons, lookup_cons_eq]
        by_cases hw : w = w'
        · -- the first word is not there again
          have hnot : (w, p) ∉ words.zip ps := fun hm =>
            (List.nodup_cons.1 hd).1 (hw ▸ (List.of_mem_zip hm).1)
          simp [hw, hw ▸ hnot, eq_comm]
        · rw [if_neg hw, ih (List.nodup_cons.1 hd).2]
          simp [hw]
  rw [filling, Option.bind_eq_some_iff]
  simp only [hlookup]

/-- A word that stands for a string is lower-case, so no quote is in it. -/
theorem Fresh.not_mem_quote {D : Json} (h : Fresh words D) {w : String} (hw : w ∈ words) (s : String)
    (hs : s ∈ D.strings) (hin : w.toList <:+: s.toList) : '"' ∉ s.toList := by
  intro hq
  have hlow := (h.isWord s (h.mem_of_infix w hw s hs hin)).isLower hq
  exact absurd hlow (by decide)

/-- **Substitution is structural**: where the text of a template with fresh words in its slots is read
as a value, each word stands in it as a string or a member name, and the text with values in the slots
is read as that value with the words replaced. -/
theorem exists_substitute_parse [Validator] {name source : String} {fragments : Fragments} {e : Engine}
    {D : Json} (hc : compile name source fragments = .ok e)
    (hparts : Template.parts name source.toList = .ok parts)
    (hlen : words.length = (parts.filterMap placeholderOf).length)
    (hD : Json.readRaw (skeleton parts words) = .ok D) (hfresh : Fresh words D)
    (hview : ∀ p ∈ e.parameters, Supplies view p)
    (hnames : ∀ w ∈ words, w ∈ D.memberNames → ∃ s, filling parts words view w = some (.str s))
    (hdepth : (D.fill (filling parts words view)).depth ≤ depthLimit) :
    (∀ w ∈ words, w ∈ D.strings) ∧
      ∃ text, e.substitute view = .ok text ∧
        Json.parse text = .ok (D.fill (filling parts words view)).merged := by
  obtain ⟨parts', hparts', hseg, hparameters⟩ := compile_eq_ok hc
  obtain rfl := Except.ok.inj (hparts.symm.trans hparts')
  -- the text of a value spells it before its equal names are merged
  choose! raw hraw using fun j : Json => exists_reads_print (v := j)
  have hslot {w : String} {p : Placeholder}
      (hp : (w, p) ∈ words.zip (parts.filterMap placeholderOf)) :
      ∃ v, filling parts words view w = some v ∧ v.ReadsBack ∧
        e.segmentText view (.slot ((winners (parts.filterMap placeholderOf)).findIdx
          (·.name == p.name))) = .ok v.print := by
    have hname : p.name ∈ (winners (parts.filterMap placeholderOf)).map (·.name) :=
      mem_winners.2 (List.mem_map_of_mem (f := (·.name)) (List.of_mem_zip hp).2)
    obtain ⟨q, hq, hqp⟩ := getElem?_parameters hparameters hname
    obtain ⟨v, hget, hwrite, hback⟩ := hview q (List.mem_of_getElem? hq)
    exact ⟨v, (filling_eq_some_iff hfresh.nodup).2 ⟨p, hp, hqp ▸ hget⟩, hback,
      by rw [segmentText_eq_ok hq hget, hwrite]⟩
  have hwords : wordsOf (marks raw (filling parts words view) parts words) = words :=
    wordsOf_marks hlen
  have hprints : Prints raw (filling parts words view)
      (marks raw (filling parts words view) parts words) := by
    intro w text v h
    obtain ⟨hw, rfl, rfl⟩ := eq_of_slot_mem_marks h
    obtain ⟨p, hp⟩ := exists_mem_zip hlen hw
    obtain ⟨v, hv, -⟩ := hslot hp
    exact ⟨hfresh.isWord w hw, v, hv, by rw [hv, Option.getD_some], by rw [hv, Option.getD_some]⟩
  have hback (w : String) (v : Json) (h : filling parts words view w = some v) :
      w ∈ words ∧ v.ReadsBack := by
    obtain ⟨p, hp, -⟩ := (filling_eq_some_iff hfresh.nodup).1 h
    obtain ⟨v', hv', hback, -⟩ := hslot hp
    exact ⟨(List.of_mem_zip hp).1, Option.some.inj (hv'.symm.trans h) ▸ hback⟩
  have hasked :
      Json.readRaw (asked (marks raw (filling parts words view) parts words)) = .ok D := by
    rw [asked_marks, hD]
  obtain ⟨hstrings, hparse⟩ := parse_given hraw hasked hprints (by rwa [hwords])
    (by rw [hwords]; exact hfresh.count_le_one)
    (by rw [hwords]; exact fun w hw => hfresh.not_mem_quote hw) (by rwa [hwords]) hdepth
  refine ⟨by rwa [hwords] at hstrings, _, substitute_eq_ok hseg hlen fun w p hp => ?_, hparse⟩
  obtain ⟨v, hv, -, htext⟩ := hslot hp
  exact ⟨v, hv, htext⟩

/-- One value in the slots of a member name and of an item; the member takes the place of another. -/
theorem exists_substitute_parse_renamed :
    ∃ e, compile "pool" "{ {{m}}: true, {{k}}: [{{n:integer}}, {{k}}] }{{! a note}}" .empty = .ok e ∧
      ∃ text, e.substitute [("k", .str "x"), ("m", .str "x"), ("n", .num (.int 7))] = .ok text ∧
        Json.parse text = .ok (.obj [("x", .arr [.num (.int 7), .str "x"])]) := by
  have hcompile :
      (compile "pool" "{ {{m}}: true, {{k}}: [{{n:integer}}, {{k}}] }{{! a note}}"
        .empty).toOption.map (fun e => e.parameters.map fun p => (p.name, p.interpolation)) =
      some [("m", .json), ("k", .json), ("n", .raw)] := by
    decide +kernel
  have hparts :
      Template.parts "pool" "{ {{m}}: true, {{k}}: [{{n:integer}}, {{k}}] }{{! a note}}".toList =
      .ok [.literal ['{', ' '], .token ['m'] (.placeholder ⟨"m", "m", none, none⟩),
        .literal ": true, ".toList, .token ['k'] (.placeholder ⟨"k", "k", none, none⟩),
        .literal ": [".toList, .token "n:integer".toList
          (.placeholder ⟨"n", "n:integer", some (.primitive .integer), none⟩),
        .literal ", ".toList, .token ['k'] (.placeholder ⟨"k", "k", none, none⟩),
        .literal [']', ' ', '}'], .token "! a note".toList (.comment "a note")] := by
    decide +kernel
  have hlen : ["a", "b", "c", "d"].length = 4 := rfl
  have hfresh : Fresh ["a", "b", "c", "d"]
      (.obj [("a", .bool true), ("b", .arr [.str "c", .str "d"])]) :=
    { nodup := by decide
      isWord := fun w hw =>
        ⟨by revert w; decide +kernel, by revert w; decide +kernel⟩
      count_le_one := by decide +kernel
      mem_of_infix := by decide +kernel }
  obtain ⟨e, hc, hparameters⟩ := exists_of_toOption hcompile
  have hview (p : Parameter) (hp : p ∈ e.parameters) :
      Supplies [("k", .str "x"), ("m", .str "x"), ("n", .num (.int 7))] p := by
    have hm : (p.name, p.interpolation) ∈
        [("m", Interpolation.json), ("k", Interpolation.json), ("n", Interpolation.raw)] := by
      rw [← hparameters]
      exact List.mem_map_of_mem hp
    obtain ⟨hname, hwrite⟩ | ⟨hname, hwrite⟩ | ⟨hname, hwrite⟩ := by simpa using hm
    · exact ⟨.str "x", by rw [hname]; decide +kernel, by rw [hwrite]; decide +kernel, by
        decide +kernel⟩
    · exact ⟨.str "x", by rw [hname]; decide +kernel, by rw [hwrite]; decide +kernel, by
        decide +kernel⟩
    · exact ⟨.num (.int 7), by rw [hname]; decide +kernel, by rw [hwrite]; decide +kernel, by
        decide +kernel⟩
  have hname : ∀ w ∈ ["a", "b", "c", "d"], w ∈ ["a", "b"] → w = "a" ∨ w = "b" := by decide
  obtain ⟨-, text, htext, hparse⟩ := exists_substitute_parse hc hparts hlen (by decide +kernel)
    hfresh hview (fun w hw hmem => ⟨"x", by obtain rfl | rfl := hname w hw hmem <;> decide +kernel⟩)
    (by decide +kernel)
  exact ⟨e, hc, text, htext, by rw [hparse]; decide +kernel⟩

end Engine

end Stencil
