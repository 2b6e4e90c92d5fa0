import Stencil.Proofs.Template.Parameters

/-!
# Segments make up the source

The segments of a compiled template are the source, cut where its tokens begin and end, without the
comments. The cuts are made at bytes, `slice?` gives nothing where a cut would go through a character,
and none does (`segmentsAt`). With the placeholders put back into the slots, the segments are the source
without its comments (`uncommented`). No literal text is empty or holds a token.
-/

namespace Stencil

namespace Template

/-! ### Slices -/

/-- What is left of a text behind so many bytes. There is nothing if they end inside of a character or
behind the end of the text. -/
def dropBytes? : Nat → List Char → Option (List Char)
  | 0, text => some text
  | _ + 1, [] => none
  | n + 1, c :: text =>
    if c.utf8Size ≤ n + 1 then dropBytes? (n + 1 - c.utf8Size) text else none

/-- So many bytes from the beginning of a text, if they end between two characters. -/
def takeBytes? : Nat → List Char → Option (List Char)
  | 0, _ => some []
  | _ + 1, [] => none
  | n + 1, c :: text =>
    if c.utf8Size ≤ n + 1 then (takeBytes? (n + 1 - c.utf8Size) text).map (c :: ·) else none

/-- The text from one byte up to another, if both are boundaries of characters. -/
def slice? (text : List Char) (start stop : Nat) : Option (List Char) :=
  if start ≤ stop then (dropBytes? start text).bind (takeBytes? (stop - start)) else none

theorem byteCount_append (s t : List Char) : byteCount (s ++ t) = byteCount s + byteCount t := by
  simp [byteCount_eq, String.ofList_append, String.utf8ByteSize_append]

theorem byteCount_cons (c : Char) (s : List Char) :
    byteCount (c :: s) = c.utf8Size + byteCount s := by
  rw [← List.singleton_append, byteCount_append]
  simp [byteCount]

theorem byteCount_pos {s : List Char} (h : s ≠ []) : 0 < byteCount s := by
  obtain ⟨c, s, rfl⟩ := List.exists_cons_of_ne_nil h
  have hc := c.utf8Size_pos
  rw [byteCount_cons]
  omega

/-- A first character takes up bytes, and leaves those of the rest. -/
theorem exists_byteCount_cons (c : Char) (s : List Char) :
    ∃ n, byteCount (c :: s) = n + 1 ∧ c.utf8Size ≤ n + 1 ∧ n + 1 - c.utf8Size = byteCount s := by
  have hc := c.utf8Size_pos
  refine ⟨c.utf8Size - 1 + byteCount s, ?_⟩
  rw [byteCount_cons]
  omega

theorem dropBytes?_append (s t : List Char) : dropBytes? (byteCount s) (s ++ t) = some t := by
  induction s with
  | nil => cases t <;> rfl
  | cons c s ih =>
    obtain ⟨n, hn, hle, hrest⟩ := exists_byteCount_cons c s
    rw [hn, List.cons_append, dropBytes?, if_pos hle, hrest, ih]

theorem takeBytes?_append (s t : List Char) : takeBytes? (byteCount s) (s ++ t) = some s := by
  induction s with
  | nil => cases t <;> rfl
  | cons c s ih =>
    obtain ⟨n, hn, hle, hrest⟩ := exists_byteCount_cons c s
    rw [hn, List.cons_append, takeBytes?, if_pos hle, hrest, ih]
    rfl

/-- A part of a text is the slice between the bytes that it takes up. -/
theorem slice?_eq {text s t u : List Char} (h : text = s ++ (t ++ u)) :
    slice? text (byteCount s) (byteCount s + byteCount t) = some t := by
  rw [h, slice?, if_pos (Nat.le_add_right _ _), dropBytes?_append, Option.bind_some,
    Nat.add_sub_cancel_left, takeBytes?_append]

/-! ### What the cut gives -/

/-- The pieces of a text follow its tokens: in front of each one stands text without two opening
braces, and behind the last one text without a token. -/
theorem cut_induction {P : List Char → List Piece → Prop}
    (plain : ∀ text, (∀ before inside after,
      text ≠ before ++ ((Piece.token inside).source ++ after)) → P text (literalOf text.reverse))
    (token : ∀ before inside after, ¬ ['{', '{'] <:+: before → P after (cut after) →
      P (before ++ ((Piece.token inside).source ++ after))
        (literalOf before.reverse ++ .token inside :: cut after)) (text : List Char) :
    P text (cut text) := by
  rcases token_or_not text with ⟨before, rest, inside, after, ho, hc⟩ | ⟨hno, hcut⟩
  · have htext := (isToken_of_firstPairs ho hc).eq
    have hlen : after.length < text.length := by
      rw [htext]
      simp [Piece.source]
      omega
    have hbefore : ¬ ['{', '{'] <:+: before := fun h =>
      ho.first (h.trans (List.prefix_append _ _).isInfix)
    rw [cut_of_firstPairs ho hc, htext]
    exact token before inside after hbefore (cut_induction plain token after)
  · rw [hcut]
    exact plain text hno
termination_by text.length

theorem mem_literalOf {piece : Piece} {text : List Char} :
    piece ∈ literalOf text.reverse ↔ piece = .literal text ∧ text ≠ [] := by
  unfold literalOf
  by_cases h : text = []
  · simp [h]
  · simp [h]

/-- Literal text is not empty, and holds no token. -/
theorem of_literal_mem_cut {text t : List Char} (h : .literal t ∈ cut text) :
    t ≠ [] ∧ ∀ before inside after, t ≠ before ++ ((Piece.token inside).source ++ after) := by
  revert h
  refine cut_induction (P := fun _ pieces => .literal t ∈ pieces → _) ?_ ?_ text
  · intro text hno h
    obtain ⟨ht, hne⟩ := mem_literalOf.1 h
    obtain rfl := Piece.literal.inj ht
    exact ⟨hne, hno⟩
  · intro before inside after hbefore ih h
    rcases List.mem_append.1 h with h | h
    · obtain ⟨ht, hne⟩ := mem_literalOf.1 h
      obtain rfl := Piece.literal.inj ht
      refine ⟨hne, fun first inside' rest heq => hbefore ?_⟩
      rw [source_append] at heq
      exact ⟨first, inside' ++ '}' :: '}' :: rest, by simp [heq]⟩
    · rcases List.mem_cons.1 h with h | h
      · cases h
      · exact ih h

/-! ### Cutting at bytes -/

/-- The literal text between two bytes, unless it is empty. -/
def literalAt (text : List Char) (start stop : Nat) : Option (List Segment) :=
  if start < stop then (slice? text start stop).map fun t => [.literal t] else some []

/-- The segment of a token: a slot for a placeholder, and none for a remark. -/
def slotOf (index : String → Nat) : Token → List Segment
  | .comment _ => []
  | .placeholder p => [.slot (index p.name)]

/-- The segments of a text from a byte on, cut where tokens begin and end. -/
def segmentsAt (text : List Char) (index : String → Nat) : Nat → List Span → Option (List Segment)
  | start, [] => literalAt text start (byteCount text)
  | start, span :: spans =>
    (literalAt text start span.start).bind fun literal =>
      (segmentsAt text index span.stop spans).map fun more =>
        literal ++ (slotOf index span.token ++ more)

theorem literalAt_eq {text s t u : List Char} (h : text = s ++ (t ++ u)) :
    literalAt text (byteCount s) (byteCount s + byteCount t) =
      some (if t = [] then [] else [.literal t]) := by
  unfold literalAt
  by_cases ht : t = []
  · simp [ht, byteCount]
  · have hlt : byteCount s < byteCount s + byteCount t := by
      have := byteCount_pos ht
      omega
    rw [if_pos hlt, slice?_eq h, if_neg ht]
    rfl

/-- The part that a literal piece is read as, unless it is empty. -/
def literalPart (text : List Char) : List Part := if text = [] then [] else [.literal text]

theorem exists_read_literalOf {name : String} {text : List Char} {pieces : List Piece}
    {parts : List Part}
    (h : List.Forall₂ (fun piece part => piece.read name = .ok part)
      (literalOf text.reverse ++ pieces) parts) :
    ∃ rest, parts = literalPart text ++ rest ∧
      List.Forall₂ (fun piece part => piece.read name = .ok part) pieces rest := by
  by_cases ht : text = []
  · exact ⟨parts, by simp [literalPart, ht], by simpa [literalOf, ht] using h⟩
  · have hliteral : literalOf text.reverse = [.literal text] := by simp [literalOf, ht]
    rw [hliteral, List.singleton_append, List.forall₂_cons_left_iff] at h
    obtain ⟨part, rest, hpart, hrest, rfl⟩ := h
    obtain rfl := Except.ok.inj hpart
    exact ⟨rest, by simp [literalPart, ht], hrest⟩

theorem spansFrom_literalPart (start : Nat) (text : List Char) (parts : List Part) :
    spansFrom start (literalPart text ++ parts) = spansFrom (start + byteCount text) parts := by
  by_cases h : text = []
  · simp [literalPart, h, byteCount]
  · simp [literalPart, h, spansFrom]

theorem filterMap_literalPart (ws : List Placeholder) (text : List Char) (parts : List Part) :
    (literalPart text ++ parts).filterMap (Engine.segmentOf ws) =
      (if text = [] then [] else [.literal text]) ++ parts.filterMap (Engine.segmentOf ws) := by
  by_cases h : text = []
  · simp [literalPart, h]
  · simp [literalPart, h, Engine.segmentOf]

/-- **The segments** of a text that is read are the ones that cutting at bytes gives. -/
theorem segmentsAt_cut {name : String} (ws : List Placeholder) {text : List Char} (done : List Char)
    {rest : List Char} (htext : text = done ++ rest) {parts : List Part}
    (h : List.Forall₂ (fun piece part => piece.read name = .ok part) (cut rest) parts) :
    segmentsAt text (fun n => ws.findIdx (·.name == n)) (byteCount done)
      (spansFrom (byteCount done) parts) = some (parts.filterMap (Engine.segmentOf ws)) := by
  revert done parts
  refine cut_induction (P := fun rest pieces => ∀ done, text = done ++ rest → ∀ {parts},
    List.Forall₂ (fun piece part => piece.read name = .ok part) pieces parts →
      segmentsAt text (fun n => ws.findIdx (·.name == n)) (byteCount done)
        (spansFrom (byteCount done) parts) = some (parts.filterMap (Engine.segmentOf ws))) ?_ ?_ rest
  · intro rest _ done htext parts h
    rw [← List.append_nil (literalOf rest.reverse)] at h
    obtain ⟨_, rfl, hnil⟩ := exists_read_literalOf h
    cases hnil
    have hend : byteCount text = byteCount done + byteCount rest := by
      rw [htext, byteCount_append]
    have hliteral := literalAt_eq (s := done) (t := rest) (u := []) (by simpa)
    rw [spansFrom_literalPart, filterMap_literalPart, spansFrom, segmentsAt, hend, hliteral]
    simp
  · intro before inside after _ ih done htext parts h
    obtain ⟨_, rfl, htoken⟩ := exists_read_literalOf h
    obtain ⟨part, rest, hpart, hrest, rfl⟩ := List.forall₂_cons_left_iff.1 htoken
    rcases read_eq_ok_iff.1 hpart with ⟨_, hpiece, -⟩ | ⟨_, token, hpiece, -, rfl⟩
    · cases hpiece
    obtain rfl := Piece.token.inj hpiece
    have hrec := ih (done ++ before ++ (Piece.token inside).source) (by simp [htext]) hrest
    rw [byteCount_append, byteCount_append] at hrec
    rw [spansFrom_literalPart, filterMap_literalPart, spansFrom, segmentsAt, literalAt_eq htext,
      Option.bind_some, hrec]
    cases token with
    | comment text => rfl
    | placeholder p => rfl

/-! ### The source without its comments -/

/-- The text from a byte on without the comments among the tokens that follow. -/
def uncommented (text : List Char) : Nat → List Span → Option (List Char)
  | start, [] => slice? text start (byteCount text)
  | start, ⟨first, stop, .comment _⟩ :: spans =>
    (slice? text start first).bind fun t => (uncommented text stop spans).map (t ++ ·)
  | start, ⟨_, _, .placeholder _⟩ :: spans => uncommented text start spans

/-- The text of each placeholder among tokens, braces included. -/
def placeholderTexts (text : List Char) : List Span → Option (List (List Char))
  | [] => some []
  | ⟨_, _, .comment _⟩ :: spans => placeholderTexts text spans
  | ⟨start, stop, .placeholder _⟩ :: spans =>
    (slice? text start stop).bind fun t => (placeholderTexts text spans).map (t :: ·)

/-- The text of segments with one text after another put into their slots. -/
def refill : List Segment → List (List Char) → List Char
  | .literal text :: segments, texts => text ++ refill segments texts
  | .slot _ :: segments, text :: texts => text ++ refill segments texts
  | _, _ => []

/-- The text of parts, except for comments. -/
def keptText (parts : List Part) : List Char :=
  (parts.filter fun part => (Engine.commentOf part).isNone).flatMap Part.source

/-- The texts of the placeholders among parts, braces included. -/
def slotTexts (parts : List Part) : List (List Char) :=
  (parts.filter fun part => (Engine.placeholderOf part).isSome).map Part.source

theorem uncommented_spansFrom {text : List Char} (start kept : List Char) {parts : List Part}
    (h : text = start ++ (kept ++ parts.flatMap Part.source)) :
    uncommented text (byteCount start) (spansFrom (byteCount start + byteCount kept) parts) =
      some (kept ++ keptText parts) := by
  induction parts generalizing start kept with
  | nil =>
    have hend : byteCount text = byteCount start + byteCount kept := by
      simp [h, byteCount_append]
    rw [spansFrom, uncommented, hend, slice?_eq h]
    simp [keptText]
  | cons part parts ih =>
    -- a part that is kept is added to what is kept in front of it
    have hkept := ih start (kept ++ part.source) (by simp [h])
    rw [byteCount_append, ← Nat.add_assoc, List.append_assoc] at hkept
    cases part with
    | literal text => exact hkept
    | token inside token =>
      cases token with
      | placeholder p => exact hkept
      | comment remark =>
        have hrest := ih (start ++ kept ++ (Piece.token inside).source) []
          (by simp [h, Part.source])
        have hnil : byteCount [] = 0 := rfl
        rw [byteCount_append, byteCount_append, hnil, Nat.add_zero] at hrest
        rw [spansFrom, uncommented, slice?_eq h, Option.bind_some, hrest]
        rfl

theorem placeholderTexts_spansFrom {text : List Char} (start : List Char) {parts : List Part}
    (h : text = start ++ parts.flatMap Part.source) :
    placeholderTexts text (spansFrom (byteCount start) parts) = some (slotTexts parts) := by
  induction parts generalizing start with
  | nil => rfl
  | cons part parts ih =>
    have hrest := ih (start ++ part.source) (by simp [h])
    rw [byteCount_append] at hrest
    cases part with
    | literal text => exact hrest
    | token inside token =>
      cases token with
      | comment remark => exact hrest
      | placeholder p =>
        rw [List.flatMap_cons] at h
        have hslice := slice?_eq h
        rw [Part.source] at hslice hrest
        rw [spansFrom, placeholderTexts, hslice, Option.bind_some, hrest]
        rfl

theorem refill_segments (ws : List Placeholder) (parts : List Part) :
    refill (parts.filterMap (Engine.segmentOf ws)) (slotTexts parts) = keptText parts := by
  induction parts with
  | nil => rfl
  | cons part parts ih =>
    cases part with
    | literal text => exact congrArg (text ++ ·) ih
    | token inside token =>
      cases token with
      | comment text => exact ih
      | placeholder p => exact congrArg ((Piece.token inside).source ++ ·) ih

theorem length_slotTexts (ws : List Placeholder) (parts : List Part) :
    (slotTexts parts).length = (Engine.slots (parts.filterMap (Engine.segmentOf ws))).length := by
  induction parts with
  | nil => rfl
  | cons part parts ih =>
    cases part with
    | literal text => exact ih
    | token inside token =>
      cases token with
      | comment remark => exact ih
      | placeholder p => exact congrArg (· + 1) ih

end Template

namespace Engine

open Template

variable {name source : String} {fragments : Fragments} {e : Engine}

/-- The index of a parameter is the index of the placeholder that describes it. -/
theorem findIdx_parameters {ws : List Placeholder} {qs : List Parameter}
    (h : List.Forall₂ (fun p q => describe name fragments p = .ok q) ws qs) (n : String) :
    qs.findIdx (·.name == n) = ws.findIdx (·.name == n) := by
  induction h with
  | nil => rfl
  | cons hq _ ih => rw [List.findIdx_cons, List.findIdx_cons, ih, (describe_eq_ok hq).1]

/-- The segments of a template that compiles are cut from its source at the bytes where tokens begin
and end, which are boundaries of characters, each slot with the index of the parameter of its
placeholder. With the text of one placeholder after another in their slots, they are the source without
its comments. No literal text is empty, and none holds a token. -/
theorem segments_of_compile [Validator] (h : compile name source fragments = .ok e) :
    ∃ spans texts, scan name source = .ok spans ∧
      segmentsAt source.toList (fun n => e.parameters.findIdx (·.name == n)) 0 spans =
        some e.segments ∧
      placeholderTexts source.toList spans = some texts ∧ texts.length = (slots e.segments).length ∧
      uncommented source.toList 0 spans = some (refill e.segments texts) ∧
      ∀ text, .literal text ∈ e.segments → text ≠ [] ∧
        ∀ before inside after, text ≠ before ++ ((Piece.token inside).source ++ after) := by
  obtain ⟨parts, parameters, rules, hparts, hparameters, -, rfl⟩ := compile_eq_ok_iff.1 h
  have hread := mapM_eq_ok_iff.1 hparts
  have hsource := flatMap_source_parts hparts
  refine ⟨spansFrom 0 parts, slotTexts parts, by rw [scan, hparts]; rfl, ?_, ?_, ?_, ?_, ?_⟩
  · simp only [findIdx_parameters (mapM_eq_ok_iff.1 hparameters)]
    exact segmentsAt_cut _ [] rfl hread
  · exact placeholderTexts_spansFrom [] hsource.symm
  · exact length_slotTexts _ parts
  · rw [refill_segments]
    exact uncommented_spansFrom [] [] hsource.symm
  · intro text htext
    obtain ⟨part, hpart, hsegment⟩ := List.mem_filterMap.1 htext
    cases part with
    | token inside token => cases token <;> simp [segmentOf] at hsegment
    | literal t =>
      obtain rfl : t = text := by simpa [segmentOf] using hsegment
      obtain ⟨piece, hpiece, hread⟩ := exists_of_mem_right hread hpart
      rcases read_eq_ok_iff.1 hread with ⟨_, rfl, hpart⟩ | ⟨_, _, -, -, hpart⟩
      · obtain rfl := Part.literal.inj hpart
        exact of_literal_mem_cut hpiece
      · cases hpart

/-- Letters of two bytes stand at both sides of a comment, and two placeholders next to each other. -/
theorem segments_of_compile_umlauts : ∃ e spans texts,
    compile "x" "ä{{! b }}ö{{a}}{{a}}" .empty = .ok e ∧
      e.segments = [.literal ['ä'], .literal ['ö'], .slot 0, .slot 0] ∧
      scan "x" "ä{{! b }}ö{{a}}{{a}}" = .ok spans ∧ spans.map (·.start) = [2, 12, 17] ∧
      uncommented "ä{{! b }}ö{{a}}{{a}}".toList 0 spans = some (refill e.segments texts) ∧
      refill e.segments texts = "äö{{a}}{{a}}".toList := by
  have hsegments : ((compile "x" "ä{{! b }}ö{{a}}{{a}}" .empty).toOption.map (·.segments)) =
      some [.literal ['ä'], .literal ['ö'], .slot 0, .slot 0] := by decide +kernel
  have hfound : ((scan "x" "ä{{! b }}ö{{a}}{{a}}").toOption.map fun spans =>
      (spans.map (·.start), uncommented "ä{{! b }}ö{{a}}{{a}}".toList 0 spans)) =
        some ([2, 12, 17], some "äö{{a}}{{a}}".toList) := by decide +kernel
  obtain ⟨e, he, hsegments⟩ := exists_of_toOption hsegments
  obtain ⟨spans, texts, hs, -, -, -, huncommented, -⟩ := segments_of_compile he
  obtain ⟨spans', hs', hfound⟩ := exists_of_toOption hfound
  obtain rfl := Except.ok.inj (hs.symm.trans hs')
  obtain ⟨hstarts, hkept⟩ := Prod.mk.inj hfound
  exact ⟨e, spans, texts, he, hsegments, hs, hstarts, huncommented,
    Option.some.inj (huncommented.symm.trans hkept)⟩

end Engine

end Stencil
