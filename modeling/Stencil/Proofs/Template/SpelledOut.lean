import Stencil.Proofs.Json.Printed
import Stencil.Proofs.Template.Segments

/-!
# Defaults that are spelled out

A placeholder can declare a default by the text of its value. The two braces that close a token are the
first two that stand side by side; so the placeholder is one token where no two closing braces meet in
the text of the value and the brace behind it, and there only (`Json.ClosesEarly`, `scan_spelledOut_iff`).
The text of an object ends with a brace and always closes the token early.
-/

namespace Stencil

open Read Text

/-! ### The ends of printed values -/

theorem isBlank_of_isNumeral {c : Char} (h : isNumeral c = true) : isBlank c = false := by
  simp only [isNumeral, Bool.or_eq_true, beq_iff_eq] at h
  obtain ((((h | rfl) | rfl) | rfl) | rfl) | rfl := h
  · have hc : 48 ≤ c.toNat ∧ c.toNat ≤ 57 := Char.isDigit_iff_toNat.1 h
    simp [isBlank]
    omega
  all_goals decide

/-- The text of a value neither begins nor ends with a blank. -/
theorem Json.exists_ends_print (v : Json) : ∃ c s t d, v.print = c :: s ∧ v.print = t ++ [d] ∧
    isBlank c = false ∧ isBlank d = false := by
  cases v with
  | null => exact ⟨'n', _, ['n', 'u', 'l'], 'l', rfl, rfl, by decide, by decide⟩
  | bool b =>
    cases b with
    | true => exact ⟨'t', _, ['t', 'r', 'u'], 'e', rfl, rfl, by decide, by decide⟩
    | false => exact ⟨'f', _, ['f', 'a', 'l', 's'], 'e', rfl, rfl, by decide, by decide⟩
  | num n =>
    obtain ⟨h0, hn⟩ := isNumeral_of_mem_print n
    obtain ⟨c, s, hs⟩ := List.exists_cons_of_ne_nil h0
    have hlast := (List.dropLast_append_getLast h0).symm
    exact ⟨c, s, _, _, hs, hlast, isBlank_of_isNumeral (hn c (by simp [hs])),
      isBlank_of_isNumeral (hn _ (List.getLast_mem h0))⟩
  | str s => exact ⟨'"', _, '"' :: s.toList.flatMap escape, '"', rfl, rfl, by decide, by decide⟩
  | arr items =>
    cases items with
    | nil => exact ⟨'[', _, ['['], ']', rfl, rfl, by decide, by decide⟩
    | cons j js =>
      exact ⟨'[', _, '[' :: (print j ++ printItems js), ']', rfl, by simp [print], by decide,
        by decide⟩
  | obj ms =>
    cases ms with
    | nil => exact ⟨'{', _, ['{'], '}', rfl, rfl, by decide, by decide⟩
    | cons m ms =>
      obtain ⟨k, j⟩ := m
      exact ⟨'{', _, '{' :: (quote k ++ ':' :: (print j ++ printMembers ms)), '}', rfl,
        by simp [print], by decide, by decide⟩

theorem Json.trims_print (v : Json) : Trims v.print v.print := by
  obtain ⟨c, s, t, d, hhead, hlast, hc, hd⟩ := v.exists_ends_print
  refine ⟨⟨[], [], by simp, by simp, by simp⟩, ?_, ?_⟩
  · rw [hhead]
    rintro _ ⟨⟩
    exact hc
  · rw [hlast, List.getLast?_concat]
    rintro _ ⟨⟩
    exact hd

/-- Two closing braces meet in the text of the value and the brace behind it. -/
def Json.ClosesEarly (v : Json) : Prop := ['}', '}'] <:+: v.print ++ ['}']

/-- The text of an object ends with a brace. -/
theorem Json.closesEarly_obj (ms : Members) : (Json.obj ms).ClosesEarly := by
  cases ms with
  | nil => exact ⟨['{'], [], rfl⟩
  | cons m ms =>
    obtain ⟨k, j⟩ := m
    exact ⟨'{' :: (quote k ++ ':' :: (print j ++ printMembers ms)), [], by simp [print]⟩

namespace Template

/-! ### One token -/

/-- A pair of a character begins behind a text without it. -/
theorem pair_infix_append_iff {c : Char} {s : List Char} (h : c ∉ s) (t : List Char) :
    [c, c] <:+: s ++ t ↔ [c, c] <:+: t := by
  induction s with
  | nil => rfl
  | cons d s ih =>
    rw [List.cons_append, List.infix_cons_iff, ih fun hmem => h (List.mem_cons_of_mem d hmem)]
    refine or_iff_right ?_
    rintro ⟨u, hu⟩
    exact h ((List.cons.inj hu).1 ▸ List.mem_cons_self)

theorem cut_source {inside : List Char} (h : ¬ ['}', '}'] <:+: inside ++ ['}']) :
    cut (Piece.token inside).source = [.token inside] :=
  cut_of_firstPairs (FirstPair.nil '{' _) ⟨rfl, h⟩

/-- Where two closing braces meet inside, the first token ends there, and text is left behind it. -/
theorem exists_cut_source {inside : List Char} (h : ['}', '}'] <:+: inside ++ ['}']) :
    ∃ lit rest, (Piece.token inside).source = (Piece.token lit).source ++ rest ∧ rest ≠ [] ∧
      cut (Piece.token inside).source = .token lit :: cut rest := by
  obtain ⟨u, v, huv⟩ := h
  have hclose : inside ++ ['}', '}'] = u ++ '}' :: '}' :: (v ++ ['}']) := by
    calc inside ++ ['}', '}'] = (inside ++ ['}']) ++ ['}'] := by simp
      _ = u ++ '}' :: '}' :: (v ++ ['}']) := by simp [← huv]
  obtain ⟨lit, rest, hpair⟩ :=
    (firstPair_or_not '}' (inside ++ ['}', '}'])).resolve_right fun hno =>
      hno ⟨u, v ++ ['}'], by simp [hclose]⟩
  have hlt : lit.length ≤ u.length := hpair.length_le hclose
  refine ⟨lit, rest, ?_, ?_, cut_of_firstPairs (FirstPair.nil '{' _) hpair⟩
  · simp [Piece.source, hpair.eq]
  · rintro rfl
    have hlength := congrArg List.length hclose
    have hlength' := congrArg List.length hpair.eq
    simp only [List.length_append, List.length_cons, List.length_nil] at hlength hlength'
    omega

/-- A text between two braces on either side is scanned as one token where no two closing braces meet
in it. -/
theorem scan_source_iff {template : String} {inside : List Char} {token : Token}
    (hdeclares : DeclaresToken inside token) :
    scan template (String.ofList (Piece.token inside).source) =
        .ok [⟨0, byteCount (Piece.token inside).source, token⟩] ↔
      ¬ ['}', '}'] <:+: inside ++ ['}'] := by
  rw [scan_eq, String.toList_ofList, mapM_eq_ok_iff]
  constructor
  · intro hread hearly
    obtain ⟨lit, rest, hsource, hrest, hcut⟩ := exists_cut_source hearly
    rw [hcut, sitesFrom, List.forall₂_cons] at hread
    obtain ⟨-, -, hstop⟩ := Site.read_eq_ok_iff.1 hread.1
    -- the first token ends before the text does
    have hcount : byteCount (Piece.token lit).source + byteCount rest =
        byteCount (Piece.token lit).source := by
      rw [← byteCount_append, ← hsource]
      exact hstop.trans (byteCount_eq _).symm
    have hpos := byteCount_pos hrest
    omega
  · intro h
    rw [cut_source h]
    exact .cons (Site.read_eq_ok_iff.2 ⟨hdeclares, rfl, byteCount_eq _⟩) .nil

/-! ### Placeholders with defaults -/

/-- What stands between the braces of a placeholder that spells its default out. -/
def spelledOut (name : String) (p : Primitive) (d : Json) : List Char :=
  name.toList ++ ':' :: (p.name.toList ++ ':' :: d.print)

theorem isNameChar_of_isNameStart {c : Char} (h : isNameStart c = true) : isNameChar c = true := by
  rw [isNameStart_iff] at h
  exact isNameChar_iff.2 (h.imp_right fun h => .inr (.inl h))

theorem IsIdentifier.isNameChar {s : List Char} (h : IsIdentifier s) {c : Char} (hc : c ∈ s) :
    isNameChar c = true := by
  rw [← isName_iff] at h
  cases s with
  | nil => cases h
  | cons d s =>
    rw [isName, Bool.and_eq_true, List.all_eq_true] at h
    rcases List.mem_cons.1 hc with rfl | hc
    · exact isNameChar_of_isNameStart h.1
    · exact h.2 c hc

theorem isBlank_of_isNameChar {c : Char} (h : isNameChar c = true) : isBlank c = false := by
  simp only [isNameChar, Bool.or_eq_true, isAlphanum_iff_toNat, beq_iff_eq] at h
  obtain ((h | rfl) | rfl) | rfl := h
  · simp [isBlank]
    omega
  all_goals decide

theorem IsIdentifier.trims {s : List Char} (h : IsIdentifier s) : Trims s s :=
  trims_iff.2 (trim_unbroken fun _ hc => isBlank_of_isNameChar (h.isNameChar hc))

theorem IsIdentifier.not_mem {s : List Char} (h : IsIdentifier s) {c : Char}
    (hc : Template.isNameChar c = false) : c ∉ s := by
  intro hmem
  rw [h.isNameChar hmem] at hc
  cases hc

/-- The name of a type is one that a parameter could have. -/
theorem isIdentifier_name (p : Primitive) : IsIdentifier p.name.toList := by
  rw [← isName_iff]
  cases p <;> decide

section

variable {name : String} {p : Primitive} {d : Json}

theorem trims_spelledOut (hname : IsIdentifier name.toList) :
    Trims (spelledOut name p d) (spelledOut name p d) := by
  obtain ⟨c, s, hs⟩ := List.exists_cons_of_ne_nil hname.ne_nil
  obtain ⟨-, -, t, e, -, ht, -, he⟩ := d.exists_ends_print
  refine ⟨⟨[], [], by simp, by simp, by simp⟩, ?_, ?_⟩
  · rw [spelledOut, hs]
    rintro _ ⟨⟩
    exact isBlank_of_isNameChar (hname.isNameChar (by simp [hs]))
  · have hend : spelledOut name p d =
        (name.toList ++ ':' :: (p.name.toList ++ ':' :: t)) ++ [e] := by
      simp [spelledOut, ht]
    rw [hend, List.getLast?_concat]
    rintro _ ⟨⟩
    exact he

/-- A default that is spelled out is the one that is declared. -/
theorem declares_spelledOut (hname : IsIdentifier name.toList) (hd : p.admits d = true)
    (hback : d.ReadsBack) : DeclaresToken (spelledOut name p d)
      (.placeholder ⟨name, String.ofList (spelledOut name p d), some (.primitive p), some d⟩) := by
  have hcolon : isNameChar ':' = false := by decide
  have hparts : Parts (spelledOut name p d) name.toList (some p.name.toList) (some d.print) :=
    .extra (hname.not_mem hcolon) ((isIdentifier_name p).not_mem hcolon) hname.trims
      (isIdentifier_name p).trims d.trims_print
  have hread : Json.parse d.print = .ok d := by
    rw [Json.ReadsBack, Json.ofText, Json.toText, String.toList_ofList] at hback
    exact hback
  have htoken := DeclaresToken.typed (trims_spelledOut hname) hparts hname
    (.default (.primitive p) (.spelled hread hd))
  rwa [String.ofList_toList] at htoken

theorem closesEarly_iff (hname : IsIdentifier name.toList) :
    ['}', '}'] <:+: spelledOut name p d ++ ['}'] ↔ d.ClosesEarly := by
  have hbrace : isNameChar '}' = false := by decide
  have hfront : '}' ∉ name.toList ++ ':' :: (p.name.toList ++ [':']) := by
    simp [hname.not_mem hbrace, (isIdentifier_name p).not_mem hbrace]
  rw [Json.ClosesEarly, ← pair_infix_append_iff hfront (d.print ++ ['}'])]
  simp [spelledOut]

/-- Let the default of a placeholder be spelled out by the text of a value of its type. The placeholder
is scanned as one token, with that name, type and default, if and only if no two closing braces meet in
the text of the value and the brace behind it. So no object can be written like this. -/
theorem scan_spelledOut_iff (template : String) (hname : IsIdentifier name.toList)
    (hd : p.admits d = true) (hback : d.ReadsBack) :
    (scan template (String.ofList ('{' :: '{' :: (spelledOut name p d ++ ['}', '}']))) =
        .ok [⟨0, (String.ofList ('{' :: '{' :: (spelledOut name p d ++ ['}', '}']))).utf8ByteSize,
          .placeholder ⟨name, String.ofList (spelledOut name p d), some (.primitive p), some d⟩⟩] ↔
      ¬ d.ClosesEarly) ∧
    (p = .object → d.ClosesEarly) := by
  constructor
  · rw [← closesEarly_iff hname, ← scan_source_iff (declares_spelledOut hname hd hback), byteCount_eq]
    rfl
  · rintro rfl
    cases d with
    | obj ms => exact Json.closesEarly_obj ms
    | _ => cases hd

end

/-- An array of objects can be spelled out, and the empty object cannot. -/
theorem scan_spelledOut_array :
    scan "x" "\x7b\x7btags:array:[\x7b\"b\":1\x7d]\x7d\x7d" = .ok [⟨0, 24, .placeholder
      ⟨"tags", "tags:array:[\x7b\"b\":1\x7d]", some (.primitive .array),
        some (.arr [.obj [("b", .num (.int 1))]])⟩⟩] ∧
    scan "x" "\x7b\x7bo:object:\x7b\x7d\x7d\x7d" ≠ .ok [⟨0, 15, .placeholder
      ⟨"o", "o:object:\x7b\x7d", some (.primitive .object), some (.obj [])⟩⟩] := by
  have htags : IsIdentifier "tags".toList := isName_iff.1 (by decide)
  have ho : IsIdentifier "o".toList := isName_iff.1 (by decide)
  have harray : ¬ (Json.arr [.obj [("b", .num (.int 1))]]).ClosesEarly := by
    unfold Json.ClosesEarly
    decide +kernel
  have hwritten := (scan_spelledOut_iff "x" (p := .array) htags rfl (by decide +kernel)).1.2 harray
  obtain ⟨hobject, hearly⟩ :=
    scan_spelledOut_iff "x" (p := .object) (d := .obj []) ho rfl (by decide +kernel)
  exact ⟨hwritten, fun h => hobject.1 h (hearly rfl)⟩

end Template

end Stencil
