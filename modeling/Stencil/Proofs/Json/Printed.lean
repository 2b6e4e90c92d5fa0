import Mathlib.Tactic.SplitIfs
import Stencil.Proofs.Json.Grammar

/-!
# Printed values

Whatever is read from the text of a value takes the text up to its end, and is nested as deep as the
value (`reads_print`). So a value that reads back can stand wherever a value can.
-/

namespace Stencil

/-- Reading the text of the value gives the value. -/
def Json.ReadsBack (v : Json) : Prop := Json.ofText v.toText = .ok v

instance (v : Json) : Decidable v.ReadsBack :=
  inferInstanceAs (Decidable (Json.ofText v.toText = .ok v))

namespace Read

open Json

/-! ### Strings -/

/-- A control character is given by its code. -/
theorem hexEscape_control {n : Nat} (h : n < 32) (t : List Char) :
    hexEscape ('0' :: '0' :: hexDigit (n / 16) :: hexDigit (n % 16) :: t) = .ok (Char.ofNat n, t) := by
  have hall : ∀ n : Fin 32, (hexEscape ['0', '0', hexDigit (n / 16), hexDigit (n % 16)]).toOption =
      some (Char.ofNat n, []) := by decide +kernel
  have hn := hall ⟨n, h⟩
  cases hx : hexEscape ['0', '0', hexDigit (n / 16), hexDigit (n % 16)] with
  | error e =>
    rw [hx] at hn
    cases hn
  | ok p =>
    rw [hx] at hn
    obtain rfl := Option.some.inj hn
    obtain ⟨u, hu, -, ht⟩ := hexEscape_eq_ok hx
    rw [List.append_nil] at hu
    subst hu
    exact ht t

theorem spells_escape_append {c : Char} {s cs t : List Char} (h : Spells s cs t) :
    Spells (escape c ++ s) (c :: cs) t := by
  unfold escape
  split_ifs with hq hb hn hr ht h8 h12 hc
  · exact .escape (by rw [hq]; rfl) h
  · exact .escape (by rw [hb]; rfl) h
  · exact .escape (by rw [hn]; rfl) h
  · exact .escape (by rw [hr]; rfl) h
  · exact .escape (by rw [ht]; rfl) h
  · exact .escape (by rw [← Char.ofNat_toNat c, h8]; rfl) h
  · exact .escape (by rw [← Char.ofNat_toNat c, h12]; rfl) h
  · have hx := hexEscape_control hc s
    rw [Char.ofNat_toNat] at hx
    exact .code hx h
  · exact .plain hq hb hc h

/-- The text of a string spells the string. -/
theorem spells_quote (cs t : List Char) : Spells (cs.flatMap escape ++ '"' :: t) cs t := by
  induction cs with
  | nil => exact .close t
  | cons c cs ih =>
    rw [List.flatMap_cons, List.append_assoc]
    exact spells_escape_append ih

/-- A text spells one string. -/
theorem spells_unique {s cs ds r t : List Char} (h : Spells s cs r) (h' : Spells s ds t) :
    cs = ds ∧ r = t := by
  have h1 := stringBody_of_spells h (Nat.lt_succ_self _) []
  have h2 := stringBody_of_spells h' (Nat.lt_succ_self _) []
  obtain ⟨hcs, hr⟩ := Prod.mk.inj (Except.ok.inj (h1.symm.trans h2))
  exact ⟨by simpa using congrArg String.toList hcs, hr⟩

/-! ### Numbers -/

theorem isNumeral_of_mem_toDigits {n : Nat} {c : Char} (h : c ∈ Nat.toDigits 10 n) :
    isNumeral c = true :=
  isNumeral_of_isDigit (Nat.isDigit_of_mem_toDigits (by omega) (by omega) h)

theorem numerals_append {u v : List Char} (hu : ∀ c ∈ u, isNumeral c = true)
    (hv : ∀ c ∈ v, isNumeral c = true) : ∀ c ∈ u ++ v, isNumeral c = true :=
  List.forall_mem_append.2 ⟨hu, hv⟩

theorem numerals_zeros (n : Nat) : ∀ c ∈ List.replicate n '0', isNumeral c = true := by
  intro c hc
  rw [List.eq_of_mem_replicate hc]
  decide

theorem isNumeral_of_mem_positional (st : DecimalStyle) {ds : List Char}
    (h : ∀ c ∈ ds, isNumeral c = true) (lead : Int) :
    ∀ c ∈ st.positional ds lead, isNumeral c = true := by
  unfold DecimalStyle.positional
  split
  · exact numerals_cons (by decide)
      (numerals_cons (by decide) (numerals_append (numerals_zeros _) h))
  · simp only
    split
    · refine numerals_append (numerals_append h (numerals_zeros _)) ?_
      split <;> simp [isNumeral]
    · exact numerals_append (fun c hc => h c (List.mem_of_mem_take hc))
        (numerals_cons (by decide) fun c hc => h c (List.mem_of_mem_drop hc))

theorem isNumeral_of_mem_scientific {ds : List Char} (h : ∀ c ∈ ds, isNumeral c = true)
    (lead : Int) : ∀ c ∈ DecimalStyle.scientific ds lead, isNumeral c = true := by
  unfold DecimalStyle.scientific
  refine numerals_append ?_
    (numerals_cons (by decide) (numerals_cons ?_ fun _ => isNumeral_of_mem_toDigits))
  · split
    · simp
    · exact h
    · rename_i d ds _
      exact numerals_cons (h d List.mem_cons_self)
        (numerals_cons (by decide) fun c hc => h c (List.mem_cons_of_mem _ hc))
  · split <;> decide

theorem positional_ne_nil (st : DecimalStyle) {ds : List Char} (h : ds ≠ []) (lead : Int) :
    st.positional ds lead ≠ [] := by
  unfold DecimalStyle.positional
  split
  · simp
  · simp only
    split <;> simp [h]

theorem isNumeral_of_mem_text (st : DecimalStyle) (x : Binary64) :
    st.text x ≠ [] ∧ ∀ c ∈ st.text x, isNumeral c = true := by
  -- the sign apart, the text is that of zero or one of the two layouts
  suffices h : ∀ body : List Char, body ≠ [] → (∀ c ∈ body, isNumeral c = true) →
      (if x.negative then '-' :: body else body) ≠ [] ∧
        ∀ c ∈ (if x.negative then '-' :: body else body), isNumeral c = true by
    refine h _ ?_ ?_
    · split
      · split <;> simp
      · simp only
        split
        · unfold DecimalStyle.scientific
          simp
        · exact positional_ne_nil st Nat.toDigits_ne_nil _
    · split
      · split <;> simp [isNumeral]
      · simp only
        split
        · exact isNumeral_of_mem_scientific (fun _ => isNumeral_of_mem_toDigits) _
        · exact isNumeral_of_mem_positional st (fun _ => isNumeral_of_mem_toDigits) _
  intro body h0 hb
  split
  · exact ⟨by simp, numerals_cons (by decide) hb⟩
  · exact ⟨h0, hb⟩

/-- A printed number is not empty and has characters of numbers only. -/
theorem isNumeral_of_mem_print (n : Number) : n.print ≠ [] ∧ ∀ c ∈ n.print, isNumeral c = true := by
  cases n with
  | int i =>
    have hi : ∀ c ∈ Nat.toDigits 10 i.natAbs, isNumeral c = true :=
      fun _ => isNumeral_of_mem_toDigits
    rw [Number.print]
    by_cases h : i < 0
    · rw [if_pos h]
      exact ⟨by simp, numerals_cons (by decide) hi⟩
    · rw [if_neg h]
      exact ⟨Nat.toDigits_ne_nil, hi⟩
  | float x => exact isNumeral_of_mem_text .json x

/-- Characters of numbers, as many as there are before a stop. -/
theorem numerals_unique {u v s t : List Char} (hu : ∀ c ∈ u, isNumeral c = true)
    (hv : ∀ c ∈ v, isNumeral c = true) (hs : Stops s) (ht : Stops t) (h : u ++ s = v ++ t) :
    s = t := by
  rw [← (Text.takeWhile_append_stop hu hs).2, h, (Text.takeWhile_append_stop hv ht).2]

/-! ### The beginnings of values -/

theorem not_numberAt {c : Char} {s r : List Char} {n : Number} (hm : c ≠ '-')
    (hd : c.isDigit = false) : numberAt (c :: s) ≠ .ok (n, r) := by
  intro h
  obtain ⟨d, u, hs, hc, -⟩ := numberAt_eq_ok h
  obtain ⟨rfl, -⟩ := List.cons.inj hs
  rw [hd] at hc
  simp [hm] at hc

theorem reads_numeral {c : Char} {s r : List Char} {j : Json} (hc : isNumeral c = true)
    (h : Reads (.value j) (c :: s) r) : ∃ n, j = .num n ∧ numberAt (c :: s) = .ok (n, r) := by
  cases h with
  | number h => exact ⟨_, rfl, h⟩
  | _ => exact absurd hc (by decide)

theorem reads_quote {s r : List Char} {j : Json} (h : Reads (.value j) ('"' :: s) r) :
    ∃ cs, j = .str (String.ofList cs) ∧ Spells s cs r := by
  cases h with
  | number h => exact absurd h (not_numberAt (by decide) (by decide))
  | string h => exact ⟨_, rfl, h⟩

theorem reads_bracket {s r : List Char} {j : Json} (h : Reads (.value j) ('[' :: s) r) :
    (j = .arr [] ∧ skipSpace s = ']' :: r) ∨
      ∃ k ks s', j = .arr (k :: ks) ∧ Reads (.value k) (skipSpace s) s' ∧ Reads (.items ks) s' r := by
  cases h with
  | number h => exact absurd h (not_numberAt (by decide) (by decide))
  | emptyArray h => exact .inl ⟨rfl, h⟩
  | array hj hjs => exact .inr ⟨_, _, _, rfl, hj, hjs⟩

theorem reads_brace {s r : List Char} {j : Json} (h : Reads (.value j) ('{' :: s) r) :
    (j = .obj [] ∧ skipSpace s = '}' :: r) ∨
      ∃ m ms s', j = .obj (m :: ms) ∧ Reads (.member m) (skipSpace s) s' ∧
        Reads (.members ms) s' r := by
  cases h with
  | number h => exact absurd h (not_numberAt (by decide) (by decide))
  | emptyObject h => exact .inl ⟨rfl, h⟩
  | object hm hms => exact .inr ⟨_, _, _, rfl, hm, hms⟩

/-! ### The text of a value -/

/-- What the text of a value begins with. -/
theorem exists_print_eq_cons (v : Json) : ∃ c s, v.print = c :: s ∧ isSpace c = false ∧ c ≠ ']' := by
  have hspace {c : Char} (h : isNumeral c = true) : isSpace c = false ∧ c ≠ ']' := by
    simp only [isNumeral, Bool.or_eq_true, beq_iff_eq] at h
    obtain ((((h | rfl) | rfl) | rfl) | rfl) | rfl := h
    · exact ⟨isSpace_eq_false_of_isDigit h, ne_of_isDigit h (by decide)⟩
    all_goals decide
  cases v with
  | num n =>
    obtain ⟨h0, hn⟩ := isNumeral_of_mem_print n
    obtain ⟨c, s, hc⟩ := List.exists_cons_of_ne_nil h0
    exact ⟨c, s, by rw [print, hc], hspace (hn c (by simp [hc]))⟩
  | null => exact ⟨_, _, rfl, by decide, by decide⟩
  | bool b => cases b <;> exact ⟨_, _, rfl, by decide, by decide⟩
  | str s => exact ⟨_, _, rfl, by decide, by decide⟩
  | arr items => cases items <;> exact ⟨_, _, by rw [print], by decide, by decide⟩
  | obj ms => cases ms <;> exact ⟨_, _, by rw [print], by decide, by decide⟩

theorem skipSpace_print (v : Json) (t : List Char) : skipSpace (v.print ++ t) = v.print ++ t := by
  obtain ⟨c, s, hs, hc, -⟩ := exists_print_eq_cons v
  rw [hs, List.cons_append, skipSpace_cons hc]

theorem skipSpace_quote (k : String) (t : List Char) : skipSpace (quote k ++ t) = quote k ++ t :=
  skipSpace_cons (by decide) _

theorem ends_printItems (vs : List Json) (t : List Char) : Ends (printItems vs ++ ']' :: t) := by
  cases vs <;> rintro c ⟨rfl⟩ <;> decide

theorem ends_printMembers (ms : Members) (t : List Char) : Ends (printMembers ms ++ '}' :: t) := by
  cases ms <;> rintro c ⟨rfl⟩ <;> decide

theorem reads_print_num {n : Number} {j : Json} {t r : List Char}
    (h : Reads (.value j) (n.print ++ t) r) (hr : Ends r) (ht : Ends t) : r = t ∧ j.depth = 0 := by
  obtain ⟨h0, hn⟩ := isNumeral_of_mem_print n
  obtain ⟨c, s, hc⟩ := List.exists_cons_of_ne_nil h0
  rw [hc, List.cons_append] at h
  rw [hc] at hn
  obtain ⟨m, rfl, hm⟩ := reads_numeral (hn c List.mem_cons_self) h
  obtain ⟨d, u, hs, hd, hu, -⟩ := numberAt_eq_ok hm
  obtain ⟨rfl, hrest⟩ := List.cons.inj hs
  have hs : ∀ c ∈ s, isNumeral c = true := fun c h => hn c (List.mem_cons_of_mem _ h)
  exact ⟨(numerals_unique hs hu ht.stops hr.stops hrest).symm, by simp [Json.depth]⟩

/-- The name of a printed member is found, and its value begins behind the colon. -/
theorem reads_printed_member {k : String} {m : String × Json} {v : Json} {t r : List Char}
    (h : Reads (.member m) (quote k ++ ':' :: (v.print ++ t)) r) :
    m.1 = k ∧ Reads (.value m.2) (v.print ++ t) r := by
  rw [quote, List.cons_append, List.append_assoc] at h
  cases h with
  | member hk hc hj =>
    obtain ⟨rfl, rfl⟩ := spells_unique hk (spells_quote k.toList (':' :: (v.print ++ t)))
    rw [skipSpace_cons (by decide)] at hc
    obtain ⟨-, rfl⟩ := List.cons.inj hc
    rw [skipSpace_print] at hj
    exact ⟨String.ofList_toList, hj⟩

mutual

/-- What is read from the text of a value takes that text up to its end and is nested as deep. -/
theorem reads_print : ∀ (v : Json) {j : Json} {t r : List Char},
    Reads (.value j) (v.print ++ t) r → Ends r → Ends t → r = t ∧ j.depth = v.depth
  | .null, j, t, r, h, _, _ => by
    obtain ⟨rfl, rfl⟩ := reads_value_unique h (.null t)
    exact ⟨rfl, rfl⟩
  | .bool true, j, t, r, h, _, _ => by
    obtain ⟨rfl, rfl⟩ := reads_value_unique h (.yes t)
    exact ⟨rfl, rfl⟩
  | .bool false, j, t, r, h, _, _ => by
    obtain ⟨rfl, rfl⟩ := reads_value_unique h (.no t)
    exact ⟨rfl, rfl⟩
  | .num n, j, t, r, h, hr, ht => by
    rw [print] at h
    exact reads_print_num h hr ht
  | .str s, j, t, r, h, _, _ => by
    rw [print, quote, List.cons_append, List.append_assoc] at h
    obtain ⟨cs, rfl, hs⟩ := reads_quote h
    exact ⟨(spells_unique hs (spells_quote s.toList t)).2, rfl⟩
  | .arr [], j, t, r, h, _, _ => by
    obtain ⟨rfl, rfl⟩ := reads_value_unique h (.emptyArray (skipSpace_cons (by decide) t))
    exact ⟨rfl, rfl⟩
  | .arr (v :: vs), j, t, r, h, _, _ => by
    rw [print, List.cons_append, List.append_assoc, List.append_assoc, List.singleton_append] at h
    obtain ⟨c, s, hs, hc, hne⟩ := exists_print_eq_cons v
    obtain ⟨-, hclose⟩ | ⟨k, ks, s', rfl, hk, hks⟩ := reads_bracket h
    · rw [skipSpace_print, hs] at hclose
      exact absurd (List.cons.inj hclose).1 hne
    · rw [skipSpace_print] at hk
      obtain ⟨rfl, hd⟩ := reads_print v hk (ends_of_reads_items hks) (ends_printItems vs t)
      obtain ⟨rfl, hds⟩ := reads_printItems vs hks
      exact ⟨rfl, by simp only [Json.depth, Json.depthItems, hd, hds]⟩
  | .obj [], j, t, r, h, _, _ => by
    obtain ⟨rfl, rfl⟩ := reads_value_unique h (.emptyObject (skipSpace_cons (by decide) t))
    exact ⟨rfl, rfl⟩
  | .obj ((k, v) :: ms), j, t, r, h, _, _ => by
    rw [print, List.cons_append, List.append_assoc, List.cons_append, List.append_assoc,
      List.append_assoc, List.singleton_append] at h
    obtain ⟨-, hclose⟩ | ⟨m, ms', s', rfl, hm, hms⟩ := reads_brace h
    · cases hclose
    · rw [skipSpace_quote] at hm
      obtain ⟨-, hv⟩ := reads_printed_member hm
      obtain ⟨rfl, hd⟩ := reads_print v hv (ends_of_reads_members hms) (ends_printMembers ms t)
      obtain ⟨rfl, hds⟩ := reads_printMembers ms hms
      exact ⟨rfl, by simp only [Json.depth, Json.depthMembers, hd, hds]⟩

/-- The same of the items behind the first one. -/
theorem reads_printItems : ∀ (vs : List Json) {js : List Json} {t r : List Char},
    Reads (.items js) (printItems vs ++ ']' :: t) r → r = t ∧ depthItems js = depthItems vs
  | [], js, t, r, h => by
    rw [printItems, List.nil_append] at h
    cases h with
    | lastItem hs =>
      rw [skipSpace_cons (by decide)] at hs
      exact ⟨(List.cons.inj hs).2.symm, rfl⟩
    | nextItem hs =>
      rw [skipSpace_cons (by decide)] at hs
      cases hs
  | v :: vs, js, t, r, h => by
    rw [printItems, List.cons_append, List.append_assoc] at h
    cases h with
    | lastItem hs =>
      rw [skipSpace_cons (by decide)] at hs
      cases hs
    | nextItem hs hj hjs =>
      rw [skipSpace_cons (by decide)] at hs
      obtain ⟨-, rfl⟩ := List.cons.inj hs
      rw [skipSpace_print] at hj
      obtain ⟨rfl, hd⟩ := reads_print v hj (ends_of_reads_items hjs) (ends_printItems vs t)
      obtain ⟨rfl, hds⟩ := reads_printItems vs hjs
      exact ⟨rfl, by simp only [Json.depthItems, hd, hds]⟩

/-- The same of the members behind the first one. -/
theorem reads_printMembers : ∀ (vs : Members) {ms : Members} {t r : List Char},
    Reads (.members ms) (printMembers vs ++ '}' :: t) r → r = t ∧ depthMembers ms = depthMembers vs
  | [], ms, t, r, h => by
    rw [printMembers, List.nil_append] at h
    cases h with
    | lastMember hs =>
      rw [skipSpace_cons (by decide)] at hs
      exact ⟨(List.cons.inj hs).2.symm, rfl⟩
    | nextMember hs =>
      rw [skipSpace_cons (by decide)] at hs
      cases hs
  | (k, v) :: vs, ms, t, r, h => by
    rw [printMembers, List.cons_append, List.append_assoc, List.cons_append, List.append_assoc] at h
    cases h with
    | lastMember hs =>
      rw [skipSpace_cons (by decide)] at hs
      cases hs
    | nextMember hs hm hms =>
      rw [skipSpace_cons (by decide)] at hs
      obtain ⟨-, rfl⟩ := List.cons.inj hs
      rw [skipSpace_quote] at hm
      obtain ⟨-, hv⟩ := reads_printed_member hm
      obtain ⟨rfl, hd⟩ := reads_print v hv (ends_of_reads_members hms) (ends_printMembers vs t)
      obtain ⟨rfl, hds⟩ := reads_printMembers vs hms
      exact ⟨rfl, by simp only [Json.depthMembers, hd, hds]⟩

end

/-- A value that reads back is spelled by its text: what is read there merges to the value and is
nested as deep. -/
theorem exists_reads_print {v : Json} (h : v.ReadsBack) :
    ∃ raw, Reads (.value raw) v.print [] ∧ raw.merged = v ∧ raw.depth = v.depth := by
  unfold Json.ReadsBack Json.ofText Json.parse Json.toText at h
  rw [String.toList_ofList] at h
  obtain ⟨raw, hraw, hm⟩ := map_eq_ok h
  obtain ⟨r, hr, hs⟩ := reads_of_readRaw hraw
  have hprint := skipSpace_print v []
  rw [List.append_nil] at hprint
  rw [hprint, ← List.append_nil v.print] at hr
  obtain ⟨rfl, hd⟩ := reads_print v hr (ends_of_skipSpace_eq_nil hs) ends_nil
  rw [List.append_nil] at hr
  exact ⟨raw, hr, hm, hd⟩

end Read

end Stencil
