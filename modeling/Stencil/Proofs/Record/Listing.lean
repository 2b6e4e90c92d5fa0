import Mathlib.Data.List.Basic
import Stencil.Appliance.Simulated
import Stencil.Proofs.Text.Ascii
import Stencil.Proofs.Text.Words

/-!
# Listings read back

Records whose names and data stay within their alphabets are found again in the listing of a
collection, and in the text of the command that replaces its content: the same records, in order
(`ofListing_listing`, `recordsGiven_recordsText`). All the words around the records are passed over,
since no opening brace with `data` and a blank behind it follows any of them.
-/

namespace Stencil

namespace Record

open Text

/-- The name and the data of the record can be told from the text around them. -/
structure Legible (r : Record) : Prop where
  name_ne_nil : r.name.toList ≠ []
  isNameChar_of_mem : ∀ c ∈ r.name.toList, isNameChar c = true
  isDataChar_of_mem : ∀ c ∈ r.data.toList, isDataChar c = true

instance (r : Record) : Decidable r.Legible :=
  decidable_of_iff
    (r.name.toList ≠ [] ∧ r.name.toList.all isNameChar ∧ r.data.toList.all isDataChar)
    ⟨fun h => ⟨h.1, List.all_eq_true.1 h.2.1, List.all_eq_true.1 h.2.2⟩, fun h =>
      ⟨h.name_ne_nil, List.all_eq_true.2 h.isNameChar_of_mem, List.all_eq_true.2 h.isDataChar_of_mem⟩⟩

/-! ### Characters -/

theorem isBlank_eq_false_of_isNameChar {c : Char} (h : isNameChar c = true) : isBlank c = false := by
  simp only [isNameChar, Bool.or_eq_true, isAlphanum_iff_toNat, beq_iff_eq] at h
  rcases h with (((h | rfl) | rfl) | rfl) | rfl
  · simp only [isBlank, Bool.or_eq_false_iff, Bool.and_eq_false_iff, decide_eq_false_iff_not,
      beq_eq_false_iff_ne]
    omega
  all_goals decide

/-- A quote, a blank and a closing brace are no part of data. -/
theorem isDataChar_eq_false {c : Char} (h : isBlank c = true ∨ c = '"' ∨ c = '}') :
    isDataChar c = false := by
  rcases h with h | rfl | rfl
  · by_contra hd
    have hn : isNameChar c = true ∨ c = '+' ∨ c = '=' := by
      simp only [isDataChar, Bool.not_eq_false, Bool.or_eq_true, beq_iff_eq] at hd
      simp only [isNameChar, Bool.or_eq_true, beq_iff_eq]
      tauto
    rcases hn with hn | rfl | rfl
    · rw [isBlank_eq_false_of_isNameChar hn] at h
      cases h
    all_goals revert h; decide
  all_goals decide

/-! ### What stands behind a name -/

theorem after?_cons_ne {c d : Char} (h : c ≠ d) (s t : List Char) :
    after? (c :: s) (d :: t) = none := by
  rw [after?, if_neg h]

theorem entryBody_eq_none {s : List Char} (h : after? ['{'] (trimStart s) = none) :
    entryBody s = none := by
  simp only [entryBody, h, bind, Option.bind]

/-- Behind an opening brace no `data` stands. -/
theorem entryBody_brace_eq_none {b s : List Char} (hb : b.all isBlank)
    (h : after? ['d', 'a', 't', 'a'] (trimStart s) = none) : entryBody (b ++ '{' :: s) = none := by
  have hbrace : isBlank '{' = false := by decide
  simp only [entryBody, trimStart_append hb, trimStart_cons hbrace, after?, if_pos, bind,
    Option.bind, h]

theorem dropBlanks_append {b : List Char} (hb : b.all isBlank) (h0 : b ≠ []) (s : List Char) :
    dropBlanks (b ++ s) = some (trimStart s) := by
  obtain ⟨c, b, rfl⟩ := List.exists_cons_of_ne_nil h0
  have ht := trimStart_append hb s
  rw [List.cons_append] at ht ⊢
  rw [dropBlanks, if_pos (List.all_eq_true.1 hb c List.mem_cons_self), ht]

theorem dropQuote_of_ne {s : List Char} (h : ∀ c ∈ s.head?, c ≠ '"') : dropQuote s = s := by
  cases s with
  | nil => rfl
  | cons c s =>
    rw [dropQuote]
    rintro rest ⟨rfl⟩
    exact h '"' rfl rfl

/-- Behind an opening brace and `data`, the data and the closing brace count. -/
theorem entryBody_data {b0 b1 b2 : List Char} (hb0 : b0.all isBlank)
    (hb1 : b1.all isBlank) (hb2 : b2.all isBlank) (h2 : b2 ≠ []) {s data t : List Char}
    (htake : (dropQuote (trimStart s)).takeWhile isDataChar = data)
    (hdrop : trimStart (dropQuote ((dropQuote (trimStart s)).dropWhile isDataChar)) = '}' :: t) :
    entryBody (b0 ++ '{' :: (b1 ++ (['d', 'a', 't', 'a'] ++ (b2 ++ s)))) = some (data, t) := by
  have hbrace : isBlank '{' = false := by decide
  have hd : isBlank 'd' = false := by decide
  have hdata :
      trimStart (b1 ++ (['d', 'a', 't', 'a'] ++ (b2 ++ s))) = ['d', 'a', 't', 'a'] ++ (b2 ++ s) := by
    rw [trimStart_append hb1, List.cons_append, trimStart_cons hd]
  have hopen : after? ['{'] ('{' :: (b1 ++ (['d', 'a', 't', 'a'] ++ (b2 ++ s)))) =
      some (b1 ++ (['d', 'a', 't', 'a'] ++ (b2 ++ s))) := after?_append ['{'] _
  have hclose : after? ['}'] ('}' :: t) = some t := after?_append ['}'] t
  simp only [entryBody, trimStart_append hb0, trimStart_cons hbrace, hopen, hdata, after?_append,
    dropBlanks_append hb2 h2, htake, hdrop, hclose, bind, Option.bind]

/-- A record with its data in quotes. -/
theorem entryBody_quoted (b0 b1 b2 b3 : List Char) {data : List Char} (hb0 : b0.all isBlank)
    (hb1 : b1.all isBlank) (hb2 : b2.all isBlank) (h2 : b2 ≠ []) (hb3 : b3.all isBlank)
    (hd : ∀ c ∈ data, isDataChar c = true) (t : List Char) :
    entryBody (b0 ++ '{' :: (b1 ++ (['d', 'a', 't', 'a'] ++
      (b2 ++ '"' :: (data ++ '"' :: (b3 ++ '}' :: t)))))) = some (data, t) := by
  have hquote : isBlank '"' = false := by decide
  have hclose : isBlank '}' = false := by decide
  obtain ⟨htake, hdrop⟩ := takeWhile_append_stop (t := '"' :: (b3 ++ '}' :: t)) hd
    (by rintro c ⟨rfl⟩; decide)
  refine entryBody_data hb0 hb1 hb2 h2 ?_ ?_
  · rw [trimStart_cons hquote, dropQuote, htake]
  · rw [trimStart_cons hquote, dropQuote, hdrop, dropQuote, trimStart_append hb3,
      trimStart_cons hclose]

/-- A record with its data as they are. -/
theorem entryBody_bare (b0 b1 b2 b3 : List Char) {data : List Char} (hb0 : b0.all isBlank)
    (hb1 : b1.all isBlank) (hb2 : b2.all isBlank) (h2 : b2 ≠ []) (hb3 : b3.all isBlank)
    (hd : ∀ c ∈ data, isDataChar c = true) (t : List Char) :
    entryBody (b0 ++ '{' :: (b1 ++ (['d', 'a', 't', 'a'] ++
      (b2 ++ (data ++ (b3 ++ '}' :: t)))))) = some (data, t) := by
  have hclose : isBlank '}' = false := by decide
  have hbrace : dropQuote ('}' :: t) = '}' :: t := dropQuote_of_ne (by rintro c ⟨rfl⟩; decide)
  have hbehind : ∀ c ∈ (b3 ++ '}' :: t).head?, isBlank c = true ∨ c = '}' := by
    cases b3 with
    | nil => rintro c ⟨rfl⟩; exact .inr rfl
    | cons d b3 => rintro c ⟨rfl⟩; exact .inl (List.all_eq_true.1 hb3 _ List.mem_cons_self)
  cases data with
  | nil =>
    -- the blanks before and behind the empty data are dropped together
    have hs : trimStart ([] ++ (b3 ++ '}' :: t)) = '}' :: t := by
      rw [List.nil_append, trimStart_append hb3, trimStart_cons hclose]
    have hn : isDataChar '}' = false := by decide
    refine entryBody_data hb0 hb1 hb2 h2 ?_ ?_
    · rw [hs, hbrace, List.takeWhile_cons_of_neg (by simp [hn])]
    · rw [hs, hbrace, List.dropWhile_cons_of_neg (by simp [hn]), hbrace, trimStart_cons hclose]
  | cons d data =>
    have hdb : isBlank d = false := by
      by_contra hb
      have hf := isDataChar_eq_false (.inl (Bool.not_eq_false _ ▸ hb))
      rw [hd d List.mem_cons_self] at hf
      cases hf
    have hdq : d ≠ '"' := by
      rintro rfl
      exact absurd (hd '"' List.mem_cons_self) (by decide)
    obtain ⟨htake, hdrop⟩ := takeWhile_append_stop (t := b3 ++ '}' :: t) hd fun c hc =>
      isDataChar_eq_false ((hbehind c hc).imp_right .inr)
    have hq : dropQuote (b3 ++ '}' :: t) = b3 ++ '}' :: t := by
      refine dropQuote_of_ne fun c hc => ?_
      rcases hbehind c hc with hb | rfl
      · rintro rfl
        exact absurd hb (by decide)
      · decide
    have hfront : dropQuote (trimStart (d :: data ++ (b3 ++ '}' :: t))) =
        d :: data ++ (b3 ++ '}' :: t) := by
      rw [List.cons_append, trimStart_cons hdb]
      exact dropQuote_of_ne (by rintro c ⟨rfl⟩; exact hdq)
    refine entryBody_data hb0 hb1 hb2 h2 ?_ ?_
    · rw [hfront, htake]
    · rw [hfront, hdrop, hq, trimStart_append hb3, trimStart_cons hclose]

/-! ### Scanning -/

theorem length_after? {s t u : List Char} (h : after? s t = some u) : u.length ≤ t.length := by
  rw [after?_eq_some_iff.1 h, List.length_append]
  omega

theorem length_dropQuote (s : List Char) : (dropQuote s).length ≤ s.length := by
  unfold dropQuote
  split
  · simp
  · exact Nat.le_refl _

theorem length_dropWhile (p : Char → Bool) (s : List Char) : (s.dropWhile p).length ≤ s.length :=
  (List.dropWhile_suffix p).length_le

theorem length_entryBody {s t data : List Char} (h : entryBody s = some (data, t)) :
    t.length ≤ s.length := by
  simp only [entryBody, bind, Option.bind_eq_some_iff, Option.some.injEq, Prod.mk.injEq] at h
  obtain ⟨s1, h1, s2, h2, s3, h3, s4, h4, -, rfl⟩ := h
  have l1 := length_after? h1
  have l2 := length_after? h2
  have l4 := length_after? h4
  have l3 : s3.length ≤ s2.length := by
    unfold dropBlanks at h3
    split at h3
    · split at h3
      · rw [← Option.some.inj h3]
        exact length_dropWhile _ _
      · cases h3
    · cases h3
  have d0 := length_dropWhile isBlank s
  have d1 := length_dropWhile isBlank s1
  have d2 := length_dropWhile isBlank (dropQuote ((dropQuote s3).dropWhile isDataChar))
  have d3 := length_dropQuote ((dropQuote s3).dropWhile isDataChar)
  have d4 := length_dropWhile isDataChar (dropQuote s3)
  have d5 := length_dropQuote s3
  unfold trimStart at l1 l2 l4
  omega

/-- The fuel of a scan does not matter as long as there is enough of it. -/
theorem listingFrom_fuel (n m : Nat) (found : List Record) (s : List Char) (hn : s.length < n)
    (hm : s.length < m) : listingFrom n found s = listingFrom m found s := by
  induction n generalizing m found s with
  | zero => omega
  | succ n ih =>
    obtain ⟨m, rfl⟩ : ∃ k, m = k + 1 := ⟨m - 1, by omega⟩
    rw [listingFrom, listingFrom]
    have hd := length_dropWhile (fun c => !isNameChar c) s
    cases hs : s.dropWhile fun c => !isNameChar c with
    | nil => rfl
    | cons c rest =>
      rw [hs, List.length_cons] at hd
      have hr := length_dropWhile isNameChar rest
      simp only
      cases he : entryBody (rest.dropWhile isNameChar) with
      | none => exact ih m found _ (by omega) (by omega)
      | some p =>
        have hl := length_entryBody he
        exact ih m _ _ (by omega) (by omega)

/-- The records found behind those that were found before, the last one first. -/
def scan (found : List Record) (s : List Char) : List Record := listingFrom (s.length + 1) found s

theorem ofListing_eq_scan (listing : String) : ofListing listing = scan [] listing.toList := rfl

@[simp] theorem scan_nil (found : List Record) : scan found [] = found.reverse := rfl

/-- Between names nothing counts. -/
theorem scan_skip {b : List Char} (hb : b.all fun c => !isNameChar c) (found : List Record)
    (s : List Char) : scan found (b ++ s) = scan found s := by
  have hd : (b ++ s).dropWhile (fun c => !isNameChar c) = s.dropWhile fun c => !isNameChar c :=
    List.dropWhile_append_of_pos (List.all_eq_true.1 hb)
  have hl : s.length < (b ++ s).length + 1 := by
    rw [List.length_append]
    omega
  rw [scan, scan, listingFrom_fuel (s.length + 1) ((b ++ s).length + 1) found s (by omega) hl,
    listingFrom, listingFrom, hd]

/-- Behind a name, a record is found or the scan goes on. -/
theorem scan_name {w s : List Char} (h0 : w ≠ []) (hw : w.all isNameChar)
    (hs : ∀ c ∈ s.head?, isNameChar c = false) (found : List Record) :
    scan found (w ++ s) =
      match entryBody s with
      | some (data, t) => scan (⟨String.ofList w, String.ofList data⟩ :: found) t
      | none => scan found s := by
  obtain ⟨c, w, rfl⟩ := List.exists_cons_of_ne_nil h0
  rw [List.all_cons, Bool.and_eq_true] at hw
  obtain ⟨htake, hdrop⟩ := takeWhile_append_stop (List.all_eq_true.1 hw.2) hs
  have hl : (c :: (w ++ s)).length = w.length + s.length + 1 := by
    rw [List.length_cons, List.length_append]
  rw [scan, listingFrom, List.cons_append, List.dropWhile_cons_of_neg (by simp [hw.1])]
  simp only [htake, hdrop]
  cases he : entryBody s with
  | none => exact listingFrom_fuel _ _ _ _ (by omega) (by omega)
  | some p =>
    have hb := length_entryBody he
    exact listingFrom_fuel _ _ _ _ (by omega) (by omega)

theorem scan_word {w s : List Char} (h0 : w ≠ []) (hw : w.all isNameChar)
    (hs : ∀ c ∈ s.head?, isNameChar c = false) (he : entryBody s = none) (found : List Record) :
    scan found (w ++ s) = scan found s := by
  rw [scan_name h0 hw hs, he]

/-- A word and the blanks behind it. -/
def isSpaced (w b : List Char) : Bool :=
  !w.isEmpty && w.all isNameChar && !b.isEmpty && b.all isBlank

/-- A word is passed over when no opening brace stands behind the blanks that follow it. -/
theorem scan_plain {w b s : List Char} (h : isSpaced w b)
    (hs : ∀ c ∈ s.head?, isBlank c = false ∧ c ≠ '{') (found : List Record) :
    scan found (w ++ (b ++ s)) = scan found s := by
  simp only [isSpaced, Bool.and_eq_true, Bool.not_eq_true', List.isEmpty_eq_false_iff] at h
  obtain ⟨⟨⟨h0, hw⟩, hb0⟩, hb⟩ := h
  have hblank : ∀ c ∈ b, isNameChar c = false := by
    intro c hc
    by_contra hn
    have hf := isBlank_eq_false_of_isNameChar (Bool.not_eq_false _ ▸ hn)
    rw [List.all_eq_true.1 hb c hc] at hf
    cases hf
  have hbody : entryBody (b ++ s) = none := by
    refine entryBody_eq_none ?_
    rw [trimStart_append hb]
    cases s with
    | nil => rfl
    | cons c s =>
      obtain ⟨hc, hne⟩ := hs c rfl
      rw [trimStart_cons hc]
      exact after?_cons_ne (Ne.symm hne) _ _
  have hhead : ∀ c ∈ (b ++ s).head?, isNameChar c = false := by
    obtain ⟨d, b, rfl⟩ := List.exists_cons_of_ne_nil hb0
    rintro c ⟨rfl⟩
    exact hblank d List.mem_cons_self
  have hskip : b.all fun c => !isNameChar c := by simpa using hblank
  rw [scan_word h0 hw hhead hbody, scan_skip hskip]

/-! ### Texts without blanks -/

/-- What follows `data` within a text without blanks, and then an opening brace, is no data. -/
theorem after?_data_unbroken {u : List Char} (hu : Unbroken u) (s : List Char) :
    ∀ v, after? ['d', 'a', 't', 'a'] (u ++ ' ' :: '{' :: s) = some v →
      ∃ w, Unbroken w ∧ v = w ++ ' ' :: '{' :: s := by
  -- a blank is no letter of the word, so the word lies within the text
  suffices h : ∀ p u : List Char, ' ' ∉ p → Unbroken u →
      ∀ v, after? p (u ++ ' ' :: '{' :: s) = some v → ∃ w, Unbroken w ∧ v = w ++ ' ' :: '{' :: s from
    h ['d', 'a', 't', 'a'] u (by decide) hu
  intro p
  induction p with
  | nil =>
    intro u _ hu v hv
    exact ⟨u, hu, (Option.some.inj hv).symm⟩
  | cons c p ih =>
    intro u hp hu v hv
    cases u with
    | nil =>
      rw [List.nil_append, after?_cons_ne (List.ne_of_not_mem_cons hp).symm] at hv
      cases hv
    | cons d u =>
      have hu' : Unbroken u := fun c hc => hu c (List.mem_cons_of_mem _ hc)
      rw [List.cons_append, after?] at hv
      split at hv
      · exact ih u (List.not_mem_of_not_mem_cons hp) hu' v hv
      · cases hv

/-- Behind an opening brace, a word with another opening brace behind it is no record. -/
theorem entryBody_word (b b1 : List Char) {u s : List Char} (hb : b.all isBlank)
    (hb1 : b1.all isBlank) (hu : Unbroken u) :
    entryBody (b ++ '{' :: (b1 ++ (u ++ ' ' :: '{' :: s))) = none := by
  have hopen : isBlank '{' = false := by decide
  cases u with
  | nil =>
    refine entryBody_brace_eq_none hb ?_
    rw [trimStart_append hb1, List.nil_append, trimStart_blank (by decide), trimStart_cons hopen]
    exact after?_cons_ne (by decide) _ _
  | cons c u =>
    have ht : trimStart (b1 ++ (c :: u ++ ' ' :: '{' :: s)) = c :: u ++ ' ' :: '{' :: s := by
      rw [trimStart_append hb1, List.cons_append, trimStart_cons (hu c List.mem_cons_self)]
    cases ha : after? ['d', 'a', 't', 'a'] (c :: u ++ ' ' :: '{' :: s) with
    | none =>
      refine entryBody_brace_eq_none hb ?_
      rw [ht, ha]
    | some v =>
      obtain ⟨w, hw, rfl⟩ := after?_data_unbroken hu s v ha
      have hbrace : after? ['{'] ('{' :: (b1 ++ (c :: u ++ ' ' :: '{' :: s))) =
          some (b1 ++ (c :: u ++ ' ' :: '{' :: s)) := after?_append ['{'] _
      cases w with
      | nil =>
        -- blanks, no data, and an opening brace where the closing one should be
        have hdrop : dropBlanks (' ' :: '{' :: s) = some ('{' :: s) := by
          rw [dropBlanks, if_pos (by decide), trimStart_blank (by decide), trimStart_cons hopen]
        have hq : dropQuote ('{' :: s) = '{' :: s := dropQuote_of_ne (by rintro c ⟨rfl⟩; decide)
        have hd : ('{' :: s).dropWhile isDataChar = '{' :: s := List.dropWhile_cons_of_neg (by decide)
        have hc : after? ['}'] ('{' :: s) = none := after?_cons_ne (by decide) _ _
        simp only [entryBody, trimStart_append hb, trimStart_cons hopen, hbrace, ht, ha,
          List.nil_append, hdrop, hq, hd, hc, bind, Option.bind]
      | cons d w =>
        have hdrop : dropBlanks (d :: w ++ ' ' :: '{' :: s) = none := by
          rw [List.cons_append, dropBlanks, if_neg (by simp [hw d List.mem_cons_self])]
        simp only [entryBody, trimStart_append hb, trimStart_cons hopen, hbrace, ht, ha, hdrop, bind,
          Option.bind]

/-- A text without blanks is no record, nor is what stands behind it up to an opening brace. -/
theorem entryBody_unbroken {u tail : List Char} (hu : Unbroken u)
    (ht : after? ['d', 'a', 't', 'a'] (trimStart tail) = none) :
    entryBody (u ++ ' ' :: '{' :: tail) = none := by
  cases u with
  | nil => exact entryBody_brace_eq_none (b := [' ']) (by decide) ht
  | cons c u =>
    by_cases hc : c = '{'
    · subst hc
      exact entryBody_word [] [] rfl rfl fun d hd => hu d (List.mem_cons_of_mem _ hd)
    · refine entryBody_eq_none ?_
      rw [List.cons_append, trimStart_cons (hu c List.mem_cons_self)]
      exact after?_cons_ne (Ne.symm hc) _ _

/-- A text without blanks is passed over, up to the opening brace behind it. -/
theorem scan_unbroken {p tail : List Char} (hp : Unbroken p)
    (ht : after? ['d', 'a', 't', 'a'] (trimStart tail) = none) (found : List Record) :
    scan found (p ++ ' ' :: '{' :: tail) = scan found tail := by
  induction hl : p.length using Nat.strongRecOn generalizing p with
  | _ n ih =>
    cases p with
    | nil => exact scan_skip (b := [' ', '{']) (by decide) found tail
    | cons c p =>
      by_cases hc : isNameChar c = true
      · -- the name at the beginning is no record, and the text behind it is shorter
        have hsplit : (c :: p).takeWhile isNameChar ++ (c :: p).dropWhile isNameChar = c :: p :=
          List.takeWhile_append_dropWhile
        have hu : Unbroken ((c :: p).dropWhile isNameChar) :=
          fun d hd => hp d ((List.dropWhile_suffix _).mem hd)
        have hlen : ((c :: p).dropWhile isNameChar).length < n := by
          rw [List.dropWhile_cons_of_pos hc, ← hl, List.length_cons]
          exact Nat.lt_succ_of_le (length_dropWhile _ _)
        have hstop : ∀ d ∈ ((c :: p).dropWhile isNameChar ++ []).head?, isNameChar d = false := by
          rw [List.append_nil]
          exact head?_dropWhile_stop isNameChar (c :: p)
        have hhead := head?_append_stop (t := ' ' :: '{' :: tail) hstop (by rintro d ⟨rfl⟩; decide)
        rw [← hsplit, List.append_assoc, scan_word (by simp [hc]) List.all_takeWhile hhead
          (entryBody_unbroken hu ht)]
        exact ih _ hlen hu rfl
      · have hskip := scan_skip (b := [c]) (by simpa using hc) found (p ++ ' ' :: '{' :: tail)
        rw [List.singleton_append] at hskip
        rw [List.cons_append, hskip]
        exact ih p.length (by simp [← hl]) (fun d hd => hp d (List.mem_cons_of_mem _ hd)) rfl

/-! ### Records in a listing and in a command -/

theorem Legible.all_isNameChar {r : Record} (h : r.Legible) : r.name.toList.all isNameChar :=
  List.all_eq_true.2 h.isNameChar_of_mem

theorem Legible.unbroken {r : Record} (h : r.Legible) : Unbroken r.name.toList :=
  fun c hc => isBlank_eq_false_of_isNameChar (h.isNameChar_of_mem c hc)

/-- Blanks on a new line. -/
def indent (n : Nat) : List Char := '\n' :: List.replicate n ' '

theorem all_isBlank_indent (n : Nat) : (indent n).all isBlank := by
  refine List.all_eq_true.2 fun c h => ?_
  rcases List.mem_cons.1 h with rfl | h
  · decide
  · rw [List.eq_of_mem_replicate h]
    decide

theorem recordListing_append (r : Record) (s : List Char) :
    Appliance.recordListing r ++ s = List.replicate 8 ' ' ++ (r.name.toList ++ ([' '] ++ '{' ::
      (indent 12 ++ (['d', 'a', 't', 'a'] ++ ([' '] ++ (r.data.toList ++
        (indent 8 ++ '}' :: '\n' :: s))))))) := by
  unfold Appliance.recordListing
  simp [indent, List.replicate]

theorem entryText_append (r : Record) (s : List Char) :
    r.entryText ++ s = r.name.toList ++ ([' '] ++ '{' :: ([' '] ++ (['d', 'a', 't', 'a'] ++
      ([' '] ++ '"' :: (r.data.toList ++ '"' :: ([' '] ++ '}' :: s)))))) := by
  simp [entryText]

theorem scan_recordListing {r : Record} (h : r.Legible) (found : List Record) (s : List Char) :
    scan found (Appliance.recordListing r ++ s) = scan (r :: found) s := by
  have hb := entryBody_bare [' '] (indent 12) [' '] (indent 8) (by decide) (all_isBlank_indent _)
    (by decide) (by simp) (all_isBlank_indent _) h.isDataChar_of_mem ('\n' :: s)
  have hline : scan (r :: found) ('\n' :: s) = scan (r :: found) s :=
    scan_skip (b := ['\n']) (by decide) (r :: found) s
  rw [recordListing_append, scan_skip (by decide),
    scan_name h.name_ne_nil h.all_isNameChar (by rintro c ⟨rfl⟩; decide)]
  simp only [hb, String.ofList_toList]
  exact hline

theorem scan_entryText {r : Record} (h : r.Legible) (found : List Record) (s : List Char) :
    scan found (r.entryText ++ s) = scan (r :: found) s := by
  have hb := entryBody_quoted [' '] [' '] [' '] [' '] (by decide) (by decide) (by decide) (by simp)
    (by decide) h.isDataChar_of_mem s
  rw [entryText_append, scan_name h.name_ne_nil h.all_isNameChar (by rintro c ⟨rfl⟩; decide)]
  simp only [hb, String.ofList_toList]

theorem scan_recordListings {rs : List Record} (h : ∀ r ∈ rs, r.Legible) (found : List Record)
    (s : List Char) :
    scan found (rs.flatMap Appliance.recordListing ++ s) = scan (rs.reverse ++ found) s := by
  induction rs generalizing found with
  | nil => rfl
  | cons r rs ih =>
    rw [List.flatMap_cons, List.append_assoc, scan_recordListing (h r List.mem_cons_self),
      ih fun q hq => h q (List.mem_cons_of_mem _ hq), List.reverse_cons, List.append_assoc,
      List.singleton_append]

theorem scan_entryTexts {rs : List Record} (h : ∀ r ∈ rs, r.Legible) (found : List Record)
    (s : List Char) :
    scan found (rs.flatMap (fun r => ' ' :: r.entryText) ++ s) = scan (rs.reverse ++ found) s := by
  induction rs generalizing found with
  | nil => rfl
  | cons r rs ih =>
    have hskip := scan_skip (b := [' ']) (by decide) found
      (r.entryText ++ (rs.flatMap (fun r => ' ' :: r.entryText) ++ s))
    rw [List.singleton_append] at hskip
    rw [List.flatMap_cons, List.append_assoc, List.cons_append, hskip,
      scan_entryText (h r List.mem_cons_self), ih fun q hq => h q (List.mem_cons_of_mem _ hq),
      List.reverse_cons, List.append_assoc, List.singleton_append]

/-! ### The listing of a collection -/

/-- What stands behind the records of a listing. -/
def listingEnd : List Char := "    type string\n\x7d\n".toList

theorem listingEnd_eq : listingEnd = List.replicate 4 ' ' ++ (['t', 'y', 'p', 'e'] ++ ([' '] ++
    (['s', 't', 'r', 'i', 'n', 'g'] ++ (['\n'] ++ (['}', '\n'] ++ []))))) := by
  unfold listingEnd
  simp [List.replicate]

theorem recordsListing_append (r : Record) (rs : List Record) (s : List Char) :
    Appliance.recordsListing (r :: rs) ++ s = List.replicate 4 ' ' ++
      (['r', 'e', 'c', 'o', 'r', 'd', 's'] ++ ([' ', '{', '\n'] ++
        ((r :: rs).flatMap Appliance.recordListing ++ ([' ', ' ', ' ', ' ', '}', '\n'] ++ s)))) := by
  unfold Appliance.recordsListing
  simp [List.replicate]

theorem scan_listingEnd (found : List Record) : scan found listingEnd = found.reverse := by
  rw [listingEnd_eq, scan_skip (by decide), scan_plain (by decide) (by rintro c ⟨rfl⟩; decide),
    scan_plain (by decide) (by rintro c ⟨rfl⟩; decide), scan_skip (by decide), scan_nil]

/-- The records of a listing and all behind them, from the end of the collection's line on. -/
theorem scan_recordsListing {rs : List Record} (h : ∀ r ∈ rs, r.Legible) :
    scan [] ('\n' :: (Appliance.recordsListing rs ++ listingEnd)) = rs := by
  have hline := scan_skip (b := ['\n']) (by decide) [] (Appliance.recordsListing rs ++ listingEnd)
  rw [List.singleton_append] at hline
  rw [hline]
  cases rs with
  | nil => exact scan_listingEnd []
  | cons r rs =>
    have hbody : entryBody ([' ', '{', '\n'] ++ ((r :: rs).flatMap Appliance.recordListing ++
        ([' ', ' ', ' ', ' ', '}', '\n'] ++ listingEnd))) = none := by
      rw [List.flatMap_cons, List.append_assoc, recordListing_append]
      exact entryBody_word [' '] (indent 8) (by decide) (all_isBlank_indent 8)
        (h r List.mem_cons_self).unbroken
    rw [recordsListing_append, scan_skip (by decide),
      scan_word (by simp) (by decide) (by rintro c ⟨rfl⟩; decide) hbody, scan_skip (by decide),
      scan_recordListings h, scan_skip (by decide), scan_listingEnd, List.append_nil,
      List.reverse_reverse]

/-- No data stands behind the line that names the collection. -/
theorem after?_data_recordsListing (rs : List Record) : after? ['d', 'a', 't', 'a']
    (trimStart ('\n' :: (Appliance.recordsListing rs ++ listingEnd))) = none := by
  have hfour : (List.replicate 4 ' ').all isBlank := by decide
  rw [trimStart_blank (by decide)]
  cases rs with
  | nil =>
    have hnil : Appliance.recordsListing [] ++ listingEnd = listingEnd := rfl
    rw [hnil, listingEnd_eq, trimStart_append hfour, List.cons_append, trimStart_cons (by decide)]
    exact after?_cons_ne (by decide) _ _
  | cons r rs =>
    rw [recordsListing_append, trimStart_append hfour, List.cons_append, trimStart_cons (by decide)]
    exact after?_cons_ne (by decide) _ _

/-- **The listing of a collection gives its records.** -/
theorem ofListing_listing {path : String} (hp : Unbroken path.toList)
    (hslash : path.toList.head? = some '/') {rs : List Record} (h : ∀ r ∈ rs, r.Legible) :
    ofListing (Appliance.listing path rs) = rs := by
  have heq : (Appliance.listing path rs).toList = ['l', 't', 'm'] ++ ([' '] ++
      (['d', 'a', 't', 'a', '-', 'g', 'r', 'o', 'u', 'p'] ++ ([' '] ++
        (['i', 'n', 't', 'e', 'r', 'n', 'a', 'l'] ++ ([' '] ++ (path.toList ++ ' ' :: '{' ::
          '\n' :: (Appliance.recordsListing rs ++ listingEnd))))))) := by
    unfold Appliance.listing listingEnd
    simp
  have hhead : ∀ c ∈ (path.toList ++ ' ' :: '{' :: '\n' ::
      (Appliance.recordsListing rs ++ listingEnd)).head?, isBlank c = false ∧ c ≠ '{' := by
    obtain ⟨rest, hrest⟩ := List.head?_eq_some_iff.1 hslash
    rw [hrest]
    rintro c ⟨rfl⟩
    decide
  rw [ofListing_eq_scan, heq, scan_plain (by decide) (by rintro c ⟨rfl⟩; decide),
    scan_plain (by decide) (by rintro c ⟨rfl⟩; decide), scan_plain (by decide) hhead,
    scan_unbroken hp (after?_data_recordsListing rs), scan_recordsListing h]

/-! ### The command that replaces the records -/

theorem recordsText_cons (r : Record) (rs : List Record) :
    " records ".toList ++ Collection.recordsText (r :: rs) = [' '] ++
      (['r', 'e', 'c', 'o', 'r', 'd', 's'] ++ ([' '] ++
        (['r', 'e', 'p', 'l', 'a', 'c', 'e', '-', 'a', 'l', 'l', '-', 'w', 'i', 't', 'h'] ++
          ([' ', '{', ' '] ++ (r.entryText ++
            (rs.flatMap (fun r => ' ' :: r.entryText) ++ ([' ', '}'] ++ []))))))) := by
  unfold Collection.recordsText
  simp

/-- **The command that replaces the records of a collection gives the new ones.** -/
theorem recordsGiven_recordsText {rs : List Record} (h : ∀ r ∈ rs, r.Legible) :
    Appliance.recordsGiven (" records ".toList ++ Collection.recordsText rs) = rs := by
  cases rs with
  | nil =>
    have hnone : " records ".toList ++ Collection.recordsText [] = " records none".toList := by
      unfold Collection.recordsText
      simp
    have htrim : trim " records none".toList = "records none".toList := by decide +kernel
    rw [hnone, Appliance.recordsGiven, if_pos htrim]
  | cons r rs =>
    have hr := h r List.mem_cons_self
    have hbody : entryBody ([' ', '{', ' '] ++ (r.entryText ++
        (rs.flatMap (fun r => ' ' :: r.entryText) ++ ([' ', '}'] ++ [])))) = none := by
      rw [entryText_append]
      exact entryBody_word [' '] [' '] (by decide) (by decide) hr.unbroken
    have htrim : trim (" records ".toList ++ Collection.recordsText (r :: rs)) ≠
        "records none".toList := by
      intro ht
      have hmem : '{' ∈ trim (" records ".toList ++ Collection.recordsText (r :: rs)) :=
        mem_trim (by decide) (by rw [recordsText_cons]; simp)
      rw [ht] at hmem
      exact absurd hmem (by decide +kernel)
    rw [Appliance.recordsGiven, if_neg htrim, ofListing_eq_scan, String.toList_ofList,
      recordsText_cons, scan_skip (by decide), scan_plain (by decide) (by rintro c ⟨rfl⟩; decide),
      scan_word (by simp) (by decide) (by rintro c ⟨rfl⟩; decide) hbody, scan_skip (by decide),
      scan_entryText hr, scan_entryTexts fun q hq => h q (List.mem_cons_of_mem _ hq),
      scan_skip (by decide), scan_nil]
    simp

end Record

end Stencil
