import Stencil.Json.Reader
import Stencil.Proofs.Text.Words

/-!
# Numbers in JSON text

The reader of numbers takes characters of numbers only, and where no further one follows, what it
gives depends on those that it took and on nothing behind them (`Munches`).
-/

namespace Stencil

namespace Read

/-- The characters of numbers. -/
def isNumeral (c : Char) : Bool :=
  c.isDigit || c == '-' || c == '+' || c == '.' || c == 'e' || c == 'E'

/-- No number goes on here. -/
def Stops (s : List Char) : Prop := ∀ c ∈ s.head?, isNumeral c = false

/-- The reader takes characters of numbers, and the same number whatever stands behind it. -/
def Munches (read : Reader Number) : Prop :=
  ∀ s n r, read s = .ok (n, r) → ∃ u, s = u ++ r ∧ (∀ c ∈ u, isNumeral c = true) ∧
    (Stops r → ∀ t, Stops t → read (u ++ t) = .ok (n, t))

theorem isNumeral_of_isDigit {c : Char} (h : c.isDigit = true) : isNumeral c = true := by
  simp [isNumeral, h]

theorem numerals_cons {c : Char} {u : List Char} (hc : isNumeral c = true)
    (hn : ∀ d ∈ u, isNumeral d = true) : ∀ d ∈ c :: u, isNumeral d = true :=
  List.forall_mem_cons.2 ⟨hc, hn⟩

theorem Stops.isDigit {t : List Char} (h : Stops t) : ∀ c ∈ t.head?, c.isDigit = false := by
  intro c hc
  have hn := h c hc
  rw [isNumeral] at hn
  simp only [Bool.or_eq_false_iff] at hn
  exact hn.1.1.1.1.1

/-- Where a number stops, no digits are dropped. -/
theorem Stops.dropWhile {t : List Char} (h : Stops t) {ds : List Char}
    (hd : ∀ c ∈ ds, c.isDigit = true) :
    (ds ++ t).takeWhile Char.isDigit = ds ∧ (ds ++ t).dropWhile Char.isDigit = t :=
  Text.takeWhile_append_stop hd h.isDigit

/-! ### The parts of a number -/

variable (negative : Bool) (significand : Nat)

variable {negative significand} in
/-- No character is taken to make a number from its parts. -/
theorem float_eq_ok {e : Int} {s r : List Char} {n : Number}
    (h : float negative significand e s = .ok (n, r)) :
    s = r ∧ ∀ t, float negative significand e t = .ok (n, t) := by
  unfold float at h ⊢
  split at h
  · obtain ⟨rfl, rfl⟩ := Prod.mk.inj (Except.ok.inj h)
    exact ⟨rfl, fun t => rfl⟩
  · cases h

theorem exponentDigits_of_stops (start : Int) (down : Bool) (e : Nat) {t : List Char} (h : Stops t) :
    exponentDigits negative significand start down e t =
      float negative significand (if down then start - e else start + e) t := by
  cases t with
  | nil => rfl
  | cons c t =>
    have hc := h.isDigit c rfl
    rw [exponentDigits, if_neg (by simp [hc])]

theorem munches_exponentDigits (start : Int) (down : Bool) (e : Nat) :
    Munches (exponentDigits negative significand start down e) := by
  intro s
  induction s generalizing e with
  | nil =>
    intro n r h
    obtain ⟨rfl, ht⟩ := float_eq_ok h
    refine ⟨[], rfl, by simp, fun _ t hs => ?_⟩
    rw [List.nil_append, exponentDigits_of_stops negative significand start down e hs, ht]
  | cons c s ih =>
    intro n r h
    rw [exponentDigits] at h
    split at h
    · rename_i hc
      simp only at h
      split at h
      · rename_i hbig
        split at h
        · cases h
        · rename_i hdown
          obtain ⟨rfl, rfl⟩ := Prod.mk.inj (Except.ok.inj h)
          have hd : ∀ d ∈ s.takeWhile Char.isDigit, d.isDigit = true :=
            fun d hd => List.mem_takeWhile_imp hd
          refine ⟨c :: s.takeWhile Char.isDigit, by simp, ?_, fun _ t ht => ?_⟩
          · exact numerals_cons (isNumeral_of_isDigit hc) fun d h => isNumeral_of_isDigit (hd d h)
          · rw [List.cons_append, exponentDigits, if_pos hc]
            simp only [if_pos hbig, if_neg hdown, (ht.dropWhile hd).2]
      · rename_i hbig
        obtain ⟨u, rfl, hn, ht⟩ := ih _ n r h
        refine ⟨c :: u, rfl, numerals_cons (isNumeral_of_isDigit hc) hn, fun hr t hs => ?_⟩
        rw [List.cons_append, exponentDigits, if_pos hc]
        simp only [if_neg hbig]
        exact ht hr t hs
    · obtain ⟨rfl, ht⟩ := float_eq_ok h
      refine ⟨[], rfl, by simp, fun _ t hs => ?_⟩
      rw [List.nil_append, exponentDigits_of_stops negative significand start down e hs, ht]

/-- Behind the sign of an exponent a digit has to follow. -/
def unsigned (start : Int) (down : Bool) : Reader Number
  | [] => failAt .eofValue []
  | c :: s =>
    if c.isDigit then exponentDigits negative significand start down (digitValue c) s
    else failAt .invalidNumber s

theorem unsigned_eq_ok {start : Int} {down : Bool} {s r : List Char} {n : Number}
    (h : unsigned negative significand start down s = .ok (n, r)) :
    ∃ c u, s = c :: u ++ r ∧ (∀ d ∈ c :: u, isNumeral d = true) ∧
      (Stops r → ∀ t, Stops t →
        unsigned negative significand start down (c :: u ++ t) = .ok (n, t)) := by
  cases s with
  | nil => cases h
  | cons c s =>
    rw [unsigned] at h
    split at h
    · rename_i hc
      obtain ⟨u, rfl, hn, ht⟩ := munches_exponentDigits negative significand start down _ _ n r h
      refine ⟨c, u, rfl, numerals_cons (isNumeral_of_isDigit hc) hn, fun hr t hs => ?_⟩
      rw [List.cons_append, unsigned, if_pos hc, ht hr t hs]
    · cases h

theorem exponent_plus (start : Int) (s : List Char) :
    exponent negative significand start ('+' :: s) = unsigned negative significand start false s := by
  cases s <;> rfl

theorem exponent_minus (start : Int) (s : List Char) :
    exponent negative significand start ('-' :: s) = unsigned negative significand start true s := by
  cases s <;> rfl

theorem exponent_of_ne (start : Int) {c : Char} (hp : c ≠ '+') (hm : c ≠ '-') (s : List Char) :
    exponent negative significand start (c :: s) =
      unsigned negative significand start false (c :: s) := by
  unfold exponent
  split
  rename_i heq
  split at heq
  · simp_all
  · simp_all
  · obtain ⟨rfl, rfl⟩ := Prod.mk.inj heq
    rfl

theorem munches_exponent (start : Int) : Munches (exponent negative significand start) := by
  intro s n r h
  cases s with
  | nil => cases h
  | cons d s =>
    by_cases hplus : d = '+'
    · subst hplus
      rw [exponent_plus] at h
      obtain ⟨c, u, rfl, hn, ht⟩ := unsigned_eq_ok negative significand h
      refine ⟨'+' :: c :: u, rfl, numerals_cons (by decide) hn, fun hr t hs => ?_⟩
      rw [List.cons_append, exponent_plus, ht hr t hs]
    by_cases hminus : d = '-'
    · subst hminus
      rw [exponent_minus] at h
      obtain ⟨c, u, rfl, hn, ht⟩ := unsigned_eq_ok negative significand h
      refine ⟨'-' :: c :: u, rfl, numerals_cons (by decide) hn, fun hr t hs => ?_⟩
      rw [List.cons_append, exponent_minus, ht hr t hs]
    · rw [exponent_of_ne negative significand start hplus hminus] at h
      obtain ⟨c, u, hu, hn, ht⟩ := unsigned_eq_ok negative significand h
      obtain ⟨rfl, rfl⟩ := List.cons.inj hu
      refine ⟨d :: u, rfl, hn, fun hr t hs => ?_⟩
      have hread := ht hr t hs
      rw [List.cons_append] at hread ⊢
      rw [exponent_of_ne negative significand start hplus hminus, hread]

theorem numberEnd_eq_float {e : Int} {s : List Char} (h : ∀ c ∈ s.head?, c ≠ 'e' ∧ c ≠ 'E') :
    numberEnd negative significand e s = float negative significand e s := by
  unfold numberEnd
  split
  · exact absurd rfl (h 'e' rfl).1
  · exact absurd rfl (h 'E' rfl).2
  · rfl

theorem Stops.ne {t : List Char} (h : Stops t) : ∀ c ∈ t.head?, c ≠ 'e' ∧ c ≠ 'E' ∧ c ≠ '.' := by
  intro c hc
  have hn := h c hc
  refine ⟨?_, ?_, ?_⟩ <;> rintro rfl <;> exact absurd hn (by decide)

theorem munches_numberEnd (e : Int) : Munches (numberEnd negative significand e) := by
  intro s n r h
  by_cases he : ∀ c ∈ s.head?, c ≠ 'e' ∧ c ≠ 'E'
  · rw [numberEnd_eq_float negative significand he] at h
    obtain ⟨rfl, ht⟩ := float_eq_ok h
    refine ⟨[], rfl, by simp, fun _ t hs => ?_⟩
    rw [List.nil_append, numberEnd_eq_float negative significand fun c hc =>
      ⟨(hs.ne c hc).1, (hs.ne c hc).2.1⟩, ht]
  · cases s with
    | nil => simp at he
    | cons c s =>
      obtain rfl | rfl : c = 'e' ∨ c = 'E' := by
        simp only [List.head?_cons, Option.mem_def, Option.some.injEq, forall_eq', not_and_or,
          ne_eq, not_not] at he
        exact he
      all_goals
        obtain ⟨u, rfl, hn, ht⟩ := munches_exponent negative significand e s n r h
        exact ⟨_ :: u, rfl, numerals_cons (by decide) hn, ht⟩

/-! ### Behind the integer part -/

theorem numberTail_eq_end {dropped : Nat} {s : List Char}
    (h : ∀ c ∈ s.head?, c ≠ 'e' ∧ c ≠ 'E' ∧ c ≠ '.') :
    numberTail negative significand dropped s =
      if dropped = 0 then .ok (integer negative significand, s)
      else float negative significand dropped s := by
  unfold numberTail
  split
  · exact absurd rfl (h '.' rfl).2.2
  · exact absurd rfl (h 'e' rfl).1
  · exact absurd rfl (h 'E' rfl).2.1
  · rfl

theorem numberTail_point (dropped : Nat) {ds t : List Char} (h0 : ds ≠ [])
    (hd : ∀ d ∈ ds, d.isDigit = true) (ht : ∀ d ∈ t.head?, d.isDigit = false) :
    numberTail negative significand dropped ('.' :: (ds ++ t)) =
      numberEnd negative (absorb significand 0 ds).1
        ((dropped : Int) - (absorb significand 0 ds).2) t := by
  obtain ⟨htake, hdrop⟩ := Text.takeWhile_append_stop hd ht
  simp only [numberTail, htake, hdrop]

/-- A stretch of digits in front of what a reader takes. -/
theorem Munches.digits {read : Reader Number} (hread : Munches read) {s r : List Char} {n : Number}
    (h : read (s.dropWhile Char.isDigit) = .ok (n, r)) :
    ∃ u, s = s.takeWhile Char.isDigit ++ (u ++ r) ∧
      (∀ d ∈ s.takeWhile Char.isDigit ++ u, isNumeral d = true) ∧
      (Stops r → ∀ t, Stops t →
        (∀ d ∈ (u ++ t).head?, d.isDigit = false) ∧ read (u ++ t) = .ok (n, t)) := by
  obtain ⟨u, hu, hn, ht⟩ := hread _ n r h
  have hstop := Text.head?_dropWhile_stop Char.isDigit s
  rw [hu] at hstop
  refine ⟨u, ?_, fun d hd => ?_, fun hr t hs =>
    ⟨Text.head?_append_stop hstop hs.isDigit, ht hr t hs⟩⟩
  · rw [← hu]
    exact List.takeWhile_append_dropWhile.symm
  · rcases List.mem_append.1 hd with hd | hd
    · exact isNumeral_of_isDigit (List.mem_takeWhile_imp hd)
    · exact hn d hd

theorem munches_numberTail (dropped : Nat) : Munches (numberTail negative significand dropped) := by
  intro s n r h
  by_cases hplain : ∀ c ∈ s.head?, c ≠ 'e' ∧ c ≠ 'E' ∧ c ≠ '.'
  · rw [numberTail_eq_end negative significand hplain] at h
    split at h
    · rename_i h0
      obtain ⟨rfl, rfl⟩ := Prod.mk.inj (Except.ok.inj h)
      refine ⟨[], rfl, by simp, fun _ t hs => ?_⟩
      rw [List.nil_append, numberTail_eq_end negative significand hs.ne, if_pos h0]
    · rename_i h0
      obtain ⟨rfl, ht⟩ := float_eq_ok h
      refine ⟨[], rfl, by simp, fun _ t hs => ?_⟩
      rw [List.nil_append, numberTail_eq_end negative significand hs.ne, if_neg h0, ht]
  · cases s with
    | nil => simp at hplain
    | cons c s =>
      obtain rfl | rfl | rfl : c = 'e' ∨ c = 'E' ∨ c = '.' := by
        simp only [List.head?_cons, Option.mem_def, Option.some.injEq, forall_eq', not_and_or,
          ne_eq, not_not] at hplain
        exact hplain
      · obtain ⟨u, rfl, hn, ht⟩ := munches_exponent negative significand dropped s n r h
        exact ⟨'e' :: u, rfl, numerals_cons (by decide) hn, ht⟩
      · obtain ⟨u, rfl, hn, ht⟩ := munches_exponent negative significand dropped s n r h
        exact ⟨'E' :: u, rfl, numerals_cons (by decide) hn, ht⟩
      · -- the digits behind the point, and an exponent
        have hds : ∀ d ∈ s.takeWhile Char.isDigit, d.isDigit = true :=
          fun d hd => List.mem_takeWhile_imp hd
        have hsplit : s.takeWhile Char.isDigit ++ s.dropWhile Char.isDigit = s :=
          List.takeWhile_append_dropWhile
        by_cases h0 : s.takeWhile Char.isDigit = []
        · simp [numberTail, h0, failNext] at h
        rw [← hsplit,
          numberTail_point negative significand dropped h0 hds (Text.head?_dropWhile_stop _ s)] at h
        obtain ⟨u, hu, hn, ht⟩ := (munches_numberEnd _ _ _).digits h
        refine ⟨'.' :: (s.takeWhile Char.isDigit ++ u), ?_, numerals_cons (by decide) hn,
          fun hr t hs => ?_⟩
        · rw [List.cons_append, List.append_assoc, ← hu]
        · obtain ⟨hstop, hread⟩ := ht hr t hs
          rw [List.cons_append, List.append_assoc,
            numberTail_point negative significand dropped h0 hds hstop, hread]

/-! ### Whole numbers -/

theorem number_digits (negative : Bool) {c : Char} {ds t : List Char} (hzero : c ≠ '0')
    (hc : c.isDigit = true) (hd : ∀ d ∈ ds, d.isDigit = true)
    (ht : ∀ d ∈ t.head?, d.isDigit = false) :
    number negative (c :: (ds ++ t)) = numberTail negative (absorb 0 0 (c :: ds)).1
      ((c :: ds).length - (absorb 0 0 (c :: ds)).2) t := by
  obtain ⟨htake, hdrop⟩ := Text.takeWhile_append_stop hd ht
  unfold number
  split
  · simp_all
  · simp_all
  · rename_i heq
    obtain ⟨rfl, rfl⟩ := List.cons.inj heq
    rw [if_pos hc]
    simp only [htake, hdrop]

theorem isDigit_of_number {negative : Bool} {c : Char} {s r : List Char} {n : Number}
    (h : number negative (c :: s) = .ok (n, r)) : c.isDigit = true := by
  by_contra hc
  unfold number at h
  split at h
  · simp_all
  · rename_i heq
    obtain ⟨rfl, -⟩ := List.cons.inj heq
    exact hc (by decide)
  · rename_i heq
    obtain ⟨rfl, rfl⟩ := List.cons.inj heq
    rw [if_neg hc] at h
    cases h

theorem number_zero (negative : Bool) {t : List Char} (ht : ∀ d ∈ t.head?, d.isDigit = false) :
    number negative ('0' :: t) = numberTail negative 0 0 t := by
  rw [number]
  refine if_neg ?_
  cases h : t.head? with
  | none => simp
  | some d => simp [ht d h]

/-- A number begins with a digit. -/
theorem number_eq_ok {negative : Bool} {s r : List Char} {n : Number}
    (h : number negative s = .ok (n, r)) :
    ∃ c u, s = c :: (u ++ r) ∧ c.isDigit = true ∧ (∀ d ∈ u, isNumeral d = true) ∧
      (Stops r → ∀ t, Stops t → number negative (c :: (u ++ t)) = .ok (n, t)) := by
  cases s with
  | nil => cases h
  | cons c s =>
    have hc := isDigit_of_number h
    by_cases hzero : c = '0'
    · subst hzero
      have hstop : ∀ d ∈ s.head?, d.isDigit = false := by
        rw [number] at h
        split at h
        · cases h
        · rename_i hd
          intro d hd'
          simpa [Option.mem_def.1 hd'] using hd
      rw [number_zero negative hstop] at h
      obtain ⟨u, rfl, hn, ht⟩ := munches_numberTail negative 0 0 s n r h
      refine ⟨'0', u, rfl, hc, hn, fun hr t hs => ?_⟩
      rw [number_zero negative (Text.head?_append_stop hstop hs.isDigit), ht hr t hs]
    · have hds : ∀ d ∈ s.takeWhile Char.isDigit, d.isDigit = true :=
        fun d hd => List.mem_takeWhile_imp hd
      have hsplit : s.takeWhile Char.isDigit ++ s.dropWhile Char.isDigit = s :=
        List.takeWhile_append_dropWhile
      rw [← hsplit, number_digits negative hzero hc hds (Text.head?_dropWhile_stop _ s)] at h
      obtain ⟨u, hu, hn, ht⟩ := (munches_numberTail _ _ _).digits h
      refine ⟨c, s.takeWhile Char.isDigit ++ u, ?_, hc, hn, fun hr t hs => ?_⟩
      · rw [List.append_assoc, ← hu]
      · obtain ⟨hstop, hread⟩ := ht hr t hs
        rw [List.append_assoc, number_digits negative hzero hc hds hstop, hread]

/-- Reads a number from its first character on. -/
def numberAt : Reader Number
  | '-' :: s => number true s
  | s => number false s

theorem numberAt_of_ne {c : Char} (h : c ≠ '-') (s : List Char) :
    numberAt (c :: s) = number false (c :: s) := by
  unfold numberAt
  split
  · exact absurd (List.cons.inj ‹_›).1 h
  · rfl

/-- A number begins with its sign or a digit, and is the same whatever stands behind it. -/
theorem numberAt_eq_ok {s r : List Char} {n : Number} (h : numberAt s = .ok (n, r)) :
    ∃ c u, s = c :: (u ++ r) ∧ (c = '-' ∨ c.isDigit = true) ∧ (∀ d ∈ u, isNumeral d = true) ∧
      (Stops r → ∀ t, Stops t → numberAt (c :: (u ++ t)) = .ok (n, t)) := by
  cases s with
  | nil => cases h
  | cons c s =>
    by_cases hc : c = '-'
    · subst hc
      obtain ⟨d, u, rfl, hd, hn, ht⟩ := number_eq_ok (s := s) h
      exact ⟨'-', d :: u, rfl, .inl rfl, numerals_cons (isNumeral_of_isDigit hd) hn, ht⟩
    · rw [numberAt_of_ne hc] at h
      obtain ⟨d, u, hs, hd, hn, ht⟩ := number_eq_ok h
      obtain ⟨rfl, -⟩ := List.cons.inj hs
      refine ⟨c, u, hs, .inr hd, hn, fun hr t hst => ?_⟩
      rw [numberAt_of_ne hc, ht hr t hst]

end Read

end Stencil
