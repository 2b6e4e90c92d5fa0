import Mathlib.Data.List.Basic
import Mathlib.Data.List.TakeWhile
import Stencil.Text.Blank
import Stencil.Text.Pieces

/-!
# Beginnings, words, trimmed ends and numerals
-/

namespace Stencil.Text

/-- The text holds no blank. -/
def Unbroken (s : List Char) : Prop := ∀ c ∈ s, isBlank c = false

instance (s : List Char) : Decidable (Unbroken s) :=
  decidable_of_iff (s.all fun c => !isBlank c) (by simp [Unbroken])

/-! ### Beginnings -/

@[simp] theorem after?_append (s t : List Char) : after? s (s ++ t) = some t := by
  induction s with
  | nil => rfl
  | cons c s ih => simp [after?, ih]

theorem after?_eq_some_iff {s t u : List Char} : after? s t = some u ↔ t = s ++ u := by
  induction s generalizing t with
  | nil => simp [after?]
  | cons c s ih =>
    cases t with
    | nil => simp [after?]
    | cons d t =>
      rw [after?]
      by_cases h : c = d
      · subst h
        simp [ih]
      · simp [h, Ne.symm h]

theorem occursIn_append (part s t : List Char) : occursIn part (s ++ (part ++ t)) = true := by
  induction s with
  | nil =>
    cases part with
    | nil => cases t <;> simp [occursIn]
    | cons c part => simp [occursIn]
  | cons c s ih => rw [List.cons_append, occursIn, ih, Bool.or_true]

/-! ### Words -/

/-- A stretch of characters of a kind ends where another character stands. -/
theorem takeWhile_append_stop {p : Char → Bool} {s t : List Char} (hs : ∀ c ∈ s, p c = true)
    (ht : ∀ c ∈ t.head?, p c = false) : (s ++ t).takeWhile p = s ∧ (s ++ t).dropWhile p = t := by
  have hstop : t.takeWhile p = [] ∧ t.dropWhile p = t := by
    cases t with
    | nil => simp
    | cons c t => simp [ht c rfl]
  constructor
  · rw [List.takeWhile_append_of_pos hs, hstop.1, List.append_nil]
  · rw [List.dropWhile_append_of_pos hs, hstop.2]

theorem head?_dropWhile_stop (p : Char → Bool) (s : List Char) :
    ∀ c ∈ (s.dropWhile p).head?, p c = false := by
  intro c hc
  have h := List.head?_dropWhile_not p s
  rw [Option.mem_def.1 hc] at h
  exact h

/-- A stop stays one when what stands behind its beginning is replaced by another stop. -/
theorem head?_append_stop {p : Char → Bool} {u s t : List Char}
    (hs : ∀ c ∈ (u ++ s).head?, p c = false) (ht : ∀ c ∈ t.head?, p c = false) :
    ∀ c ∈ (u ++ t).head?, p c = false := by
  cases u with
  | nil => exact ht
  | cons d u => exact hs

theorem trimStart_cons {c : Char} (h : isBlank c = false) (s : List Char) :
    trimStart (c :: s) = c :: s := by
  rw [trimStart, List.dropWhile_cons_of_neg]
  simp [h]

theorem trimStart_blank {c : Char} (h : isBlank c = true) (s : List Char) :
    trimStart (c :: s) = trimStart s := by
  rw [trimStart, List.dropWhile_cons_of_pos h, trimStart]

theorem trimStart_append {b : List Char} (h : b.all isBlank) (s : List Char) :
    trimStart (b ++ s) = trimStart s :=
  List.dropWhile_append_of_pos (List.all_eq_true.1 h)

theorem trimStart_unbroken {s : List Char} (h : Unbroken s) : trimStart s = s := by
  cases s with
  | nil => rfl
  | cons c s => exact trimStart_cons (h c List.mem_cons_self) s

theorem trim_unbroken {s : List Char} (h : Unbroken s) : trim s = s := by
  have hr : Unbroken s.reverse := fun c hc => h c (List.mem_reverse.1 hc)
  have ht := trimStart_unbroken hr
  rw [trimStart] at ht
  rw [trim, trimStart_unbroken h, trimEnd, ht, List.reverse_reverse]

/-- Trimming takes away nothing but blanks. -/
theorem mem_trim {c : Char} {s : List Char} (hc : isBlank c = false) (h : c ∈ s) : c ∈ trim s := by
  have hd (t : List Char) (ht : c ∈ t) : c ∈ t.dropWhile isBlank := by
    rw [← List.takeWhile_append_dropWhile (p := isBlank) (l := t), List.mem_append] at ht
    rcases ht with ht | ht
    · rw [List.mem_takeWhile_imp ht] at hc
      cases hc
    · exact ht
  rw [trim, trimEnd, List.mem_reverse]
  exact hd _ (List.mem_reverse.2 (hd _ h))

/-! ### Trimmed ends -/

/-- A text is another one with nothing but blanks around it, and that one neither begins nor ends
with a blank. -/
structure Trims (s core : List Char) : Prop where
  around : ∃ front back, s = front ++ (core ++ back) ∧ (∀ c ∈ front, isBlank c = true) ∧
    ∀ c ∈ back, isBlank c = true
  head : ∀ c ∈ core.head?, isBlank c = false
  last : ∀ c ∈ core.getLast?, isBlank c = false

theorem trimStart_stop {s : List Char} (h : ∀ c ∈ s.head?, isBlank c = false) :
    trimStart s = s := by
  cases s with
  | nil => rfl
  | cons c s => exact trimStart_cons (h c rfl) s

theorem trims_trim (s : List Char) : Trims s (trim s) := by
  have hback := List.takeWhile_append_dropWhile (p := isBlank) (l := (trimStart s).reverse)
  have hsplit : trim s ++ ((trimStart s).reverse.takeWhile isBlank).reverse = trimStart s := by
    rw [trim, trimEnd, ← List.reverse_append, hback, List.reverse_reverse]
  refine ⟨⟨s.takeWhile isBlank, ((trimStart s).reverse.takeWhile isBlank).reverse, ?_,
    fun c hc => List.mem_takeWhile_imp hc,
    fun c hc => List.mem_takeWhile_imp (List.mem_reverse.1 hc)⟩, fun c hc => ?_, fun c hc => ?_⟩
  · rw [hsplit, trimStart, List.takeWhile_append_dropWhile]
  · refine head?_dropWhile_stop isBlank s c ?_
    show c ∈ (trimStart s).head?
    rw [← hsplit, List.head?_append, Option.mem_def.1 hc]
    rfl
  · refine head?_dropWhile_stop isBlank (trimStart s).reverse c ?_
    rwa [trim, trimEnd, List.getLast?_reverse] at hc

/-- There is one way to take away the blanks at both ends. -/
theorem trims_iff {s core : List Char} : Trims s core ↔ trim s = core := by
  refine ⟨fun h => ?_, fun h => h ▸ trims_trim s⟩
  obtain ⟨front, back, rfl, hfront, hback⟩ := h.around
  have hend : (back.reverse ++ core.reverse).dropWhile isBlank = core.reverse := by
    rw [List.dropWhile_append_of_pos fun c hc => hback c (List.mem_reverse.1 hc)]
    exact trimStart_stop fun c hc => h.last c (by rwa [List.head?_reverse] at hc)
  rw [trim, trimStart_append (List.all_eq_true.2 hfront), trimEnd]
  cases core with
  | nil =>
    have hnil : trimStart back = [] := List.dropWhile_eq_nil_iff.2 hback
    rw [List.nil_append, hnil]
    rfl
  | cons c core =>
    rw [List.cons_append, trimStart_cons (h.head c rfl), ← List.cons_append, List.reverse_append,
      hend, List.reverse_reverse]

/-- A character that is no blank stays in front. -/
theorem Trims.eq_cons {c : Char} {s core : List Char} (h : Trims (c :: s) core)
    (hc : isBlank c = false) : ∃ rest, core = c :: rest := by
  obtain ⟨front, back, hs, hfront, hback⟩ := h.around
  cases front with
  | cons d front =>
    rw [List.cons_append, List.cons.injEq] at hs
    rw [hs.1, hfront d List.mem_cons_self] at hc
    cases hc
  | nil =>
    cases core with
    | nil =>
      rw [List.nil_append, List.nil_append] at hs
      rw [hback c (hs ▸ List.mem_cons_self)] at hc
      cases hc
    | cons d core =>
      rw [List.nil_append, List.cons_append, List.cons.injEq] at hs
      exact ⟨core, by rw [hs.1]⟩

/-! ### First words -/

theorem firstWord_append {s : List Char} (h : Unbroken s) (h0 : s ≠ []) {t : List Char}
    (ht : ∀ c ∈ t.head?, isBlank c = true) : firstWord (s ++ t) = s := by
  obtain ⟨c, s, rfl⟩ := List.exists_cons_of_ne_nil h0
  rw [firstWord, List.cons_append, trimStart_cons (h c List.mem_cons_self), ← List.cons_append,
    List.takeWhile_append_of_pos (by intro d hd; simp [h d hd])]
  cases t with
  | nil => simp
  | cons d t => simp [ht d rfl]

/-! ### Numerals -/

/-- The numeral of a number does not begin with a zero. -/
theorem head?_toDigits {n : Nat} (h : n ≠ 0) : (Nat.toDigits 10 n).head? ≠ some '0' := by
  induction n using Nat.strongRecOn with
  | ind n ih =>
    by_cases h10 : 10 ≤ n
    · have hne : Nat.toDigits 10 (n / 10) ≠ [] := Nat.toDigits_ne_nil
      rw [Nat.toDigits_of_base_le (by omega) h10, List.head?_append_of_ne_nil _ hne]
      exact ih (n / 10) (by omega) (by omega)
    · have hall : ∀ n < 10, n ≠ 0 → Nat.digitChar n ≠ '0' := by decide
      rw [Nat.toDigits_of_lt_base (by omega)]
      intro heq
      exact hall n (by omega) h (Option.some.inj heq)

end Stencil.Text
