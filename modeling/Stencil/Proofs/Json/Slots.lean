import Stencil.Proofs.Json.Fill
import Stencil.Proofs.Json.Merged
import Stencil.Proofs.Json.Printed
import Stencil.Proofs.Text.Ascii

/-!
# Texts with slots

A text with slots is a list of marks: characters, and slots that hold a word in one text, the asked
one, and the text of a value in another, the given one. Where the asked text is derivable, no string
with a quote has a word for a part, and each slot's text spells its value, the given text is derivable
too, and spells the value with the words replaced (`readRaw_given`): the two derivations take the same
steps, apart from the slots.
-/

namespace Stencil

namespace Read

open Json

/-- A character of a text, or a slot. -/
inductive Mark where
  | char (c : Char)
  /-- A word in quotes in one text, the text of a value in the other. -/
  | slot (word : String) (text : List Char) (v : Json)

/-- The text of a mark with the word in the slot. -/
def Mark.asked : Mark → List Char
  | .char c => [c]
  | .slot word _ _ => '"' :: (word.toList ++ ['"'])

/-- The text of a mark with the value in the slot. -/
def Mark.given : Mark → List Char
  | .char c => [c]
  | .slot _ text _ => text

/-- The word of a slot. -/
def Mark.word? : Mark → Option String
  | .char _ => none
  | .slot word _ _ => some word

/-- The text with words. -/
def asked (ms : List Mark) : List Char := ms.flatMap Mark.asked

/-- The text with values. -/
def given (ms : List Mark) : List Char := ms.flatMap Mark.given

/-- The words of a text. -/
def wordsOf (ms : List Mark) : List String := ms.filterMap Mark.word?

/-- Letters of the lower case, at least one. -/
structure IsWord (w : String) : Prop where
  ne_nil : w.toList ≠ []
  all_isLower : w.toList.all Char.isLower

/-- Every slot has a word, and a text that spells its value wherever a value may end. -/
def Fillable (ms : List Mark) : Prop :=
  ∀ w text v, .slot w text v ∈ ms → IsWord w ∧ ∀ t, Ends t → Reads (.value v) (text ++ t) t

/-! ### Phrases -/

namespace Phrase

/-- The phrase with other values in the place of some of its strings. -/
def fill (σ : String → Option Json) : Phrase → Phrase
  | .value j => .value (j.fill σ)
  | .items js => .items (fillItems σ js)
  | .member m => .member (fillName σ m.1, m.2.fill σ)
  | .members ms => .members (fillMembers σ ms)

/-- The strings of a phrase. -/
def strings : Phrase → List String
  | .value j => j.strings
  | .items js => stringsItems js
  | .member m => m.1 :: m.2.strings
  | .members ms => stringsMembers ms

/-- The names of the members of a phrase. -/
def memberNames : Phrase → List String
  | .value j => j.memberNames
  | .items js => memberNamesItems js
  | .member m => m.1 :: m.2.memberNames
  | .members ms => memberNamesMembers ms

end Phrase

/-- No string with a quote has a word for a part, and a word that is a member name stands for a
string. -/
structure Placed (ms : List Mark) (p : Phrase) : Prop where
  not_mem_quote : ∀ w text v, .slot w text v ∈ ms → ∀ s ∈ p.strings, w.toList <:+: s.toList →
    '"' ∉ s.toList
  string_of_name : ∀ w text v, .slot w text v ∈ ms → w ∈ p.memberNames → ∃ s, v = .str s

/-- The words of these slots are replaced by their values, and these strings stay. -/
structure Agrees (σ : String → Option Json) (ms : List Mark) (kept : List String) : Prop where
  slot : ∀ w text v, .slot w text v ∈ ms → σ w = some v
  kept : ∀ s ∈ kept, σ s = none

/-- The marks are divided where the asked text is, the strings of what stands before are the words
there and others that are kept, and with every replacement that agrees the given text goes on where
the asked one does. -/
def Divides (ms : List Mark) (r : List Char) (strs : List String)
    (follows : (String → Option Json) → List Char → List Mark → Prop) : Prop :=
  ∃ used left kept, ms = used ++ left ∧ r = asked left ∧ strs.Perm (kept ++ wordsOf used) ∧
    ∀ σ, Agrees σ used kept → ∀ t, Ends t → follows σ t left

/-! ### Marks -/

@[simp] theorem asked_nil : asked [] = [] := rfl
@[simp] theorem given_nil : given [] = [] := rfl
@[simp] theorem asked_append (ms ns : List Mark) : asked (ms ++ ns) = asked ms ++ asked ns :=
  List.flatMap_append
@[simp] theorem given_append (ms ns : List Mark) : given (ms ++ ns) = given ms ++ given ns :=
  List.flatMap_append
@[simp] theorem wordsOf_append (ms ns : List Mark) :
    wordsOf (ms ++ ns) = wordsOf ms ++ wordsOf ns := List.filterMap_append
@[simp] theorem asked_char (c : Char) (ms : List Mark) : asked (.char c :: ms) = c :: asked ms := rfl
@[simp] theorem given_char (c : Char) (ms : List Mark) : given (.char c :: ms) = c :: given ms := rfl

@[simp] theorem asked_chars (u : List Char) : asked (u.map .char) = u := by
  induction u with
  | nil => rfl
  | cons c u ih => rw [List.map_cons, asked_char, ih]

@[simp] theorem given_chars (u : List Char) : given (u.map .char) = u := by
  induction u with
  | nil => rfl
  | cons c u ih => rw [List.map_cons, given_char, ih]

@[simp] theorem wordsOf_chars (u : List Char) : wordsOf (u.map .char) = [] := by
  induction u with
  | nil => rfl
  | cons c u ih => exact ih

theorem asked_slot (w : String) (text : List Char) (v : Json) (ms : List Mark) :
    asked (.slot w text v :: ms) = '"' :: (w.toList ++ '"' :: asked ms) := by
  simp [asked, Mark.asked]

theorem given_slot (w : String) (text : List Char) (v : Json) (ms : List Mark) :
    given (.slot w text v :: ms) = text ++ given ms := by
  simp [given, Mark.given]

/-- The text of a string begins with a quote. -/
theorem exists_eq_quote {x : String} {s r : List Char} (h : Reads (.value (.str x)) s r) :
    ∃ y, s = '"' :: y ∧ Spells y x.toList r := by
  generalize hj : Json.str x = j at h
  generalize hp : Phrase.value j = p at h
  cases h <;> simp_all

/-- What is no quote is a character. -/
theorem exists_eq_char {ms : List Mark} {c : Char} {s : List Char} (h : asked ms = c :: s)
    (hc : c ≠ '"') : ∃ ns, ms = .char c :: ns ∧ s = asked ns := by
  cases ms with
  | nil => cases h
  | cons m ms =>
    cases m with
    | char d =>
      obtain ⟨rfl, rfl⟩ := List.cons.inj h
      exact ⟨ms, rfl, rfl⟩
    | slot w text v =>
      rw [asked_slot] at h
      exact absurd (List.cons.inj h).1.symm hc

theorem exists_eq_chars {ms : List Mark} {u s : List Char} (h : asked ms = u ++ s)
    (hu : ∀ c ∈ u, c ≠ '"') : ∃ ns, ms = u.map .char ++ ns ∧ s = asked ns := by
  induction u generalizing ms with
  | nil => exact ⟨ms, rfl, h.symm⟩
  | cons c u ih =>
    obtain ⟨ns, rfl, hs⟩ := exists_eq_char h (hu c List.mem_cons_self)
    obtain ⟨ns', rfl, hs'⟩ := ih hs.symm fun d hd => hu d (List.mem_cons_of_mem _ hd)
    exact ⟨ns', rfl, hs'⟩

theorem Fillable.of_suffix {ms ns : List Mark} (h : Fillable ms) (hs : ns <:+ ms) : Fillable ns :=
  fun w text v hm => h w text v (hs.subset hm)

theorem Placed.of_suffix {ms ns : List Mark} {p q : Phrase} (h : Placed ms p) (hs : ns <:+ ms)
    (hstr : q.strings ⊆ p.strings) (hname : q.memberNames ⊆ p.memberNames) : Placed ns q :=
  ⟨fun w text v hm s hq => h.not_mem_quote w text v (hs.subset hm) s (hstr hq),
    fun w text v hm hw => h.string_of_name w text v (hs.subset hm) (hname hw)⟩

theorem Placed.absurd_quote {ms : List Mark} {p : Phrase} (h : Placed ms p) {w : String}
    {text : List Char} {v : Json} (hm : .slot w text v ∈ ms) {cs : List Char}
    (hcs : String.ofList cs ∈ p.strings) (hw : w.toList <:+: cs) (hq : '"' ∈ cs) : False := by
  refine h.not_mem_quote w text v hm _ hcs ?_ ?_ <;> rwa [String.toList_ofList]

theorem IsWord.isLower {w : String} (h : IsWord w) {c : Char} (hc : c ∈ w.toList) :
    c.isLower = true :=
  List.all_eq_true.1 h.all_isLower c hc

theorem endsValue_eq_false_of_isLower {c : Char} (h : c.isLower = true) : endsValue c = false := by
  by_contra he
  simp only [endsValue, isSpace, Bool.not_eq_false, Bool.or_eq_true, beq_iff_eq] at he
  obtain (((((rfl | rfl) | rfl) | rfl) | rfl) | rfl) | rfl := he <;> exact absurd h (by decide)

/-- Where a value ends in the asked text, one may end in the given text. -/
theorem ends_given {ms : List Mark} {t : List Char} (h : Ends (asked ms)) (ht : Ends t) :
    Ends (given ms ++ t) := by
  cases ms with
  | nil => exact ht
  | cons m ms =>
    cases m with
    | char c => exact h
    | slot w text v =>
      rw [asked_slot] at h
      exact absurd (h '"' rfl) (by decide)

/-! ### Blanks -/

theorem ne_quote_of_isSpace {c : Char} (h : isSpace c = true) : c ≠ '"' := by
  rintro rfl
  exact absurd h (by decide)

/-- The blanks of the asked text are those of the given text. -/
theorem exists_skipSpace_asked (ms : List Mark) :
    ∃ (u : List Char) (ns : List Mark), ms = u.map .char ++ ns ∧ skipSpace (asked ms) = asked ns ∧
      ∀ t, (∀ c ∈ (given ns ++ t).head?, isSpace c = false) →
        skipSpace (given ms ++ t) = given ns ++ t := by
  have hu : ∀ c ∈ (asked ms).takeWhile isSpace, isSpace c = true :=
    fun c hc => List.mem_takeWhile_imp hc
  have hsplit : asked ms = (asked ms).takeWhile isSpace ++ skipSpace (asked ms) :=
    List.takeWhile_append_dropWhile.symm
  obtain ⟨ns, hms, hs⟩ := exists_eq_chars hsplit fun c hc => ne_quote_of_isSpace (hu c hc)
  refine ⟨_, ns, hms, hs, fun t ht => ?_⟩
  rw [hms, given_append, given_chars, List.append_assoc]
  exact (Text.takeWhile_append_stop hu ht).2

/-- A character behind blanks in the asked text stands there in the given text. -/
theorem exists_skipSpace_char {ms : List Mark} {c : Char} {s : List Char}
    (h : skipSpace (asked ms) = c :: s) (hq : c ≠ '"') (hc : isSpace c = false) :
    ∃ (u : List Char) (ns : List Mark), ms = u.map .char ++ ns ∧ s = asked ns ∧
      ∀ t, skipSpace (given ms ++ t) = c :: (given ns ++ t) := by
  obtain ⟨u, ns, hms, hs, hskip⟩ := exists_skipSpace_asked ms
  obtain ⟨ns', rfl, hs'⟩ := exists_eq_char (hs.symm.trans h) hq
  exact ⟨u ++ [c], ns', by simpa using hms, hs', fun t => hskip t (by rintro d ⟨rfl⟩; exact hc)⟩

/-! ### Strings -/

theorem spells_append {s cs r : List Char} (h : Spells s cs r) (t : List Char) :
    Spells (s ++ t) cs (r ++ t) := by
  induction h with
  | close r => exact .close _
  | escape h _ ih => exact .escape h ih
  | @code c s s' cs r h _ ih =>
    obtain ⟨u, rfl, -, hx⟩ := hexEscape_eq_ok h
    have hxt := hx (s' ++ t)
    rw [← List.append_assoc] at hxt
    exact .code hxt ih
  | plain hq hb hc _ ih => exact .plain hq hb hc ih

/-- A word in quotes spells the word. -/
theorem spells_word {w : String} (h : IsWord w) (r : List Char) :
    Spells (w.toList ++ '"' :: r) w.toList r := by
  have hlow {c : Char} (hc : c.isLower = true) : ¬ c.toNat < 32 := by
    rw [Text.isLower_iff_toNat] at hc
    omega
  have hw : ∀ u : List Char, (∀ c ∈ u, c.isLower = true) → Spells (u ++ '"' :: r) u r := by
    intro u hu
    induction u with
    | nil => exact .close r
    | cons c u ih =>
      have hc := hu c List.mem_cons_self
      refine .plain ?_ ?_ (hlow hc) (ih fun d hd => hu d (List.mem_cons_of_mem _ hd))
      · rintro rfl
        exact absurd hc (by decide)
      · rintro rfl
        exact absurd hc (by decide)
  exact hw _ fun c => h.isLower

/-- A string of the asked text is one of the given text, unless a slot's quote ended it or a slot's
word is a part of it, behind the slot's quote. -/
def Clears (ms : List Mark) (cs r : List Char) : Prop :=
  (∃ (u : List Char) (ns : List Mark), ms = u.map .char ++ ns ∧ r = asked ns ∧
      ∀ t, Spells (given ms ++ t) cs (given ns ++ t)) ∨
    (∃ c ∈ r.head?, c.isLower = true) ∨
    ∃ w text v, .slot w text v ∈ ms ∧ w.toList <:+: cs ∧ '"' ∈ cs

theorem Clears.cons {ns : List Mark} {cs r : List Char} (h : Clears ns cs r) {u : List Char}
    {c : Char}
    (hgo : ∀ t r', Spells (given ns ++ t) cs r' → Spells (u ++ (given ns ++ t)) (c :: cs) r') :
    Clears (u.map .char ++ ns) (c :: cs) r := by
  obtain ⟨u', ns', rfl, rfl, hs⟩ | hlow | ⟨w, text, v, hm, hw, hq⟩ := h
  · refine .inl ⟨u ++ u', ns', by simp, rfl, fun t => ?_⟩
    rw [given_append, given_chars, List.append_assoc]
    exact hgo t _ (hs t)
  · exact .inr (.inl hlow)
  · exact .inr (.inr ⟨w, text, v, List.mem_append_right _ hm,
      hw.trans (List.suffix_cons c cs).isInfix, List.mem_cons_of_mem _ hq⟩)

theorem clears_of_spells {s cs r : List Char} (h : Spells s cs r) {ms : List Mark}
    (hs : s = asked ms) (hf : Fillable ms) : Clears ms cs r := by
  induction h generalizing ms with
  | close r =>
    cases ms with
    | nil => cases hs
    | cons m ms =>
      cases m with
      | char c =>
        obtain ⟨rfl, rfl⟩ := List.cons.inj hs
        exact .inl ⟨['"'], ms, rfl, rfl, fun t => .close _⟩
      | slot w text v =>
        obtain ⟨hw, -⟩ := hf w text v List.mem_cons_self
        rw [asked_slot] at hs
        obtain ⟨c, u, hu⟩ := List.exists_cons_of_ne_nil hw.ne_nil
        have hc := hw.isLower (c := c) (by simp [hu])
        rw [(List.cons.inj hs).2, hu]
        exact .inr (.inl ⟨c, rfl, hc⟩)
  | @escape d c s cs r hd hsp ih =>
    obtain ⟨ms, rfl, hs1⟩ := exists_eq_char hs.symm (by decide)
    cases ms with
    | nil => cases hs1
    | cons m ms =>
      cases m with
      | char e =>
        obtain ⟨rfl, rfl⟩ := List.cons.inj hs1
        exact (ih rfl (hf.of_suffix ⟨[.char '\\', .char d], rfl⟩)).cons (u := ['\\', d])
          fun t r' h => .escape hd h
      | slot w text v =>
        -- the quote is escaped, and the word goes on with the string
        obtain ⟨hw, -⟩ := hf w text v (by simp)
        rw [asked_slot] at hs1
        obtain ⟨rfl, rfl⟩ := List.cons.inj hs1
        obtain ⟨rfl, rfl⟩ := spells_unique hsp (spells_word hw _)
        obtain rfl : '"' = c := Option.some.inj hd
        exact .inr (.inr ⟨w, text, v, by simp, (List.suffix_cons _ _).isInfix, List.mem_cons_self⟩)
  | @code c s s' cs r hx hsp ih =>
    obtain ⟨ms, rfl, hs1⟩ := exists_eq_char hs.symm (by decide)
    obtain ⟨ms, rfl, hs2⟩ := exists_eq_char hs1.symm (by decide)
    obtain ⟨u, rfl, hu, hxt⟩ := hexEscape_eq_ok hx
    obtain ⟨ms, rfl, hs3⟩ := exists_eq_chars hs2.symm hu
    have hsuf : ms <:+ .char '\\' :: .char 'u' :: (u.map .char ++ ms) :=
      ⟨.char '\\' :: .char 'u' :: u.map .char, rfl⟩
    exact (ih hs3 (hf.of_suffix hsuf)).cons (u := '\\' :: 'u' :: u) fun t r' h => .code (hxt _) h
  | @plain c s cs r hq hb hc _ ih =>
    obtain ⟨ms, rfl, hs1⟩ := exists_eq_char hs.symm hq
    exact (ih hs1 (hf.of_suffix (List.suffix_cons _ _))).cons (u := [c]) fun t r' h =>
      .plain hq hb hc h

/-! ### Dividing a text -/

variable {ms ns : List Mark} {r : List Char} {strs : List String}
  {follows : (String → Option Json) → List Char → List Mark → Prop}

theorem divides_nil (h : ∀ σ t, Ends t → follows σ t ms) : Divides ms (asked ms) [] follows :=
  ⟨[], ms, [], rfl, rfl, .refl _, fun σ _ t ht => h σ t ht⟩

theorem Divides.mono (h : Divides ms r strs follows)
    {goes : (String → Option Json) → List Char → List Mark → Prop}
    (hg : ∀ σ t left, Ends t → follows σ t left → goes σ t left) : Divides ms r strs goes := by
  obtain ⟨used, left, kept, hms, hr, hstr, hf⟩ := h
  exact ⟨used, left, kept, hms, hr, hstr, fun σ hσ t ht => hg σ t left ht (hf σ hσ t ht)⟩

/-- Characters may stand in front. -/
theorem Divides.chars (h : Divides ns r strs follows) (u : List Char) :
    Divides (u.map .char ++ ns) r strs follows := by
  obtain ⟨used, left, kept, rfl, hr, hstr, hf⟩ := h
  refine ⟨u.map .char ++ used, left, kept, (List.append_assoc _ _ _).symm, hr, by simpa using hstr,
    fun σ hσ => ?_⟩
  exact hf σ ⟨fun w text v hm => hσ.slot w text v (List.mem_append_right _ hm), hσ.kept⟩

/-- So may characters with a string that stays. -/
theorem Divides.string (h : Divides ns r strs follows) (u : List Char) (s : String) :
    Divides (u.map .char ++ ns) r (s :: strs) fun σ t left => σ s = none ∧ follows σ t left := by
  obtain ⟨used, left, kept, rfl, hr, hstr, hf⟩ := h
  refine ⟨u.map .char ++ used, left, s :: kept, (List.append_assoc _ _ _).symm, hr,
    by simpa using hstr.cons s,
    fun σ hσ t ht => ⟨hσ.kept s List.mem_cons_self, hf σ ?_ t ht⟩⟩
  exact ⟨fun w text v hm => hσ.slot w text v (List.mem_append_right _ hm),
    fun k hk => hσ.kept k (List.mem_cons_of_mem _ hk)⟩

/-- So may a slot. -/
theorem Divides.slot (h : Divides ns r strs follows) (w : String) (text : List Char) (v : Json) :
    Divides (.slot w text v :: ns) r (w :: strs) fun σ t left => σ w = some v ∧ follows σ t left := by
  obtain ⟨used, left, kept, rfl, hr, hstr, hf⟩ := h
  refine ⟨.slot w text v :: used, left, kept, rfl, hr, (hstr.cons w).trans List.perm_middle.symm,
    fun σ hσ t ht => ⟨hσ.slot w text v List.mem_cons_self, hf σ ?_ t ht⟩⟩
  exact ⟨fun w text v hm => hσ.slot w text v (List.mem_cons_of_mem _ hm), hσ.kept⟩

/-- One stretch behind another. -/
theorem Divides.bind {s : List Char} {strs' : List String}
    {goes : List Mark → (String → Option Json) → List Char → List Mark → Prop}
    (h : Divides ms s strs follows)
    (h' : ∀ mid, mid <:+ ms → s = asked mid → Divides mid r strs' (goes mid)) :
    Divides ms r (strs ++ strs') fun σ t left => ∃ mid, follows σ t mid ∧ goes mid σ t left := by
  obtain ⟨used, mid, kept, rfl, rfl, hstr, hf⟩ := h
  obtain ⟨used', left, kept', rfl, hr, hstr', hg⟩ := h' mid (List.suffix_append _ _) rfl
  refine ⟨used ++ used', left, kept ++ kept', (List.append_assoc _ _ _).symm, hr, ?_,
    fun σ hσ t ht => ?_⟩
  · rw [wordsOf_append]
    refine (hstr.append hstr').trans ?_
    rw [List.append_assoc, List.append_assoc]
    refine .append_left kept ?_
    rw [← List.append_assoc, ← List.append_assoc]
    exact List.perm_append_comm.append_right _
  · refine ⟨used' ++ left, hf σ ⟨fun w text v hm => hσ.slot w text v (List.mem_append_left _ hm),
      fun s hs => hσ.kept s (List.mem_append_left _ hs)⟩ t ht, ?_⟩
    exact hg σ ⟨fun w text v hm => hσ.slot w text v (List.mem_append_right _ hm),
      fun s hs => hσ.kept s (List.mem_append_right _ hs)⟩ t ht

/-! ### Derivations side by side -/

/-- The phrase that the given text spells from some marks to others. -/
def Follows (p : Phrase) (ms : List Mark) (σ : String → Option Json) (t : List Char)
    (left : List Mark) : Prop :=
  Reads (p.fill σ) (given ms ++ t) (given left ++ t)

theorem divides_number {n : Number} (h : numberAt (asked ms) = .ok (n, r)) (hr : Ends r) :
    Divides ms r [] (Follows (.value (.num n)) ms) := by
  obtain ⟨c, u, hs, hc, hu, hgo⟩ := numberAt_eq_ok h
  have hquote : ∀ d ∈ c :: u, d ≠ '"' := by
    have hc : isNumeral c = true := by
      obtain rfl | hc := hc
      · decide
      · exact isNumeral_of_isDigit hc
    intro d hd
    have hn := numerals_cons hc hu d hd
    rintro rfl
    exact absurd hn (by decide)
  obtain ⟨ns, rfl, rfl⟩ := exists_eq_chars (u := c :: u) hs hquote
  refine (divides_nil fun σ t ht => ?_).chars (c :: u)
  refine .number ?_
  rw [given_append, given_chars, List.append_assoc]
  exact hgo hr.stops _ (ends_given hr ht).stops

/-- A string of the asked text is a slot's word or stays. -/
theorem divides_str {cs s : List Char} (h : Spells s cs r) (hs : '"' :: s = asked ms)
    (hf : Fillable ms) (hp : Placed ms (.value (.str (String.ofList cs)))) (hr : Ends r) :
    Divides ms r [String.ofList cs] (Follows (.value (.str (String.ofList cs))) ms) := by
  cases ms with
  | nil => cases hs
  | cons m ms =>
    cases m with
    | char c =>
      obtain ⟨rfl, rfl⟩ := List.cons.inj hs
      obtain ⟨u, ns, rfl, rfl, hgo⟩ | ⟨c, hc, hlow⟩ | ⟨w, text, v, hm, hw, hq⟩ :=
        clears_of_spells h rfl (hf.of_suffix (List.suffix_cons _ _))
      · have hnil : Divides ns (asked ns) [] fun _ _ left => left = ns := divides_nil fun _ _ _ => rfl
        refine (hnil.string ('"' :: u) (String.ofList cs)).mono ?_
        rintro σ t left - ⟨hσ, rfl⟩
        rw [Follows, Phrase.fill, fill, hσ]
        exact .string (hgo t)
      · exact absurd (hr c hc) (by simp [endsValue_eq_false_of_isLower hlow])
      · have hcs : String.ofList cs ∈ Phrase.strings (.value (.str (String.ofList cs))) := by
          simp [Phrase.strings, strings]
        exact (hp.absurd_quote (List.mem_cons_of_mem _ hm) hcs hw hq).elim
    | slot w text v =>
      obtain ⟨hw, hv⟩ := hf w text v List.mem_cons_self
      rw [asked_slot] at hs
      obtain ⟨-, rfl⟩ := List.cons.inj hs
      obtain ⟨rfl, rfl⟩ := spells_unique h (spells_word hw _)
      rw [String.ofList_toList]
      have hnil : Divides ms (asked ms) [] fun _ _ left => left = ms := divides_nil fun _ _ _ => rfl
      refine (hnil.slot w text v).mono ?_
      rintro σ t left ht ⟨hσ, rfl⟩
      rw [Follows, Phrase.fill, fill, hσ]
      have hread := hv _ (ends_given hr ht)
      rwa [← List.append_assoc, ← given_slot w text v] at hread

/-- Behind a member name stand a colon and the value, with blanks around. -/
theorem exists_chars_value {s₁ s₂ : List Char} {j : Json} (hs : s₁ = asked ns)
    (hc : skipSpace s₁ = ':' :: s₂)
    (hj : ∀ ns', ns' <:+ ns → skipSpace s₂ = asked ns' →
      Divides ns' r j.strings (Follows (.value j) ns')) :
    ∃ (u : List Char) (ns' : List Mark), ns = u.map .char ++ ns' ∧
      Divides ns' r j.strings (Follows (.value j) ns') ∧
      ∀ σ t left, Follows (.value j) ns' σ t left → ∃ s₂', skipSpace (given ns ++ t) = ':' :: s₂' ∧
        Reads (.value (j.fill σ)) (skipSpace s₂') (given left ++ t) := by
  rw [hs] at hc
  obtain ⟨u, ns₂, rfl, rfl, hcolon⟩ := exists_skipSpace_char hc (by decide) (by decide)
  obtain ⟨u', ns₃, rfl, hs₃, hblank⟩ := exists_skipSpace_asked ns₂
  refine ⟨u ++ u', ns₃, by simp, hj ns₃ ?_ hs₃, fun σ t left hfol => ⟨_, hcolon t, ?_⟩⟩
  · rw [← List.append_assoc]
    exact List.suffix_append _ _
  · obtain ⟨c, s', hcs, hsp, -⟩ := head_of_reads_value hfol
    rwa [hblank t (by rw [hcs]; rintro d ⟨rfl⟩; exact hsp)]

/-- A member name of the asked text is a slot's word or stays, and the member's value stands behind
it. -/
theorem divides_member {cs s s₁ s₂ : List Char} {j : Json} (h : Spells s cs s₁)
    (hc : skipSpace s₁ = ':' :: s₂) (hs : '"' :: s = asked ms) (hf : Fillable ms)
    (hp : Placed ms (.member (String.ofList cs, j)))
    (hj : ∀ ns, ns <:+ ms → skipSpace s₂ = asked ns →
      Divides ns r j.strings (Follows (.value j) ns)) :
    Divides ms r (String.ofList cs :: j.strings) (Follows (.member (String.ofList cs, j)) ms) := by
  cases ms with
  | nil => cases hs
  | cons m ms =>
    cases m with
    | char c =>
      obtain ⟨rfl, rfl⟩ := List.cons.inj hs
      obtain ⟨u, ns, rfl, rfl, hgo⟩ | ⟨c, hhead, hlow⟩ | ⟨w, text, v, hm, hw, hq⟩ :=
        clears_of_spells h rfl (hf.of_suffix (List.suffix_cons _ _))
      · have hsuf : ns <:+ .char '"' :: (u.map .char ++ ns) := ⟨.char '"' :: u.map .char, rfl⟩
        obtain ⟨u', ns', rfl, hdiv, hread⟩ :=
          exists_chars_value rfl hc fun ns' hns => hj ns' (hns.trans hsuf)
        have hd := hdiv.string ('"' :: u ++ u') (String.ofList cs)
        rw [List.map_append, List.append_assoc] at hd
        refine hd.mono ?_
        rintro σ t left - ⟨hσ, hfol⟩
        obtain ⟨s₂', hcolon, hv⟩ := hread σ t left hfol
        have hname : fillName σ (String.ofList cs) = String.ofList cs := by rw [fillName, hσ]
        rw [Follows, Phrase.fill, hname]
        exact .member (hgo t) hcolon hv
      · obtain ⟨x, hx⟩ := List.head?_eq_some_iff.1 hhead
        have hsp : isSpace c = false := by
          by_contra hsp
          have he := endsValue_eq_false_of_isLower hlow
          simp [endsValue, hsp] at he
        rw [hx, skipSpace_cons hsp] at hc
        rw [(List.cons.inj hc).1] at hlow
        exact absurd hlow (by decide)
      · exact (hp.absurd_quote (List.mem_cons_of_mem _ hm) (by simp [Phrase.strings]) hw hq).elim
    | slot w text v =>
      obtain ⟨hw, hv⟩ := hf w text v List.mem_cons_self
      rw [asked_slot] at hs
      obtain ⟨-, rfl⟩ := List.cons.inj hs
      obtain ⟨rfl, rfl⟩ := spells_unique h (spells_word hw _)
      rw [String.ofList_toList] at hp ⊢
      obtain ⟨x, rfl⟩ := hp.string_of_name w text v List.mem_cons_self (by simp [Phrase.memberNames])
      obtain ⟨y, htext, hy⟩ := exists_eq_quote (hv [] ends_nil)
      rw [List.append_nil] at htext
      subst htext
      obtain ⟨u', ns', hms, hdiv, hread⟩ :=
        exists_chars_value rfl hc fun ns' hns => hj ns' (hns.trans (List.suffix_cons _ _))
      have hd := (hdiv.chars u').slot w ('"' :: y) (.str x)
      rw [← hms] at hd
      refine hd.mono ?_
      rintro σ t left - ⟨hσ, hfol⟩
      obtain ⟨s₂', hcolon, hval⟩ := hread σ t left hfol
      have hname : fillName σ w = x := by rw [fillName, hσ]
      rw [Follows, Phrase.fill, hname, given_slot, List.append_assoc, ← String.ofList_toList (s := x)]
      exact .member (spells_append hy _) hcolon hval

/-- No blank stands at the beginning of a value or of a member. -/
theorem not_isSpace_of_reads_value {j : Json} {s r : List Char} (h : Reads (.value j) s r) :
    ∀ c ∈ s.head?, isSpace c = false := by
  obtain ⟨c, s', rfl, hc, -⟩ := head_of_reads_value h
  rintro d ⟨rfl⟩
  exact hc

theorem not_isSpace_of_reads_member {m : String × Json} {s r : List Char}
    (h : Reads (.member m) s r) : ∀ c ∈ s.head?, isSpace c = false := by
  obtain ⟨s', rfl⟩ := head_of_reads_member h
  rintro d ⟨rfl⟩
  decide

/-- Of two phrases one behind the other, each is followed. -/
theorem divides_pair {p q w : Phrase} {s : List Char} (hstr : w.strings = p.strings ++ q.strings)
    (hname : w.memberNames = p.memberNames ++ q.memberNames) (hf : Fillable ms) (hw : Placed ms w)
    (hfirst : ∀ ns, skipSpace (asked ms) = asked ns → Fillable ns → Placed ns p →
      Divides ns s p.strings (Follows p ns))
    (hsecond : ∀ ns, s = asked ns → Fillable ns → Placed ns q →
      Divides ns r q.strings (Follows q ns))
    (hhead : ∀ σ x y, Reads (p.fill σ) x y → ∀ c ∈ x.head?, isSpace c = false) :
    Divides ms r w.strings fun σ t left =>
      ∃ mid, Reads (p.fill σ) (skipSpace (given ms ++ t)) (given mid ++ t) ∧
        Follows q mid σ t left := by
  obtain ⟨u, ns, rfl, hskip, hblank⟩ := exists_skipSpace_asked ms
  have hsuf : ns <:+ u.map .char ++ ns := List.suffix_append _ _
  have hp : Placed ns p := hw.of_suffix hsuf (by rw [hstr]; exact List.subset_append_left _ _)
    (by rw [hname]; exact List.subset_append_left _ _)
  have hq (mid : List Mark) (hmid : mid <:+ ns) : Placed mid q :=
    hw.of_suffix (hmid.trans hsuf) (by rw [hstr]; exact List.subset_append_right _ _)
      (by rw [hname]; exact List.subset_append_right _ _)
  have hd := (hfirst ns hskip (hf.of_suffix hsuf) hp).bind fun mid hmid hs =>
    hsecond mid hs (hf.of_suffix (hmid.trans hsuf)) (hq mid hmid)
  rw [hstr]
  refine (hd.chars u).mono ?_
  rintro σ t left - ⟨mid, h1, h2⟩
  refine ⟨mid, ?_, h2⟩
  rwa [hblank t (hhead σ _ _ h1)]

/-- **Two derivations side by side**: what the asked text spells, the given text spells with the words
replaced, as long as no string with a quote has a word for a part. -/
theorem divides_of_reads {p : Phrase} {s r : List Char} (h : Reads p s r) {ms : List Mark}
    (hs : s = asked ms) (hf : Fillable ms) (hp : Placed ms p) (hr : Ends r) :
    Divides ms r p.strings (Follows p ms) := by
  induction h generalizing ms with
  | null r =>
    obtain ⟨ns, rfl, rfl⟩ := exists_eq_chars (u := ['n', 'u', 'l', 'l']) hs.symm (by simp)
    exact (divides_nil fun σ t _ => .null _).chars _
  | yes r =>
    obtain ⟨ns, rfl, rfl⟩ := exists_eq_chars (u := ['t', 'r', 'u', 'e']) hs.symm (by simp)
    exact (divides_nil fun σ t _ => .yes _).chars _
  | no r =>
    obtain ⟨ns, rfl, rfl⟩ := exists_eq_chars (u := ['f', 'a', 'l', 's', 'e']) hs.symm (by simp)
    exact (divides_nil fun σ t _ => .no _).chars _
  | number h =>
    rw [hs] at h
    exact divides_number h hr
  | string h => exact divides_str h hs hf hp hr
  | emptyArray h =>
    obtain ⟨ms, rfl, rfl⟩ := exists_eq_char hs.symm (by decide)
    obtain ⟨u, ns, rfl, rfl, hclose⟩ := exists_skipSpace_char h (by decide) (by decide)
    refine (divides_nil fun σ t _ => ?_).chars ('[' :: u)
    exact .emptyArray (hclose t)
  | @array j js s s' r hj hjs ihj ihjs =>
    obtain ⟨ms, rfl, rfl⟩ := exists_eq_char hs.symm (by decide)
    have hsuf : ms <:+ .char '[' :: ms := List.suffix_cons _ _
    have hw : Placed ms (.items (j :: js)) := hp.of_suffix hsuf (fun _ h => h) fun _ h => h
    refine ((divides_pair (p := .value j) (q := .items js) rfl rfl (hf.of_suffix hsuf) hw
      (fun ns h hf hp => ihj h hf hp (ends_of_reads_items hjs)) (fun ns h hf hp => ihjs h hf hp hr)
      fun σ _ _ => not_isSpace_of_reads_value).chars ['[']).mono ?_
    rintro σ t left - ⟨mid, h1, h2⟩
    exact .array h1 h2
  | lastItem h =>
    rw [hs] at h
    obtain ⟨u, ns, rfl, rfl, hclose⟩ := exists_skipSpace_char h (by decide) (by decide)
    refine (divides_nil fun σ t _ => ?_).chars u
    exact .lastItem (hclose t)
  | @nextItem j js s s₁ s₂ r h hj hjs ihj ihjs =>
    rw [hs] at h
    obtain ⟨u, ms, rfl, rfl, hcomma⟩ := exists_skipSpace_char h (by decide) (by decide)
    have hsuf : ms <:+ u.map .char ++ ms := List.suffix_append _ _
    refine ((divides_pair (p := .value j) (q := .items js) rfl rfl (hf.of_suffix hsuf)
      (hp.of_suffix hsuf (fun _ h => h) fun _ h => h)
      (fun ns h hf hp => ihj h hf hp (ends_of_reads_items hjs)) (fun ns h hf hp => ihjs h hf hp hr)
      fun σ _ _ => not_isSpace_of_reads_value).chars u).mono ?_
    rintro σ t left - ⟨mid, h1, h2⟩
    exact .nextItem (hcomma t) h1 h2
  | emptyObject h =>
    obtain ⟨ms, rfl, rfl⟩ := exists_eq_char hs.symm (by decide)
    obtain ⟨u, ns, rfl, rfl, hclose⟩ := exists_skipSpace_char h (by decide) (by decide)
    refine (divides_nil fun σ t _ => ?_).chars ('{' :: u)
    exact .emptyObject (hclose t)
  | @object m ms' s s' r hm hms ihm ihms =>
    obtain ⟨ms, rfl, rfl⟩ := exists_eq_char hs.symm (by decide)
    have hsuf : ms <:+ .char '{' :: ms := List.suffix_cons _ _
    have hw : Placed ms (.members (m :: ms')) := hp.of_suffix hsuf (fun _ h => h) fun _ h => h
    refine ((divides_pair (p := .member m) (q := .members ms') rfl rfl (hf.of_suffix hsuf) hw
      (fun ns h hf hp => ihm h hf hp (ends_of_reads_members hms)) (fun ns h hf hp => ihms h hf hp hr)
      fun σ _ _ => not_isSpace_of_reads_member).chars ['{']).mono ?_
    rintro σ t left - ⟨mid, h1, h2⟩
    exact .object h1 h2
  | @member cs j s s₁ s₂ r hk hc hj ihj =>
    refine divides_member hk hc hs hf hp fun ns hns h => ihj h (hf.of_suffix hns) ?_ hr
    exact hp.of_suffix hns (List.subset_cons_self _ _) (List.subset_cons_self _ _)
  | lastMember h =>
    rw [hs] at h
    obtain ⟨u, ns, rfl, rfl, hclose⟩ := exists_skipSpace_char h (by decide) (by decide)
    refine (divides_nil fun σ t _ => ?_).chars u
    exact .lastMember (hclose t)
  | @nextMember m ms' s s₁ s₂ r h hm hms ihm ihms =>
    rw [hs] at h
    obtain ⟨u, ms, rfl, rfl, hcomma⟩ := exists_skipSpace_char h (by decide) (by decide)
    have hsuf : ms <:+ u.map .char ++ ms := List.suffix_append _ _
    refine ((divides_pair (p := .member m) (q := .members ms') rfl rfl (hf.of_suffix hsuf)
      (hp.of_suffix hsuf (fun _ h => h) fun _ h => h)
      (fun ns h hf hp => ihm h hf hp (ends_of_reads_members hms)) (fun ns h hf hp => ihms h hf hp hr)
      fun σ _ _ => not_isSpace_of_reads_member).chars u).mono ?_
    rintro σ t left - ⟨mid, h1, h2⟩
    exact .nextMember (hcomma t) h1 h2

/-! ### Whole texts -/

theorem eq_nil_of_asked {ms : List Mark} (h : asked ms = []) : ms = [] := by
  cases ms with
  | nil => rfl
  | cons m ms => cases m <;> cases h

/-- A value stands wherever a value may end, as it stands alone. -/
theorem reads_append {j : Json} {s : List Char} (h : Reads (.value j) s []) {t : List Char}
    (ht : Ends t) : Reads (.value j) (s ++ t) t := by
  have hno (w : String) (text : List Char) (v : Json) : .slot w text v ∉ s.map Mark.char := by simp
  obtain ⟨used, left, kept, hused, hleft, -, hfol⟩ := divides_of_reads h (asked_chars s).symm
    (fun w text v hm => absurd hm (hno w text v))
    ⟨fun w text v hm => absurd hm (hno w text v), fun w text v hm => absurd hm (hno w text v)⟩
    ends_nil
  obtain rfl := eq_nil_of_asked hleft.symm
  rw [List.append_nil] at hused
  have hagree : Agrees (fun _ => none) used kept :=
    ⟨fun w text v hm => absurd (hused ▸ hm) (hno w text v), fun _ _ => rfl⟩
  have hr := hfol _ hagree t ht
  rw [Follows, given_chars, Phrase.fill, fill_none] at hr
  exact hr

/-- Where no value is left, blanks are. -/
theorem exists_chars_of_skipSpace {ms : List Mark} (h : skipSpace (asked ms) = []) :
    wordsOf ms = [] ∧ skipSpace (given ms) = [] := by
  obtain ⟨u, ns, hms, hs, hskip⟩ := exists_skipSpace_asked ms
  obtain rfl := eq_nil_of_asked (hs.symm.trans h)
  have hg : skipSpace (given ms ++ []) = [] := hskip [] (by simp [given])
  rw [List.append_nil] at hms hg
  exact ⟨by rw [hms, wordsOf_chars], hg⟩

/-- The words of a text that is read are among its strings, and the given text is read as the value
with the words replaced, if that is not nested too deep. -/
theorem exists_kept {ms : List Mark} {D : Json} (hf : Fillable ms)
    (hD : Json.readRaw (asked ms) = .ok D) (hp : Placed ms (.value D)) :
    ∃ kept, D.strings.Perm (kept ++ wordsOf ms) ∧
      ∀ σ, Agrees σ ms kept → (D.fill σ).depth ≤ depthLimit →
        Json.readRaw (given ms) = .ok (D.fill σ) := by
  obtain ⟨r, hr, hblank⟩ := reads_of_readRaw hD
  obtain ⟨u, ns, rfl, hskip, hgiven⟩ := exists_skipSpace_asked ms
  have hsuf : ns <:+ u.map .char ++ ns := List.suffix_append _ _
  obtain ⟨used, left, kept, rfl, rfl, hstr, hfol⟩ := divides_of_reads hr hskip (hf.of_suffix hsuf)
    (hp.of_suffix hsuf (fun _ h => h) fun _ h => h) (ends_of_skipSpace_eq_nil hblank)
  obtain ⟨hleft, hend⟩ := exists_chars_of_skipSpace hblank
  refine ⟨kept, by simpa [hleft, Phrase.strings] using hstr, fun σ hσ hd => ?_⟩
  have hread := hfol σ ⟨fun w text v hm => hσ.slot w text v (by simp [hm]), hσ.kept⟩ [] ends_nil
  rw [Follows, Phrase.fill] at hread
  have hstart := hgiven [] (not_isSpace_of_reads_value hread)
  rw [List.append_nil, List.append_nil] at hstart
  rw [List.append_nil, List.append_nil, ← hstart] at hread
  exact readRaw_of_reads hread hend hd

/-- Every word is a string of its own. -/
theorem mem_strings_of_mem_wordsOf {ms : List Mark} {D : Json} (hf : Fillable ms)
    (hD : Json.readRaw (asked ms) = .ok D) (hp : Placed ms (.value D)) {w : String}
    (hw : w ∈ wordsOf ms) : w ∈ D.strings := by
  obtain ⟨kept, hstr, -⟩ := exists_kept hf hD hp
  exact hstr.mem_iff.2 (List.mem_append_right _ hw)

/-- **Filling in the slots of a text**: where the asked text is read, the given text is read as the
value with the words replaced, if no word is there twice, no string with a quote has a word for a
part, a word that is a member name stands for a string, and the result is not nested too deep. -/
theorem readRaw_given {ms : List Mark} {D : Json} {σ : String → Option Json} (hf : Fillable ms)
    (hD : Json.readRaw (asked ms) = .ok D) (hp : Placed ms (.value D))
    (honce : ∀ w ∈ wordsOf ms, D.strings.count w ≤ 1)
    (hσ : Agrees σ ms []) (hkept : ∀ s, s ∉ wordsOf ms → σ s = none)
    (hd : (D.fill σ).depth ≤ depthLimit) :
    Json.readRaw (given ms) = .ok (D.fill σ) := by
  obtain ⟨kept, hstr, hread⟩ := exists_kept hf hD hp
  refine hread σ ⟨hσ.slot, fun s hs => hkept s fun hw => ?_⟩ hd
  -- a string that is kept and a word at the same time would be there twice
  have h1 := honce s hw
  have h2 := hstr.count_eq s
  have h3 := List.count_pos_iff.2 hs
  have h4 := List.count_pos_iff.2 hw
  rw [List.count_append] at h2
  omega

/-! ### Printed values -/

/-- Each slot has a word, and the text of the value that stands for the word. The slot's value is `raw`
of that one: a text spells members of equal names apart. -/
def Prints (raw : Json → Json) (σ : String → Option Json) (ms : List Mark) : Prop :=
  ∀ w text v, .slot w text v ∈ ms → IsWord w ∧ ∃ j, σ w = some j ∧ text = j.print ∧ v = raw j

/-- **Values that read back in the slots of a text**: the words of the asked text are strings of its
value, and the given text stands for that value with the words replaced. -/
theorem parse_given {raw : Json → Json}
    (hraw : ∀ j : Json, j.ReadsBack →
      Reads (.value (raw j)) j.print [] ∧ (raw j).merged = j ∧ (raw j).depth = j.depth)
    {ms : List Mark} {D : Json} {σ : String → Option Json} (hD : Json.readRaw (asked ms) = .ok D)
    (hms : Prints raw σ ms) (hback : ∀ w j, σ w = some j → w ∈ wordsOf ms ∧ j.ReadsBack)
    (honce : ∀ w ∈ wordsOf ms, D.strings.count w ≤ 1)
    (hquote : ∀ w ∈ wordsOf ms, ∀ s ∈ D.strings, w.toList <:+: s.toList → '"' ∉ s.toList)
    (hnames : ∀ w ∈ wordsOf ms, w ∈ D.memberNames → ∃ s, σ w = some (.str s))
    (hdepth : (D.fill σ).depth ≤ depthLimit) :
    (∀ w ∈ wordsOf ms, w ∈ D.strings) ∧ Json.parse (given ms) = .ok (D.fill σ).merged := by
  have hmem {w : String} {text : List Char} {v : Json} (h : .slot w text v ∈ ms) : w ∈ wordsOf ms :=
    List.mem_filterMap.2 ⟨_, h, rfl⟩
  have hfill : Fillable ms := by
    intro w text v h
    obtain ⟨hw, j, hj, rfl, rfl⟩ := hms w text v h
    exact ⟨hw, fun t => reads_append (hraw j (hback w j hj).2).1⟩
  have hplaced : Placed ms (.value D) := by
    refine ⟨fun w text v h => hquote w (hmem h), fun w text v h hw => ?_⟩
    obtain ⟨-, j, hj, -, rfl⟩ := hms w text v h
    obtain ⟨s, hs⟩ := hnames w (hmem h) hw
    obtain rfl := Option.some.inj (hj.symm.trans hs)
    exact ⟨s, merged_eq_str_iff.1 (hraw _ (hback w _ hj).2).2.1⟩
  have hdepths (w : String) : ((σ w).map raw).map depth = (σ w).map depth := by
    cases h : σ w with
    | none => rfl
    | some j => exact congrArg some (hraw j (hback w j h).2).2.2
  have hmerged (w : String) : ((σ w).map raw).map merged = (σ w).map merged := by
    cases h : σ w with
    | none => rfl
    | some j =>
      have hj := (hraw j (hback w j h).2).2.1
      refine congrArg some ?_
      rw [hj, ← hj, merged_merged]
  have hagree : Agrees (fun w => (σ w).map raw) ms [] := by
    refine ⟨fun w text v h => ?_, fun s hs => absurd hs List.not_mem_nil⟩
    obtain ⟨-, j, hj, -, rfl⟩ := hms w text v h
    rw [hj, Option.map_some]
  have hkept (s : String) (hs : s ∉ wordsOf ms) : (σ s).map raw = none := by
    rw [Option.map_eq_none_iff, Option.eq_none_iff_forall_not_mem]
    exact fun j hj => hs (hback s j hj).1
  have hread := readRaw_given hfill hD hplaced honce hagree hkept (by rwa [depth_fill_congr hdepths D])
  refine ⟨fun w hw => mem_strings_of_mem_wordsOf hfill hD hplaced hw, ?_⟩
  rw [Json.parse, hread, ← merged_fill_congr hmerged D]
  rfl

end Read

end Stencil
