import Stencil.Proofs.Except
import Stencil.Proofs.Json.Numerals

/-!
# The grammar of JSON text

`Reads` says which text spells which value, with the text behind it, without fuel and without a bound
on the nesting: what the reader accepts is derivable, and nested no deeper than it allows
(`reads_of_value`), and what is derivable is read with the value that the derivation names, as soon as
there is fuel for the length of the text and room for the depth of the value (`value_of_reads`). Facts
about texts are inductions on derivations.
-/

namespace Stencil

namespace Read

/-! ### Derivations -/

/-- The text of a string behind its opening quote, its characters, and the text behind its closing
quote. -/
inductive Spells : List Char → List Char → List Char → Prop where
  | close (r : List Char) : Spells ('"' :: r) [] r
  | escape {d c : Char} {s cs r : List Char} (h : escaped d = some c) :
      Spells s cs r → Spells ('\\' :: d :: s) (c :: cs) r
  | code {c : Char} {s s' cs r : List Char} (h : hexEscape s = .ok (c, s')) :
      Spells s' cs r → Spells ('\\' :: 'u' :: s) (c :: cs) r
  | plain {c : Char} {s cs r : List Char} (hq : c ≠ '"') (hb : c ≠ '\\') (hc : ¬ c.toNat < 32) :
      Spells s cs r → Spells (c :: s) (c :: cs) r

/-- What a text spells: a value, or a piece of the list in an array or an object. -/
inductive Phrase where
  | value (j : Json)
  /-- The items behind the first one, with the closing bracket. -/
  | items (js : List Json)
  | member (m : String × Json)
  /-- The members behind the first one, with the closing brace. -/
  | members (ms : Members)

/-- The text of a phrase and the text behind it. -/
inductive Reads : Phrase → List Char → List Char → Prop where
  | null (r : List Char) : Reads (.value .null) ('n' :: 'u' :: 'l' :: 'l' :: r) r
  | yes (r : List Char) : Reads (.value (.bool true)) ('t' :: 'r' :: 'u' :: 'e' :: r) r
  | no (r : List Char) : Reads (.value (.bool false)) ('f' :: 'a' :: 'l' :: 's' :: 'e' :: r) r
  | number {n : Number} {s r : List Char} (h : numberAt s = .ok (n, r)) : Reads (.value (.num n)) s r
  | string {cs s r : List Char} (h : Spells s cs r) :
      Reads (.value (.str (String.ofList cs))) ('"' :: s) r
  | emptyArray {s r : List Char} (h : skipSpace s = ']' :: r) : Reads (.value (.arr [])) ('[' :: s) r
  | array {j : Json} {js : List Json} {s s' r : List Char} :
      Reads (.value j) (skipSpace s) s' → Reads (.items js) s' r →
      Reads (.value (.arr (j :: js))) ('[' :: s) r
  | emptyObject {s r : List Char} (h : skipSpace s = '}' :: r) : Reads (.value (.obj [])) ('{' :: s) r
  | object {m : String × Json} {ms : Members} {s s' r : List Char} :
      Reads (.member m) (skipSpace s) s' → Reads (.members ms) s' r →
      Reads (.value (.obj (m :: ms))) ('{' :: s) r
  | lastItem {s r : List Char} (h : skipSpace s = ']' :: r) : Reads (.items []) s r
  | nextItem {j : Json} {js : List Json} {s s₁ s₂ r : List Char} (h : skipSpace s = ',' :: s₁) :
      Reads (.value j) (skipSpace s₁) s₂ → Reads (.items js) s₂ r → Reads (.items (j :: js)) s r
  | member {cs : List Char} {j : Json} {s s₁ s₂ r : List Char} (hk : Spells s cs s₁)
      (hc : skipSpace s₁ = ':' :: s₂) :
      Reads (.value j) (skipSpace s₂) r → Reads (.member (String.ofList cs, j)) ('"' :: s) r
  | lastMember {s r : List Char} (h : skipSpace s = '}' :: r) : Reads (.members []) s r
  | nextMember {m : String × Json} {ms : Members} {s s₁ s₂ r : List Char}
      (h : skipSpace s = ',' :: s₁) :
      Reads (.member m) (skipSpace s₁) s₂ → Reads (.members ms) s₂ r → Reads (.members (m :: ms)) s r

/-! ### Escapes -/

theorem ne_quote_of_hexValue {c : Char} {n : Nat} (h : hexValue c = some n) : c ≠ '"' := by
  rintro rfl
  have hn : hexValue '"' = none := by decide
  rw [hn] at h
  cases h

/-- Four hexadecimal digits are read whatever stands behind them. -/
theorem hex4_eq_ok {s r : List Char} {n : Nat} (h : hex4 s = .ok (n, r)) :
    ∃ u, s = u ++ r ∧ (∀ c ∈ u, c ≠ '"') ∧ ∀ t, hex4 (u ++ t) = .ok (n, t) := by
  unfold hex4 at h
  split at h
  · cases h
  rename_i hlen
  split at h
  · rename_i a b c d r'
    split at h
    · rename_i ha hb hc hd
      obtain ⟨rfl, rfl⟩ := Prod.mk.inj (Except.ok.inj h)
      refine ⟨[a, b, c, d], rfl, ?_, fun t => ?_⟩
      · simp only [List.mem_cons, List.not_mem_nil, or_false, forall_eq_or_imp, forall_eq]
        exact ⟨ne_quote_of_hexValue ha, ne_quote_of_hexValue hb, ne_quote_of_hexValue hc,
          ne_quote_of_hexValue hd⟩
      · have hlen' : ¬ byteCount (([a, b, c, d] ++ t).take 4) < 4 := by simpa using hlen
        unfold hex4
        rw [if_neg hlen']
        simp only [List.cons_append, List.nil_append, ha, hb, hc, hd]
    · cases h
  · cases h

/-- A character is given by one code or by two, and by the same codes elsewhere. -/
theorem hexEscape_cases {s r : List Char} {c : Char} (h : hexEscape s = .ok (c, r)) :
    (∃ n, hex4 s = .ok (n, r) ∧ ∀ t r', hex4 t = .ok (n, r') → hexEscape t = .ok (c, r')) ∨
      ∃ n m s₁, hex4 s = .ok (n, '\\' :: 'u' :: s₁) ∧ hex4 s₁ = .ok (m, r) ∧
        ∀ t t₁ r', hex4 t = .ok (n, '\\' :: 'u' :: t₁) → hex4 t₁ = .ok (m, r') →
          hexEscape t = .ok (c, r') := by
  unfold hexEscape at h
  cases h1 : hex4 s with
  | error e =>
    rw [h1] at h
    cases h
  | ok p =>
    obtain ⟨n, s₁⟩ := p
    rw [h1] at h
    simp only at h
    split at h
    · cases h
    rename_i hlow
    split at h
    · rename_i hhigh
      split at h
      · cases h
      · cases h
      · rename_i s₂
        cases h2 : hex4 s₂ with
        | error e =>
          rw [h2] at h
          cases h
        | ok p =>
          obtain ⟨m, s₃⟩ := p
          rw [h2] at h
          simp only at h
          split at h
          · rename_i hm
            obtain ⟨rfl, rfl⟩ := Prod.mk.inj (Except.ok.inj h)
            refine .inr ⟨n, m, s₂, rfl, h2, fun t t₁ r' ht ht₁ => ?_⟩
            simp only [hexEscape, ht, if_neg hlow, if_pos hhigh, ht₁, if_pos hm]
          · cases h
      · cases h
      · cases h
    · rename_i hhigh
      obtain ⟨rfl, rfl⟩ := Prod.mk.inj (Except.ok.inj h)
      refine .inl ⟨n, rfl, fun t r' ht => ?_⟩
      simp only [hexEscape, ht, if_neg hlow, if_neg hhigh]

/-- So is a character given by its code. -/
theorem hexEscape_eq_ok {s r : List Char} {c : Char} (h : hexEscape s = .ok (c, r)) :
    ∃ u, s = u ++ r ∧ (∀ d ∈ u, d ≠ '"') ∧ ∀ t, hexEscape (u ++ t) = .ok (c, t) := by
  rcases hexEscape_cases h with ⟨n, hn, hread⟩ | ⟨n, m, s₁, hn, hm, hread⟩
  · obtain ⟨u, rfl, hu, ht⟩ := hex4_eq_ok hn
    exact ⟨u, rfl, hu, fun t => hread _ t (ht t)⟩
  · obtain ⟨u, rfl, hu, ht⟩ := hex4_eq_ok hn
    obtain ⟨v, rfl, hv, ht'⟩ := hex4_eq_ok hm
    refine ⟨u ++ '\\' :: 'u' :: v, by simp, ?_, fun t => ?_⟩
    · intro d hd
      simp only [List.mem_append, List.mem_cons] at hd
      rcases hd with hd | rfl | rfl | hd
      · exact hu d hd
      · decide
      · decide
      · exact hv d hd
    · rw [List.append_assoc]
      exact hread _ _ t (ht _) (ht' t)

/-! ### Strings -/

theorem spells_of_stringBody {fuel : Nat} {taken s r : List Char} {k : String}
    (h : stringBody fuel taken s = .ok (k, r)) :
    ∃ cs, k = String.ofList (taken.reverse ++ cs) ∧ Spells s cs r := by
  induction fuel generalizing taken s with
  | zero => cases h
  | succ fuel ih =>
    have htaken {c : Char} {s' : List Char} (h : stringBody fuel (c :: taken) s' = .ok (k, r)) :
        ∃ cs, k = String.ofList (taken.reverse ++ c :: cs) ∧ Spells s' cs r := by
      obtain ⟨cs, hk, hs⟩ := ih h
      exact ⟨cs, by rw [hk, List.reverse_cons, List.append_assoc, List.singleton_append], hs⟩
    cases s with
    | nil => cases h
    | cons c s =>
      unfold stringBody at h
      by_cases hq : c = '"'
      · subst hq
        rw [if_pos rfl] at h
        cases h
        exact ⟨[], by rw [List.append_nil], .close r⟩
      rw [if_neg hq] at h
      by_cases hb : c = '\\'
      · subst hb
        rw [if_pos rfl] at h
        split at h
        · cases h
        · cases hx : hexEscape _ with
          | error e =>
            rw [hx] at h
            cases h
          | ok p =>
            rw [hx] at h
            obtain ⟨cs, hk, hs⟩ := htaken h
            exact ⟨_, hk, .code hx hs⟩
        · cases hd : escaped _ with
          | none =>
            rw [hd] at h
            cases h
          | some d =>
            rw [hd] at h
            obtain ⟨cs, hk, hs⟩ := htaken h
            exact ⟨_, hk, .escape hd hs⟩
      rw [if_neg hb] at h
      by_cases hc : c.toNat < 32
      · rw [if_pos hc] at h
        cases h
      rw [if_neg hc] at h
      obtain ⟨cs, hk, hs⟩ := htaken h
      exact ⟨_, hk, .plain hq hb hc hs⟩

theorem length_of_spells {s cs r : List Char} (h : Spells s cs r) : r.length < s.length := by
  induction h with
  | close r => simp
  | escape _ _ ih =>
    simp only [List.length_cons]
    omega
  | code h _ ih =>
    obtain ⟨u, rfl, -, -⟩ := hexEscape_eq_ok h
    simp only [List.length_cons, List.length_append]
    omega
  | plain _ _ _ _ ih =>
    rw [List.length_cons]
    omega

theorem stringBody_of_spells {s cs r : List Char} (h : Spells s cs r) {fuel : Nat}
    (hf : s.length < fuel) (taken : List Char) :
    stringBody fuel taken s = .ok (String.ofList (taken.reverse ++ cs), r) := by
  induction h generalizing fuel taken with
  | close r =>
    obtain ⟨fuel, rfl⟩ := Nat.exists_eq_add_one_of_ne_zero (Nat.ne_of_gt (Nat.zero_lt_of_lt hf))
    simp [stringBody]
  | @escape d c s cs r h _ ih =>
    obtain ⟨fuel, rfl⟩ := Nat.exists_eq_add_one_of_ne_zero (Nat.ne_of_gt (Nat.zero_lt_of_lt hf))
    have hs := @ih fuel (by simp only [List.length_cons] at hf; omega) (c :: taken)
    rw [List.reverse_cons, List.append_assoc, List.singleton_append] at hs
    unfold stringBody
    rw [if_neg (by decide), if_pos rfl]
    split
    · simp_all
    · rename_i heq
      obtain ⟨rfl, rfl⟩ := List.cons.inj heq
      have hn : escaped 'u' = none := by decide
      rw [hn] at h
      cases h
    · rename_i heq
      obtain ⟨rfl, rfl⟩ := List.cons.inj heq
      simp only [h, hs]
  | @code c s s' cs r h _ ih =>
    obtain ⟨fuel, rfl⟩ := Nat.exists_eq_add_one_of_ne_zero (Nat.ne_of_gt (Nat.zero_lt_of_lt hf))
    obtain ⟨u, rfl, -, -⟩ := hexEscape_eq_ok h
    have hlen : s'.length < fuel := by
      simp only [List.length_cons, List.length_append] at hf
      omega
    have hs := ih hlen (c :: taken)
    rw [List.reverse_cons, List.append_assoc, List.singleton_append] at hs
    unfold stringBody
    rw [if_neg (by decide), if_pos rfl]
    simp only [h, hs]
  | @plain c s cs r hq hb hc _ ih =>
    obtain ⟨fuel, rfl⟩ := Nat.exists_eq_add_one_of_ne_zero (Nat.ne_of_gt (Nat.zero_lt_of_lt hf))
    have hs := @ih fuel (by simp only [List.length_cons] at hf; omega) (c :: taken)
    rw [List.reverse_cons, List.append_assoc, List.singleton_append] at hs
    unfold stringBody
    rw [if_neg hq, if_neg hb, if_neg hc, hs]

/-! ### What the reader accepts is derivable -/

theorem eq_append_of_word {w s r : List Char} (h : word w s = .ok r) : s = w ++ r := by
  induction w generalizing s with
  | nil => exact Except.ok.inj h
  | cons c w ih =>
    cases s with
    | nil => cases h
    | cons d s =>
      rw [word] at h
      split at h
      · rename_i hc
        rw [hc, ih h, List.cons_append]
      · cases h

theorem reads_of_items {item : Reader Json} {d : Nat}
    (hitem : ∀ s j r, item s = .ok (j, r) → Reads (.value j) s r ∧ j.depth ≤ d) {fuel : Nat}
    {taken js : List Json} {s r : List Char} (h : items item fuel taken s = .ok (js, r)) :
    ∃ js', js = taken.reverse ++ js' ∧ Reads (.items js') s r ∧ Json.depthItems js' ≤ d := by
  induction fuel generalizing taken s with
  | zero => cases h
  | succ fuel ih =>
    rw [items] at h
    split at h
    · cases h
    · rename_i hs
      obtain ⟨rfl, rfl⟩ := Prod.mk.inj (Except.ok.inj h)
      exact ⟨[], by rw [List.append_nil], .lastItem hs, Nat.zero_le d⟩
    · rename_i s1 hs
      split at h
      · cases h
      · cases h
      · cases hj : item (skipSpace s1) with
        | error e =>
          rw [hj] at h
          cases h
        | ok p =>
          obtain ⟨j, s2⟩ := p
          rw [hj] at h
          obtain ⟨js', rfl, hr, hd⟩ := ih h
          obtain ⟨hread, hdepth⟩ := hitem _ _ _ hj
          exact ⟨j :: js', by simp, .nextItem hs hread hr, Nat.max_le.2 ⟨hdepth, hd⟩⟩
    · cases h

theorem reads_of_array {item : Reader Json} {d : Nat}
    (hitem : ∀ s j r, item s = .ok (j, r) → Reads (.value j) s r ∧ j.depth ≤ d) {fuel : Nat}
    {j : Json} {s r : List Char} (h : array item fuel s = .ok (j, r)) :
    Reads (.value j) ('[' :: s) r ∧ j.depth ≤ d + 1 := by
  rw [array] at h
  split at h
  · cases h
  · rename_i hs
    obtain ⟨rfl, rfl⟩ := Prod.mk.inj (Except.ok.inj h)
    exact ⟨.emptyArray hs, Nat.succ_le_succ (Nat.zero_le d)⟩
  · cases hj : item (skipSpace s) with
    | error e =>
      rw [hj] at h
      cases h
    | ok p =>
      obtain ⟨j1, s1⟩ := p
      rw [hj] at h
      simp only at h
      cases hjs : items item fuel [j1] s1 with
      | error e =>
        rw [hjs] at h
        cases h
      | ok p =>
        obtain ⟨js, s2⟩ := p
        rw [hjs] at h
        obtain ⟨rfl, rfl⟩ := Prod.mk.inj (Except.ok.inj h)
        obtain ⟨js', rfl, hr, hd⟩ := reads_of_items hitem hjs
        obtain ⟨hread, hdepth⟩ := hitem _ _ _ hj
        exact ⟨.array hread hr, Nat.succ_le_succ (Nat.max_le.2 ⟨hdepth, hd⟩)⟩

theorem reads_of_member {value : Reader Json} {d : Nat}
    (hvalue : ∀ s j r, value s = .ok (j, r) → Reads (.value j) s r ∧ j.depth ≤ d) {fuel : Nat}
    {m : String × Json} {s r : List Char} (h : member value fuel s = .ok (m, r)) :
    Reads (.member m) s r ∧ m.2.depth ≤ d := by
  unfold member at h
  split at h
  · rename_i s0
    cases hk : stringBody fuel [] s0 with
    | error e =>
      rw [hk] at h
      cases h
    | ok p =>
      obtain ⟨k, s1⟩ := p
      rw [hk] at h
      simp only at h
      obtain ⟨cs, rfl, hcs⟩ := spells_of_stringBody hk
      split at h
      · cases h
      · rename_i s2 hs2
        cases hj : value (skipSpace s2) with
        | error e =>
          rw [hj] at h
          cases h
        | ok p =>
          obtain ⟨j, s3⟩ := p
          rw [hj] at h
          obtain ⟨rfl, rfl⟩ := Prod.mk.inj (Except.ok.inj h)
          obtain ⟨hread, hdepth⟩ := hvalue _ _ _ hj
          exact ⟨.member hcs hs2 hread, hdepth⟩
      · cases h
  · cases h

theorem reads_of_members {one : Reader (String × Json)} {d : Nat}
    (hone : ∀ s m r, one s = .ok (m, r) → Reads (.member m) s r ∧ m.2.depth ≤ d) {fuel : Nat}
    {taken ms : Members} {s r : List Char} (h : members one fuel taken s = .ok (ms, r)) :
    ∃ ms', ms = taken.reverse ++ ms' ∧ Reads (.members ms') s r ∧ Json.depthMembers ms' ≤ d := by
  induction fuel generalizing taken s with
  | zero => cases h
  | succ fuel ih =>
    rw [members] at h
    split at h
    · cases h
    · rename_i hs
      obtain ⟨rfl, rfl⟩ := Prod.mk.inj (Except.ok.inj h)
      exact ⟨[], by rw [List.append_nil], .lastMember hs, Nat.zero_le d⟩
    · rename_i s1 hs
      split at h
      · cases h
      · cases h
      · cases hm : one (skipSpace s1) with
        | error e =>
          rw [hm] at h
          cases h
        | ok p =>
          obtain ⟨m, s2⟩ := p
          rw [hm] at h
          obtain ⟨ms', rfl, hr, hd⟩ := ih h
          obtain ⟨hread, hdepth⟩ := hone _ _ _ hm
          exact ⟨m :: ms', by simp, .nextMember hs hread hr, Nat.max_le.2 ⟨hdepth, hd⟩⟩
    · cases h

theorem reads_of_object {one : Reader (String × Json)} {d : Nat}
    (hone : ∀ s m r, one s = .ok (m, r) → Reads (.member m) s r ∧ m.2.depth ≤ d)
    {fuel : Nat} {ms : Members} {s r : List Char} (h : object one fuel s = .ok (ms, r)) :
    Reads (.value (.obj ms)) ('{' :: s) r ∧ (Json.obj ms).depth ≤ d + 1 := by
  rw [object] at h
  split at h
  · cases h
  · rename_i hs
    obtain ⟨rfl, rfl⟩ := Prod.mk.inj (Except.ok.inj h)
    exact ⟨.emptyObject hs, Nat.succ_le_succ (Nat.zero_le d)⟩
  · cases hm : one (skipSpace s) with
    | error e =>
      rw [hm] at h
      cases h
    | ok p =>
      obtain ⟨m, s1⟩ := p
      rw [hm] at h
      obtain ⟨ms', rfl, hr, hd⟩ := reads_of_members hone h
      obtain ⟨hread, hdepth⟩ := hone _ _ _ hm
      exact ⟨.object hread hr, Nat.succ_le_succ (Nat.max_le.2 ⟨hdepth, hd⟩)⟩

/-- The ways in which a value begins. -/
theorem value_eq_ok {fuel depth : Nat} {j : Json} {s r : List Char}
    (h : value fuel depth s = .ok (j, r)) :
    (Reads (.value j) s r ∧ j.depth = 0) ∨
      (∃ d s', depth = d + 1 ∧ s = '[' :: s' ∧ array (value fuel d) fuel s' = .ok (j, r)) ∨
      ∃ d s' ms, depth = d + 1 ∧ s = '{' :: s' ∧ j = .obj ms ∧
        object (member (value fuel d) fuel) fuel s' = .ok (ms, r) := by
  cases s with
  | nil =>
    unfold value at h
    cases h
  | cons c s =>
    unfold value at h
    split at h
    · rename_i hc
      obtain ⟨a, ha, he⟩ := map_eq_ok h
      obtain ⟨rfl, rfl⟩ := Prod.mk.inj he
      rw [hc, eq_append_of_word ha]
      exact .inl ⟨.null _, rfl⟩
    split at h
    · rename_i hc
      obtain ⟨a, ha, he⟩ := map_eq_ok h
      obtain ⟨rfl, rfl⟩ := Prod.mk.inj he
      rw [hc, eq_append_of_word ha]
      exact .inl ⟨.yes _, rfl⟩
    split at h
    · rename_i hc
      obtain ⟨a, ha, he⟩ := map_eq_ok h
      obtain ⟨rfl, rfl⟩ := Prod.mk.inj he
      rw [hc, eq_append_of_word ha]
      exact .inl ⟨.no _, rfl⟩
    split at h
    · rename_i hc
      obtain ⟨⟨n, r'⟩, ha, he⟩ := map_eq_ok h
      obtain ⟨rfl, rfl⟩ := Prod.mk.inj he
      rw [hc]
      exact .inl ⟨.number ha, rfl⟩
    split at h
    · rename_i hm hd
      obtain ⟨⟨n, r'⟩, ha, he⟩ := map_eq_ok h
      obtain ⟨rfl, rfl⟩ := Prod.mk.inj he
      exact .inl ⟨.number (by rwa [numberAt_of_ne hm]), rfl⟩
    split at h
    · rename_i hc
      obtain ⟨⟨k, r'⟩, ha, he⟩ := map_eq_ok h
      obtain ⟨rfl, rfl⟩ := Prod.mk.inj he
      obtain ⟨cs, rfl, hs⟩ := spells_of_stringBody ha
      rw [hc]
      exact .inl ⟨.string hs, rfl⟩
    split at h
    · rename_i hc
      split at h
      · cases h
      · exact .inr (.inl ⟨_, s, rfl, by rw [hc], h⟩)
    split at h
    · rename_i hc
      split at h
      · cases h
      · obtain ⟨⟨ms, r'⟩, ha, he⟩ := map_eq_ok h
        obtain ⟨rfl, rfl⟩ := Prod.mk.inj he
        exact .inr (.inr ⟨_, s, ms, rfl, by rw [hc], rfl, ha⟩)
    · cases h

/-- What the reader accepts is derivable, and not nested deeper than it allows. -/
theorem reads_of_value {fuel depth : Nat} {j : Json} {s r : List Char}
    (h : value fuel depth s = .ok (j, r)) : Reads (.value j) s r ∧ j.depth ≤ depth := by
  induction depth generalizing j s r with
  | zero =>
    obtain ⟨h, hd⟩ | ⟨d, -, hd, -⟩ | ⟨d, -, -, hd, -⟩ := value_eq_ok h
    · exact ⟨h, Nat.le_of_eq hd⟩
    · omega
    · omega
  | succ depth ih =>
    obtain ⟨h, hd⟩ | ⟨d, s, hd, rfl, ha⟩ | ⟨d, s, ms, hd, rfl, rfl, ho⟩ := value_eq_ok h
    · exact ⟨h, hd ▸ Nat.zero_le _⟩
    · obtain rfl : depth = d := by omega
      exact reads_of_array (fun _ _ _ => ih) ha
    · obtain rfl : depth = d := by omega
      exact reads_of_object (fun _ _ _ => reads_of_member fun _ _ _ => ih) ho

/-! ### What is derivable is read -/

theorem ne_of_isDigit {c d : Char} (hc : c.isDigit = true) (hd : d.isDigit = false) : c ≠ d := by
  rintro rfl
  rw [hc] at hd
  cases hd

theorem isSpace_eq_false_of_isDigit {c : Char} (h : c.isDigit = true) : isSpace c = false := by
  simp only [isSpace, Bool.or_eq_false_iff, beq_eq_false_iff_ne]
  exact ⟨⟨⟨ne_of_isDigit h (by decide), ne_of_isDigit h (by decide)⟩, ne_of_isDigit h (by decide)⟩,
    ne_of_isDigit h (by decide)⟩

/-- What a value can begin with. -/
theorem head_of_reads_value {j : Json} {s r : List Char} (h : Reads (.value j) s r) :
    ∃ c s', s = c :: s' ∧ isSpace c = false ∧ c ≠ ']' := by
  cases h with
  | number h =>
    obtain ⟨c, u, rfl, hc, -, -⟩ := numberAt_eq_ok h
    obtain rfl | hc := hc
    · exact ⟨_, _, rfl, by decide, by decide⟩
    · exact ⟨_, _, rfl, isSpace_eq_false_of_isDigit hc, ne_of_isDigit hc (by decide)⟩
  | _ => exact ⟨_, _, rfl, by decide, by decide⟩

theorem head_of_reads_member {m : String × Json} {s r : List Char} (h : Reads (.member m) s r) :
    ∃ t, s = '"' :: t := by
  cases h
  exact ⟨_, rfl⟩

theorem length_skipSpace (s : List Char) : (skipSpace s).length ≤ s.length :=
  (List.dropWhile_suffix _).length_le

theorem length_of_skipSpace {s t : List Char} {c : Char} (h : skipSpace s = c :: t) :
    t.length < s.length := by
  have hl := length_skipSpace s
  rw [h, List.length_cons] at hl
  omega

/-- Every phrase takes a character. -/
theorem length_of_reads {p : Phrase} {s r : List Char} (h : Reads p s r) : r.length < s.length := by
  induction h with
  | null | yes | no =>
    simp only [List.length_cons]
    omega
  | number h =>
    obtain ⟨c, u, rfl, -⟩ := numberAt_eq_ok h
    simp only [List.length_cons, List.length_append]
    omega
  | string h =>
    have hl := length_of_spells h
    rw [List.length_cons]
    omega
  | emptyArray h | emptyObject h =>
    have hl := length_of_skipSpace h
    rw [List.length_cons]
    omega
  | @array _ _ s _ _ _ _ ih1 ih2 | @object _ _ s _ _ _ _ ih1 ih2 =>
    have hl := length_skipSpace s
    rw [List.length_cons]
    omega
  | lastItem h | lastMember h => exact length_of_skipSpace h
  | @nextItem _ _ _ s1 _ _ h _ _ ih1 ih2 | @nextMember _ _ _ s1 _ _ h _ _ ih1 ih2 =>
    have hl := length_of_skipSpace h
    have hl1 := length_skipSpace s1
    omega
  | @member _ _ _ _ s2 _ hk hc _ ih =>
    have hl := length_of_spells hk
    have hl1 := length_of_skipSpace hc
    have hl2 := length_skipSpace s2
    rw [List.length_cons]
    omega

/-- How deep a phrase is nested. -/
def Phrase.depth : Phrase → Nat
  | .value j => j.depth
  | .items js => Json.depthItems js
  | .member m => m.2.depth
  | .members ms => Json.depthMembers ms

/-- The reader of a phrase gives it, with enough fuel and room for its depth. -/
def Accepts (r : List Char) : Phrase → List Char → Prop
  | .value j, s => ∀ fuel depth, s.length < fuel → j.depth ≤ depth → value fuel depth s = .ok (j, r)
  | .items js, s => ∀ fuel depth, s.length < fuel → Json.depthItems js ≤ depth →
      ∀ more taken, s.length < more →
      items (value fuel depth) more taken s = .ok (taken.reverse ++ js, r)
  | .member m, s => ∀ fuel depth, s.length < fuel → m.2.depth ≤ depth →
      member (value fuel depth) fuel s = .ok (m, r)
  | .members ms, s => ∀ fuel depth, s.length < fuel → Json.depthMembers ms ≤ depth →
      ∀ more taken, s.length < more →
      members (member (value fuel depth) fuel) more taken s = .ok (taken.reverse ++ ms, r)

theorem value_of_numberAt {n : Number} {s r : List Char} (h : numberAt s = .ok (n, r))
    (fuel depth : Nat) : value fuel depth s = .ok (.num n, r) := by
  obtain ⟨c, u, rfl, hc, -, -⟩ := numberAt_eq_ok h
  unfold value
  obtain rfl | hc := hc
  · have hn : number true (u ++ r) = .ok (n, r) := h
    simp [hn, Except.map]
  · have hm := ne_of_isDigit hc (d := '-') (by decide)
    rw [numberAt_of_ne hm] at h
    rw [if_neg (ne_of_isDigit hc (by decide)), if_neg (ne_of_isDigit hc (by decide)),
      if_neg (ne_of_isDigit hc (by decide)), if_neg hm, if_pos hc, h]
    rfl

section Steps

variable {item : Reader Json} {one : Reader (String × Json)} {fuel : Nat} {c : Char}
  {s s₁ s₂ t r : List Char}

theorem items_cons (h : skipSpace s = ',' :: s₁) (ht : skipSpace s₁ = c :: t) (hc : c ≠ ']')
    {j : Json} (hj : item (skipSpace s₁) = .ok (j, s₂)) (taken : List Json) :
    items item (fuel + 1) taken s = items item fuel (j :: taken) s₂ := by
  rw [items, h]
  simp only
  rw [ht] at hj ⊢
  split
  · cases ‹_›
  · exact absurd (List.cons.inj ‹_›).1 hc
  · rw [hj]

theorem members_cons (h : skipSpace s = ',' :: s₁) (ht : skipSpace s₁ = c :: t) (hc : c ≠ '}')
    {m : String × Json} (hm : one (skipSpace s₁) = .ok (m, s₂)) (taken : Members) :
    members one (fuel + 1) taken s = members one fuel (m :: taken) s₂ := by
  rw [members, h]
  simp only
  rw [ht] at hm ⊢
  split
  · cases ‹_›
  · exact absurd (List.cons.inj ‹_›).1 hc
  · rw [hm]

theorem array_cons (ht : skipSpace s = c :: t) (hc : c ≠ ']') {j : Json}
    (hj : item (skipSpace s) = .ok (j, s₁)) {js : List Json}
    (hjs : items item fuel [j] s₁ = .ok (js, r)) :
    array item fuel s = .ok (.arr js, r) := by
  unfold array
  rw [ht] at hj ⊢
  split
  · cases ‹_›
  · exact absurd (List.cons.inj ‹_›).1 hc
  · rw [hj]
    simp only [hjs]

theorem object_cons (ht : skipSpace s = c :: t) (hc : c ≠ '}') {m : String × Json}
    (hm : one (skipSpace s) = .ok (m, s₁)) : object one fuel s = members one fuel [m] s₁ := by
  unfold object
  rw [ht] at hm ⊢
  split
  · cases ‹_›
  · exact absurd (List.cons.inj ‹_›).1 hc
  · rw [hm]

end Steps

/-- What is derivable is read, with enough fuel and room for the depth. -/
theorem accepts_of_reads {p : Phrase} {s r : List Char} (h : Reads p s r) : Accepts r p s := by
  induction h with
  | null | yes | no =>
    intro fuel depth _ _
    unfold value
    simp [word, Except.map]
  | number h => exact fun fuel depth _ _ => value_of_numberAt h fuel depth
  | string h =>
    intro fuel depth hf _
    rw [List.length_cons] at hf
    have hs := stringBody_of_spells h (show _ < fuel by omega) []
    unfold value
    simp [hs, Except.map]
  | emptyArray h =>
    intro fuel depth _ hd
    obtain ⟨depth, rfl⟩ : ∃ d, depth = d + 1 := ⟨depth - 1, by simp only [Json.depth] at hd; omega⟩
    simp [value, array, h]
  | @array j js s s' r hj hjs ihj ihjs =>
    intro fuel depth hf hd
    obtain ⟨depth, rfl⟩ : ∃ d, depth = d + 1 := ⟨depth - 1, by simp only [Json.depth] at hd; omega⟩
    obtain ⟨c, t, ht, -, hc⟩ := head_of_reads_value hj
    have hl := length_skipSpace s
    have hl' := length_of_reads hj
    rw [List.length_cons] at hf
    simp only [Json.depth, Json.depthItems, Nat.add_le_add_iff_right, Nat.max_le] at hd
    have h1 := ihj fuel depth (by omega) hd.1
    have h2 := ihjs fuel depth (by omega) hd.2 fuel [j] (by omega)
    have harr : array (value fuel depth) fuel s = .ok (.arr (j :: js), r) := array_cons ht hc h1 h2
    simp [value, harr]
  | lastItem h =>
    intro fuel depth _ _ more taken hm
    obtain ⟨more, rfl⟩ : ∃ m, more = m + 1 := ⟨more - 1, by omega⟩
    simp [items, h]
  | @nextItem j js s s1 s2 r h hj hjs ihj ihjs =>
    intro fuel depth hf hd more taken hm
    obtain ⟨more, rfl⟩ : ∃ m, more = m + 1 := ⟨more - 1, by omega⟩
    obtain ⟨c, t, ht, -, hc⟩ := head_of_reads_value hj
    have hl := length_of_skipSpace h
    have hl1 := length_skipSpace s1
    have hl2 := length_of_reads hj
    simp only [Json.depthItems, Nat.max_le] at hd
    have h1 := ihj fuel depth (by omega) hd.1
    rw [items_cons h ht hc h1, ihjs fuel depth (by omega) hd.2 more (j :: taken) (by omega)]
    simp
  | emptyObject h =>
    intro fuel depth _ hd
    obtain ⟨depth, rfl⟩ : ∃ d, depth = d + 1 := ⟨depth - 1, by simp only [Json.depth] at hd; omega⟩
    simp [value, object, h, Except.map]
  | @object m ms s s' r hm hms ihm ihms =>
    intro fuel depth hf hd
    obtain ⟨depth, rfl⟩ : ∃ d, depth = d + 1 := ⟨depth - 1, by simp only [Json.depth] at hd; omega⟩
    obtain ⟨t, ht⟩ := head_of_reads_member hm
    have hl := length_skipSpace s
    have hl' := length_of_reads hm
    rw [List.length_cons] at hf
    simp only [Json.depth, Json.depthMembers, Nat.add_le_add_iff_right, Nat.max_le] at hd
    have h1 := ihm fuel depth (by omega) hd.1
    have h2 := ihms fuel depth (by omega) hd.2 fuel [m] (by omega)
    have hobj : object (member (value fuel depth) fuel) fuel s = .ok (m :: ms, r) :=
      (object_cons ht (by decide) h1).trans h2
    simp [value, hobj, Except.map]
  | @member cs j s s1 s2 r hk hc hj ihj =>
    intro fuel depth hf hd
    have hl := length_of_spells hk
    have hl1 := length_of_skipSpace hc
    have hl2 := length_skipSpace s2
    rw [List.length_cons] at hf
    have h1 := stringBody_of_spells hk (show _ < fuel by omega) []
    have h2 := ihj fuel depth (by omega) hd
    simp [Read.member, h1, hc, h2]
  | lastMember h =>
    intro fuel depth _ _ more taken hm
    obtain ⟨more, rfl⟩ : ∃ m, more = m + 1 := ⟨more - 1, by omega⟩
    simp [members, h]
  | @nextMember m ms s s1 s2 r h hm hms ihm ihms =>
    intro fuel depth hf hd more taken hmore
    obtain ⟨more, rfl⟩ : ∃ m, more = m + 1 := ⟨more - 1, by omega⟩
    obtain ⟨t, ht⟩ := head_of_reads_member hm
    have hl := length_of_skipSpace h
    have hl1 := length_skipSpace s1
    have hl2 := length_of_reads hm
    simp only [Json.depthMembers, Nat.max_le] at hd
    have h1 := ihm fuel depth (by omega) hd.1
    rw [members_cons h ht (by decide) h1,
      ihms fuel depth (by omega) hd.2 more (m :: taken) (by omega)]
    simp

theorem value_of_reads {j : Json} {s r : List Char} (h : Reads (.value j) s r) {fuel depth : Nat}
    (hf : s.length < fuel) (hd : j.depth ≤ depth) : value fuel depth s = .ok (j, r) :=
  accepts_of_reads h fuel depth hf hd

/-- A text spells one value. -/
theorem reads_value_unique {j k : Json} {s r t : List Char} (hj : Reads (.value j) s r)
    (hk : Reads (.value k) s t) : j = k ∧ r = t := by
  have h1 := value_of_reads hj (Nat.lt_succ_self _) (Nat.le_max_left j.depth k.depth)
  have h2 := value_of_reads hk (Nat.lt_succ_self _) (Nat.le_max_right j.depth k.depth)
  exact Prod.mk.inj (Except.ok.inj (h1.symm.trans h2))

/-! ### Ends of values -/

/-- The characters that may follow a value. -/
def endsValue (c : Char) : Bool := isSpace c || c == ',' || c == ']' || c == '}'

/-- A value may end here. -/
def Ends (s : List Char) : Prop := ∀ c ∈ s.head?, endsValue c = true

theorem ends_nil : Ends [] := by simp [Ends]

theorem Ends.stops {s : List Char} (h : Ends s) : Stops s := by
  intro c hc
  have he := h c hc
  simp only [endsValue, isSpace, Bool.or_eq_true, beq_iff_eq] at he
  obtain (((((rfl | rfl) | rfl) | rfl) | rfl) | rfl) | rfl := he <;> decide

theorem skipSpace_cons {c : Char} (h : isSpace c = false) (s : List Char) :
    skipSpace (c :: s) = c :: s := by
  rw [skipSpace, List.dropWhile_cons_of_neg (by simp [h])]

theorem ends_of_skipSpace {s t : List Char} {c : Char} (h : skipSpace s = c :: t)
    (hc : endsValue c = true) : Ends s := by
  cases s with
  | nil => exact ends_nil
  | cons d s =>
    rintro e ⟨rfl⟩
    by_cases hd : isSpace d = true
    · simp [endsValue, hd]
    · rw [skipSpace_cons (Bool.not_eq_true _ ▸ hd)] at h
      rwa [(List.cons.inj h).1]

theorem ends_of_reads_items {js : List Json} {s r : List Char} (h : Reads (.items js) s r) :
    Ends s := by
  cases h with
  | lastItem h | nextItem h => exact ends_of_skipSpace h (by decide)

theorem ends_of_reads_members {ms : Members} {s r : List Char} (h : Reads (.members ms) s r) :
    Ends s := by
  cases h with
  | lastMember h | nextMember h => exact ends_of_skipSpace h (by decide)

theorem ends_of_skipSpace_eq_nil {s : List Char} (h : skipSpace s = []) : Ends s := by
  cases s with
  | nil => exact ends_nil
  | cons c s =>
    rintro d ⟨rfl⟩
    have hc := List.dropWhile_eq_nil_iff.1 h c List.mem_cons_self
    simp [endsValue, hc]

/-! ### Whole texts -/

/-- A text that is read spells the value, with blanks around. -/
theorem reads_of_readRaw {s : List Char} {j : Json} (h : Json.readRaw s = .ok j) :
    ∃ r, Reads (.value j) (skipSpace s) r ∧ skipSpace r = [] := by
  unfold Json.readRaw whole at h
  split at h
  · cases h
  · rename_i j' r hv
    split at h
    · rename_i hr
      obtain rfl := Except.ok.inj h
      exact ⟨r, (reads_of_value hv).1, hr⟩
    · cases h

/-- An object that is read is spelled by the text, and is not nested too deep. -/
theorem reads_of_onlyObject {fuel : Nat} {ms : Members} {s r : List Char}
    (h : onlyObject fuel s = .ok (ms, r)) :
    Reads (.value (.obj ms)) s r ∧ (Json.obj ms).depth ≤ depthLimit := by
  unfold onlyObject at h
  split at h
  · exact reads_of_object (fun _ _ _ => reads_of_member fun _ _ _ => reads_of_value) h
  · cases h
  · split at h
    · cases h
    · cases h

theorem reads_of_parseObject {s : List Char} {ms : Members} (h : Json.parseObject s = .ok ms) :
    ∃ raw r, Reads (.value (.obj raw)) (skipSpace s) r ∧ (Json.obj raw).depth ≤ depthLimit := by
  unfold Json.parseObject whole at h
  obtain ⟨raw, hraw, -⟩ := map_eq_ok h
  split at hraw
  · cases hraw
  · rename_i raw' r hobject
    obtain ⟨hread, hdepth⟩ := reads_of_onlyObject hobject
    exact ⟨raw', r, hread, hdepth⟩

/-- A text that spells a value, with blanks around, is read if the value is not nested too deep. -/
theorem readRaw_of_reads {s r : List Char} {j : Json} (h : Reads (.value j) (skipSpace s) r)
    (hr : skipSpace r = []) (hd : j.depth ≤ depthLimit) : Json.readRaw s = .ok j := by
  have hv := value_of_reads h (Nat.lt_succ_of_le (length_skipSpace s)) hd
  unfold Json.readRaw whole
  rw [hv]
  simp only [hr]

end Read

end Stencil
