import Stencil.Proofs.Except
import Stencil.Proofs.Template.Declarations

/-!
# The tokens of a text

A token is a leftmost, shortest stretch of a text from two opening braces to two closing ones, and
the next token is looked for behind it. `Tokens` says so of a text and a list of sites, without the
cut; each text has one such list, the one that the cut finds (`tokens_iff`). What the scan of a text
gives follows site by site (`scan_iff_tokens`).
-/

namespace Stencil

namespace Template

open Text

/-! ### The first pair of a character -/

/-- The two characters between a beginning and the rest of a text are the first such pair in it. -/
structure FirstPair (c : Char) (text lit rest : List Char) : Prop where
  eq : text = lit ++ c :: c :: rest
  first : ¬ [c, c] <:+: lit ++ [c]

theorem FirstPair.nil (c : Char) (rest : List Char) : FirstPair c (c :: c :: rest) [] rest :=
  ⟨rfl, fun h => by simpa using h.length_le⟩

theorem FirstPair.cons {c d : Char} {text lit rest : List Char} (h : FirstPair c text lit rest)
    (hno : ∀ rest, d :: text ≠ c :: c :: rest) : FirstPair c (d :: text) (d :: lit) rest := by
  refine ⟨by rw [h.eq, List.cons_append], fun hpair => ?_⟩
  rcases List.infix_cons_iff.1 hpair with hpair | hpair
  · obtain ⟨u, hu⟩ := hpair
    refine hno (u ++ c :: rest) ?_
    calc d :: text = (d :: lit ++ [c]) ++ c :: rest := by simp [h.eq]
      _ = ([c, c] ++ u) ++ c :: rest := congrArg (· ++ c :: rest) hu.symm
  · exact h.first hpair

/-- A text holds a pair, and then a first one, or it holds none. -/
theorem firstPair_or_not (c : Char) (text : List Char) :
    (∃ lit rest, FirstPair c text lit rest) ∨ ¬ [c, c] <:+: text := by
  induction text with
  | nil => exact .inr fun h => by simpa using h.length_le
  | cons d text ih =>
    by_cases hpair : ∃ rest, d :: text = c :: c :: rest
    · obtain ⟨rest, hpair⟩ := hpair
      exact .inl ⟨_, _, hpair ▸ FirstPair.nil c rest⟩
    · rw [not_exists] at hpair
      rcases ih with ⟨lit, rest, h⟩ | h
      · exact .inl ⟨_, _, h.cons hpair⟩
      · refine .inr fun hin => ?_
        rcases List.infix_cons_iff.1 hin with ⟨rest, hin⟩ | hin
        · exact hpair rest hin.symm
        · exact h hin

/-- No pair begins in a text that holds none and gets none by one more character. -/
theorem length_le_of_not_pair {c : Char} {lit text lit' rest' : List Char}
    (hlit : ¬ [c, c] <:+: lit ++ [c]) (h : lit ++ text = lit' ++ c :: c :: rest') :
    lit.length ≤ lit'.length := by
  by_contra hlt
  rcases List.append_eq_append_iff.1 h with ⟨u, hu, _⟩ | ⟨u, hu, hrest⟩
  · rw [hu, List.length_append] at hlt
    omega
  · cases u with
    | nil =>
      rw [hu, List.append_nil] at hlt
      omega
    | cons d u =>
      rw [List.cons_append, List.cons.injEq] at hrest
      obtain ⟨rfl, hrest⟩ := hrest
      refine hlit ?_
      cases u with
      | nil => exact ⟨lit', [], by simp [hu]⟩
      | cons d' u =>
        rw [List.cons_append, List.cons.injEq] at hrest
        obtain ⟨rfl, hrest⟩ := hrest
        exact ⟨lit', u ++ [c], by simp [hu]⟩

theorem FirstPair.length_le {c : Char} {text lit rest lit' rest' : List Char}
    (h : FirstPair c text lit rest) (h' : text = lit' ++ c :: c :: rest') :
    lit.length ≤ lit'.length :=
  length_le_of_not_pair h.first (h.eq.symm.trans h')

/-- A beginning with the first pair behind it does not go on with the pair any earlier. -/
theorem not_pair_cons {c d : Char} {lit rest : List Char} (h : ¬ [c, c] <:+: (d :: lit) ++ [c])
    (hd : d = c) (rest' : List Char) : lit ++ c :: rest ≠ c :: rest' := by
  subst hd
  intro heq
  refine h ?_
  cases lit with
  | nil => exact ⟨[], [], rfl⟩
  | cons e lit =>
    rw [List.cons_append, List.cons.injEq] at heq
    exact ⟨[], lit ++ [d], by simp [heq.1]⟩

/-! ### What the cut finds -/

theorem cutFrom_literal {lit : List Char} (h : ¬ ['{', '{'] <:+: lit ++ ['{'])
    (before rest : List Char) : cutFrom before none (lit ++ '{' :: '{' :: rest) =
      cutFrom (lit.reverse ++ before) (some []) rest := by
  induction lit generalizing before with
  | nil => rfl
  | cons d lit ih =>
    have htail : ¬ ['{', '{'] <:+: lit ++ ['{'] := fun hp => h (hp.trans (List.suffix_cons d _).isInfix)
    rw [List.cons_append, cutFrom, ih htail, List.reverse_cons, List.append_assoc]
    · rfl
    · exact fun rest' hd heq => not_pair_cons h hd rest' heq

theorem cutFrom_inside {inside : List Char} (h : ¬ ['}', '}'] <:+: inside ++ ['}'])
    (before opened after : List Char) :
    cutFrom before (some opened) (inside ++ '}' :: '}' :: after) =
      literalOf before ++ .token (opened.reverse ++ inside) :: cutFrom [] none after := by
  induction inside generalizing opened with
  | nil => rw [List.nil_append, cutFrom, List.append_nil]
  | cons d inside ih =>
    have htail : ¬ ['}', '}'] <:+: inside ++ ['}'] := fun hp =>
      h (hp.trans (List.suffix_cons d _).isInfix)
    rw [List.cons_append, cutFrom, ih htail, List.reverse_cons, List.append_assoc]
    · rfl
    · exact fun rest' hd heq => not_pair_cons h hd rest' heq

theorem cutFrom_unopened {text : List Char} (h : ¬ ['{', '{'] <:+: text) (before : List Char) :
    cutFrom before none text = literalOf (text.reverse ++ before) := by
  induction text generalizing before with
  | nil => rfl
  | cons d text ih =>
    rw [cutFrom, ih fun hp => h (hp.trans (List.suffix_cons d _).isInfix), List.reverse_cons,
      List.append_assoc]
    · rfl
    · rintro rest rfl rfl
      exact h ⟨[], rest, rfl⟩

theorem cutFrom_unclosed {text : List Char} (h : ¬ ['}', '}'] <:+: text)
    (before opened : List Char) : cutFrom before (some opened) text =
      literalOf (text.reverse ++ (opened ++ '{' :: '{' :: before)) := by
  induction text generalizing opened with
  | nil => rfl
  | cons d text ih =>
    rw [cutFrom, ih fun hp => h (hp.trans (List.suffix_cons d _).isInfix), List.reverse_cons,
      List.append_assoc]
    · rfl
    · rintro rest rfl rfl
      exact h ⟨[], rest, rfl⟩

/-! ### Leftmost, shortest stretches -/

/-- Between a beginning of a text and its end stands a stretch from two opening braces to two closing
ones; none stands further left, and none that begins in the same place is shorter. -/
structure IsToken (text before inside after : List Char) : Prop where
  eq : text = before ++ ((Piece.token inside).source ++ after)
  leftmost : ∀ before' inside' after', text = before' ++ ((Piece.token inside').source ++ after') →
    before.length ≤ before'.length
  shortest : ∀ inside' after', text = before ++ ((Piece.token inside').source ++ after') →
    inside.length ≤ inside'.length

theorem source_append (inside after : List Char) : (Piece.token inside).source ++ after =
    '{' :: '{' :: (inside ++ '}' :: '}' :: after) := by
  simp [Piece.source]

theorem isToken_of_firstPairs {text before rest inside after : List Char}
    (ho : FirstPair '{' text before rest) (hc : FirstPair '}' rest inside after) :
    IsToken text before inside after where
  eq := by rw [ho.eq, hc.eq, source_append]
  leftmost before' inside' after' h := ho.length_le (by rw [h, source_append])
  shortest inside' after' h := by
    have hrest : rest = inside' ++ '}' :: '}' :: after' := by
      rw [ho.eq, source_append] at h
      simpa using h
    exact hc.length_le hrest

/-- Text without two closing braces behind the first two opening ones holds no stretch. -/
theorem not_closed {text lit rest : List Char} (ho : FirstPair '{' text lit rest)
    (hc : ¬ ['}', '}'] <:+: rest) (before inside after : List Char) :
    text ≠ before ++ ((Piece.token inside).source ++ after) := by
  intro h
  rw [source_append] at h
  have hle := ho.length_le h
  rw [ho.eq] at h
  obtain ⟨u, hu⟩ : ∃ u, '{' :: '{' :: rest = u ++ '{' :: '{' :: (inside ++ '}' :: '}' :: after) := by
    rcases List.append_eq_append_iff.1 h with ⟨u, _, hu⟩ | ⟨u, hu, hrest⟩
    · exact ⟨u, hu⟩
    · rw [hu, List.length_append] at hle
      obtain rfl : u = [] := List.eq_nil_of_length_eq_zero (by omega)
      exact ⟨[], hrest.symm⟩
  have hin : ['}', '}'] <:+: '{' :: '{' :: rest :=
    ⟨u ++ '{' :: '{' :: inside, after, by rw [hu]; simp⟩
  have hdrop {s : List Char} (hs : ['}', '}'] <:+: '{' :: s) : ['}', '}'] <:+: s := by
    rcases List.infix_cons_iff.1 hs with ⟨v, hv⟩ | hs
    · cases hv
    · exact hs
  exact hc (hdrop (hdrop hin))

/-- A text has a token, which the first two opening braces and the first two closing ones behind them
enclose, or the cut finds none in it. -/
theorem token_or_not (text : List Char) :
    (∃ before rest inside after, FirstPair '{' text before rest ∧ FirstPair '}' rest inside after) ∨
      (∀ before inside after, text ≠ before ++ ((Piece.token inside).source ++ after)) ∧
        cut text = literalOf text.reverse := by
  rcases firstPair_or_not '{' text with ⟨before, rest, ho⟩ | ho
  · rcases firstPair_or_not '}' rest with ⟨inside, after, hc⟩ | hc
    · exact .inl ⟨before, rest, inside, after, ho, hc⟩
    · refine .inr ⟨not_closed ho hc, ?_⟩
      rw [ho.eq, cut, cutFrom_literal ho.first, cutFrom_unclosed hc]
      simp
  · refine .inr ⟨?_, ?_⟩
    · rintro before inside after rfl
      exact ho ⟨before, inside ++ '}' :: '}' :: after, by simp [Piece.source]⟩
    · rw [cut, cutFrom_unopened ho, List.append_nil]

theorem cut_of_firstPairs {text before rest inside after : List Char}
    (ho : FirstPair '{' text before rest) (hc : FirstPair '}' rest inside after) :
    cut text = literalOf before.reverse ++ .token inside :: cut after := by
  rw [cut, ho.eq, cutFrom_literal ho.first, hc.eq, cutFrom_inside hc.first, List.append_nil]
  rfl

/-- There is one token that is leftmost and shortest. -/
theorem IsToken.unique {text before inside after before' inside' after' : List Char}
    (h : IsToken text before inside after) (h' : IsToken text before' inside' after') :
    before = before' ∧ inside = inside' ∧ after = after' := by
  have hlen := Nat.le_antisymm (h.leftmost _ _ _ h'.eq) (h'.leftmost _ _ _ h.eq)
  obtain ⟨rfl, heq⟩ := List.append_inj (h.eq.symm.trans h'.eq) hlen
  have hlen := Nat.le_antisymm (h.shortest _ _ h'.eq) (h'.shortest _ _ h.eq)
  rw [source_append, source_append] at heq
  obtain ⟨rfl, hafter⟩ := List.append_inj (List.cons.inj (List.cons.inj heq).2).2 hlen
  exact ⟨rfl, rfl, (List.cons.inj (List.cons.inj hafter).2).2⟩

/-! ### All tokens -/

/-- Where a token stands in a text: the text in front of it, and the text between its braces. -/
structure Site where
  before : List Char
  inside : List Char

/-- The byte that a token begins at. -/
def Site.start (s : Site) : Nat := (String.ofList s.before).utf8ByteSize

/-- The byte behind a token. -/
def Site.stop (s : Site) : Nat :=
  (String.ofList (s.before ++ (Piece.token s.inside).source)).utf8ByteSize

/-- The tokens of the rest of a text, behind what is done: each one is the first behind the one
before. -/
inductive Tokens : (done rest : List Char) → List Site → Prop
  | none {done rest : List Char}
      (h : ∀ before inside after, rest ≠ before ++ ((Piece.token inside).source ++ after)) :
      Tokens done rest []
  | next {done rest before inside after : List Char} {sites : List Site}
      (h : IsToken rest before inside after)
      (hnext : Tokens (done ++ before ++ (Piece.token inside).source) after sites) :
      Tokens done rest (⟨done ++ before, inside⟩ :: sites)

/-- The tokens among pieces, behind what is done. -/
def sitesFrom : List Char → List Piece → List Site
  | _, [] => []
  | done, .literal text :: rest => sitesFrom (done ++ text) rest
  | done, .token inside :: rest =>
    ⟨done, inside⟩ :: sitesFrom (done ++ (Piece.token inside).source) rest

theorem sitesFrom_literalOf (done text : List Char) (rest : List Piece) :
    sitesFrom done (literalOf text.reverse ++ rest) = sitesFrom (done ++ text) rest := by
  cases text with
  | nil => simp [literalOf]
  | cons c text => simp [literalOf, sitesFrom]

/-- The cut finds the tokens. -/
theorem tokens_cut (done rest : List Char) : Tokens done rest (sitesFrom done (cut rest)) := by
  rcases token_or_not rest with ⟨before, opened, inside, after, ho, hc⟩ | ⟨hno, hcut⟩
  · have htoken := isToken_of_firstPairs ho hc
    have hlen : after.length < rest.length := by
      rw [htoken.eq]
      simp [Piece.source]
      omega
    rw [cut_of_firstPairs ho hc, sitesFrom_literalOf, sitesFrom]
    exact .next htoken (tokens_cut _ after)
  · have hnil := sitesFrom_literalOf done rest []
    rw [List.append_nil] at hnil
    rw [hcut, hnil]
    exact .none hno
termination_by rest.length

theorem Tokens.unique {done rest : List Char} {sites sites' : List Site}
    (h : Tokens done rest sites) (h' : Tokens done rest sites') : sites' = sites := by
  induction h generalizing sites' with
  | none hno =>
    cases h' with
    | none => rfl
    | next htoken => exact absurd htoken.eq (hno _ _ _)
  | next htoken _ ih =>
    cases h' with
    | none hno => exact absurd htoken.eq (hno _ _ _)
    | next htoken' hnext =>
      obtain ⟨rfl, rfl, rfl⟩ := htoken.unique htoken'
      rw [ih hnext]

/-- A text has one list of tokens. -/
theorem tokens_iff {done rest : List Char} {sites : List Site} :
    Tokens done rest sites ↔ sites = sitesFrom done (cut rest) :=
  ⟨(tokens_cut done rest).unique, fun h => h ▸ tokens_cut done rest⟩

/-! ### The scan -/

theorem byteCount_eq (s : List Char) : byteCount s = (String.ofList s).utf8ByteSize := by
  have hfold (n : Nat) : s.foldl (fun n c => n + c.utf8Size) n = n + (String.ofList s).utf8ByteSize := by
    induction s generalizing n with
    | nil => simp
    | cons c s ih =>
      have hcons : String.ofList (c :: s) = String.singleton c ++ String.ofList s := by
        rw [← List.singleton_append, String.ofList_append]
        rfl
      rw [List.foldl_cons, ih, hcons, String.utf8ByteSize_append, String.utf8ByteSize_singleton,
        Nat.add_assoc]
  rw [byteCount, hfold, Nat.zero_add]

theorem utf8ByteSize_add (done text : List Char) :
    (String.ofList done).utf8ByteSize + byteCount text =
      (String.ofList (done ++ text)).utf8ByteSize := by
  rw [byteCount_eq, String.ofList_append, String.utf8ByteSize_append]

/-- Reads the token of a site. -/
def Site.read (template : String) (site : Site) : Except Problem Span :=
  match readToken site.inside with
  | .ok token => .ok ⟨site.start, site.stop, token⟩
  | .error fault =>
    .error (.invalidPlaceholder template (String.ofList (trim site.inside)) fault.message)

theorem spansFrom_read (template : String) (done : List Char) (pieces : List Piece) :
    (pieces.mapM (Piece.read template)).map (spansFrom (String.ofList done).utf8ByteSize) =
      (sitesFrom done pieces).mapM (Site.read template) := by
  induction pieces generalizing done with
  | nil => rfl
  | cons piece pieces ih =>
    cases piece with
    | literal text =>
      rw [sitesFrom, ← ih, List.mapM_cons, ← utf8ByteSize_add]
      cases pieces.mapM (Piece.read template) <;> rfl
    | token inside =>
      rw [sitesFrom, List.mapM_cons, List.mapM_cons, ← ih, Site.read, Piece.read, ← utf8ByteSize_add]
      cases readToken inside with
      | error fault => rfl
      | ok token =>
        have hstop : Site.stop ⟨done, inside⟩ =
            (String.ofList done).utf8ByteSize + byteCount (Piece.token inside).source :=
          (utf8ByteSize_add _ _).symm
        rw [hstop]
        cases pieces.mapM (Piece.read template) <;> rfl

/-- A scan reads every token in its place. -/
theorem scan_eq (template text : String) :
    scan template text = (sitesFrom [] (cut text.toList)).mapM (Site.read template) := by
  rw [← spansFrom_read]
  rfl

theorem Site.read_eq_ok_iff {template : String} {site : Site} {span : Span} :
    site.read template = .ok span ↔
      DeclaresToken site.inside span.token ∧ span.start = site.start ∧ span.stop = site.stop := by
  rw [← readToken_eq_ok_iff, Site.read]
  cases readToken site.inside with
  | error fault => simp
  | ok token =>
    obtain ⟨start, stop, token'⟩ := span
    simp only [Except.ok.injEq, Span.mk.injEq]
    constructor
    · rintro ⟨rfl, rfl, rfl⟩
      exact ⟨rfl, rfl, rfl⟩
    · rintro ⟨rfl, rfl, rfl⟩
      exact ⟨rfl, rfl, rfl⟩

theorem Site.read_eq_error_iff {template : String} {site : Site} {p : Problem} :
    site.read template = .error p ↔ ∃ core fault, Trims site.inside core ∧
      MisdeclaresToken site.inside fault ∧
        p = .invalidPlaceholder template (String.ofList core) fault.message := by
  simp only [← readToken_eq_error_iff, trims_iff]
  rw [Site.read]
  cases readToken site.inside with
  | error fault => simp [eq_comm]
  | ok token => simp

theorem Site.reads_iff {template : String} {site : Site} :
    (∃ span, site.read template = .ok span) ↔ Follows site.inside := by
  rw [follows_iff]
  constructor
  · rintro ⟨span, h⟩
    exact ⟨span.token, (Site.read_eq_ok_iff.1 h).1⟩
  · rintro ⟨token, h⟩
    exact ⟨⟨site.start, site.stop, token⟩, Site.read_eq_ok_iff.2 ⟨h, rfl, rfl⟩⟩

/-- A text has one list of tokens. Its scan succeeds if each of them is a remark or a placeholder by
the grammar, and gives each one in its place with what it declares; otherwise the scan refuses the
first one that is neither. -/
theorem scan_iff_tokens (template text : String) : ∃ sites,
    (∀ sites', Tokens [] text.toList sites' ↔ sites' = sites) ∧
    ((∃ spans, scan template text = .ok spans) ↔ ∀ site ∈ sites, Follows site.inside) ∧
    (∀ spans, scan template text = .ok spans ↔ List.Forall₂ (fun site span =>
      DeclaresToken site.inside span.token ∧ span.start = site.start ∧ span.stop = site.stop)
      sites spans) ∧
    ∀ p, scan template text = .error p ↔ ∃ before site after core fault,
      sites = before ++ site :: after ∧ (∀ earlier ∈ before, Follows earlier.inside) ∧
        Trims site.inside core ∧ MisdeclaresToken site.inside fault ∧
          p = .invalidPlaceholder template (String.ofList core) fault.message := by
  refine ⟨sitesFrom [] (cut text.toList), fun sites' => tokens_iff, ?_, fun spans => ?_, fun p => ?_⟩
  · rw [scan_eq, exists_mapM_iff]
    exact forall₂_congr fun site _ => Site.reads_iff
  · rw [scan_eq, mapM_eq_ok_iff]
    simp only [Site.read_eq_ok_iff]
  · rw [scan_eq, mapM_eq_error_iff]
    simp only [Site.read_eq_error_iff, Site.reads_iff]
    constructor
    · rintro ⟨before, site, after, hsites, hbefore, core, fault, h⟩
      exact ⟨before, site, after, core, fault, hsites, hbefore, h⟩
    · rintro ⟨before, site, after, core, fault, hsites, hbefore, h⟩
      exact ⟨before, site, after, hsites, hbefore, core, fault, h⟩

end Template

end Stencil
