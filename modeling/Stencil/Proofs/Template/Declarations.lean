import Stencil.Proofs.Text.Ascii
import Stencil.Proofs.Text.Words
import Stencil.Template.Scan

/-!
# What a token declares

The grammar of the text between double braces, without the reader. `Declares` says which token a text
declares: a remark behind `!`, or a name with a type and a default in up to three parts, cut at the
first two colons. `Misdeclares` says what is wrong with a text that declares none. The reader decides
both (`readToken_eq_ok_iff`, `readToken_eq_error_iff`), so each text has a token or a fault, and one
only.
-/

namespace Stencil

namespace Template

open Text

/-! ### Names -/

/-- A letter of the English alphabet. -/
def IsLetter (c : Char) : Prop := 'A' ≤ c ∧ c ≤ 'Z' ∨ 'a' ≤ c ∧ c ≤ 'z'

/-- A letter or `_`, then letters, decimal digits, `_`, `.` and `-`. -/
def IsIdentifier : List Char → Prop
  | [] => False
  | c :: rest => (IsLetter c ∨ c = '_') ∧
    ∀ d ∈ rest, IsLetter d ∨ ('0' ≤ d ∧ d ≤ '9') ∨ d = '_' ∨ d = '.' ∨ d = '-'

theorem isAlpha_iff {c : Char} : c.isAlpha = true ↔ IsLetter c := by
  unfold Char.isAlpha
  rw [Bool.or_eq_true, isUpper_iff_toNat, isLower_iff_toNat]
  rfl

theorem isNameStart_iff {c : Char} : isNameStart c = true ↔ IsLetter c ∨ c = '_' := by
  rw [isNameStart, Bool.or_eq_true, isAlpha_iff, beq_iff_eq]

theorem isNameChar_iff {c : Char} : isNameChar c = true ↔
    IsLetter c ∨ ('0' ≤ c ∧ c ≤ '9') ∨ c = '_' ∨ c = '.' ∨ c = '-' := by
  have hdigit : c.isDigit = true ↔ '0' ≤ c ∧ c ≤ '9' := by simp [Char.isDigit, Char.le_def]
  simp only [isNameChar, Char.isAlphanum, Bool.or_eq_true, isAlpha_iff, hdigit, beq_iff_eq, or_assoc]

theorem isName_iff {s : List Char} : isName s = true ↔ IsIdentifier s := by
  cases s with
  | nil => simp [isName, IsIdentifier]
  | cons c rest => simp [isName, IsIdentifier, isNameStart_iff, isNameChar_iff]

theorem IsIdentifier.ne_nil {s : List Char} (h : IsIdentifier s) : s ≠ [] := by
  rintro rfl
  exact h

/-- What is written behind the mark of a remark is no name. -/
theorem not_isIdentifier_mark (s : List Char) : ¬ IsIdentifier ('!' :: s) := by
  rw [← isName_iff]
  simp [isName, isNameStart]

/-! ### Parts -/

/-- The name, the kind and the rest of a text: it is cut at its first two colons, and each part is
trimmed. -/
inductive Parts : List Char → List Char → Option (List Char) → Option (List Char) → Prop where
  | name {s name : List Char} (hs : ':' ∉ s) (hname : Trims s name) : Parts s name none none
  | kind {s t name kind : List Char} (hs : ':' ∉ s) (ht : ':' ∉ t) (hname : Trims s name)
      (hkind : Trims t kind) : Parts (s ++ ':' :: t) name (some kind) none
  | extra {s t u name kind extra : List Char} (hs : ':' ∉ s) (ht : ':' ∉ t) (hname : Trims s name)
      (hkind : Trims t kind) (hextra : Trims u extra) :
      Parts (s ++ ':' :: (t ++ ':' :: u)) name (some kind) (some extra)

theorem splitAtMost_of_not_mem {sep : Char} {s : List Char} (h : sep ∉ s) (n : Nat) :
    splitAtMost sep n s = [s] := by
  have hall : ∀ c ∈ s, (c != sep) = true := fun c hc => bne_iff_ne.2 fun he => h (he ▸ hc)
  cases n with
  | zero => rfl
  | succ n => rw [splitAtMost, List.dropWhile_eq_nil_iff.2 hall]

theorem splitAtMost_append {sep : Char} {s : List Char} (h : sep ∉ s) (n : Nat) (t : List Char) :
    splitAtMost sep (n + 1) (s ++ sep :: t) = s :: splitAtMost sep n t := by
  have hcut := takeWhile_append_stop (p := (· != sep)) (s := s) (t := sep :: t)
    (fun c hc => bne_iff_ne.2 fun he => h (he ▸ hc)) (by simp)
  rw [splitAtMost, hcut.1, hcut.2]

/-- The parts of a text, as the reader finds them. -/
theorem Parts.eq {s name : List Char} {kind extra : Option (List Char)}
    (h : Parts s name kind extra) :
    (splitAtMost ':' 2 s).map trim = name :: (kind.toList ++ extra.toList) := by
  cases h with
  | name hs hname => rw [splitAtMost_of_not_mem hs, ← trims_iff.1 hname]; rfl
  | kind hs ht hname hkind =>
    rw [splitAtMost_append hs, splitAtMost_of_not_mem ht, ← trims_iff.1 hname, ← trims_iff.1 hkind]
    rfl
  | extra hs ht hname hkind hextra =>
    rw [splitAtMost_append hs, splitAtMost_append ht, ← trims_iff.1 hname, ← trims_iff.1 hkind,
      ← trims_iff.1 hextra]
    rfl

/-- There is nothing behind a kind that is not there. -/
theorem Parts.extra_eq_none {s name : List Char} {extra : Option (List Char)}
    (h : Parts s name none extra) : extra = none := by
  cases h
  rfl

theorem exists_parts (s : List Char) : ∃ name kind extra, Parts s name kind extra := by
  by_cases hmem : ':' ∈ s
  · obtain ⟨s, t, rfl, hs⟩ := List.eq_append_cons_of_mem hmem
    by_cases hmem' : ':' ∈ t
    · obtain ⟨t, u, rfl, ht⟩ := List.eq_append_cons_of_mem hmem'
      exact ⟨_, _, _, .extra hs ht (trims_trim s) (trims_trim t) (trims_trim u)⟩
    · exact ⟨_, _, _, .kind hs hmem' (trims_trim s) (trims_trim t)⟩
  · exact ⟨_, _, _, .name hmem (trims_trim s)⟩

/-! ### Defaults -/

/-- What a text gives as the default of a type: the value that it spells, if the type takes it. As a
string, a text that spells none stands for itself. -/
inductive DefaultOf (p : Primitive) (text : List Char) : Json → Prop where
  | spelled {v : Json} (hread : Json.parse text = .ok v) (hv : p.admits v = true) : DefaultOf p text v
  | verbatim (hp : p = .string) (hread : ∀ v, Json.parse text = .ok v → p.admits v = false) :
      DefaultOf p text (.str (String.ofList text))

theorem readDefault_of_admits {p : Primitive} {text : List Char} {v : Json}
    (hread : Json.parse text = .ok v) (hv : p.admits v = true) : readDefault p text = .ok v := by
  rw [readDefault, hread]
  exact if_pos hv

theorem readDefault_of_not_admits {p : Primitive} {text : List Char}
    (hread : ∀ v, Json.parse text = .ok v → p.admits v = false) :
    readDefault p text = if p = .string then .ok (.str (String.ofList text))
      else .error (.badDefault (String.ofList text) p) := by
  rw [readDefault]
  cases h : Json.parse text with
  | error e => rfl
  | ok v => exact if_neg (by simp [hread v h])

theorem readDefault_of_defaultOf {p : Primitive} {text : List Char} {v : Json}
    (h : DefaultOf p text v) : readDefault p text = .ok v := by
  cases h with
  | spelled hread hv => exact readDefault_of_admits hread hv
  | verbatim hp hread => rw [readDefault_of_not_admits hread, if_pos hp]

theorem readDefault_of_none {p : Primitive} {text : List Char} (h : ∀ v, ¬ DefaultOf p text v) :
    readDefault p text = .error (.badDefault (String.ofList text) p) := by
  have hread : ∀ v, Json.parse text = .ok v → p.admits v = false := fun v hv =>
    Bool.eq_false_iff.2 fun ha => h v (.spelled hv ha)
  rw [readDefault_of_not_admits hread, if_neg fun hp => h _ (.verbatim hp hread)]

/-- Every text is the default of a string. -/
theorem exists_defaultOf_string (text : List Char) : ∃ v, DefaultOf .string text v := by
  by_cases h : ∃ v, Json.parse text = .ok v ∧ Primitive.string.admits v = true
  · obtain ⟨v, hread, hv⟩ := h
    exact ⟨v, .spelled hread hv⟩
  · exact ⟨_, .verbatim rfl fun v hread => Bool.eq_false_iff.2 fun hv => h ⟨v, hread, hv⟩⟩

/-! ### Types -/

/-- The kinds that are types of JSON values, with the type that a parameter gets and the one that
its defaults have. -/
inductive Basic : List Char → ParameterType → Primitive → Prop where
  | text : Basic "text".toList .text .string
  | primitive (p : Primitive) : Basic p.name.toList (.primitive p) p

theorem readType_of_basic {name kind : List Char} {extra : Option (List Char)} {type : ParameterType}
    {p : Primitive} (h : Basic kind type p) :
    readType name kind extra = (readExtra p extra).map (type, ·) := by
  cases h with
  | text => rfl
  | primitive p => cases p <;> rfl

theorem Basic.ne_nil {kind : List Char} {type : ParameterType} {p : Primitive}
    (h : Basic kind type p) : kind ≠ [] := by
  cases h with
  | text => decide
  | primitive p => cases p <;> decide

/-- A kind that is no type of JSON values is the name of a schema set. -/
theorem readType_of_not_basic {name kind : List Char} {extra : Option (List Char)} (h0 : kind ≠ [])
    (h : ∀ type p, ¬ Basic kind type p) : readType name kind extra =
      if !isName kind then .error .badSetName
      else match extra with
        | some [] => .error .emptyFragment
        | some fragment => .ok (.fragment (String.ofList kind) (String.ofList fragment), none)
        | none => .ok (.fragment (String.ofList kind) (String.ofList name), none) := by
  have htext : kind ≠ "text".toList := by
    rintro rfl
    exact h _ _ .text
  have hname : Primitive.ofName? (String.ofList kind) = none := by
    refine List.find?_eq_none.2 fun p _ hp => h (.primitive p) p ?_
    rw [← String.toList_ofList (l := kind), ← beq_iff_eq.1 hp]
    exact .primitive p
  unfold readType
  rewrite [if_neg (by simp [h0]), if_neg htext, hname]
  rfl

/-- What a kind and the text behind it declare for a parameter with a name. A type of JSON values
takes a default, and the fragment of a schema set has the name of the parameter or one of its own. -/
inductive Declares (name kind : List Char) : Option (List Char) → ParameterType → Option Json → Prop
  | plain {type : ParameterType} {p : Primitive} (hkind : Basic kind type p) :
      Declares name kind none type none
  | default {type : ParameterType} {p : Primitive} {text : List Char} {v : Json}
      (hkind : Basic kind type p) (hv : DefaultOf p text v) :
      Declares name kind (some text) type (some v)
  | fragment (hkind : ∀ type p, ¬ Basic kind type p) (hname : IsIdentifier kind) :
      Declares name kind none (.fragment (String.ofList kind) (String.ofList name)) none
  | renamed {fragment : List Char} (hkind : ∀ type p, ¬ Basic kind type p)
      (hname : IsIdentifier kind) (hfragment : fragment ≠ []) :
      Declares name kind (some fragment)
        (.fragment (String.ofList kind) (String.ofList fragment)) none

/-- What is wrong with a kind and the text behind it. -/
inductive Mistyped (kind : List Char) : Option (List Char) → TokenFault → Prop
  | noKind {extra : Option (List Char)} (hkind : kind = []) : Mistyped kind extra .emptyType
  | noValue {type : ParameterType} {p : Primitive} {text : List Char} (hkind : Basic kind type p)
      (hv : ∀ v, ¬ DefaultOf p text v) :
      Mistyped kind (some text) (.badDefault (String.ofList text) p)
  | noName {extra : Option (List Char)} (h0 : kind ≠ []) (hkind : ∀ type p, ¬ Basic kind type p)
      (hname : ¬ IsIdentifier kind) : Mistyped kind extra .badSetName
  | noFragment (hkind : ∀ type p, ¬ Basic kind type p) (hname : IsIdentifier kind) :
      Mistyped kind (some []) .emptyFragment

theorem readType_of_declares {name kind : List Char} {extra : Option (List Char)}
    {type : ParameterType} {default : Option Json} (h : Declares name kind extra type default) :
    readType name kind extra = .ok (type, default) := by
  cases h with
  | plain hkind => rw [readType_of_basic hkind]; rfl
  | default hkind hv => rw [readType_of_basic hkind, readExtra, readDefault_of_defaultOf hv]; rfl
  | fragment hkind hname =>
    rw [readType_of_not_basic hname.ne_nil hkind, isName_iff.2 hname]
    rfl
  | @renamed fragment hkind hname hfragment =>
    obtain ⟨c, rest, rfl⟩ := List.exists_cons_of_ne_nil hfragment
    rw [readType_of_not_basic hname.ne_nil hkind, isName_iff.2 hname]
    rfl

theorem readType_of_mistyped {name kind : List Char} {extra : Option (List Char)} {fault : TokenFault}
    (h : Mistyped kind extra fault) : readType name kind extra = .error fault := by
  cases h with
  | noKind hkind => rw [hkind]; rfl
  | noValue hkind hv => rw [readType_of_basic hkind, readExtra, readDefault_of_none hv]; rfl
  | noName h0 hkind hname =>
    rw [readType_of_not_basic h0 hkind, if_pos (by rw [Bool.eq_false_iff.2 (isName_iff.not.2 hname)]; rfl)]
  | noFragment hkind hname =>
    rw [readType_of_not_basic hname.ne_nil hkind, isName_iff.2 hname]
    rfl

/-- Any kind and any text behind it declare something or are wrong. -/
theorem declares_or_mistyped (name kind : List Char) (extra : Option (List Char)) :
    (∃ type default, Declares name kind extra type default) ∨ ∃ fault, Mistyped kind extra fault := by
  by_cases h0 : kind = []
  · exact .inr ⟨_, .noKind h0⟩
  by_cases hkind : ∃ type p, Basic kind type p
  · obtain ⟨type, p, hkind⟩ := hkind
    cases extra with
    | none => exact .inl ⟨_, _, .plain hkind⟩
    | some text =>
      by_cases hv : ∃ v, DefaultOf p text v
      · exact .inl ⟨_, _, .default hkind hv.choose_spec⟩
      · exact .inr ⟨_, .noValue hkind (not_exists.1 hv)⟩
  · have hno : ∀ type p, ¬ Basic kind type p := fun type p h => hkind ⟨type, p, h⟩
    by_cases hname : IsIdentifier kind
    · cases extra with
      | none => exact .inl ⟨_, _, .fragment hno hname⟩
      | some fragment =>
        cases fragment with
        | nil => exact .inr ⟨_, .noFragment hno hname⟩
        | cons c rest => exact .inl ⟨_, _, .renamed hno hname (List.cons_ne_nil c rest)⟩
    · exact .inr ⟨_, .noName h0 hno hname⟩

/-! ### Tokens -/

/-- The text between double braces declares a token. -/
inductive DeclaresToken (inside : List Char) : Token → Prop where
  | comment {mark text : List Char} (hcore : Trims inside ('!' :: mark)) (htext : Trims mark text) :
      DeclaresToken inside (.comment (String.ofList text))
  | bare {core name : List Char} (hcore : Trims inside core) (hparts : Parts core name none none)
      (hname : IsIdentifier name) :
      DeclaresToken inside
        (.placeholder ⟨String.ofList name, String.ofList core, none, none⟩)
  | typed {core name kind : List Char} {extra : Option (List Char)} {type : ParameterType}
      {default : Option Json} (hcore : Trims inside core)
      (hparts : Parts core name (some kind) extra) (hname : IsIdentifier name)
      (htype : Declares name kind extra type default) :
      DeclaresToken inside
        (.placeholder ⟨String.ofList name, String.ofList core, some type, default⟩)

/-- What is wrong with the parts of a placeholder. -/
inductive Misnamed (name : List Char) : Option (List Char) → Option (List Char) → TokenFault → Prop
  | missing {kind extra : Option (List Char)} (hname : name = []) :
      Misnamed name kind extra .missingName
  | bad {kind extra : Option (List Char)} (h0 : name ≠ []) (hname : ¬ IsIdentifier name) :
      Misnamed name kind extra .badName
  | kind {kind : List Char} {extra : Option (List Char)} {fault : TokenFault}
      (hname : IsIdentifier name) (htype : Mistyped kind extra fault) :
      Misnamed name (some kind) extra fault

/-- The text between double braces is no remark, and something is wrong with its parts. -/
def MisdeclaresToken (inside : List Char) (fault : TokenFault) : Prop :=
  ∃ core name kind extra, Trims inside core ∧ (∀ c ∈ core.head?, c ≠ '!') ∧
    Parts core name kind extra ∧ Misnamed name kind extra fault

theorem readToken_of_core {inside core : List Char} (hcore : Trims inside core)
    (hmark : ∀ c ∈ core.head?, c ≠ '!') : readToken inside = (readPlaceholder core).map .placeholder := by
  rw [readToken, trims_iff.1 hcore]
  cases core with
  | nil => rfl
  | cons c core =>
    have hc : c ≠ '!' := hmark c rfl
    simp [hc]

/-- Reads a placeholder from its parts. -/
def readParts (core name : List Char) (kind extra : Option (List Char)) :
    Except TokenFault Placeholder :=
  if name.isEmpty then .error .missingName
  else if !isName name then .error .badName
  else
    match kind with
    | none => .ok ⟨String.ofList name, String.ofList core, none, none⟩
    | some kind =>
      (readType name kind extra).map fun (type, default) =>
        ⟨String.ofList name, String.ofList core, some type, default⟩

theorem readPlaceholder_of_parts {core name : List Char} {kind extra : Option (List Char)}
    (h : Parts core name kind extra) : readPlaceholder core = readParts core name kind extra := by
  unfold readPlaceholder
  rw [h.eq]
  cases h <;> rfl

theorem readParts_of_isIdentifier {name : List Char} (h : IsIdentifier name) (core : List Char)
    (kind extra : Option (List Char)) : readParts core name kind extra =
      match kind with
      | none => .ok ⟨String.ofList name, String.ofList core, none, none⟩
      | some kind => (readType name kind extra).map fun (type, default) =>
        ⟨String.ofList name, String.ofList core, some type, default⟩ := by
  unfold readParts
  rw [if_neg (by simp [h.ne_nil]), isName_iff.2 h]
  rfl

/-- A text whose first part is a name does not begin with the mark of a remark. -/
theorem Parts.head_ne {s name : List Char} {kind extra : Option (List Char)}
    (h : Parts s name kind extra) (hname : IsIdentifier name) : ∀ c ∈ s.head?, c ≠ '!' := by
  have hfirst {s : List Char} (hs : Trims s name) : ∀ c ∈ s.head?, c ≠ '!' := by
    rintro c hc rfl
    cases s with
    | nil => cases hc
    | cons d s =>
      cases hc
      obtain ⟨rest, rfl⟩ := hs.eq_cons (by decide)
      exact not_isIdentifier_mark rest hname
  have hcut {s : List Char} (hs : Trims s name) (t : List Char) :
      ∀ c ∈ (s ++ ':' :: t).head?, c ≠ '!' := by
    cases s with
    | nil =>
      rintro c hc rfl
      cases hc
    | cons d s => exact fun c hc => hfirst hs c hc
  cases h with
  | name _ hs => exact hfirst hs
  | kind _ _ hs => exact hcut hs _
  | extra _ _ hs => exact hcut hs _

theorem readToken_of_declares {inside : List Char} {token : Token} (h : DeclaresToken inside token) :
    readToken inside = .ok token := by
  cases h with
  | comment hcore htext =>
    rw [readToken, trims_iff.1 hcore, ← trims_iff.1 htext]
    rfl
  | bare hcore hparts hname =>
    rw [readToken_of_core hcore (hparts.head_ne hname), readPlaceholder_of_parts hparts,
      readParts_of_isIdentifier hname]
    rfl
  | typed hcore hparts hname htype =>
    rw [readToken_of_core hcore (hparts.head_ne hname), readPlaceholder_of_parts hparts,
      readParts_of_isIdentifier hname]
    simp only [readType_of_declares htype]
    rfl

theorem readToken_of_misdeclares {inside : List Char} {fault : TokenFault}
    (h : MisdeclaresToken inside fault) : readToken inside = .error fault := by
  obtain ⟨core, name, kind, extra, hcore, hmark, hparts, hfault⟩ := h
  rw [readToken_of_core hcore hmark, readPlaceholder_of_parts hparts]
  cases hfault with
  | missing hname => rw [hname]; rfl
  | bad h0 hname =>
    unfold readParts
    rw [if_neg (by simp [h0]), Bool.eq_false_iff.2 (isName_iff.not.2 hname)]
    rfl
  | kind hname htype =>
    rw [readParts_of_isIdentifier hname]
    simp only [readType_of_mistyped htype]
    rfl

/-- Any text declares a token or has a fault. -/
theorem declares_or_misdeclares (inside : List Char) :
    (∃ token, DeclaresToken inside token) ∨ ∃ fault, MisdeclaresToken inside fault := by
  have hcore := trims_trim inside
  by_cases hmark : ∃ mark, trim inside = '!' :: mark
  · obtain ⟨mark, hmark⟩ := hmark
    exact .inl ⟨_, .comment (hmark ▸ hcore) (trims_trim mark)⟩
  · have hplain : ∀ c ∈ (trim inside).head?, c ≠ '!' := by
      rintro c hc rfl
      exact hmark ⟨_, List.eq_cons_of_mem_head? hc⟩
    obtain ⟨name, kind, extra, hparts⟩ := exists_parts (trim inside)
    have hwrong {fault : TokenFault} (h : Misnamed name kind extra fault) :
        ∃ fault, MisdeclaresToken inside fault := ⟨fault, _, _, _, _, hcore, hplain, hparts, h⟩
    by_cases h0 : name = []
    · exact .inr (hwrong (.missing h0))
    by_cases hname : IsIdentifier name
    · cases kind with
      | none =>
        obtain rfl := hparts.extra_eq_none
        exact .inl ⟨_, .bare hcore hparts hname⟩
      | some kind =>
        rcases declares_or_mistyped name kind extra with ⟨_, _, htype⟩ | ⟨_, htype⟩
        · exact .inl ⟨_, .typed hcore hparts hname htype⟩
        · exact .inr (hwrong (.kind hname htype))
    · exact .inr (hwrong (.bad h0 hname))

/-- The reader accepts the texts that declare a token, and gives that token. -/
theorem readToken_eq_ok_iff {inside : List Char} {token : Token} :
    readToken inside = .ok token ↔ DeclaresToken inside token := by
  refine ⟨fun h => ?_, readToken_of_declares⟩
  rcases declares_or_misdeclares inside with ⟨token', ht⟩ | ⟨fault, hf⟩
  · rw [readToken_of_declares ht] at h
    exact Except.ok.inj h ▸ ht
  · rw [readToken_of_misdeclares hf] at h
    cases h

/-- The reader refuses the texts that have a fault, for that fault. -/
theorem readToken_eq_error_iff {inside : List Char} {fault : TokenFault} :
    readToken inside = .error fault ↔ MisdeclaresToken inside fault := by
  refine ⟨fun h => ?_, readToken_of_misdeclares⟩
  rcases declares_or_misdeclares inside with ⟨token, ht⟩ | ⟨fault', hf⟩
  · rw [readToken_of_declares ht] at h
    cases h
  · rw [readToken_of_misdeclares hf] at h
    exact Except.error.inj h ▸ hf

/-! ### Which texts declare a token -/

/-- A kind takes the text behind it: long text and strings take any, another type of JSON values
takes its values, and a schema set takes the name of a fragment. -/
inductive Takes (kind : List Char) : Option (List Char) → Prop
  | text {extra : Option (List Char)} (hkind : kind = "text".toList ∨ kind = "string".toList) :
      Takes kind extra
  | primitive {extra : Option (List Char)} {p : Primitive} (hkind : kind = p.name.toList)
      (hextra : ∀ text, extra = some text → ∃ v, Json.parse text = .ok v ∧ p.admits v = true) :
      Takes kind extra
  | fragment {extra : Option (List Char)} (htext : kind ≠ "text".toList)
      (hkind : ∀ p : Primitive, kind ≠ p.name.toList) (hname : IsIdentifier kind)
      (hextra : extra ≠ some []) : Takes kind extra

/-- The text between double braces is a remark, or a name with a kind that takes the text behind
it. -/
inductive Follows (inside : List Char) : Prop
  | comment {mark : List Char} (hcore : Trims inside ('!' :: mark)) : Follows inside
  | placeholder {core name : List Char} {kind extra : Option (List Char)} (hcore : Trims inside core)
      (hparts : Parts core name kind extra) (hname : IsIdentifier name)
      (hkind : ∀ k, kind = some k → Takes k extra) : Follows inside

theorem not_basic_iff {kind : List Char} : (∀ type p, ¬ Basic kind type p) ↔
    kind ≠ "text".toList ∧ ∀ p : Primitive, kind ≠ p.name.toList := by
  constructor
  · refine fun h => ⟨?_, fun p => ?_⟩
    · rintro rfl
      exact h _ _ .text
    · rintro rfl
      exact h _ _ (.primitive p)
  · rintro ⟨htext, hp⟩ type p (_ | _)
    · exact htext rfl
    · exact hp p rfl

theorem takes_iff {name kind : List Char} {extra : Option (List Char)} :
    Takes kind extra ↔ ∃ type default, Declares name kind extra type default := by
  have hbasic {type : ParameterType} {p : Primitive} (hkind : Basic kind type p)
      (hextra : ∀ text, extra = some text → ∃ v, DefaultOf p text v) :
      ∃ type default, Declares name kind extra type default := by
    cases extra with
    | none => exact ⟨_, _, .plain hkind⟩
    | some text =>
      obtain ⟨v, hv⟩ := hextra text rfl
      exact ⟨_, _, .default hkind hv⟩
  constructor
  · intro h
    cases h with
    | text hkind =>
      rcases hkind with rfl | rfl
      · exact hbasic .text fun text _ => exists_defaultOf_string text
      · exact hbasic (.primitive .string) fun text _ => exists_defaultOf_string text
    | primitive hkind hextra =>
      subst hkind
      refine hbasic (.primitive _) fun text ht => ?_
      obtain ⟨v, hread, hv⟩ := hextra text ht
      exact ⟨v, .spelled hread hv⟩
    | fragment htext hkind hname hextra =>
      have hno := not_basic_iff.2 ⟨htext, hkind⟩
      cases extra with
      | none => exact ⟨_, _, .fragment hno hname⟩
      | some fragment => exact ⟨_, _, .renamed hno hname fun h => hextra (congrArg _ h)⟩
  · rintro ⟨type, default, h⟩
    cases h with
    | plain hkind =>
      cases hkind with
      | text => exact .text (.inl rfl)
      | primitive p => exact .primitive rfl fun _ h => nomatch h
    | default hkind hv =>
      cases hkind with
      | text => exact .text (.inl rfl)
      | primitive p =>
        cases hv with
        | spelled hread hv =>
          exact .primitive rfl fun text ht => ⟨_, Option.some.inj ht ▸ hread, hv⟩
        | verbatim hp hread => exact .text (.inr (by rw [hp]; rfl))
    | fragment hno hname =>
      exact .fragment (not_basic_iff.1 hno).1 (not_basic_iff.1 hno).2 hname fun h => nomatch h
    | renamed hno hname hfragment =>
      exact .fragment (not_basic_iff.1 hno).1 (not_basic_iff.1 hno).2 hname fun h =>
        hfragment (Option.some.inj h)

theorem follows_iff {inside : List Char} :
    Follows inside ↔ ∃ token, DeclaresToken inside token := by
  constructor
  · intro h
    cases h with
    | @comment mark hcore => exact ⟨_, .comment hcore (trims_trim mark)⟩
    | @placeholder core name kind extra hcore hparts hname hkind =>
      cases kind with
      | none =>
        obtain rfl := hparts.extra_eq_none
        exact ⟨_, .bare hcore hparts hname⟩
      | some kind =>
        obtain ⟨_, _, htype⟩ := takes_iff.1 (hkind kind rfl)
        exact ⟨_, .typed hcore hparts hname htype⟩
  · rintro ⟨token, h⟩
    cases h with
    | comment hcore htext => exact .comment hcore
    | bare hcore hparts hname => exact .placeholder hcore hparts hname fun _ h => nomatch h
    | typed hcore hparts hname htype =>
      exact .placeholder hcore hparts hname fun k hk =>
        Option.some.inj hk ▸ takes_iff.2 ⟨_, _, htype⟩

end Template

end Stencil
