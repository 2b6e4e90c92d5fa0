import Mathlib.Data.List.Infix
import Stencil.Catalog.Stored
import Stencil.Proofs.Op
import Stencil.Proofs.Text.Ascii

/-!
# What a content hash says about the content

The hash of a set is taken of all its texts, each behind a heading line that gives its kind and its
name. Nothing marks the end of a text, so a text that holds such a line reads like two entries:
`contentHash_joined` says of any set with two templates that another set has its hash.

If no name has a line feed and no text a line like a heading behind its first line, the entries are
told apart (`content_eq_iff`). For such sets equal hashes mean equal content, and a status says whether
the content of a stored set differs from that of its source (`updateAvailable_iff_content_ne`).
-/

namespace Stencil

namespace Sha256

/-- The digests of two messages are equal only if the messages are. -/
def Separates (x y : List UInt8) : Prop := digest x = digest y → x = y

theorem digitChar_inj_of_lt_sixteen :
    ∀ a < 16, ∀ b < 16, Nat.digitChar a = Nat.digitChar b → a = b := by
  decide

theorem hex_injective : Function.Injective hex := by
  intro x y h
  induction x generalizing y with
  | nil =>
    cases y with
    | nil => rfl
    | cons c y => simp [hex] at h
  | cons b x ih =>
    cases y with
    | nil => simp [hex] at h
    | cons c y =>
      have hb := b.toNat_lt
      have hc := c.toNat_lt
      obtain ⟨hhigh, hlow, hrest⟩ : Nat.digitChar (b.toNat / 16) = Nat.digitChar (c.toNat / 16) ∧
          Nat.digitChar (b.toNat % 16) = Nat.digitChar (c.toNat % 16) ∧ hex x = hex y := by
        simpa [hex] using h
      have h1 := digitChar_inj_of_lt_sixteen _ (by omega) _ (by omega) hhigh
      have h2 := digitChar_inj_of_lt_sixteen _ (by omega) _ (by omega) hlow
      have hbyte : b = c := UInt8.toNat_inj.1 (by omega)
      rw [hbyte, ih hrest]

end Sha256

namespace Bundle

/-! ### Entries and headings -/

/-- What opens a heading line. -/
def headings : List (List Char) := ["template:".toList, "schema:".toList]

/-- The name is one line, and no line of the text but its first could be a heading. -/
structure PlainEntry (e : String × String) : Prop where
  name : '\n' ∉ e.1.toList
  text : ∀ h ∈ headings, ¬ ('\n' :: h) <:+: e.2.toList

instance (e : String × String) : Decidable (PlainEntry e) :=
  decidable_of_iff ('\n' ∉ e.1.toList ∧ ∀ h ∈ headings, ¬ ('\n' :: h) <:+: e.2.toList)
    ⟨fun h => ⟨h.1, h.2⟩, fun h => ⟨h.name, h.text⟩⟩

/-- All entries of a set are plain. -/
def Plain (templates schemas : NameMap String) : Prop :=
  (∀ e ∈ templates, PlainEntry e) ∧ ∀ e ∈ schemas, PlainEntry e

instance (templates schemas : NameMap String) : Decidable (Plain templates schemas) :=
  inferInstanceAs (Decidable (_ ∧ _))

/-- The entries of both kinds in one list, each with what opens its heading. -/
def tagged (templates schemas : NameMap String) : List (List Char × (String × String)) :=
  templates.map ("template:".toList, ·) ++ schemas.map ("schema:".toList, ·)

/-- The text of a tagged entry. -/
def taggedText (p : List Char × (String × String)) : List Char :=
  p.1 ++ (p.2.1.toList ++ '\n' :: (p.2.2.toList ++ ['\n']))

theorem entryText_template (e : String × String) :
    entryText "template" e = taggedText ("template:".toList, e) := by
  have h : "template:".toList = "template".toList ++ [':'] := by decide
  rw [entryText, taggedText, h, List.append_assoc, List.singleton_append]

theorem entryText_schema (e : String × String) :
    entryText "schema" e = taggedText ("schema:".toList, e) := by
  have h : "schema:".toList = "schema".toList ++ [':'] := by decide
  rw [entryText, taggedText, h, List.append_assoc, List.singleton_append]

theorem content_eq_flatMap (templates schemas : NameMap String) :
    content templates schemas = (tagged templates schemas).flatMap taggedText := by
  have ht : entryText "template" = fun e => taggedText ("template:".toList, e) :=
    funext entryText_template
  have hs : entryText "schema" = fun e => taggedText ("schema:".toList, e) := funext entryText_schema
  rw [content, tagged, List.flatMap_append, List.flatMap_map, List.flatMap_map, ht, hs]

/-- A tag with an entry that can be read back. -/
structure PlainTagged (p : List Char × (String × String)) : Prop where
  tag : p.1 ∈ headings
  entry : PlainEntry p.2

theorem plainTagged_of_mem {templates schemas : NameMap String} (h : Plain templates schemas) :
    ∀ p ∈ tagged templates schemas, PlainTagged p := by
  intro p hp
  rcases List.mem_append.1 hp with hp | hp
  · obtain ⟨e, he, rfl⟩ := List.mem_map.1 hp
    exact ⟨by simp [headings], h.1 e he⟩
  · obtain ⟨e, he, rfl⟩ := List.mem_map.1 hp
    exact ⟨by simp [headings], h.2 e he⟩

/-! ### Reading entries back -/

theorem not_newline_mem_of_mem_headings {h : List Char} (hh : h ∈ headings) : '\n' ∉ h := by
  revert h
  decide

/-- The openings of headings differ in their first characters. -/
theorem eq_of_headings_append {h h' x y : List Char} (hh : h ∈ headings) (hh' : h' ∈ headings)
    (he : h ++ x = h' ++ y) : h = h' ∧ x = y := by
  simp only [headings, List.mem_cons, List.not_mem_nil, or_false] at hh hh'
  rcases hh with rfl | rfl <;> rcases hh' with rfl | rfl <;> simp_all

/-- What stands before the first line feed, and what stands behind it. -/
theorem eq_of_line_append {a b x y : List Char} (ha : '\n' ∉ a) (hb : '\n' ∉ b)
    (h : a ++ '\n' :: x = b ++ '\n' :: y) : a = b ∧ x = y := by
  have hl : ∀ c ∈ a, (c != '\n') = true := fun c hc => by
    rw [bne_iff_ne]
    rintro rfl
    exact ha hc
  have hr : ∀ c ∈ b, (c != '\n') = true := fun c hc => by
    rw [bne_iff_ne]
    rintro rfl
    exact hb hc
  have ht := congrArg (List.takeWhile (· != '\n')) h
  rw [List.takeWhile_append_of_pos hl, List.takeWhile_append_of_pos hr] at ht
  obtain rfl : a = b := by simpa using ht
  exact ⟨rfl, by simpa using h⟩

/-- The entries that are left are none, or they begin with a heading. -/
def Opens (rest : List Char) : Prop := rest = [] ∨ ∃ h ∈ headings, h <+: rest

theorem opens_flatMap {ps : List (List Char × (String × String))} (h : ∀ p ∈ ps, PlainTagged p) :
    Opens (ps.flatMap taggedText) := by
  cases ps with
  | nil => exact .inl rfl
  | cons p ps =>
    refine .inr ⟨p.1, (h p List.mem_cons_self).tag, ?_⟩
    rw [List.flatMap_cons, taggedText, List.append_assoc]
    exact List.prefix_append _ _

/-- A heading in front of a text and a line feed is in front of the text. -/
theorem prefix_of_prefix_append {h a x : List Char} (hn : '\n' ∉ h) (hp : h <+: a ++ '\n' :: x) :
    h <+: a := by
  rcases List.prefix_or_prefix_of_prefix hp (List.prefix_append a _) with h' | ⟨t, rfl⟩
  · exact h'
  · rw [List.prefix_append_right_inj] at hp
    cases t with
    | nil => simp
    | cons c t =>
      obtain rfl : c = '\n' := (List.cons_prefix_cons.1 hp).1
      simp at hn

/-- A text without headings ends where the next entry begins: it cannot be the shorter one. -/
theorem eq_nil_of_text_longer {a x y : List Char} (hx : Opens x) {text : List Char}
    (ht : ∀ h ∈ headings, ¬ ('\n' :: h) <:+: text ++ a) (h : '\n' :: x = a ++ '\n' :: y) : a = [] := by
  cases a with
  | nil => rfl
  | cons c a =>
    obtain ⟨rfl, rfl⟩ : '\n' = c ∧ x = a ++ '\n' :: y := by simpa using h
    rcases hx with hx | ⟨g, hg, hp⟩
    · simp at hx
    · have hga := prefix_of_prefix_append (not_newline_mem_of_mem_headings hg) hp
      refine absurd ?_ (ht g hg)
      exact ((List.cons_prefix_cons.2 ⟨rfl, hga⟩).isInfix).trans
        (List.suffix_append text ('\n' :: a)).isInfix

/-- A text without headings ends where the next entry begins. -/
theorem eq_of_text_append {a b x y : List Char} (ha : ∀ h ∈ headings, ¬ ('\n' :: h) <:+: a)
    (hb : ∀ h ∈ headings, ¬ ('\n' :: h) <:+: b) (hx : Opens x) (hy : Opens y)
    (h : a ++ '\n' :: x = b ++ '\n' :: y) : a = b ∧ x = y := by
  rcases List.append_eq_append_iff.1 h with ⟨t, rfl, ht⟩ | ⟨t, rfl, ht⟩
  · obtain rfl := eq_nil_of_text_longer hx hb ht
    simpa using ht
  · obtain rfl := eq_nil_of_text_longer hy ha ht
    simpa [eq_comm] using ht

/-- The entries are read back from their text. -/
theorem eq_of_flatMap_taggedText {ps qs : List (List Char × (String × String))}
    (hp : ∀ p ∈ ps, PlainTagged p) (hq : ∀ q ∈ qs, PlainTagged q)
    (h : ps.flatMap taggedText = qs.flatMap taggedText) : ps = qs := by
  induction ps generalizing qs with
  | nil =>
    cases qs with
    | nil => rfl
    | cons q qs => simp [taggedText] at h
  | cons p ps ih =>
    cases qs with
    | nil => simp [taggedText] at h
    | cons q qs =>
      have hp' := hp p List.mem_cons_self
      have hq' := hq q List.mem_cons_self
      have hps : ∀ p ∈ ps, PlainTagged p := fun r hr => hp r (List.mem_cons_of_mem _ hr)
      have hqs : ∀ q ∈ qs, PlainTagged q := fun r hr => hq r (List.mem_cons_of_mem _ hr)
      obtain ⟨g, name, text⟩ := p
      obtain ⟨g', name', text'⟩ := q
      simp only [List.flatMap_cons, taggedText, List.append_assoc, List.cons_append,
        List.nil_append] at h
      obtain ⟨hg, h⟩ := eq_of_headings_append hp'.tag hq'.tag h
      obtain ⟨hname, h⟩ := eq_of_line_append hp'.entry.name hq'.entry.name h
      obtain ⟨htext, h⟩ := eq_of_text_append hp'.entry.text hq'.entry.text (opens_flatMap hps)
        (opens_flatMap hqs) h
      simp only at hg hname htext
      rw [hg, String.toList_inj.1 hname, String.toList_inj.1 htext, ih hps hqs h]

theorem tagged_inj {templates schemas templates' schemas' : NameMap String}
    (h : tagged templates schemas = tagged templates' schemas') :
    templates = templates' ∧ schemas = schemas' := by
  have hkind (k : List Char) (m : NameMap String) (g : List Char) :
      (m.map (g, ·)).filterMap (fun p => if p.1 = k then some p.2 else none) =
        if g = k then m else [] := by
    by_cases hg : g = k <;> simp [hg, List.filterMap_map]
  have ht := congrArg (List.filterMap fun p => if p.1 = "template:".toList then some p.2 else none) h
  have hs := congrArg (List.filterMap fun p => if p.1 = "schema:".toList then some p.2 else none) h
  simp only [tagged, List.filterMap_append, hkind] at ht hs
  exact ⟨by simpa using ht, by simpa using hs⟩

/-- The hashed text of plain entries tells the entries. -/
theorem content_eq_iff {templates schemas templates' schemas' : NameMap String}
    (h : Plain templates schemas) (h' : Plain templates' schemas') :
    content templates schemas = content templates' schemas' ↔
      templates = templates' ∧ schemas = schemas' := by
  constructor
  · intro hc
    rw [content_eq_flatMap, content_eq_flatMap] at hc
    exact tagged_inj (eq_of_flatMap_taggedText (plainTagged_of_mem h) (plainTagged_of_mem h') hc)
  · rintro ⟨rfl, rfl⟩
    rfl

/-! ### Hashes -/

/-- The bytes that the content hash is the digest of. -/
def hashedBytes (templates schemas : NameMap String) : List UInt8 :=
  Text.bytes (String.ofList (content templates schemas))

theorem contentHash_eq_iff_digest (templates schemas templates' schemas' : NameMap String) :
    contentHash templates schemas = contentHash templates' schemas' ↔
      Sha256.digest (hashedBytes templates schemas) =
        Sha256.digest (hashedBytes templates' schemas') := by
  constructor
  · intro h
    have hl := congrArg String.toList h
    simp only [contentHash, String.toList_append, String.toList_ofList,
      List.append_cancel_left_eq] at hl
    exact Sha256.hex_injective hl
  · intro h
    rw [hashedBytes, hashedBytes] at h
    rw [contentHash, contentHash, h]

theorem content_eq_of_hashedBytes_eq {templates schemas templates' schemas' : NameMap String}
    (h : hashedBytes templates schemas = hashedBytes templates' schemas') :
    content templates schemas = content templates' schemas' := by
  have ht := congrArg Text.ofBytes? h
  rw [hashedBytes, hashedBytes, Text.ofBytes?_bytes, Text.ofBytes?_bytes] at ht
  exact String.ofList_inj.1 (Option.some.inj ht)

theorem contentHash_eq_iff {templates schemas templates' schemas' : NameMap String}
    (h : Plain templates schemas) (h' : Plain templates' schemas')
    (hs : Sha256.Separates (hashedBytes templates schemas) (hashedBytes templates' schemas')) :
    contentHash templates schemas = contentHash templates' schemas' ↔
      templates = templates' ∧ schemas = schemas' := by
  rw [contentHash_eq_iff_digest]
  constructor
  · intro hd
    exact (content_eq_iff h h').1 (content_eq_of_hashedBytes_eq (hs hd))
  · rintro ⟨rfl, rfl⟩
    rfl

/-- Two templates that follow one another have the hash of one template that holds both. -/
theorem contentHash_joined (before : NameMap String) (name text name' text' : String)
    (schemas : NameMap String) :
    contentHash (before ++ [(name, text), (name', text')]) schemas =
      contentHash (before ++ [(name, text ++ "\ntemplate:" ++ name' ++ "\n" ++ text')]) schemas := by
  have hc : content (before ++ [(name, text), (name', text')]) schemas =
      content (before ++ [(name, text ++ "\ntemplate:" ++ name' ++ "\n" ++ text')]) schemas := by
    simp [content, entryText]
  rw [contentHash, contentHash, hc]

end Bundle

/-! ### The status of a stored set -/

namespace StoredSets

variable {σ : Type} (c : StoredSets σ) {source : Catalog σ} {set : String} {s s₁ s₂ s₃ : σ}
  {b b' : Bundle}

/-- The status of a set that the source has too. -/
theorem result_status (hb : Op.result (c.readSet set) s = (.ok b, s₁))
    (hh : Op.result (source.hasSet set) s₁ = (.ok true, s₂))
    (hd : Op.result (source.setData set) s₂ = (.ok b', s₃)) :
    Op.result (c.status set (some source)) s =
      (.ok ⟨b.name, b.hash, c.known.supports b.name b.hash, b'.hash != b.hash⟩, s₃) := by
  have hdiff : Op.result (differs source b set) s₁ = (.ok (b'.hash != b.hash), s₃) := by
    rw [differs, Op.result_bind_of_ok hh, if_pos rfl, Op.result_bind_of_ok hd]
    rfl
  rw [status, Op.result_bind_of_ok hb, Op.result_bind_of_ok hdiff]
  rfl

/-- **What the content hash tells**: between two sets without lines that look like headings, the hashes
are equal exactly if the templates and the schema files are; and if both go with the hashes of
their content, the status of the stored one says that there is an update exactly if its content differs
from that of the source. -/
theorem updateAvailable_iff_content_ne (h : Bundle.Plain b.templates b.schemas)
    (h' : Bundle.Plain b'.templates b'.schemas)
    (hs : Sha256.Separates (Bundle.hashedBytes b.templates b.schemas)
      (Bundle.hashedBytes b'.templates b'.schemas)) :
    (Bundle.contentHash b.templates b.schemas = Bundle.contentHash b'.templates b'.schemas ↔
      b.templates = b'.templates ∧ b.schemas = b'.schemas) ∧
    ∀ {σ : Type} (c : StoredSets σ) (source : Catalog σ) (set : String) (s s₁ s₂ s₃ : σ),
      Op.result (c.readSet set) s = (.ok b, s₁) →
      Op.result (source.hasSet set) s₁ = (.ok true, s₂) →
      Op.result (source.setData set) s₂ = (.ok b', s₃) →
      b.verified = true → b'.verified = true →
      ∃ status, Op.result (c.status set (some source)) s = (.ok status, s₃) ∧
        (status.updateAvailable = true ↔ ¬ (b.templates = b'.templates ∧ b.schemas = b'.schemas)) := by
  have hiff := Bundle.contentHash_eq_iff h h' hs
  refine ⟨hiff, fun c source set s s₁ s₂ s₃ hb hh hd hv hv' => ⟨_, result_status c hb hh hd, ?_⟩⟩
  rw [Bundle.verified, beq_iff_eq] at hv hv'
  rw [bne_iff_ne, hv, hv', ← hiff]
  exact ne_comm

/-- A text that is a template in the store and a schema file in the source. -/
theorem updateAvailable_moved :
    let b : Bundle := Bundle.build "set" [("a", "\x7b\x7d\nend")] []
    let b' : Bundle := Bundle.build "set" [] [("a", "\x7b\x7d\nend")]
    let here : StoredSets ((NameMap Json × NameMap Json) × Workshop) :=
      ⟨Store.memory.lift (Lens.fst.comp Lens.fst), Lens.snd, .empty⟩
    let there : StoredSets ((NameMap Json × NameMap Json) × Workshop) :=
      ⟨Store.memory.lift (Lens.fst.comp Lens.snd), Lens.snd, .empty⟩
    let s := (([("set", b.toJson)], [("set", b'.toJson)]), Workshop.empty 1)
    Bundle.contentHash b.templates b.schemas ≠ Bundle.contentHash b'.templates b'.schemas ∧
      ∃ status, Op.result (here.status "set" (some there.catalog)) s = (.ok status, s) ∧
        status.updateAvailable = true := by
  intro b b' here there s
  have hs : Sha256.Separates (Bundle.hashedBytes b.templates b.schemas)
      (Bundle.hashedBytes b'.templates b'.schemas) := by
    intro hd
    revert hd
    decide +kernel
  have hne : ¬ (b.templates = b'.templates ∧ b.schemas = b'.schemas) := by decide
  obtain ⟨hiff, hstatus⟩ := @updateAvailable_iff_content_ne b b' (by decide +kernel)
    (by decide +kernel) hs
  obtain ⟨status, hr, hu⟩ := hstatus here there.catalog "set" s s s s rfl rfl rfl (beq_self_eq_true _)
    (beq_self_eq_true _)
  exact ⟨fun he => hne (hiff.1 he), status, hr, hu.2 hne⟩

end StoredSets

end Stencil
