import Stencil.Proofs.Catalog.Confinement
import Stencil.Proofs.Catalog.Writes
import Stencil.Proofs.Store.Distinct

/-!
# The order of listings

A catalog lists its sets in order, and in each set the templates in order. The full names are in order,
too, except where the name of a set goes on behind that of another one with a character that comes
before the slash, as in `a` and `a-b` (`fullName_lt_iff`). Nothing sorts the list as a whole, so it rises
exactly when no set overtakes another one in this way (`sorted_unless_overtaken`).
-/

namespace Stencil

namespace Catalog

/-! ### Comparing full names -/

/-- What comes behind a slash in names whose first parts rise. -/
theorem append_slash_lt_iff {s s' : List Char} (h : s < s') (t t' : List Char) :
    s ++ '/' :: t < s' ++ '/' :: t' ↔
      ∀ x rest, s' = s ++ x :: rest → '/' < x ∨ '/' = x ∧ t < rest ++ '/' :: t' := by
  induction s generalizing s' with
  | nil =>
    cases s' with
    | nil => exact absurd h (List.not_lt_nil [])
    | cons y ys =>
      rw [List.nil_append, List.cons_append, List.cons_lt_cons_iff]
      constructor
      · rintro hlt x rest heq
        obtain ⟨rfl, rfl⟩ := List.cons.inj heq
        exact hlt
      · intro hall
        exact hall y ys rfl
  | cons a s ih =>
    cases s' with
    | nil => exact absurd h (List.not_lt_nil _)
    | cons b s' =>
      rw [List.cons_append, List.cons_append, List.cons_lt_cons_iff]
      rcases List.cons_lt_cons_iff.1 h with hab | ⟨rfl, hs⟩
      · refine iff_of_true (.inl hab) fun x rest heq => ?_
        obtain ⟨rfl, -⟩ := List.cons.inj heq
        exact absurd hab (Char.lt_irrefl _)
      · rw [or_iff_right (Char.lt_irrefl a), and_iff_right rfl, ih hs]
        constructor
        · intro hall x rest heq
          exact hall x rest (List.cons.inj heq).2
        · rintro hall x rest rfl
          exact hall x rest rfl

/-- Full names of sets that rise do so, too, unless the second set goes on behind the first one with a
character before the slash, or with a slash and what comes before the template. -/
theorem fullName_lt_iff {set set' : String} (h : set < set') (template template' : String) :
    fullName set template < fullName set' template' ↔
      ∀ x rest, set'.toList = set.toList ++ x :: rest →
        '/' < x ∨ '/' = x ∧ template < fullName (String.ofList rest) template' := by
  simp only [String.lt_iff, toList_fullName, String.toList_ofList] at h ⊢
  exact append_slash_lt_iff h _ _

theorem fullName_lt_fullName (set : String) {template template' : String} (h : template < template') :
    fullName set template < fullName set template' := by
  simp only [String.lt_iff, toList_fullName] at h ⊢
  exact List.append_left_lt (List.cons_lt_cons_iff.2 (.inr ⟨rfl, h⟩))

/-! ### Sets that overtake -/

/-- Of two sets the second one has a template that does not come behind one of the first set, though its
name goes on behind that of the first set. -/
def Overtaken (read : List (String × Bundle)) : Prop :=
  ∃ p ∈ read, ∃ q ∈ read, ∃ template ∈ NameMap.names p.2.templates,
    ∃ template' ∈ NameMap.names q.2.templates, ∃ x rest, q.1.toList = p.1.toList ++ x :: rest ∧
      (x < '/' ∨ x = '/' ∧ fullName (String.ofList rest) template' ≤ template)

/-- The full names of sets that are read in turn. -/
def allNames (read : List (String × Bundle)) : List String := read.flatMap fun p => fullNames p.1 p.2

variable {read : List (String × Bundle)}

theorem pairwise_fullNames (set : String) {b : Bundle} (h : b.templates.Sorted) :
    (fullNames set b).Pairwise (· < ·) :=
  List.pairwise_map.2 ((List.pairwise_map.2 h).imp fun hlt => fullName_lt_fullName set hlt)

/-- Of two sets in order the one with the smaller name comes first. -/
theorem pairs_of_pairwise {R : String × Bundle → String × Bundle → Prop}
    (h : read.Pairwise fun p q => p.1 < q.1 ∧ R p q) {p q : String × Bundle} (hp : p ∈ read)
    (hq : q ∈ read) (hlt : p.1 < q.1) : R p q := by
  obtain ⟨i, hi, rfl⟩ := List.getElem_of_mem hp
  obtain ⟨j, hj, rfl⟩ := List.getElem_of_mem hq
  have hall := List.pairwise_iff_getElem.1 h
  rcases Nat.lt_trichotomy i j with hij | rfl | hji
  · exact (hall i j hi hj hij).2
  · exact absurd hlt (String.lt_irrefl _)
  · exact absurd (String.lt_trans hlt (hall j i hj hi hji).1) (String.lt_irrefl _)

/-- **The full names of sets in order rise exactly if no set overtakes another one.** -/
theorem pairwise_allNames_iff (hsets : (read.map Prod.fst).Pairwise (· < ·))
    (hb : ∀ p ∈ read, p.2.templates.Sorted) :
    (allNames read).Pairwise (· < ·) ↔ ¬ Overtaken read := by
  rw [allNames, List.pairwise_flatMap]
  rw [List.pairwise_map] at hsets
  constructor
  · rintro ⟨-, hpairs⟩ ⟨p, hp, q, hq, template, ht, template', ht', x, rest, hname, hx⟩
    have hlt : p.1 < q.1 := by
      have happend : p.1.toList ++ [] < p.1.toList ++ x :: rest :=
        List.append_left_lt (List.nil_lt_cons x rest)
      rwa [List.append_nil, ← hname] at happend
    have hall := pairs_of_pairwise (hsets.and hpairs) hp hq hlt
    have hfull := hall _ (List.mem_map_of_mem ht) _ (List.mem_map_of_mem ht')
    rcases (fullName_lt_iff hlt template template').1 hfull x rest hname with hslash | ⟨rfl, hlater⟩
    · rcases hx with hx | ⟨rfl, -⟩
      · exact Char.lt_irrefl _ (Char.lt_trans hx hslash)
      · exact Char.lt_irrefl _ hslash
    · rcases hx with hx | ⟨-, hx⟩
      · exact Char.lt_irrefl _ hx
      · exact String.not_lt.2 hx hlater
  · intro hnot
    refine ⟨fun p hp => pairwise_fullNames p.1 (hb p hp), hsets.imp_of_mem ?_⟩
    intro p q hp hq hlt full hfull full' hfull'
    obtain ⟨template, ht, rfl⟩ := List.mem_map.1 hfull
    obtain ⟨template', ht', rfl⟩ := List.mem_map.1 hfull'
    rw [fullName_lt_iff hlt]
    intro x rest hname
    by_contra hx
    rw [not_or, not_and] at hx
    refine hnot ⟨p, hp, q, hq, template, ht, template', ht', x, rest, hname, ?_⟩
    by_cases he : '/' = x
    · exact .inr ⟨he.symm, String.not_lt.1 (hx.2 he)⟩
    · exact .inl (Std.lt_of_le_of_ne (Char.not_lt.1 hx.1) (Ne.symm he))

/-! ### Sets that are read in turn -/

variable {σ : Type} {c : Catalog σ} {s : σ} {names : List String}

/-- Sets are read one after another, each in the state that reading those before it has left. -/
inductive ReadInTurn (c : Catalog σ) : σ → List (String × Bundle) → σ → Prop where
  | nil (s : σ) : ReadInTurn c s [] s
  | cons {s s' s'' : σ} {set : String} {b : Bundle} {read : List (String × Bundle)}
      (hset : Op.result (c.setData set) s = (.ok b, s')) (hrest : ReadInTurn c s' read s'') :
      ReadInTurn c s ((set, b) :: read) s''

/-- The names are put together from all sets that are listed, each as the listing reads it in its turn. -/
structure ListedFrom (c : Catalog σ) (s : σ) (read : List (String × Bundle)) (names : List String) :
    Prop where
  turns : ∃ s', Op.result c.listSets s = (.ok (read.map Prod.fst), s') ∧
    c.ReadInTurn s' read (Op.result c.list s).2
  names_eq : names = allNames read

/-- What holds of every set that is read holds of all of them. -/
theorem ReadInTurn.forall {s' : σ} {P : Bundle → Prop} (h : c.ReadInTurn s read s')
    (hP : ∀ set t b, (Op.result (c.setData set) t).1 = .ok b → P b) : ∀ p ∈ read, P p.2 := by
  induction h with
  | nil => simp
  | cons hset _ ih => exact List.forall_mem_cons.2 ⟨hP _ _ _ (congrArg Prod.fst hset), ih⟩

/-- The names that are listed rise exactly if no set overtakes another one. -/
def RisesUnlessOvertaken (c : Catalog σ) (s : σ) : Prop :=
  ∀ names, (Op.result c.list s).1 = .ok names →
    ∃ read, c.ListedFrom s read names ∧ (names.Pairwise (· < ·) ↔ ¬ Overtaken read)

/-- Putting the names together, set by set. -/
def listInTurn (c : Catalog σ) : Op σ (List String) := do
  let names ← (← c.listSets).mapM fun set => do return fullNames set (← c.setData set)
  return names.flatten

theorem readInTurn_of_mapM {sets : List String} {lists : List (List String)} {s' : σ}
    (h : Op.result (sets.mapM fun set => do return fullNames set (← c.setData set)) s =
      (.ok lists, s')) :
    ∃ read : List (String × Bundle), read.map Prod.fst = sets ∧ lists.flatten = allNames read ∧
      c.ReadInTurn s read s' := by
  induction sets generalizing s lists with
  | nil =>
    obtain ⟨rfl, rfl⟩ := Op.eq_of_result_pure h
    exact ⟨[], rfl, rfl, .nil s⟩
  | cons set sets ih =>
    rw [List.mapM_cons] at h
    obtain ⟨list, s₁, hlist, h⟩ := Op.exists_of_result_bind_eq h
    obtain ⟨rest, s₂, hrest, h⟩ := Op.exists_of_result_bind_eq h
    obtain ⟨rfl, rfl⟩ := Op.eq_of_result_pure h
    obtain ⟨b, t, hb, hfull⟩ := Op.exists_of_result_bind_eq hlist
    obtain ⟨rfl, rfl⟩ := Op.eq_of_result_pure hfull
    obtain ⟨read, rfl, hflat, hread⟩ := ih hrest
    refine ⟨(set, b) :: read, rfl, ?_, .cons hb hread⟩
    rw [List.flatten_cons, hflat]
    rfl

theorem exists_listedFrom (hlist : c.list = c.listInTurn) (h : (Op.result c.list s).1 = .ok names) :
    ∃ read, c.ListedFrom s read names := by
  obtain ⟨s', hresult⟩ : ∃ s', Op.result c.list s = (.ok names, s') := ⟨_, Prod.ext h rfl⟩
  have hturn := hresult
  rw [hlist, listInTurn] at hturn
  obtain ⟨sets, s₁, hsets, hturn⟩ := Op.exists_of_result_bind_eq hturn
  obtain ⟨lists, s₂, hlists, hturn⟩ := Op.exists_of_result_bind_eq hturn
  obtain ⟨rfl, rfl⟩ := Op.eq_of_result_pure hturn
  obtain ⟨read, rfl, hnames, hread⟩ := readInTurn_of_mapM hlists
  exact ⟨read, ⟨s₁, hsets, by rwa [hresult]⟩, hnames⟩

/-- A catalog that lists its sets in order, and in each of them the templates in order. -/
theorem risesUnlessOvertaken (hlist : c.list = c.listInTurn)
    (hsets : ∀ sets, (Op.result c.listSets s).1 = .ok sets → sets.Pairwise (· < ·))
    (hb : ∀ set t b, (Op.result (c.setData set) t).1 = .ok b → b.templates.Sorted) :
    c.RisesUnlessOvertaken s := by
  intro names hnames
  obtain ⟨read, hread⟩ := exists_listedFrom hlist hnames
  refine ⟨read, hread, ?_⟩
  rw [hread.names_eq]
  obtain ⟨s', hlisted, hturn⟩ := hread.turns
  exact pairwise_allNames_iff (hsets _ (congrArg Prod.fst hlisted)) (hturn.forall hb)

end Catalog

/-! ### Folders -/

namespace Folder

variable {fs : Files} {d set : String} {b b' : Bundle}

theorem sorted_addFile {entry : String × Entry} (h : b.templates.Sorted)
    (ha : addFile fs d b entry = .ok b') : b'.templates.Sorted := by
  obtain ⟨name, e⟩ := entry
  rcases e with _ | bytes
  · cases ha
    exact h
  rcases hse : Path.stemAndExtension name with ⟨stem, _ | extension⟩ <;> simp only [addFile, hse] at ha
  · cases ha
    exact h
  split at ha
  · rcases hr : fs.readText (Path.join d name) with e | text <;> simp only [hr] at ha
    · cases ha
    · split at ha <;> cases ha
      · exact NameMap.sorted_insert h _ _
      · exact h
  · cases ha
    exact h

theorem sorted_readSet (h : readSet fs set d = .ok b) : b.templates.Sorted := by
  rw [readSet] at h
  rcases hr : fs.readDirectory d with e | entries <;> simp only [hr] at h
  · cases h
  · obtain ⟨c, hc, rfl⟩ := map_eq_ok h
    have hfold : ∀ (entries : List (String × Entry)) (b : Bundle), b.templates.Sorted →
        entries.foldlM (addFile fs d) b = .ok c → c.templates.Sorted := by
      intro entries
      induction entries with
      | nil =>
        intro b hb hc
        cases hc
        exact hb
      | cons entry rest ih =>
        intro b hb hc
        obtain ⟨b', hb', hrest⟩ := bind_eq_ok_iff.1 (List.foldlM_cons.symm.trans hc)
        exact ih b' (sorted_addFile hb hb') hrest
    exact hfold entries ⟨set, "", [], []⟩ List.Pairwise.nil hc

/-- In every state of the catalog, whatever was removed. -/
theorem risesUnlessOvertaken (f : Folder) (w : World) : f.catalog.RisesUnlessOvertaken w := by
  apply Catalog.risesUnlessOvertaken rfl
  · intro sets hsets
    have hshown : f.shownSets (seen w) = .ok sets :=
      (congrArg Prod.fst (result_visibleSets f w)).symm.trans hsets
    exact shownSets_pairwise hshown
  · intro set t b hb
    have hset : f.shownSet set (seen t) = .ok b :=
      (congrArg Prod.fst (result_loadSet f set t)).symm.trans hb
    exact sorted_readSet (readSet_of_shownSet hset).2

end Folder

/-! ### Stores -/

namespace Bundle

theorem sorted_of_readTexts {j : Json} {m : NameMap String} (h : readTexts j = .ok m) : m.Sorted := by
  cases j with
  | obj ms =>
    obtain ⟨pairs, -, rfl⟩ := map_eq_ok h
    exact NameMap.sorted_ofList pairs
  | _ => cases h

/-- A member that is read leaves the templates in order. -/
theorem sorted_fields_read {f f' : Fields} {p : String × Json}
    (hf : ∀ m ∈ f.templates, NameMap.Sorted m) (h : f.read p = .ok f') :
    ∀ m ∈ f'.templates, NameMap.Sorted m := by
  obtain ⟨key, j⟩ := p
  simp only [Fields.read] at h
  split at h
  · obtain ⟨_, -, rfl⟩ := map_eq_ok h
    exact hf
  split at h
  · obtain ⟨_, -, rfl⟩ := map_eq_ok h
    exact hf
  split at h
  · obtain ⟨m, hm, rfl⟩ := map_eq_ok h
    rintro _ ⟨rfl⟩
    exact sorted_of_readTexts hm
  split at h
  · obtain ⟨_, -, rfl⟩ := map_eq_ok h
    exact hf
  · cases h
    exact hf

theorem sorted_fields_foldlM {ms : Members} {f f' : Fields} (hf : ∀ m ∈ f.templates, NameMap.Sorted m)
    (h : ms.foldlM Fields.read f = .ok f') : ∀ m ∈ f'.templates, NameMap.Sorted m := by
  induction ms generalizing f with
  | nil =>
    cases h
    exact hf
  | cons p ms ih =>
    rw [List.foldlM_cons] at h
    obtain ⟨g, hg, hrest⟩ := bind_eq_ok_iff.1 h
    exact ih (sorted_fields_read hf hg) hrest

/-- The templates of a set that is read are in order. -/
theorem sorted_of_read {j : Json} {b : Bundle} (h : read j = .ok b) : b.templates.Sorted := by
  cases j with
  | obj ms =>
    obtain ⟨f, hf, h⟩ := bind_eq_ok_iff.1 (show readObject ms = .ok b from h)
    obtain ⟨name, -, h⟩ := bind_eq_ok_iff.1 h
    obtain ⟨hash, -, h⟩ := bind_eq_ok_iff.1 h
    obtain ⟨templates, ht, h⟩ := bind_eq_ok_iff.1 h
    cases h
    have hsome : f.templates = some templates := by
      cases hft : f.templates with
      | none =>
        rw [hft] at ht
        cases ht
      | some m =>
        rw [hft] at ht
        exact congrArg some (Except.ok.inj ht)
    exact sorted_fields_foldlM (by simp) hf templates hsome
  | arr items =>
    obtain ⟨name, -, h⟩ := bind_eq_ok_iff.1 (show readArray items = .ok b from h)
    obtain ⟨hash, -, h⟩ := bind_eq_ok_iff.1 h
    obtain ⟨templates, ht, h⟩ := bind_eq_ok_iff.1 h
    obtain ⟨j, -, hj⟩ := bind_eq_ok_iff.1 ht
    obtain ⟨schemas, h⟩ : ∃ schemas, (if 4 < items.length then
        Except.error (wrongLength items.length "fewer elements in array")
      else .ok ⟨name, hash, templates, schemas⟩) = .ok b := by
      cases hitem : items[3]? with
      | none =>
        rw [hitem] at h
        exact ⟨[], h⟩
      | some item =>
        rw [hitem] at h
        obtain ⟨schemas, -, h⟩ := bind_eq_ok_iff.1 h
        exact ⟨schemas, h⟩
    split at h <;> cases h
    exact sorted_of_readTexts hj
  | _ => cases h

theorem sorted_of_ofJson {key : String} {j : Json} {b : Bundle} (h : ofJson key j = .ok b) :
    b.templates.Sorted := by
  rw [ofJson] at h
  split at h <;> cases h
  rename_i hread
  exact sorted_of_read hread

end Bundle

namespace StoredSets

variable {σ : Type} {st : Store σ} {known : KnownHashes} {kept : σ → Prop}

/-- Names that are listed once are in order when they are sorted. -/
theorem pairwise_mergeSort {names : List String} (h : names.Nodup) :
    (names.mergeSort fun a b => a ≤ b).Pairwise (· < ·) := by
  have hsorted : (names.mergeSort fun a b => a ≤ b).Pairwise (· ≤ ·) := by
    have htrans (a b c : String) (hab : decide (a ≤ b) = true) (hbc : decide (b ≤ c) = true) :
        decide (a ≤ c) = true :=
      decide_eq_true (String.le_trans (of_decide_eq_true hab) (of_decide_eq_true hbc))
    have htotal (a b : String) : (decide (a ≤ b) || decide (b ≤ a)) = true := by
      simpa using String.le_total a b
    have hle := List.pairwise_mergeSort htrans htotal names
    exact hle.imp fun hab => of_decide_eq_true hab
  have hnodup : (names.mergeSort fun a b => a ≤ b).Nodup := (List.mergeSort_perm names _).nodup_iff.2 h
  exact (hsorted.and hnodup).imp fun hab => Std.lt_of_le_of_ne hab.1 hab.2

/-! ### Requests -/

theorem preserves_fetch_cache {τ α : Type} {P : τ → Prop} {l : Lens τ (Cache α)}
    (hl : ∀ c t, P t → P (l.set c t)) {make : Op τ α} (hmake : make.Preserves P) (name : String) :
    (Cache.fetch l name make).Preserves P := by
  refine (Op.preserves_requireKey "key" name).bind fun _ => Op.preserves_get.bind fun t => ?_
  refine (Op.preserves_modify (hl _)).bind fun _ => ?_
  split
  · exact Op.preserves_pure _
  · refine hmake.attempt.bind fun r => ?_
    cases r with
    | ok a => exact (Op.preserves_modify fun t => hl _ t).bind fun _ => Op.preserves_pure a
    | error e => exact (Op.preserves_modify fun t => hl _ t).bind fun _ => Op.preserves_throw e

section Kept

variable (h : st.ListsOnce kept) (known : KnownHashes)
include h

theorem preserves_setNames : (ofStore st known).setNames.Preserves fun s => kept s.1 :=
  h.keys.zoom_fst.bind fun _ => Op.preserves_pure _

theorem preserves_readSet (set : String) :
    ((ofStore st known).readSet set).Preserves fun s => kept s.1 := by
  refine (h.get set).zoom_fst.bind fun value => ?_
  cases value with
  | none => exact Op.preserves_fail _
  | some value => exact Op.preserves_ofExcept _

theorem preserves_loadFragments : (ofStore st known).loadFragments.Preserves fun s => kept s.1 :=
  (preserves_setNames h known).bind fun names =>
    (Op.preserves_mapM (preserves_readSet h known) names).bind fun _ => Op.preserves_ofExcept _

theorem preserves_failNotFound (name : String) :
    ((ofStore st known).failNotFound name).Preserves fun s => kept s.1 := by
  have hnames (set : String) : Op.Preserves (fun s => kept s.1)
      (do return Catalog.fullNames set (← (ofStore st known).readSet set)) :=
    (preserves_readSet h known set).bind fun _ => Op.preserves_pure _
  have hlist : (ofStore st known).listTemplates.Preserves fun s => kept s.1 :=
    (preserves_setNames h known).bind fun sets =>
      (Op.preserves_mapM hnames sets).bind fun _ => Op.preserves_pure _
  exact hlist.bind fun _ => Op.preserves_fail _

theorem preserves_readTemplate (name : String) :
    ((ofStore st known).readTemplate name).Preserves fun s => kept s.1 := by
  have hnot := preserves_failNotFound h known name
  unfold readTemplate
  split
  · exact hnot
  · rename_i set template _
    refine (h.get set).zoom_fst.bind fun value => ?_
    cases value with
    | none => exact hnot
    | some value =>
      refine (Op.preserves_ofExcept _).bind fun b => ?_
      cases NameMap.get? b.templates template with
      | none => exact hnot
      | some text => exact Op.preserves_pure text

theorem preserves_fetch (name : String) :
    ((ofStore st known).catalog.fetch name).Preserves fun s => kept s.1 := by
  have hfragments : (Workshop.fragments (ofStore st known).workshop
      (ofStore st known).loadFragments).Preserves fun s => kept s.1 := by
    refine Op.preserves_get.bind fun t => ?_
    dsimp only
    split
    · exact Op.preserves_pure _
    · exact (preserves_loadFragments h known).bind fun f =>
        (Op.preserves_modify fun _ ht => ht).bind fun _ => Op.preserves_pure f
  refine preserves_fetch_cache (fun _ _ ht => ht) ?_ name
  exact (preserves_readTemplate h known name).bind fun _ => hfragments.bind fun _ =>
    Op.preserves_ofExcept _

/-- A request keeps the store listing each key once, whether it succeeds or fails. -/
theorem preserves_perform (r : Request) : ((ofStore st known).perform r).Preserves fun s => kept s.1 := by
  have hreload : Op.Preserves (fun s : σ × Workshop => kept s.1)
      (Op.change (ofStore st known).workshop Workshop.reload) := Op.preserves_modify fun _ hs => hs
  cases r with
  | upload b => exact (h.set b.name b.toJson).zoom_fst.bind fun _ => h.persist.zoom_fst.bind fun _ => hreload
  | remove set =>
    refine (h.delete set).zoom_fst.bind fun there => ?_
    cases there with
    | false => exact Op.preserves_fail _
    | true => exact h.persist.zoom_fst.bind fun _ => hreload
  | fetch name => exact (preserves_fetch h known name).bind fun _ => Op.preserves_pure ()
  | invalidate => exact Op.preserves_modify fun _ hs => hs

theorem kept_run {s : σ × Workshop} (hs : kept s.1) (requests : List Request) :
    kept ((ofStore st known).run s requests).1 := by
  induction requests generalizing s with
  | nil => exact hs
  | cons r rest ih => exact ih (preserves_perform h known r s hs)

/-- After any requests, whether they succeed or fail. -/
theorem risesUnlessOvertaken_run {s₀ : σ} (hs : kept s₀) (limit : Nat) (requests : List Request) :
    (ofStore st known).catalog.RisesUnlessOvertaken
      ((ofStore st known).run (s₀, Workshop.empty limit) requests) := by
  have hkept := kept_run h known (s := (s₀, Workshop.empty limit)) hs requests
  generalize (ofStore st known).run (s₀, Workshop.empty limit) requests = s at hkept
  apply Catalog.risesUnlessOvertaken rfl
  · intro sets hsets
    obtain ⟨keys, s', hkeys, hsets⟩ := Op.exists_of_result_bind hsets
    obtain rfl : keys.mergeSort (fun a b => a ≤ b) = sets := Except.ok.inj hsets
    have honce : keys.Nodup := h.nodup hkept (congrArg (fun r => r.1) hkeys)
    exact pairwise_mergeSort honce
  · intro set t b hb
    obtain ⟨value, t', -, hb⟩ := Op.exists_of_result_bind hb
    cases value with
    | none => cases hb
    | some value =>
      simp only [Op.result_ofExcept] at hb
      exact Bundle.sorted_of_ofJson hb

end Kept

end StoredSets

/-! ### All catalogs -/

namespace Catalog

open StoredSets

/-- **Listings rise unless a set overtakes another one**: in every folder, whatever is filtered or was
removed, and in stores of all kinds, after any uploads, removals and fetches. -/
theorem sorted_unless_overtaken (known : KnownHashes) (limit : Nat) (requests : List Request) :
    (∀ (f : Folder) (w : Folder.World), f.catalog.RisesUnlessOvertaken w) ∧
    (∀ items : List (String × Json), (ofStore Store.memory known).catalog.RisesUnlessOvertaken
      ((ofStore Store.memory known).run (NameMap.ofList items, Workshop.empty limit) requests)) ∧
    (∀ (path : String) (fs : Files), (ofStore (Store.file path) known).catalog.RisesUnlessOvertaken
      ((ofStore (Store.file path) known).run ((none, fs), Workshop.empty limit) requests)) ∧
    ∀ {τ : Type} (z : Compression) (shell : Shell τ) (c : Collection) (t : τ),
      (ofStore (Store.appliance z shell c) known).catalog.RisesUnlessOvertaken
        ((ofStore (Store.appliance z shell c) known).run ((false, t), Workshop.empty limit) requests) := by
  refine ⟨Folder.risesUnlessOvertaken, fun items => ?_, fun path fs => ?_, fun z shell c t => ?_⟩
  · exact risesUnlessOvertaken_run Store.listsOnce_memory known (NameMap.sorted_ofList items) limit requests
  · exact risesUnlessOvertaken_run (Store.listsOnce_file path) known (Store.inOrder_none fs) limit requests
  · exact risesUnlessOvertaken_run (Store.listsOnce_appliance z shell c) known trivial limit requests

/-- Two sets, of which the name of one is that of the other with a hyphen and a letter behind it. -/
def hyphenTree : Files :=
  ⟨[(["work", "t"], .directory), (["work", "t", "a"], .directory),
    (["work", "t", "a", "x.mst"], .file (Text.bytes "[]")), (["work", "t", "a-b"], .directory),
    (["work", "t", "a-b", "x.mst"], .file (Text.bytes "[]"))], ["work"]⟩

/-- A folder lists the template of `a-b` behind that of `a`, and a store lists a name twice. -/
theorem sorted_unless_overtaken_hyphen :
    (∃ read, (⟨"t", none⟩ : Folder).catalog.ListedFrom (hyphenTree, Folder.start 1) read ["a/x", "a-b/x"] ∧
      Overtaken read) ∧
    ∃ s read, (ofStore Store.memory .empty).run ([], Workshop.empty 1)
        [.upload (Bundle.build "a" [("b/c", "[]")] []), .upload (Bundle.build "a/b" [("c", "[]")] [])] = s ∧
      (ofStore Store.memory .empty).catalog.ListedFrom s read ["a/b/c", "a/b/c"] ∧ Overtaken read := by
  obtain ⟨hfolder, hmemory, -, -⟩ := sorted_unless_overtaken .empty 1
    [.upload (Bundle.build "a" [("b/c", "[]")] []), .upload (Bundle.build "a/b" [("c", "[]")] [])]
  constructor
  · obtain ⟨read, hread, hiff⟩ := hfolder ⟨"t", none⟩ (hyphenTree, Folder.start 1) ["a/x", "a-b/x"]
      (by decide +kernel)
    exact ⟨read, hread, by_contra fun hnot => absurd (hiff.2 hnot) (by decide)⟩
  · have hkeys : (["a", "a/b"].mergeSort fun a b : String => a ≤ b) = ["a", "a/b"] :=
      List.mergeSort_of_pairwise (by decide)
    obtain ⟨s, hs⟩ : ∃ s, (ofStore Store.memory .empty).run ([], Workshop.empty 1)
        [.upload (Bundle.build "a" [("b/c", "[]")] []), .upload (Bundle.build "a/b" [("c", "[]")] [])] = s :=
      ⟨_, rfl⟩
    have hsets : Op.result (ofStore Store.memory .empty).setNames s = (.ok ["a", "a/b"], s) := by
      rw [← hkeys, ← hs]
      rfl
    have hlist : (Op.result (ofStore Store.memory .empty).catalog.list s).1 =
        .ok ["a/b/c", "a/b/c"] := by
      show (Op.result (ofStore Store.memory .empty).listTemplates s).1 = _
      rw [listTemplates, Op.result_bind_of_ok hsets, ← hs]
      decide +kernel
    obtain ⟨read, hread, hiff⟩ := hmemory [] ["a/b/c", "a/b/c"] (hs ▸ hlist)
    refine ⟨s, read, hs, hs ▸ hread, by_contra fun hnot => absurd (hiff.2 hnot) (by decide)⟩

end Catalog

end Stencil
