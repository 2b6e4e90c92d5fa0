import Stencil.Proofs.Except
import Stencil.Proofs.Json.Merged
import Stencil.Template.Render

/-!
# What stitching changes

Stitching goes through the groupings of a document. In each of them it may give the chosen unit
another key, and it puts a record into every unit; all else stays, and stays in its place. It fails
if a unit would get a key that its grouping has, and only then.

## The model

* `Chosen` and `Moves` say which unit moves to another key.
* `Recorded` relates a unit to itself with its record, member by member.
* `Stitched` relates a document to the stitched one, position by position.
-/

namespace Stencil

namespace Engine

variable {template groupingKey key source target : String} {view grouping : Members} {node : Json}

/-! ### Groupings and units -/

/-- The value is an object of a class. -/
def IsOfClass (cls : String) (node : Json) : Prop :=
  ∃ ms, node = .obj ms ∧ Members.get? ms "class" = some (.str cls)

/-- The value is an object of class `Tenant`. -/
def IsGrouping (node : Json) : Prop := IsOfClass "Tenant" node

/-- The value is an object of class `Application`. -/
def IsUnit (node : Json) : Prop := IsOfClass "Application" node

theorem hasClass_iff {cls : String} : hasClass node cls = true ↔ IsOfClass cls node := by
  unfold hasClass IsOfClass Json.get?
  cases node <;> simp [Json.members?, Option.bind_eq_some_iff, Json.text?_eq_some_iff]

theorem isGrouping_iff : isGrouping node = true ↔ IsGrouping node := hasClass_iff

theorem isUnit_iff : isUnit node = true ↔ IsUnit node := hasClass_iff

/-! ### The unit that moves -/

/-- The key of the unit of a grouping that is given another key where the view has one for it: the
unit that the view names, or the only unit if the view names none. -/
inductive Chosen (view grouping : Members) : String → Prop where
  | named {key : String} {unit : Json} (hview : Members.get? view appName = some (.str key))
      (hmem : (key, unit) ∈ grouping) (hunit : IsUnit unit) : Chosen view grouping key
  | only {key : String} {unit : Json}
      (hview : ∀ name node, Members.get? view appName = some (.str name) →
        (name, node) ∈ grouping → ¬ IsUnit node)
      (hmem : (key, unit) ∈ grouping) (hunit : IsUnit unit)
      (honly : ∀ m ∈ grouping, IsUnit m.2 → m = (key, unit)) : Chosen view grouping key

/-- The chosen unit of a grouping moves to another key, which the view asks for. -/
structure Moves (view grouping : Members) (source target : String) : Prop where
  chosen : Chosen view grouping source
  asked : Members.get? view applicationName = some (.str target)
  ne : target ≠ source

theorem mem_unitKeys : key ∈ unitKeys grouping ↔ ∃ unit, (key, unit) ∈ grouping ∧ IsUnit unit := by
  simp [unitKeys, isUnit_iff]

/-- There is one key if there is one unit. -/
theorem unitKeys_eq_singleton_iff (hd : Members.Distinct grouping) : unitKeys grouping = [key] ↔
    ∃ unit, (key, unit) ∈ grouping ∧ IsUnit unit ∧
      ∀ m ∈ grouping, IsUnit m.2 → m = (key, unit) := by
  have hfilter : (grouping.filter fun m => isUnit m.2).Nodup := (List.Nodup.of_map _ hd).filter _
  constructor
  · intro h
    obtain ⟨⟨k, unit⟩, hunits, hk⟩ := List.map_eq_singleton_iff.1 h
    obtain rfl : k = key := hk
    have hiff (m : String × Json) : m ∈ grouping ∧ IsUnit m.2 ↔ m = (k, unit) := by
      rw [← List.mem_singleton, ← hunits, List.mem_filter, isUnit_iff]
    obtain ⟨hmem, hunit⟩ := (hiff (k, unit)).2 rfl
    exact ⟨unit, hmem, hunit, fun m hm hu => (hiff m).1 ⟨hm, hu⟩⟩
  · rintro ⟨unit, hmem, hunit, honly⟩
    have hunits : grouping.filter (fun m => isUnit m.2) = [(key, unit)] := by
      refine List.perm_singleton.1 ((List.perm_ext_iff_of_nodup hfilter (List.nodup_singleton _)).2 ?_)
      intro m
      rw [List.mem_filter, isUnit_iff, List.mem_singleton]
      constructor
      · exact fun h => honly m h.1 h.2
      · rintro rfl
        exact ⟨hmem, hunit⟩
    rw [unitKeys, hunits]
    rfl

theorem chosenUnit_eq_some_iff (hd : Members.Distinct grouping) :
    chosenUnit view grouping = some key ↔ Chosen view grouping key := by
  have hnamed (name : String) :
      ((Members.get? view appName).bind Json.text?).filter (unitKeys grouping).contains = some name ↔
        Members.get? view appName = some (.str name) ∧
          ∃ unit, (name, unit) ∈ grouping ∧ IsUnit unit := by
    simp [Option.filter_eq_some_iff, Option.bind_eq_some_iff, Json.text?_eq_some_iff, mem_unitKeys]
  have honly : (if (unitKeys grouping).length = 1 then (unitKeys grouping).head? else none) =
      some key ↔ unitKeys grouping = [key] := by
    cases unitKeys grouping with
    | nil => simp
    | cons k ks => cases ks <;> simp
  have hchosen : chosenUnit view grouping =
      (((Members.get? view appName).bind Json.text?).filter (unitKeys grouping).contains <|>
        if (unitKeys grouping).length = 1 then (unitKeys grouping).head? else none) := rfl
  rw [hchosen]
  cases hname : ((Members.get? view appName).bind Json.text?).filter (unitKeys grouping).contains with
  | some name =>
    obtain ⟨hview, unit, hmem, hunit⟩ := (hnamed name).1 hname
    constructor
    · intro h
      obtain rfl : name = key := by simpa using h
      exact .named hview hmem hunit
    · intro h
      cases h with
      | named hview' =>
        obtain rfl : name = key := by simpa [hview] using hview'
        rfl
      | only hno => exact absurd hunit (hno _ _ hview hmem)
  | none =>
    have hno : ∀ name node, Members.get? view appName = some (.str name) →
        (name, node) ∈ grouping → ¬ IsUnit node := by
      intro name node hview hmem hunit
      have := (hnamed name).2 ⟨hview, node, hmem, hunit⟩
      simp [hname] at this
    have hnone (o : Option String) : ((none : Option String) <|> o) = o := rfl
    rw [hnone, honly, unitKeys_eq_singleton_iff hd]
    constructor
    · rintro ⟨unit, hmem, hunit, honly⟩
      exact .only hno hmem hunit honly
    · intro h
      cases h with
      | named hview hmem hunit => exact absurd hunit (hno _ _ hview hmem)
      | only _ hmem hunit honly => exact ⟨_, hmem, hunit, honly⟩

theorem renameOf_eq_some_iff (hd : Members.Distinct grouping) :
    renameOf view grouping = some (source, target) ↔ Moves view grouping source target := by
  have htext (s : String) : (Members.get? view applicationName).bind Json.text? = some s ↔
      Members.get? view applicationName = some (.str s) := by
    simp [Option.bind_eq_some_iff, Json.text?_eq_some_iff]
  constructor
  · intro h
    unfold renameOf at h
    split at h
    · rename_i s t hs ht
      split at h
      · cases h
      · rename_i hne
        cases h
        exact ⟨(chosenUnit_eq_some_iff hd).1 hs, (htext target).1 ht, Ne.symm hne⟩
    · cases h
  · rintro ⟨hchosen, hasked, hne⟩
    unfold renameOf
    rw [(chosenUnit_eq_some_iff hd).2 hchosen, (htext target).2 hasked]
    simp [hne.symm]

/-! ### The record -/

/-- A unit with the record of how it was made. The record is the member `constants`, whose own
members are kept if it was an object; it holds the view that the slots were filled from, with the keys
of the grouping and of the unit. -/
def Recorded (template : String) (view : Members) (groupingKey key : String)
    (unit unit' : Members) : Prop :=
  ∃ recorded block,
    Members.Updates view [(tenantName, .str groupingKey), (applicationName, .str key)] recorded ∧
    Members.Updates (membersOf (Members.get? unit "constants"))
      [("class", .str "Constants"), ("template", .str template), ("view", .obj recorded)] block ∧
    Members.Updates unit [("constants", .obj block)] unit'

theorem recorded_attach (unit : Members) :
    Recorded template view groupingKey key unit (attach template view groupingKey key unit) := by
  have hkeys : [tenantName, applicationName].Nodup := by decide
  have hnames : ["class", "template", "view"].Nodup := by decide
  exact ⟨_, _, Members.updates_insertAll view hkeys, Members.updates_insertAll _ hnames,
    Members.updates_insert unit "constants" _⟩

/-! ### Members of groupings -/

/-- The key that a member of a grouping has when the grouping is stitched. -/
inductive Rekeyed (view grouping : Members) : String → String → Prop where
  | moved {source target : String} (h : Moves view grouping source target) :
      Rekeyed view grouping source target
  | kept {key : String} (h : ∀ target, ¬ Moves view grouping key target) :
      Rekeyed view grouping key key

/-- What becomes of a member of a grouping: a unit gets its record and may move, and what is no unit
stays as it is. -/
structure StitchedMember (template : String) (view : Members) (groupingKey : String)
    (grouping : Members) (m m' : String × Json) : Prop where
  key : Rekeyed view grouping m.1 m'.1
  other : ¬ IsUnit m.2 → m' = m
  unit (unit : Members) : m.2 = .obj unit → IsUnit m.2 →
    ∃ unit', m'.2 = .obj unit' ∧ Recorded template view groupingKey m'.1 unit unit'

theorem Chosen.exists_unit (h : Chosen view grouping key) :
    ∃ unit, (key, unit) ∈ grouping ∧ IsUnit unit := by
  cases h with
  | named _ hmem hunit => exact ⟨_, hmem, hunit⟩
  | only _ hmem hunit => exact ⟨_, hmem, hunit⟩

/-- Two members of one key are one member. -/
theorem eq_of_distinct {ms : Members} (hd : Members.Distinct ms) {m m' : String × Json} (h : m ∈ ms)
    (h' : m' ∈ ms) (hkey : m.1 = m'.1) : m = m' :=
  List.inj_on_of_nodup_map hd h h' hkey

/-- A member that is no unit does not move. -/
theorem not_moves_of_not_isUnit (hd : Members.Distinct grouping) {m : String × Json}
    (hm : m ∈ grouping) (hunit : ¬ IsUnit m.2) (target : String) :
    ¬ Moves view grouping m.1 target := by
  intro hmove
  obtain ⟨unit, hmem, hu⟩ := hmove.chosen.exists_unit
  have hm : m = (m.1, unit) := eq_of_distinct hd hm hmem rfl
  rw [hm] at hunit
  exact hunit hu

theorem stitchMember_of_not_isUnit {m : String × Json} (h : ¬ IsUnit m.2) :
    stitchMember template view groupingKey m = m := by
  obtain ⟨key, node⟩ := m
  have hno : isUnit node = false := Bool.eq_false_iff.2 (mt isUnit_iff.1 h)
  cases node <;> simp [stitchMember, hno]

theorem stitchMember_of_isUnit {unit : Members} (h : IsUnit (.obj unit)) :
    stitchMember template view groupingKey (key, .obj unit) =
      (key, .obj (attach template view groupingKey key unit)) := by
  simp [stitchMember, isUnit_iff.2 h]

/-- A member under its new key. -/
theorem stitchedMember_of_rekeyed (hd : Members.Distinct grouping) {m : String × Json}
    (hm : m ∈ grouping) (hkey : Rekeyed view grouping m.1 key) :
    StitchedMember template view groupingKey grouping m
      (stitchMember template view groupingKey (key, m.2)) := by
  obtain ⟨k, node⟩ := m
  by_cases hunit : IsUnit node
  · obtain ⟨unit, rfl, hclass⟩ := hunit
    rw [stitchMember_of_isUnit ⟨unit, rfl, hclass⟩]
    refine ⟨hkey, fun hno => absurd ⟨unit, rfl, hclass⟩ hno, ?_⟩
    rintro _ ⟨⟩ -
    exact ⟨_, rfl, recorded_attach unit⟩
  · have hsame : key = k := by
      cases hkey with
      | moved hmove => exact absurd hmove (not_moves_of_not_isUnit hd hm hunit _)
      | kept _ => rfl
    subst hsame
    rw [stitchMember_of_not_isUnit hunit]
    exact ⟨hkey, fun _ => rfl, fun _ _ hu => absurd hu hunit⟩

/-! ### Groupings -/

/-- A grouping has a unit that moves to a key of another member. -/
def Clashes (view : Members) (m : String × Json) (p : Problem) : Prop :=
  ∃ grouping source target, m.2 = .obj grouping ∧ IsGrouping m.2 ∧
    Moves view grouping source target ∧ target ∈ Members.names grouping ∧
      p = .renameConflict m.1 source target

theorem stitchGrouping_eq_error_iff (hd : Members.Distinct grouping) {p : Problem} :
    stitchGrouping template view groupingKey grouping = .error p ↔
      ∃ source target, Moves view grouping source target ∧ target ∈ Members.names grouping ∧
        p = .renameConflict groupingKey source target := by
  simp only [← renameOf_eq_some_iff hd, ← Members.has_eq_true_iff]
  unfold stitchGrouping
  cases renameOf view grouping with
  | none => simp
  | some move =>
    obtain ⟨source, target⟩ := move
    by_cases hhas : Members.has grouping target = true
    · simp only [hhas, if_true, Except.error.injEq, Option.some.injEq, Prod.mk.injEq]
      constructor
      · rintro rfl
        exact ⟨source, target, ⟨rfl, rfl⟩, hhas, rfl⟩
      · rintro ⟨_, _, ⟨rfl, rfl⟩, -, rfl⟩
        rfl
    · simp only [hhas, Bool.false_eq_true, if_false, Option.some.injEq, Prod.mk.injEq]
      constructor
      · intro h
        cases h
      · rintro ⟨_, _, ⟨rfl, rfl⟩, h, -⟩
        exact absurd h hhas

/-- A grouping that is stitched has each of its members where it was. -/
theorem forall₂_of_stitchGrouping (hd : Members.Distinct grouping) {ms : Members}
    (h : stitchGrouping template view groupingKey grouping = .ok ms) :
    List.Forall₂ (StitchedMember template view groupingKey grouping) grouping ms := by
  have hall (f : String → String) (hf : ∀ m ∈ grouping, Rekeyed view grouping m.1 (f m.1)) :
      List.Forall₂ (StitchedMember template view groupingKey grouping) grouping
        (grouping.map fun m => stitchMember template view groupingKey (f m.1, m.2)) := by
    rw [List.forall₂_map_right_iff, List.forall₂_same]
    exact fun m hm => stitchedMember_of_rekeyed hd hm (hf m hm)
  unfold stitchGrouping at h
  split at h
  · rename_i hnone
    cases h
    refine hall id fun m hm => .kept fun target hmove => ?_
    rw [(renameOf_eq_some_iff hd).2 hmove] at hnone
    cases hnone
  · rename_i source target hsome
    split at h
    · cases h
    · cases h
      have hmove := (renameOf_eq_some_iff hd).1 hsome
      have hmap : (renameMember source target grouping).map (stitchMember template view groupingKey) =
          grouping.map fun m => stitchMember template view groupingKey
            (if m.1 = source then target else m.1, m.2) := by
        unfold renameMember
        rw [List.map_map]
        refine List.map_congr_left fun m _ => ?_
        by_cases hm : m.1 = source <;> simp [hm]
      rw [hmap]
      refine hall (fun k => if k = source then target else k) fun m _ => ?_
      by_cases hm : m.1 = source
      · simp only [hm, if_true]
        exact .moved hmove
      · simp only [hm, if_false]
        refine .kept fun target' hmove' => hm ?_
        -- there is one move at most
        have hsame := (renameOf_eq_some_iff hd).2 hmove'
        simp only [hsome, Option.some.injEq, Prod.mk.injEq] at hsame
        exact hsame.1.symm

/-! ### Documents -/

/-- What becomes of a member of the root: a grouping is stitched, and anything else stays. -/
structure StitchedRoot (template : String) (view : Members) (m m' : String × Json) : Prop where
  key : m'.1 = m.1
  other : ¬ IsGrouping m.2 → m'.2 = m.2
  grouping (ms : Members) : m.2 = .obj ms → IsGrouping m.2 →
    ∃ ms', m'.2 = .obj ms' ∧ List.Forall₂ (StitchedMember template view m.1 ms) ms ms'

/-- A document and the stitched one. -/
inductive Stitched (template : String) (view : Members) : Json → Json → Prop where
  | other {doc : Json} (h : ∀ root, doc ≠ .obj root) : Stitched template view doc doc
  | object {root root' : Members} (h : List.Forall₂ (StitchedRoot template view) root root') :
      Stitched template view (.obj root) (.obj root')

theorem stitchRoot_of_not_isGrouping {m : String × Json} (h : ¬ IsGrouping m.2) :
    stitchRoot template view m = .ok m := by
  obtain ⟨key, node⟩ := m
  have hno : isGrouping node = false := Bool.eq_false_iff.2 (mt isGrouping_iff.1 h)
  cases node <;> simp [stitchRoot, hno]

theorem stitchRoot_of_isGrouping (h : IsGrouping (.obj grouping)) :
    stitchRoot template view (key, .obj grouping) =
      (stitchGrouping template view key grouping).map fun ms => (key, .obj ms) := by
  simp [stitchRoot, isGrouping_iff.2 h]

theorem stitchRoot_eq_error_iff {m : String × Json} (hm : m.2.merged = m.2) {p : Problem} :
    stitchRoot template view m = .error p ↔ Clashes view m p := by
  obtain ⟨key, node⟩ := m
  by_cases hg : IsGrouping node
  · obtain ⟨grouping, rfl, hclass⟩ := hg
    have hd := (Json.distinct_of_merged hm).1
    have hg : IsGrouping (.obj grouping) := ⟨grouping, rfl, hclass⟩
    rw [stitchRoot_of_isGrouping hg]
    rw [map_eq_error_iff, stitchGrouping_eq_error_iff hd]
    constructor
    · rintro ⟨source, target, hmove, htarget, rfl⟩
      exact ⟨grouping, source, target, rfl, hg, hmove, htarget, rfl⟩
    · rintro ⟨_, source, target, ⟨⟩, -, hmove, htarget, rfl⟩
      exact ⟨source, target, hmove, htarget, rfl⟩
  · rw [stitchRoot_of_not_isGrouping hg]
    constructor
    · intro h
      cases h
    · rintro ⟨_, _, _, -, hg', -⟩
      exact absurd hg' hg

theorem stitchedRoot_of_stitchRoot {m m' : String × Json} (hm : m.2.merged = m.2)
    (h : stitchRoot template view m = .ok m') : StitchedRoot template view m m' := by
  obtain ⟨key, node⟩ := m
  by_cases hg : IsGrouping node
  · obtain ⟨grouping, rfl, hclass⟩ := hg
    have hd := (Json.distinct_of_merged hm).1
    have hg : IsGrouping (.obj grouping) := ⟨grouping, rfl, hclass⟩
    rw [stitchRoot_of_isGrouping hg] at h
    obtain ⟨ms, hms, rfl⟩ := map_eq_ok h
    refine ⟨rfl, fun hno => absurd hg hno, ?_⟩
    rintro _ ⟨⟩ -
    exact ⟨ms, rfl, forall₂_of_stitchGrouping hd hms⟩
  · rw [stitchRoot_of_not_isGrouping hg] at h
    cases h
    exact ⟨rfl, fun _ => rfl, fun _ _ hg' => absurd hg' hg⟩

theorem exists_stitchRoot_iff {m : String × Json} (hm : m.2.merged = m.2) :
    (∃ m', stitchRoot template view m = .ok m') ↔ ∀ p, ¬ Clashes view m p := by
  have herror (p : Problem) : Clashes view m p ↔ stitchRoot template view m = .error p :=
    (stitchRoot_eq_error_iff hm).symm
  simp only [herror]
  cases stitchRoot template view m <;> simp

/-- A document is stitched where none of its groupings clashes. -/
theorem exists_stitch_iff {doc : Json} (hdoc : doc.merged = doc) :
    (∃ doc', stitch template view doc = .ok doc') ↔
      ∀ root, doc = .obj root → ∀ m ∈ root, ∀ p, ¬ Clashes view m p := by
  cases doc with
  | obj root =>
    have hvalues := (Json.distinct_of_merged hdoc).2
    have hmap : (∃ doc', stitch template view (.obj root) = .ok doc') ↔
        ∃ root', root.mapM (stitchRoot template view) = .ok root' := by
      constructor
      · rintro ⟨doc', h⟩
        obtain ⟨root', h, -⟩ := map_eq_ok h
        exact ⟨root', h⟩
      · rintro ⟨root', h⟩
        exact ⟨.obj root', by rw [stitch, h]; rfl⟩
    rw [hmap, exists_mapM_iff]
    constructor
    · rintro h _ ⟨⟩ m hm
      exact (exists_stitchRoot_iff (hvalues m hm)).1 (h m hm)
    · intro h m hm
      exact (exists_stitchRoot_iff (hvalues m hm)).2 (h root rfl m hm)
  | _ => simp [stitch]

theorem stitch_eq_error_iff {doc : Json} (hdoc : doc.merged = doc) {p : Problem} :
    stitch template view doc = .error p ↔ ∃ before m after, doc = .obj (before ++ m :: after) ∧
      (∀ m' ∈ before, ∀ p', ¬ Clashes view m' p') ∧ Clashes view m p := by
  cases doc with
  | obj root =>
    have hvalues := (Json.distinct_of_merged hdoc).2
    rw [stitch, map_eq_error_iff, mapM_eq_error_iff]
    constructor
    · rintro ⟨before, m, after, rfl, hbefore, hm⟩
      refine ⟨before, m, after, rfl, fun m' hm' => ?_, ?_⟩
      · exact (exists_stitchRoot_iff (hvalues m' (List.mem_append_left _ hm'))).1 (hbefore m' hm')
      · exact (stitchRoot_eq_error_iff (hvalues m (by simp))).1 hm
    · rintro ⟨before, m, after, ⟨⟩, hbefore, hm⟩
      refine ⟨before, m, after, rfl, fun m' hm' => ?_, ?_⟩
      · exact (exists_stitchRoot_iff (hvalues m' (List.mem_append_left _ hm'))).2 (hbefore m' hm')
      · exact (stitchRoot_eq_error_iff (hvalues m (by simp))).2 hm
  | _ => simp [stitch]

theorem stitched_of_stitch {doc doc' : Json} (hdoc : doc.merged = doc)
    (h : stitch template view doc = .ok doc') : Stitched template view doc doc' := by
  cases doc with
  | obj root =>
    have hvalues := (Json.distinct_of_merged hdoc).2
    obtain ⟨root', hroot, rfl⟩ := map_eq_ok h
    have hall := (List.forall₂_and_left _ _).2 ⟨hvalues, mapM_eq_ok_iff.1 hroot⟩
    exact .object (hall.imp fun m m' hm => stitchedRoot_of_stitchRoot hm.1 hm.2)
  | _ =>
    cases h
    exact .other (by simp)

theorem merged_unwrap {doc : Json} (h : doc.merged = doc) : (unwrap doc).merged = unwrap doc := by
  unfold unwrap
  split
  · rename_i ms hget
    cases doc with
    | obj root =>
      obtain ⟨before, after, rfl, -⟩ := List.lookup_eq_some_iff.1 hget
      exact (Json.distinct_of_merged h).2 ("declaration", .obj ms) (by simp)
    | _ => cases hget
  · exact h

/-- A document in which no object names a member twice, as the ones that are read, is stitched unless
a grouping clashes, and the first one that does is what stitching fails for. What it is stitched to has
every member in its place: groupings have their units moved and recorded, and all else is as it was. The
view that is recorded is the one that the slots were filled from. -/
theorem stitched_unless_clash (e : Engine) :
    (∀ view doc, doc.merged = doc →
      ((∃ doc', stitch e.name view doc = .ok doc') ↔
        ∀ root, doc = .obj root → ∀ m ∈ root, ∀ p, ¬ Clashes view m p) ∧
      (∀ p, stitch e.name view doc = .error p ↔ ∃ before m after, doc = .obj (before ++ m :: after) ∧
        (∀ m' ∈ before, ∀ p', ¬ Clashes view m' p') ∧ Clashes view m p) ∧
      ∀ doc', stitch e.name view doc = .ok doc' → Stitched e.name view doc doc') ∧
    ∀ fresh input declaration, e.render fresh input = .ok declaration →
      ∃ view text doc, e.view fresh input = .ok view ∧ e.substitute view = .ok text ∧
        Json.parse text = .ok doc ∧ Stitched e.name view (unwrap doc) declaration := by
  constructor
  · intro view doc hdoc
    exact ⟨exists_stitch_iff hdoc, fun p => stitch_eq_error_iff hdoc, fun doc' h =>
      stitched_of_stitch hdoc h⟩
  · intro fresh input declaration h
    unfold render at h
    obtain ⟨view, hview, h⟩ := bind_eq_ok_iff.1 h
    obtain ⟨text, htext, h⟩ := bind_eq_ok_iff.1 h
    obtain ⟨doc, hread, h⟩ := bind_eq_ok_iff.1 h
    have hparse := mapError_eq_ok hread
    exact ⟨view, text, doc, hview, htext, hparse,
      stitched_of_stitch (merged_unwrap (merged_of_parse hparse)) h⟩

/-- A grouping with two units, one of which has constants. -/
def twoUnits : Json :=
  .obj [("t", .obj [("class", .str "Tenant"),
    ("a", .obj [("class", .str "Application"), ("constants", .obj [("color", .str "red")])]),
    ("b", .obj [("class", .str "Application")])])]

/-- A template without slots that spells a document. -/
def spelling (doc : Json) : Engine :=
  ⟨"web", "", "", [.literal doc.print], [], .null, default⟩

/-- The first unit moves and both are recorded, also where the document is rendered; it does not move to
the key of the second one. -/
theorem stitched_unless_clash_twoUnits :
    twoUnits.merged = twoUnits ∧
    (∃ doc, stitch "web" [(appName, .str "a"), (applicationName, .str "z")] twoUnits = .ok doc ∧
      Stitched "web" [(appName, .str "a"), (applicationName, .str "z")] twoUnits doc) ∧
    (∃ before m after, twoUnits = .obj (before ++ m :: after) ∧
      Clashes [(appName, .str "a"), (applicationName, .str "b")] m (.renameConflict "t" "a" "b")) ∧
    ∃ declaration view text doc,
      (spelling twoUnits).render "id" (.obj [(appName, .str "a"), (applicationName, .str "z")]) =
        .ok declaration ∧
      (spelling twoUnits).substitute view = .ok text ∧ Json.parse text = .ok doc ∧
        Stitched "web" view (unwrap doc) declaration := by
  have hmerged : twoUnits.merged = twoUnits := by decide +kernel
  obtain ⟨hstitch, hrender⟩ := stitched_unless_clash (spelling twoUnits)
  have hok : (stitch "web" [(appName, .str "a"), (applicationName, .str "z")]
      twoUnits).toOption.isSome := by decide +kernel
  have herror : stitch "web" [(appName, .str "a"), (applicationName, .str "b")] twoUnits =
      .error (.renameConflict "t" "a" "b") := by decide +kernel
  have hrendered : ((spelling twoUnits).render "id"
      (.obj [(appName, .str "a"), (applicationName, .str "z")])).toOption.isSome := by decide +kernel
  obtain ⟨doc, hdoc⟩ := exists_of_isSome hok
  obtain ⟨declaration, hdeclaration⟩ := exists_of_isSome hrendered
  obtain ⟨-, -, hstitched⟩ := hstitch _ twoUnits hmerged
  obtain ⟨-, herror_iff, -⟩ := hstitch [(appName, .str "a"), (applicationName, .str "b")] _ hmerged
  obtain ⟨before, m, after, hroot, -, hclash⟩ := (herror_iff _).1 herror
  obtain ⟨view, text, read, -, htext, hread, h⟩ := hrender _ _ _ hdeclaration
  exact ⟨hmerged, ⟨doc, hdoc, hstitched doc hdoc⟩, ⟨before, m, after, hroot, hclash⟩, declaration,
    view, text, read, hdeclaration, htext, hread, h⟩

end Engine

end Stencil
