import Stencil.Proofs.Files.Links
import Stencil.Proofs.Files.Replace

/-!
# What a replacement spares

Replacing a file makes directories, writes another file in the directory of the path, and gives that file
the name of the path. Whichever step is the last one that is done, the file of the path has its old bytes or
all of the new ones, and every other file is as it was (`spares_replaceIn`). That is so in a file system with
links, too, with exceptions that are due to the name of the file that is written first. What stood under that
name is lost, and so are the bytes of the file that it led to. If that is the file of the path, then it is
torn; and if the way of that name leads over the name of the path, then it ends nowhere once the name is
taken (`lost_beside_and_torn`).
-/

namespace Stencil.Volume

open Files (endsInSlash temporaryPath replaceIn prepared Written Makes)

variable {v v' v₁ v₂ w : Volume} {p q r d s t x : Place} {n m : Nat} {trail trail₁ trail₂ : List Place}
  {before : List String} {path target : String} {bytes b : List UInt8}

/-! ### New directories -/

/-- Nothing has been added but directories. -/
structure Grown (v v' : Volume) : Prop where
  current : v'.current = v.current
  nodes : v'.nodes = v.nodes
  kept : ∀ p s, v.slots p = some s → v'.slots p = some s
  node : ∀ p n, v'.slots p = some (.node n) → v.slots p = some (.node n)

theorem Grown.refl (v : Volume) : Grown v v := ⟨rfl, rfl, fun _ _ h => h, fun _ _ h => h⟩

theorem Grown.trans (h : Grown v v₁) (h' : Grown v₁ v₂) : Grown v v₂ :=
  ⟨h'.current.trans h.current, h'.nodes.trans h.nodes, fun p s hs => h'.kept p s (h.kept p s hs),
    fun p n hn => h.node p n (h'.node p n hn)⟩

theorem grown_makeDirectory (h : v.makeDirectory path = .ok v') : Grown v v' := by
  rw [makeDirectory] at h
  split at h
  · cases h
  · rename_i p _
    split at h
    · cases h
    · rename_i hnone
      obtain rfl := Except.ok.inj h
      refine ⟨rfl, rfl, fun q s hs => ?_, fun q n hn => ?_⟩
      · show (if q = p then _ else _) = _
        rw [if_neg, hs]
        rintro rfl
        cases hnone.symm.trans hs
      · simp only at hn
        split at hn
        · cases hn
        · exact hn

theorem grown_of_makes {P : String → Prop} (h : Makes P v v') : Grown v v' := by
  induction h with
  | refl => exact .refl v
  | make _ _ hm ih => exact ih.trans (grown_makeDirectory hm)

theorem grown_prepared (outage : Option Outage) (path : String) (v : Volume) :
    Grown v (prepared outage path v) :=
  grown_of_makes (P := fun _ => True)
    (Files.makes_ensureParentIn outage (fun _ _ _ _ => trivial) (fun _ _ => trivial) v)

theorem Grown.link?_eq (h : Grown v v') (p : Place) : v'.link? p = v.link? p := by
  rcases hs : v.slots p with _ | _ | n
  · rcases hs' : v'.slots p with _ | _ | n
    · rw [link?, link?, hs, hs']
    · rw [link?, link?, hs, hs']
    · cases hs.symm.trans (h.node p n hs')
  · rw [link?, link?, hs, h.kept p _ hs]
  · rw [link?, link?, hs, h.kept p _ hs, h.nodes]

/-- Paths lead where they led before. -/
theorem Grown.leads (h : Grown v v') (hl : v.Leads path trail q) : v'.Leads path trail q := by
  refine ⟨hl.fits, hl.short, ?_⟩
  rw [start, h.current]
  exact hl.reach.congr (fun r hr => h.kept r _ hr) fun r _ => h.link?_eq r

/-! ### The file that is written first -/

/-- A file is open at a place, and bytes have been written to it. -/
structure Opened (v : Volume) (t : Place) (n : Nat) (bytes : List UInt8) (v' : Volume) : Prop where
  slot : v.slots t = some (.node n) ∨ v.slots t = none ∧ n = v.next
  link : v.link? t = none
  current : v'.current = v.current
  slots : ∀ r, v'.slots r = if r = t then some (.node n) else v.slots r
  nodes : ∀ m, v'.nodes m = if m = n then .file bytes else v.nodes m

theorem opened_write (hslot : v.slots t = some (.node n)) (hlink : v.link? t = none)
    (bytes : List UInt8) : Opened v t n bytes (v.write n bytes) := by
  refine ⟨.inl hslot, hlink, rfl, fun r => ?_, fun m => rfl⟩
  split
  · subst r
    exact hslot
  · rfl

theorem opened_add (hnone : v.slots t = none) (hlink : v.link? t = none) :
    Opened v t v.next [] (v.add t) :=
  ⟨.inr ⟨hnone, rfl⟩, hlink, rfl, fun _ => rfl, fun _ => rfl⟩

theorem exists_opened_of_create (h : v.create path = .ok (n, v')) :
    endsInSlash path = false ∧ ∃ trail t, v.Leads path trail t ∧ Opened v t n [] v' := by
  rw [create] at h
  split at h
  · cases h
  rename_i t ht
  obtain ⟨trail, hleads⟩ := placeOf_eq_ok_iff.1 ht
  have hlink (hslash : ¬ endsInSlash path = true) : v.link? t = none :=
    hleads.reach.link?_eq_none
      (Path.names_ne_nil hleads.fits.ne_empty (Bool.not_eq_true _ ▸ hslash))
  split at h
  · cases h
  · rename_i m hm
    split at h
    · cases h
    · rename_i hslash
      obtain ⟨rfl, rfl⟩ := Prod.mk.inj (Except.ok.inj h)
      exact ⟨Bool.not_eq_true _ ▸ hslash, trail, t, hleads, opened_write hm (hlink hslash) []⟩
  · rename_i hnone
    split at h
    · cases h
    · rename_i hslash
      obtain ⟨rfl, rfl⟩ := Prod.mk.inj (Except.ok.inj h)
      exact ⟨Bool.not_eq_true _ ▸ hslash, trail, t, hleads, opened_add hnone (hlink hslash)⟩

theorem exists_opened (h : Written v path bytes v') :
    ∃ trail t n, v.Leads (temporaryPath path) trail t ∧ Opened v t n bytes v' := by
  obtain ⟨n, v₁, hc, rfl⟩ := h
  obtain ⟨-, trail, t, hleads, ho⟩ := exists_opened_of_create hc
  refine ⟨trail, t, n, hleads, ho.slot, ho.link, ho.current, ho.slots, fun m => ?_⟩
  show (if m = n then _ else v₁.nodes m) = _
  rw [ho.nodes]
  split <;> rfl

namespace Opened

theorem slot_eq (h : Opened v t n bytes v') : v'.slots t = some (.node n) := by
  rw [h.slots, if_pos rfl]

theorem node_eq (h : Opened v t n bytes v') : v'.nodes n = .file bytes := by
  rw [h.nodes, if_pos rfl]

theorem slot_ne (h : Opened v t n bytes v') : v.slots t ≠ some .directory := by
  rcases h.slot with hs | ⟨hs, -⟩ <;> rw [hs] <;> exact nofun

/-- A place of the file that is open is the one where it was opened, or holds the same node. -/
theorem slot_of_node (h : Opened v t n bytes v') (hr : v.slots r = some (.node n)) :
    v.slots t = some (.node n) := by
  rcases h.slot with hs | ⟨-, hn⟩
  · exact hs
  · exact absurd (v.fresh r n hr) (by omega)

theorem directory_iff (h : Opened v t n bytes v') (r : Place) :
    v'.slots r = some .directory ↔ v.slots r = some .directory := by
  rw [h.slots]
  split
  · subst r
    simp [h.slot_ne]
  · rfl

theorem link?_eq (h : Opened v t n bytes v') (r : Place) : v'.link? r = v.link? r := by
  by_cases hr : r = t
  · subst hr
    rw [h.link, link?_of_node h.slot_eq, h.node_eq]
    rfl
  · rcases hs : v.slots r with _ | _ | m
    · rw [link?, link?, h.slots, if_neg hr, hs]
    · rw [link?, link?, h.slots, if_neg hr, hs]
    · have hs' : v'.slots r = some (.node m) := by rw [h.slots, if_neg hr, hs]
      rw [link?_of_node hs, link?_of_node hs', h.nodes]
      split
      · -- another name of the file that is open
        subst n
        rw [← link?_of_node (h.slot_of_node hs), h.link]
        rfl
      · rfl

theorem reach_iff (h : Opened v t n bytes v') {ns : List String} :
    v'.Reach p ns trail q ↔ v.Reach p ns trail q :=
  ⟨fun hr => hr.congr (fun r => (h.directory_iff r).1) fun r _ => (h.link?_eq r).symm,
    fun hr => hr.congr (fun r => (h.directory_iff r).2) fun r _ => h.link?_eq r⟩

theorem leads_iff (h : Opened v t n bytes v') : v'.Leads path trail q ↔ v.Leads path trail q := by
  have hstart : v'.start path = v.start path := by rw [start, start, h.current]
  constructor
  · exact fun hl => ⟨hl.fits, hl.short, h.reach_iff.1 (hstart ▸ hl.reach)⟩
  · exact fun hl => ⟨hl.fits, hl.short, h.reach_iff.2 (hstart ▸ hl.reach)⟩

end Opened

/-! ### The name that it takes -/

/-- Two places in one directory. Behind the first one is a file; it is moved to the second one, where there
is no directory and no other name of what is moved. -/
structure Aside (v : Volume) (s : Place) (before : List String) (trail : List Place) (d p q : Place)
    (beyond : List Place) (t : Place) (n : Nat) : Prop where
  reach : v.Reach s before trail d
  directory : v.slots d = some .directory
  source : v.slots p ≠ some .directory
  target : v.slots q ≠ some .directory
  parent : p.dropLast = d
  parent' : q.dropLast = d
  ne : v.slots q ≠ v.slots p
  behind : v.Behind p beyond t
  file : v.slots t = some (.node n)

theorem slots_move (v : Volume) (p q r : Place) : (v.move p q).slots r =
    if r = q then v.slots p else if r = p then none else v.slots r := rfl

namespace Aside

variable {beyond : List Place}

theorem places_ne (h : Aside v s before trail d p q beyond t n) : p ≠ q := by
  rintro rfl
  exact h.ne rfl

theorem slots_target (v : Volume) (p q : Place) : (v.move p q).slots q = v.slots p := by
  rw [slots_move, if_pos rfl]

theorem slots_source (h : Aside v s before trail d p q beyond t n) : (v.move p q).slots p = none := by
  rw [slots_move, if_neg h.places_ne, if_pos rfl]

theorem slots_other (hp : r ≠ p) (hq : r ≠ q) : (v.move p q).slots r = v.slots r := by
  rw [slots_move, if_neg hq, if_neg hp]

theorem link?_target (v : Volume) (p q : Place) : (v.move p q).link? q = v.link? p := by
  rw [link?, link?, slots_target]
  rfl

theorem link?_source (h : Aside v s before trail d p q beyond t n) : (v.move p q).link? p = none := by
  rw [link?, h.slots_source]

theorem link?_other (hp : r ≠ p) (hq : r ≠ q) : (v.move p q).link? r = v.link? r := by
  rw [link?, link?, slots_other hp hq]
  rfl

theorem directory_iff (h : Aside v s before trail d p q beyond t n) (r : Place) :
    (v.move p q).slots r = some .directory ↔ v.slots r = some .directory := by
  by_cases hq : r = q
  · subst hq
    rw [slots_target]
    exact ⟨fun hr => absurd hr h.source, fun hr => absurd hr h.target⟩
  · by_cases hp : r = p
    · subst hp
      rw [h.slots_source]
      exact ⟨nofun, fun hr => absurd hr h.source⟩
    · rw [slots_other hp hq]

theorem ne_of_directory (h : Aside v s before trail d p q beyond t n)
    (hr : v.slots r = some .directory) : r ≠ p ∧ r ≠ q :=
  ⟨fun he => h.source (he ▸ hr), fun he => h.target (he ▸ hr)⟩

/-- A way that leads over neither place is the same before and after. -/
theorem reach_iff (h : Aside v s before trail d p q beyond t n) {ns : List String}
    (hp : p ∉ x :: trail₁) (hq : q ∉ x :: trail₁) :
    (v.move p q).Reach r ns trail₁ x ↔ v.Reach r ns trail₁ x := by
  have hlink (y : Place) (hy : y ∈ x :: trail₁) : (v.move p q).link? y = v.link? y :=
    link?_other (fun he => hp (he ▸ hy)) fun he => hq (he ▸ hy)
  exact ⟨fun hr => hr.congr (fun y => (h.directory_iff y).1) fun y hy => (hlink y hy).symm,
    fun hr => hr.congr (fun y => (h.directory_iff y).2) hlink⟩

theorem file_ne (h : Aside v s before trail d p q beyond t n) :
    v.slots t ≠ some .directory := by
  rw [h.file]
  exact nofun

/-- The way to the directory does not lead over the place of the file. -/
theorem source_not_mem (h : Aside v s before trail d p q beyond t n) : p ∉ trail := fun hp => by
  obtain rfl := h.reach.eq_of_behind hp h.behind h.file_ne
  exact h.file_ne h.directory

/-- What is inside the link that was moved leads to the file, over the links that it led over before. -/
theorem eq_of_inside (h : Aside v s before trail d p q beyond t n) (hlink : v.link? p = some target)
    (hr : (v.move p q).Reach (startIn d target) (namesOf target) trail₁ x) (hp : x ≠ p) (hq : x ≠ q) :
    x = t ∧ beyond = p :: trail₁ ∧ q ∉ trail₁ := by
  have hlink' : (v.move p q).link? q = some target := (link?_target v p q).trans hlink
  have hself : q ∉ trail₁ := by
    refine Reach.not_mem_self hlink' (q := x) ?_
    rwa [h.parent']
  have hsource : p ∉ trail₁ := fun hmem => by
    obtain ⟨_, hsome⟩ := hr.exists_link hmem
    cases h.link?_source.symm.trans hsome
  have hv := (h.reach_iff (by simp [hsource, hp.symm]) (by simp [hself, hq.symm])).1 hr
  cases h.behind with
  | here hnone => cases hnone.symm.trans hlink
  | link hlink'' _ hinside =>
    obtain rfl := Option.some.inj (hlink''.symm.trans hlink)
    rw [h.parent] at hinside
    obtain ⟨rfl, rfl⟩ := hv.unique hinside
    exact ⟨rfl, rfl, hself⟩

/-- The names before lead to the same directory afterwards, if they lead to one. Then they did not lead over
the place that was taken. -/
theorem eq_of_reach (h : Aside v s before trail d p q beyond t n)
    (hr : (v.move p q).Reach s before trail₁ x) (hx : (v.move p q).slots x = some .directory) :
    x = d ∧ q ∉ trail := by
  have hx' := (h.directory_iff x).1 hx
  obtain ⟨hxp, hxq⟩ := h.ne_of_directory hx'
  have hsource : p ∉ trail₁ := fun hmem => by
    obtain ⟨_, hsome⟩ := hr.exists_link hmem
    cases h.link?_source.symm.trans hsome
  have htarget : q ∉ trail₁ := fun hmem => by
    -- no directory is behind the link that was moved
    obtain ⟨target, _, _, y, rest, _, hlink, hinside, hrest, -⟩ := hr.through hmem
    rw [h.parent'] at hinside
    have hy : (v.move p q).slots y = some .directory := by
      by_contra hy
      obtain ⟨-, -, rfl⟩ := hrest.eq_of_not_directory hy
      exact hy hx
    have hy' := (h.directory_iff y).1 hy
    obtain ⟨hyp, hyq⟩ := h.ne_of_directory hy'
    obtain ⟨rfl, -⟩ := h.eq_of_inside ((link?_target v p q).symm.trans hlink) hinside hyp hyq
    exact h.file_ne hy'
  have hv := (h.reach_iff (by simp [hsource, hxp.symm]) (by simp [htarget, hxq.symm])).1 hr
  obtain ⟨rfl, rfl⟩ := hv.unique h.reach
  exact ⟨rfl, htarget⟩

/-- What is behind the name afterwards is the file, if it is one at all. Then the way to it did not lead over
the place that was taken. -/
theorem eq_of_behind (h : Aside v s before trail d p q beyond t n)
    (hb : (v.move p q).Behind q trail₁ x) (hx : (v.move p q).slots x = some (.node m))
    (hm : v.nodes m = .file b) : m = n ∧ q ∉ t :: beyond := by
  cases hb with
  | here hnone =>
    rw [link?_target] at hnone
    rw [slots_target] at hx
    cases h.behind with
    | here =>
      refine ⟨Slot.node.inj (Option.some.inj (hx.symm.trans h.file)), ?_⟩
      simpa using h.places_ne.symm
    | link hlink => cases hnone.symm.trans hlink
  | link hlink _ hinside =>
    rw [link?_target] at hlink
    rw [h.parent'] at hinside
    have hxp : x ≠ p := by
      rintro rfl
      cases h.slots_source.symm.trans hx
    have hxq : x ≠ q := by
      rintro rfl
      rw [slots_target] at hx
      rw [link?_of_node hx, hm] at hlink
      cases hlink
    obtain ⟨rfl, rfl, hself⟩ := h.eq_of_inside hlink hinside hxp hxq
    rw [slots_other hxp hxq, h.file] at hx
    refine ⟨(Slot.node.inj (Option.some.inj hx)).symm, ?_⟩
    simp [hxq.symm, h.places_ne.symm, hself]

/-- The file is behind the name afterwards, if the way to it did not lead over that name. -/
theorem exists_behind (h : Aside v s before trail d p q beyond t n) (hq : q ∉ t :: (trail ++ beyond)) :
    (v.move p q).Reach s before trail d ∧ ∃ trail₁ x, trail₁.length = beyond.length ∧
      (v.move p q).Behind q trail₁ x ∧ (v.move p q).slots x = some (.node n) := by
  simp only [List.mem_cons, List.mem_append, not_or] at hq
  obtain ⟨hqt, hqtrail, hqbeyond⟩ := hq
  obtain ⟨hdp, hdq⟩ := h.ne_of_directory h.directory
  refine ⟨(h.reach_iff (by simp [hdp.symm, h.source_not_mem])
    (by simp [hdq.symm, hqtrail])).2 h.reach, ?_⟩
  cases h.behind with
  | here hnone =>
    refine ⟨[], q, rfl, .here ((link?_target v p q).trans hnone), ?_⟩
    rw [slots_target, h.file]
  | @link _ target beyond hlink hne hinside =>
    have htp : t ≠ p := by
      rintro rfl
      cases h.behind.link?_eq_none.symm.trans hlink
    refine ⟨q :: beyond, t, rfl, .link ((link?_target v p q).trans hlink) hne ?_, ?_⟩
    · rw [h.parent', ← h.parent]
      have hself := Reach.not_mem_self hlink hinside
      exact (h.reach_iff (by simp [htp.symm, hself])
        (by simp_all)).2 hinside
    · rw [slots_other htp (Ne.symm hqt), h.file]

end Aside

theorem unlessSlash_eq_ok {place : Except IoFault Place} (h : v.unlessSlash path place = .ok p) :
    place = .ok p := by
  unfold unlessSlash at h
  split at h
  · cases h
  · split at h
    · split at h
      · cases h
      · exact h
    · exact h

/-- A file gets another name, unless the two names already are of one node. -/
theorem of_rename_eq_ok {source : String} (h : v.rename source target = .ok w) : ∃ p q n,
    v.entryOf source = .ok p ∧ v.entryOf target = .ok q ∧ v.slots p = some (.node n) ∧
      v.slots q ≠ some .directory ∧ endsInSlash target = false ∧
      (v.slots q = some (.node n) ∧ w = v ∨ v.slots q ≠ some (.node n) ∧ w = v.move p q) := by
  rw [rename] at h
  split at h
  · cases h
  · cases h
  · rename_i p q hp hq
    split at h
    · cases h
    · cases h
    · rename_i n hn
      split at h
      · cases h
      · rename_i hslash
        split at h
        · cases h
        · rename_i hnot
          refine ⟨p, q, n, unlessSlash_eq_ok hp, unlessSlash_eq_ok hq, hn, hnot,
            Bool.not_eq_true _ ▸ hslash, ?_⟩
          split at h
          · exact .inl ⟨‹_›, (Except.ok.inj h).symm⟩
          · exact .inr ⟨‹_›, (Except.ok.inj h).symm⟩

/-- The names of a path and of the file that is written first stand in one directory. -/
structure Siblings (v : Volume) (path : String) (before : List String) (a b : String)
    (trail : List Place) (d p q : Place) : Prop where
  names : Path.names path = before ++ [b]
  names' : Path.names (temporaryPath path) = before ++ [a]
  fits : Files.Fits path
  fits' : Files.Fits (temporaryPath path)
  start : v.start (temporaryPath path) = v.start path
  short : trail.length ≤ linkLimit
  reach : v.Reach (v.start path) before trail d
  step : v.step d b = .ok q
  step' : v.step d a = .ok p
  parent : q.dropLast = d
  parent' : p.dropLast = d

theorem exists_siblings {name : String} (hname : Path.fileName? path = some name)
    (hp : v.entryOf (temporaryPath path) = .ok p) (hq : v.entryOf path = .ok q)
    (hnot : v.slots q ≠ some .directory) :
    ∃ before a b trail d, v.Siblings path before a b trail d p q := by
  obtain ⟨before, hends⟩ := Path.ends_of_fileName? hname
  obtain ⟨dots, hdots, hnames⟩ := hends.names
  obtain ⟨habs, hnames'⟩ := hends.other "tmp" (by decide)
  obtain ⟨hdot, hup⟩ := Files.temporary_name_ne_dots (Path.stemAndExtension name).1
  rcases List.eq_nil_or_concat dots with rfl | ⟨ds, dot, rfl⟩
  · obtain ⟨hfits, trail, d, hshort, hreach, hstep⟩ := of_entryOf_eq_ok hq hnames
    obtain ⟨hfits', trail', d', -, hreach', hstep'⟩ := of_entryOf_eq_ok hp hnames'
    have hstart : v.start (temporaryPath path) = v.start path := by
      rw [start, start, startIn, startIn, temporaryPath, habs]
    rw [hstart] at hreach'
    obtain ⟨rfl, rfl⟩ := hreach.unique hreach'
    refine ⟨before, _, name, trail, d, hnames, hnames', hfits, hfits', hstart, hshort, hreach, hstep,
      hstep', ?_, ?_⟩
    · rw [eq_of_step hends.ne_dot hends.ne_dots hstep, List.dropLast_concat]
    · rw [eq_of_step hdot hup hstep', List.dropLast_concat]
  · -- the last name is a dot, so there is a directory
    obtain rfl : dot = "." := hdots dot (by simp)
    have hlast : Path.names path = (before ++ name :: ds) ++ ["."] := by simp [hnames]
    obtain ⟨-, trail, d, -, -, hstep⟩ := of_entryOf_eq_ok hq hlast
    rw [step_dot hstep] at hnot
    exact absurd (directory_of_step hstep) hnot

namespace Siblings

variable {beyond : List Place} {a c : String}

theorem exists_beyond (h : v.Siblings path before a c trail₁ d p q)
    (ht : v.Leads (temporaryPath path) trail t) :
    ∃ beyond, trail = trail₁ ++ beyond ∧ v.Behind p beyond t := by
  obtain ⟨trail₁', d', p', beyond, hreach, hstep, hbehind, rfl⟩ := ht.split h.names'
  rw [h.start] at hreach
  obtain ⟨rfl, rfl⟩ := h.reach.unique hreach
  obtain rfl := Except.ok.inj (h.step'.symm.trans hstep)
  exact ⟨beyond, rfl, hbehind⟩

theorem exists_beyond' (h : v.Siblings path before a c trail₁ d p q) (hx : v.Leads path trail x) :
    ∃ beyond, trail = trail₁ ++ beyond ∧ v.Behind q beyond x := by
  obtain ⟨trail₁', d', q', beyond, hreach, hstep, hbehind, rfl⟩ := hx.split h.names
  obtain ⟨rfl, rfl⟩ := h.reach.unique hreach
  obtain rfl := Except.ok.inj (h.step.symm.trans hstep)
  exact ⟨beyond, rfl, hbehind⟩

theorem leads (h : v.Siblings path before a c trail₁ d p q) (hx : v.Behind q beyond x)
    (hl : (trail₁ ++ beyond).length ≤ linkLimit) : v.Leads path (trail₁ ++ beyond) x :=
  leads_of_split h.fits h.names hl h.reach h.step hx

/-- What is behind the one name is behind the other one, if both are names of one node. -/
theorem behind_of_same (h : v.Siblings path before a c trail₁ d p q) (hp : v.slots p = some (.node m))
    (hq : v.slots q = some (.node m)) (hb : v.Behind p beyond t) :
    beyond = [] ∧ t = p ∧ v.Behind q [] q ∨ ∃ rest, beyond = p :: rest ∧ v.Behind q (q :: rest) t := by
  have hlink : v.link? q = v.link? p := by rw [link?_of_node hp, link?_of_node hq]
  cases hb with
  | here hnone => exact .inl ⟨rfl, rfl, .here (hlink.trans hnone)⟩
  | @link _ target rest hsome hne hinside =>
    refine .inr ⟨rest, rfl, .link (hlink.trans hsome) hne ?_⟩
    rwa [h.parent, ← h.parent']

/-- Under two names of one node is the same. -/
theorem exists_leads (h : v.Siblings path before a c trail₁ d p q)
    (ht : v.Leads (temporaryPath path) trail t) (hp : v.slots p = some (.node m))
    (hq : v.slots q = some (.node m)) :
    ∃ trail x, v.Leads path trail x ∧ v.slots x = v.slots t := by
  obtain ⟨beyond, rfl, hbehind⟩ := h.exists_beyond ht
  have hshort := ht.short
  rcases h.behind_of_same hp hq hbehind with ⟨rfl, rfl, hbehind'⟩ | ⟨rest, rfl, hbehind'⟩
  · exact ⟨_, q, h.leads hbehind' hshort, hq.trans hp.symm⟩
  · refine ⟨_, t, h.leads hbehind' ?_, rfl⟩
    rwa [List.length_append, List.length_cons] at hshort ⊢

/-- The way of one of them does not lead over the other one. -/
theorem not_mem (h : v.Siblings path before a c trail₁ d p q) (ht : v.Leads (temporaryPath path) trail t)
    (hfile : v.slots t ≠ some .directory) (hne : p ≠ q) (hp : v.slots p = some (.node m))
    (hq : v.slots q = some (.node m)) : q ∉ t :: trail := by
  obtain ⟨beyond, rfl, hbehind⟩ := h.exists_beyond ht
  have hover {y : Place} {trail : List Place} (hy : v.Behind q trail y)
      (hfile : v.slots y ≠ some .directory) : q ∉ trail₁ := fun hmem => by
    obtain rfl := h.reach.eq_of_behind hmem hy hfile
    exact hfile (directory_of_step h.step)
  rw [List.mem_cons, List.mem_append, not_or, not_or]
  rcases h.behind_of_same hp hq hbehind with ⟨rfl, rfl, hbehind'⟩ | ⟨rest, rfl, hbehind'⟩
  · exact ⟨hne.symm, hover hbehind' (by simp [hq]), List.not_mem_nil⟩
  · have hrest := hbehind'.not_mem
    rw [List.mem_cons, not_or] at hrest ⊢
    exact ⟨hrest.1, hover hbehind' hfile, hne.symm, hrest.2⟩

end Siblings

/-! ### What is spared -/

/-- Two paths lead to one file, or to one place where none is. -/
def SameFile (v : Volume) (path other : String) : Prop :=
  ∃ p q, v.placeOf path = .ok p ∧ v.placeOf other = .ok q ∧
    (p = q ∨ ∃ n, v.slots p = some (.node n) ∧ v.slots q = some (.node n))

/-- A path leads to a node. -/
def LeadsTo (v : Volume) (path : String) (n : Nat) : Prop :=
  ∃ p, v.placeOf path = .ok p ∧ v.slots p = some (.node n)

/-- A path leads to a place, or over a link there. -/
def Visits (v : Volume) (path : String) (p : Place) : Prop :=
  ∃ trail q, v.Leads path trail q ∧ (p = q ∨ p ∈ trail)

/-- What a replacement of the file of a path may have done by some step. What can be read under the path is
new in full, or it is what the same file held before, unless that is the file of the temporary path. Other
names keep their nodes, and other nodes what they hold: the names are those of the path and of the temporary
path, and the node is the one that the temporary path leads to. That path is looked at when the directories
are there, in `v₁`. -/
structure Spares (v v₁ : Volume) (path : String) (bytes : List UInt8) (v' : Volume) : Prop where
  seen : ¬ v₁.SameFile path (temporaryPath path) → ∀ b, v'.readBytes path = .ok b →
    b = bytes ∨ ∃ q n, v'.placeOf path = .ok q ∧ v.slots q = some (.node n) ∧ v.nodes n = .file b
  readable : ¬ v₁.SameFile path (temporaryPath path) → ∀ b, v.readBytes path = .ok b →
    v'.readBytes path = .ok b ∨ v'.readBytes path = .ok bytes
  directories : ∀ q, v.slots q = some .directory → v'.slots q = some .directory
  others : ∀ q n, v₁.entryOf path ≠ .ok q → v₁.entryOf (temporaryPath path) ≠ .ok q →
    ¬ v₁.LeadsTo (temporaryPath path) n → v.slots q = some (.node n) →
      v'.slots q = some (.node n) ∧ v'.nodes n = v.nodes n

theorem Grown.spares (h : Grown v v₁) : Spares v v₁ path bytes v₁ where
  seen _ b hb := by
    obtain ⟨trail, q, n, hleads, -, hslot, hnode⟩ := readBytes_eq_ok_iff.1 hb
    exact .inr ⟨q, n, placeOf_eq_ok_iff.2 ⟨trail, hleads⟩, h.node q n hslot, h.nodes ▸ hnode⟩
  readable _ b hb := by
    obtain ⟨trail, q, n, hleads, hslash, hslot, hnode⟩ := readBytes_eq_ok_iff.1 hb
    exact .inl (readBytes_eq_ok_iff.2
      ⟨trail, q, n, h.leads hleads, hslash, h.kept q _ hslot, h.nodes ▸ hnode⟩)
  directories q hq := h.kept q _ hq
  others q n _ _ _ hq := ⟨h.kept q _ hq, by rw [h.nodes]⟩

/-- A file that the path leads to, and that is not the one which is open, is as it was. -/
theorem Opened.of_leads (h : Opened v₁ t n bytes w) (ht : v₁.Leads (temporaryPath path) trail t)
    (hsame : ¬ v₁.SameFile path (temporaryPath path)) (hq : v₁.Leads path trail₁ q)
    (hm : w.slots q = some (.node m)) : v₁.slots q = some (.node m) ∧ m ≠ n := by
  have hplaces := placeOf_eq_ok_iff.2 ⟨_, hq⟩
  have hplacet := placeOf_eq_ok_iff.2 ⟨_, ht⟩
  rw [h.slots] at hm
  split at hm
  · rename_i he
    exact absurd ⟨q, t, hplaces, hplacet, .inl he⟩ hsame
  · refine ⟨hm, ?_⟩
    rintro rfl
    exact hsame ⟨q, t, hplaces, hplacet, .inr ⟨m, hm, h.slot_of_node hm⟩⟩

/-- Something is written to the file beside. -/
theorem Grown.spares_opened (h : Grown v v₁) (ht : v₁.Leads (temporaryPath path) trail t)
    {written : List UInt8} (ho : Opened v₁ t n written w) : Spares v v₁ path bytes w where
  seen hsame b hb := by
    obtain ⟨trail₁, q, m, hleads, -, hslot, hnode⟩ := readBytes_eq_ok_iff.1 hb
    obtain ⟨hslot₁, hne⟩ := ho.of_leads ht hsame (ho.leads_iff.1 hleads) hslot
    rw [ho.nodes, if_neg hne, h.nodes] at hnode
    exact .inr ⟨q, m, placeOf_eq_ok_iff.2 ⟨_, hleads⟩, h.node q m hslot₁, hnode⟩
  readable hsame b hb := by
    obtain ⟨trail₁, q, m, hleads, hslash, hslot, hnode⟩ := readBytes_eq_ok_iff.1 hb
    have hleads₁ := h.leads hleads
    have hqt : q ≠ t := fun he =>
      hsame ⟨q, t, placeOf_eq_ok_iff.2 ⟨_, hleads₁⟩, placeOf_eq_ok_iff.2 ⟨_, ht⟩, .inl he⟩
    have hslot' : w.slots q = some (.node m) := by rw [ho.slots, if_neg hqt, h.kept q _ hslot]
    obtain ⟨-, hne⟩ := ho.of_leads ht hsame hleads₁ hslot'
    refine .inl (readBytes_eq_ok_iff.2 ⟨trail₁, q, m, ho.leads_iff.2 hleads₁, hslash, hslot', ?_⟩)
    rw [ho.nodes, if_neg hne, h.nodes, hnode]
  directories q hq := (ho.directory_iff q).2 (h.kept q _ hq)
  others q m _ _ hnode hq := by
    have hq₁ := h.kept q _ hq
    have hne : m ≠ n := by
      rintro rfl
      exact hnode ⟨t, placeOf_eq_ok_iff.2 ⟨_, ht⟩, ho.slot_of_node hq₁⟩
    have hqt : q ≠ t := by
      rintro rfl
      exact hnode ⟨q, placeOf_eq_ok_iff.2 ⟨_, ht⟩, hq₁⟩
    rw [ho.slots, if_neg hqt, ho.nodes, if_neg hne, h.nodes]
    exact ⟨hq₁, rfl⟩

/-- The names are where they were before the file was opened. -/
theorem Opened.entryOf_eq {a c : String} (h : Opened v₁ t n bytes v₂)
    (hs : v₂.Siblings path before a c trail d p q) :
    v₁.entryOf path = .ok q ∧ v₁.entryOf (temporaryPath path) = .ok p := by
  have hstart (path : String) : v₂.start path = v₁.start path := by rw [start, start, h.current]
  have hd := directory_of_step hs.step
  have hstep (name : String) := step_congr hd ((h.directory_iff d).1 hd) name
  have hreach := h.reach_iff.1 hs.reach
  constructor
  · rw [hstart] at hreach
    exact entryOf_eq_ok hs.fits hs.names hs.short hreach ((hstep c).trans hs.step)
  · rw [← hs.start, hstart] at hreach
    exact entryOf_eq_ok hs.fits' hs.names' hs.short hreach ((hstep a).trans hs.step')

theorem Leads.visits_iff (h : v.Leads path trail t) : v.Visits path q ↔ q ∈ t :: trail := by
  rw [List.mem_cons]
  constructor
  · rintro ⟨trail', t', h', hq⟩
    obtain ⟨rfl, rfl⟩ := h.reach.unique h'.reach
    exact hq
  · exact fun hq => ⟨trail, t, h, hq⟩

/-- The temporary path has the name of the path, or its way does not lead there or over it. -/
def Clear (v : Volume) (path : String) : Prop :=
  v.entryOf (temporaryPath path) = v.entryOf path ∨
    ∀ q, v.entryOf path = .ok q → ¬ v.Visits (temporaryPath path) q

section Renamed

variable (ht : v₁.Leads (temporaryPath path) trail t) (ho : Opened v₁ t n bytes v₂)
  (hp : v₂.entryOf (temporaryPath path) = .ok p) (hq : v₂.entryOf path = .ok q)

include ht ho hp hq

/-- Where the two names are of one node already, the bytes are under both of them. -/
theorem readBytes_of_same (hslash : endsInSlash path = false) (hpm : v₂.slots p = some (.node m))
    (hqm : v₂.slots q = some (.node m)) : v₂.readBytes path = .ok bytes ∧ v₁.Clear path := by
  cases hname : Path.fileName? path with
  | none =>
    have hpath : temporaryPath path = path := by rw [temporaryPath, Path.withExtension, hname]
    refine ⟨?_, .inl (by rw [hpath])⟩
    rw [hpath] at ht
    exact readBytes_eq_ok_iff.2 ⟨trail, t, n, ho.leads_iff.2 ht, hslash, ho.slot_eq, ho.node_eq⟩
  | some name =>
    obtain ⟨before, a, c, trail₁, d, hs⟩ := exists_siblings hname hp hq (by simp [hqm])
    have ht₂ := ho.leads_iff.2 ht
    obtain ⟨trail', x, hleads, hslot⟩ := hs.exists_leads ht₂ hpm hqm
    obtain ⟨hq₁, hp₁⟩ := ho.entryOf_eq hs
    refine ⟨readBytes_eq_ok_iff.2
      ⟨trail', x, n, hleads, hslash, hslot.trans ho.slot_eq, ho.node_eq⟩, ?_⟩
    by_cases hne : p = q
    · exact .inl (by rw [hp₁, hq₁, hne])
    · refine .inr fun q' hq' => ?_
      obtain rfl := Except.ok.inj (hq₁.symm.trans hq')
      rw [ht.visits_iff]
      exact hs.not_mem ht₂ (by simp [ho.slot_eq]) hne hpm hqm

variable (hpm : v₂.slots p = some (.node m)) (hnot : v₂.slots q ≠ some .directory)
  (hqm : v₂.slots q ≠ some (.node m))

include hpm hnot hqm

/-- Where the file takes a name of another node or a new one, it is behind that name, or nothing is. -/
theorem exists_aside : ∃ before a c trail₁ d beyond, v₂.Siblings path before a c trail₁ d p q ∧
    trail = trail₁ ++ beyond ∧ v₂.Aside (v₂.start path) before trail₁ d p q beyond t n := by
  cases hname : Path.fileName? path with
  | none =>
    have hpath : temporaryPath path = path := by rw [temporaryPath, Path.withExtension, hname]
    rw [hpath, hq] at hp
    obtain rfl := Except.ok.inj hp
    exact absurd hpm hqm
  | some name =>
    obtain ⟨before, a, c, trail₁, d, hs⟩ := exists_siblings hname hp hq hnot
    obtain ⟨beyond, rfl, hbehind⟩ := hs.exists_beyond (ho.leads_iff.2 ht)
    refine ⟨before, a, c, trail₁, d, beyond, hs, rfl, hs.reach, directory_of_step hs.step, ?_, hnot,
      hs.parent', hs.parent, ?_, hbehind, ho.slot_eq⟩
    · simp [hpm]
    · rw [hpm]
      exact hqm

/-- What can be read then is what was written, and the way to it did not lead over the name. -/
theorem eq_of_readBytes_move (hb : (v₂.move p q).readBytes path = .ok b) :
    b = bytes ∧ q ∉ t :: trail := by
  obtain ⟨before, a, c, trail₁, d, beyond, hs, rfl, haside⟩ :=
    exists_aside ht ho hp hq hpm hnot hqm
  obtain ⟨trail', x, k, hleads, -, hslot, hnode⟩ := readBytes_eq_ok_iff.1 hb
  obtain ⟨trail₁', d', q', beyond', hreach, hstep, hbehind, -⟩ := hleads.split hs.names
  have hd' := directory_of_step hstep
  obtain ⟨rfl, htrail⟩ := haside.eq_of_reach hreach hd'
  rw [step_congr haside.directory hd', hs.step] at hstep
  obtain rfl := Except.ok.inj hstep
  obtain ⟨rfl, hbeyond⟩ := haside.eq_of_behind hbehind hslot hnode
  refine ⟨(Node.file.inj (ho.node_eq.symm.trans hnode)).symm, ?_⟩
  simp_all

/-- It can be read if the way of the file that was written did not lead over the name. -/
theorem readBytes_move (hslash : endsInSlash path = false) (hway : q ∉ t :: trail) :
    (v₂.move p q).readBytes path = .ok bytes := by
  obtain ⟨before, a, c, trail₁, d, beyond, hs, rfl, haside⟩ :=
    exists_aside ht ho hp hq hpm hnot hqm
  obtain ⟨hreach, beyond', x, hlength, hbehind, hslot⟩ := haside.exists_behind hway
  have hd := (haside.directory_iff d).2 haside.directory
  have hstep := (step_congr haside.directory hd c).trans hs.step
  have hshort := ht.short
  rw [List.length_append, ← hlength, ← List.length_append] at hshort
  exact readBytes_eq_ok_iff.2 ⟨_, x, n, leads_of_split hs.fits hs.names hshort hreach hstep hbehind,
    hslash, hslot, ho.node_eq⟩

/-- The way does not lead over the name if that led to another file. -/
theorem not_mem_of_leads {trail' : List Place} (hx : v₂.Leads path trail' x)
    (hfile : v₂.slots x ≠ some .directory) (hne : x ≠ t) : q ∉ t :: trail := by
  obtain ⟨before, a, c, trail₁, d, beyond, hs, rfl, haside⟩ :=
    exists_aside ht ho hp hq hpm hnot hqm
  obtain ⟨beyond', -, hbehind⟩ := hs.exists_beyond' hx
  rw [List.mem_cons, not_or]
  constructor
  · rintro rfl
    obtain ⟨-, rfl⟩ := hbehind.unique (.here haside.behind.link?_eq_none)
    exact hne rfl
  · intro hmem
    exact hne ((ho.leads_iff.2 ht).reach.eq_of_behind hmem hbehind hfile).symm

end Renamed

/-- The file beside takes the name of the other one. -/
theorem Grown.spares_rename (h : Grown v v₁) (ht : v₁.Leads (temporaryPath path) trail t)
    (ho : Opened v₁ t n bytes v₂) (hr : v₂.rename (temporaryPath path) path = .ok w) :
    Spares v v₁ path bytes w ∧ (w.readBytes path = .ok bytes ↔ v₁.Clear path) := by
  obtain ⟨p, q, m, hp, hq, hpm, hnot, hslash, ⟨hqm, rfl⟩ | ⟨hqm, rfl⟩⟩ := of_rename_eq_ok hr
  · obtain ⟨hread, hclear⟩ := readBytes_of_same ht ho hp hq hslash hpm hqm
    exact ⟨h.spares_opened ht ho, fun _ => hclear, fun _ => hread⟩
  have hspares : Spares v v₁ path bytes v₂ := h.spares_opened ht ho
  obtain ⟨before, a, c, trail₁, d, beyond, hs, -, -⟩ := exists_aside ht ho hp hq hpm hnot hqm
  obtain ⟨hq₁, hp₁⟩ := ho.entryOf_eq hs
  have hne : q ≠ p := by
    rintro rfl
    exact hqm hpm
  refine ⟨⟨fun _ b hb => .inl (eq_of_readBytes_move ht ho hp hq hpm hnot hqm hb).1, ?_, ?_, ?_⟩, ?_, ?_⟩
  · intro hsame b hb
    obtain ⟨trail', x, k, hleads, -, hslot, -⟩ := readBytes_eq_ok_iff.1 hb
    have hleads₁ := h.leads hleads
    have hxt : x ≠ t := fun he =>
      hsame ⟨x, t, placeOf_eq_ok_iff.2 ⟨_, hleads₁⟩, placeOf_eq_ok_iff.2 ⟨_, ht⟩, .inl he⟩
    have hfile : v₂.slots x ≠ some .directory := by
      rw [ho.slots, if_neg hxt, h.kept x _ hslot]
      exact nofun
    exact .inr (readBytes_move ht ho hp hq hpm hnot hqm hslash
      (not_mem_of_leads ht ho hp hq hpm hnot hqm (ho.leads_iff.2 hleads₁) hfile hxt))
  · intro r hr
    have hr₂ := hspares.directories r hr
    rw [slots_move, if_neg, if_neg, hr₂]
    · rintro rfl
      cases hpm.symm.trans hr₂
    · rintro rfl
      exact hnot hr₂
  · intro r k hpath htemporary hnode hr
    obtain ⟨hr₂, hk⟩ := hspares.others r k hpath htemporary hnode hr
    refine ⟨?_, hk⟩
    rw [slots_move, if_neg, if_neg, hr₂]
    · rintro rfl
      exact htemporary hp₁
    · rintro rfl
      exact hpath hq₁
  · intro hb
    refine .inr fun q' hq' => ?_
    obtain rfl := Except.ok.inj (hq₁.symm.trans hq')
    rw [ht.visits_iff]
    exact (eq_of_readBytes_move ht ho hp hq hpm hnot hqm hb).2
  · rintro (heq | hway)
    · rw [hp₁, hq₁] at heq
      exact absurd (Except.ok.inj heq).symm hne
    · exact readBytes_move ht ho hp hq hpm hnot hqm hslash
        fun hmem => hway q hq₁ (ht.visits_iff.2 hmem)

/-- **A file is replaced in one step**: wherever replacing it stops, at a step that fails or because nothing
more is done, the file of the path is not torn, unless the temporary path leads to it, and no other file is
lost or changed but what stands under the temporary path and the file that this path leads to. If it comes to
its end, the new bytes are there, unless the way of the temporary path leads to the name of the path or over
it, and is not that name itself. -/
theorem spares_replaceIn (v : Volume) (path : String) (bytes : List UInt8) (outage : Option Outage) :
    (replaceIn outage path bytes).Leaves v
      (fun _ v' => Spares v (prepared outage path v) path bytes v' ∧
        (v'.readBytes path = .ok bytes ↔ (prepared outage path v).Clear path))
      (Spares v (prepared outage path v) path bytes) := by
  have h := grown_prepared outage path v
  refine (Files.leaves_replaceIn_steps outage path bytes v).imp ?_ ?_
  · rintro - w ⟨v₂, hw, hr⟩
    obtain ⟨trail, t, n, ht, ho⟩ := exists_opened hw
    exact h.spares_rename ht ho hr
  · rintro w (rfl | ⟨written, hw⟩)
    · exact h.spares
    · obtain ⟨trail, t, n, ht, ho⟩ := exists_opened hw
      exact h.spares_opened ht ho

/-! ### What is not spared -/

/-- A directory `work`, the current one, with these names in it; each node is numbered by its place in the
list. -/
def working (names : List (String × Nat)) (nodes : List Node) : Volume where
  slots
    | [] => some .directory
    | ["work"] => some .directory
    | ["work", name] => ((names.lookup name).filter (· < nodes.length)).map .node
    | _ => none
  nodes n := nodes.getD n (.file [])
  current := ["work"]
  next := nodes.length
  fresh p n h := by
    split at h
    · cases h
    · cases h
    · obtain ⟨m, hm, hn⟩ := Option.map_eq_some_iff.1 h
      obtain rfl := Slot.node.inj hn
      exact of_decide_eq_true (Option.filter_eq_some_iff.1 hm).2
    · cases h

/-- The disk is full when one byte has been written. -/
def full : Option Outage := some ⟨.write 1, .other "full"⟩

/-- What stands under the temporary path is lost; a file that is written under its own name is torn, and so
is one that the temporary path is another name of; a file that the temporary path is a link to is
overwritten; and a link there to the path itself leads to itself in the end. -/
theorem lost_beside_and_torn :
    (let v := working [("store.tmp", 0)] [.file [1]];
      v.readBytes "store.tmp" = .ok [1] ∧
        (Op.result (replaceIn none "store.json" [2]) v).2.readBytes "store.tmp" = .error .missing) ∧
    (let v := working [("store.tmp", 0)] [.file [1]];
      v.readBytes "store.tmp" = .ok [1] ∧
        (Op.result (replaceIn full "store.tmp" [2, 3]) v).2.readBytes "store.tmp" = .ok [2]) ∧
    (let v := working [("store.json", 0), ("store.tmp", 0)] [.file [1]];
      v.readBytes "store.json" = .ok [1] ∧
        (Op.result (replaceIn full "store.json" [2, 3]) v).2.readBytes "store.json" = .ok [2]) ∧
    (let v := working [("other", 0), ("store.tmp", 1)] [.file [1], .link "other"];
      v.readBytes "other" = .ok [1] ∧
        (Op.result (replaceIn none "store.json" [2]) v).2.readBytes "other" = .ok [2]) ∧
    (let v := working [("store.json", 0), ("store.tmp", 1)] [.file [1], .link "store.json"];
      v.readBytes "store.json" = .ok [1] ∧
        (Op.result (replaceIn none "store.json" [2]) v).1 = .ok () ∧
        (Op.result (replaceIn none "store.json" [2]) v).2.readBytes "store.json" =
          .error tooManyLinks) := by
  refine ⟨⟨?_, ?_⟩, ⟨?_, ?_⟩, ⟨?_, ?_⟩, ⟨?_, ?_⟩, ?_, ?_, ?_⟩ <;> decide +kernel

end Stencil.Volume
