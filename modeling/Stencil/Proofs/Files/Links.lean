import Stencil.Files.Volume
import Stencil.Proofs.Except
import Stencil.Proofs.Files.Beside

/-!
# The ways of paths

Names lead from a place to another one, over links that are followed on the way (`Volume.Reach`). The way is
the only one, and it can be taken apart at any name and at any link on it. A link that leads to a file can
only be the last one on a way that goes on inside it, and no way leads twice over such a link.
-/

namespace Stencil

/-- A path that does not end in a slash has a name. -/
theorem Path.names_ne_nil {path : String} (hne : path ≠ "") (hslash : Files.endsInSlash path = false) :
    Path.names path ≠ [] := by
  rw [Path.names_eq_pieces, ← List.reverse_reverse path.toList]
  have hnil : path.toList.reverse ≠ [] := by simpa using hne
  by_cases hmem : '/' ∈ path.toList.reverse
  · obtain ⟨last, before, hrev, hlast⟩ := List.eq_append_cons_of_mem hmem
    -- there is something behind the last slash
    have hlast_ne : last.reverse ≠ [] := by
      intro he
      rw [List.reverse_eq_nil_iff.1 he, List.nil_append] at hrev
      rw [Files.endsInSlash, ← List.head?_reverse, hrev] at hslash
      cases hslash
    rw [hrev, List.reverse_append, List.reverse_cons, List.append_assoc, List.singleton_append,
      Path.pieces_append, Path.pieces_of_not_mem (by simpa using hlast) hlast_ne]
    simp
  · rw [Path.pieces_of_not_mem (by simpa using hmem) (by simpa using hne)]
    exact List.cons_ne_nil _ _

namespace Volume

open Files (endsInSlash)

variable {v v' : Volume} {p q r s : Place} {ns ms : List String} {trail trail' : List Place} {limit : Nat}
  {name : String} {n : Nat}

/-! ### Steps -/

theorem directory_of_step (h : v.step p name = .ok q) : v.slots p = some .directory := by
  rw [step] at h
  split at h
  · cases h
  · cases h
  · assumption

theorem step_congr (hp : v.slots p = some .directory) (hp' : v'.slots p = some .directory)
    (name : String) : v'.step p name = v.step p name := by
  rw [step, step, hp, hp']

theorem eq_of_step (hdot : name ≠ ".") (hdots : name ≠ "..") (h : v.step p name = .ok q) :
    q = p ++ [name] := by
  rw [step, directory_of_step h] at h
  simp only [if_neg hdot, if_neg hdots] at h
  split at h
  · cases h
  · exact (Except.ok.inj h).symm

theorem step_dot (h : v.step p "." = .ok q) : q = p := by
  rw [step, directory_of_step h] at h
  exact (Except.ok.inj h).symm

theorem link?_of_node (h : v.slots p = some (.node n)) : v.link? p = (v.nodes n).target? := by
  rw [link?, h]

theorem link?_of_directory (h : v.slots p = some .directory) : v.link? p = none := by
  rw [link?, h]

theorem namesOf_ne_nil {target : String} (h : target ≠ "") : namesOf target ≠ [] := by
  rw [namesOf]
  cases hslash : endsInSlash target with
  | true => simp
  | false => simpa using Path.names_ne_nil h hslash

/-! ### Ways -/

/-- The names lead from a place to another one. The trail has the links that are followed on the way. -/
inductive Reach (v : Volume) : Place → List String → List Place → Place → Prop where
  | done (p : Place) : Reach v p [] [] p
  | step {p q r : Place} {name : String} {rest : List String} {trail : List Place}
      (hstep : v.step p name = .ok q) (hlink : v.link? q = none) (hrest : Reach v q rest trail r) :
      Reach v p (name :: rest) trail r
  | link {p q r : Place} {name target : String} {rest : List String} {trail : List Place}
      (hstep : v.step p name = .ok q) (hlink : v.link? q = some target) (hne : target ≠ "")
      (hrest : Reach v (startIn q.dropLast target) (namesOf target ++ rest) trail r) :
      Reach v p (name :: rest) (q :: trail) r

theorem walk_nil (v : Volume) (limit : Nat) (p : Place) : v.walk limit p [] = .ok p := by
  cases limit <;> rfl

theorem walk_cons (v : Volume) (limit : Nat) (p : Place) (name : String) (rest : List String) :
    v.walk limit p (name :: rest) =
      match v.step p name with
      | .error e => .error e
      | .ok q =>
        match v.link? q with
        | none => v.walk limit q rest
        | some target =>
          if target.isEmpty then .error .missing
          else
            match limit with
            | 0 => .error tooManyLinks
            | limit + 1 => v.walk limit (startIn q.dropLast target) (namesOf target ++ rest) := by
  cases limit <;> rfl

theorem exists_reach_of_walk (h : v.walk limit p ns = .ok q) :
    ∃ trail, trail.length ≤ limit ∧ v.Reach p ns trail q := by
  induction limit using Nat.strongRecOn generalizing p ns with
  | _ limit ihlimit =>
    induction ns generalizing p with
    | nil =>
      rw [walk_nil] at h
      obtain rfl := Except.ok.inj h
      exact ⟨[], Nat.zero_le _, .done _⟩
    | cons name rest ih =>
      rw [walk_cons] at h
      split at h
      · cases h
      · rename_i r hstep
        split at h
        · rename_i hlink
          obtain ⟨trail, hlength, hreach⟩ := ih h
          exact ⟨trail, hlength, .step hstep hlink hreach⟩
        · rename_i target hlink
          split at h
          · cases h
          · rename_i hne
            cases limit with
            | zero => cases h
            | succ limit =>
              obtain ⟨trail, hlength, hreach⟩ := ihlimit limit (Nat.lt_succ_self _) h
              exact ⟨r :: trail, Nat.succ_le_succ hlength,
                .link hstep hlink (fun he => hne (by simp [he])) hreach⟩

theorem Reach.walk (h : v.Reach p ns trail q) (hl : trail.length ≤ limit) :
    v.walk limit p ns = .ok q := by
  induction h generalizing limit with
  | done p => exact walk_nil v limit p
  | step hstep hlink _ ih =>
    rw [walk_cons, hstep]
    simp only [hlink]
    exact ih hl
  | link hstep hlink hne _ ih =>
    cases limit with
    | zero => cases hl
    | succ limit =>
      rw [walk_cons, hstep]
      simp only [hlink]
      rw [if_neg (by simpa using hne)]
      exact ih (Nat.le_of_succ_le_succ hl)

/-- **What a walk finds** is where the names lead, unless there are too many links on the way. -/
theorem walk_eq_ok_iff :
    v.walk limit p ns = .ok q ↔ ∃ trail, trail.length ≤ limit ∧ v.Reach p ns trail q :=
  ⟨exists_reach_of_walk, fun ⟨_, hl, h⟩ => h.walk hl⟩

namespace Reach

/-- **There is one way.** -/
theorem unique (h : v.Reach p ns trail q) (h' : v.Reach p ns trail' r) : trail = trail' ∧ q = r := by
  induction h generalizing trail' with
  | done p =>
    cases h'
    exact ⟨rfl, rfl⟩
  | step hstep hlink _ ih =>
    cases h' with
    | step hstep' _ hrest =>
      obtain rfl := Except.ok.inj (hstep.symm.trans hstep')
      exact ih hrest
    | link hstep' hlink' =>
      obtain rfl := Except.ok.inj (hstep.symm.trans hstep')
      cases hlink.symm.trans hlink'
  | link hstep hlink _ _ ih =>
    cases h' with
    | step hstep' hlink' =>
      obtain rfl := Except.ok.inj (hstep.symm.trans hstep')
      cases hlink.symm.trans hlink'
    | link hstep' hlink' _ hrest =>
      obtain rfl := Except.ok.inj (hstep.symm.trans hstep')
      obtain rfl := Option.some.inj (hlink.symm.trans hlink')
      obtain ⟨rfl, rfl⟩ := ih hrest
      exact ⟨rfl, rfl⟩

theorem append (h : v.Reach p ns trail q) (h' : v.Reach q ms trail' r) :
    v.Reach p (ns ++ ms) (trail ++ trail') r := by
  induction h with
  | done p => exact h'
  | step hstep hlink _ ih => exact .step hstep hlink (ih h')
  | link hstep hlink hne _ ih =>
    have hrest := ih h'
    rw [List.append_assoc] at hrest
    exact .link hstep hlink hne hrest

/-- A way is taken apart at a name. -/
theorem split (h : v.Reach p (ns ++ ms) trail r) : ∃ trail₁ q trail₂,
    v.Reach p ns trail₁ q ∧ v.Reach q ms trail₂ r ∧ trail = trail₁ ++ trail₂ := by
  generalize hnames : ns ++ ms = names at h
  induction h generalizing ns with
  | done p =>
    obtain ⟨rfl, rfl⟩ := List.append_eq_nil_iff.1 hnames
    exact ⟨[], p, [], .done p, .done p, rfl⟩
  | @step p q r name rest trail hstep hlink hrest ih =>
    cases ns with
    | nil =>
      obtain rfl : ms = name :: rest := hnames
      exact ⟨[], p, trail, .done p, .step hstep hlink hrest, rfl⟩
    | cons n ns =>
      obtain ⟨rfl, hrest'⟩ := List.cons.inj hnames
      obtain ⟨trail₁, s, trail₂, h₁, h₂, rfl⟩ := ih hrest'
      exact ⟨trail₁, s, trail₂, .step hstep hlink h₁, h₂, rfl⟩
  | @link p q r name target rest trail hstep hlink hne hrest ih =>
    cases ns with
    | nil =>
      obtain rfl : ms = name :: rest := hnames
      exact ⟨[], p, q :: trail, .done p, .link hstep hlink hne hrest, rfl⟩
    | cons n ns =>
      obtain ⟨rfl, rfl⟩ := List.cons.inj hnames
      obtain ⟨trail₁, s, trail₂, h₁, h₂, rfl⟩ := ih (List.append_assoc ..)
      exact ⟨q :: trail₁, s, trail₂, .link hstep hlink hne h₁, h₂, rfl⟩

/-- A way goes on only from a directory. -/
theorem eq_of_not_directory (h : v.Reach p ns trail q) (hp : v.slots p ≠ some .directory) :
    ns = [] ∧ trail = [] ∧ q = p := by
  cases h with
  | done => exact ⟨rfl, rfl, rfl⟩
  | step hstep => exact absurd (directory_of_step hstep) hp
  | link hstep => exact absurd (directory_of_step hstep) hp

/-- A way is taken apart at a link. -/
theorem through (h : v.Reach p ns trail q) (hr : r ∈ trail) : ∃ target before trail₁ s rest trail₂,
    v.link? r = some target ∧ v.Reach (startIn r.dropLast target) (namesOf target) trail₁ s ∧
      v.Reach s rest trail₂ q ∧ trail = before ++ r :: (trail₁ ++ trail₂) := by
  induction h with
  | done => cases hr
  | step _ _ _ ih => exact ih hr
  | @link p q' q name target rest trail hstep hlink hne hrest ih =>
    rcases List.mem_cons.1 hr with rfl | hr
    · obtain ⟨trail₁, s, trail₂, h₁, h₂, rfl⟩ := hrest.split
      exact ⟨target, [], trail₁, s, rest, trail₂, hlink, h₁, h₂, rfl⟩
    · obtain ⟨target', before, trail₁, s, rest', trail₂, hlink', h₁, h₂, rfl⟩ := ih hr
      exact ⟨target', q' :: before, trail₁, s, rest', trail₂, hlink', h₁, h₂, rfl⟩

/-- What is followed is a link. -/
theorem exists_link (h : v.Reach p ns trail q) (hr : r ∈ trail) : ∃ target, v.link? r = some target := by
  obtain ⟨target, _, _, _, _, _, hlink, -⟩ := h.through hr
  exact ⟨target, hlink⟩

/-- The way inside a link does not lead over it again. -/
theorem not_mem_self {target : String} (hlink : v.link? r = some target)
    (h : v.Reach (startIn r.dropLast target) (namesOf target) trail q) : r ∉ trail := by
  intro hr
  obtain ⟨target', before, trail₁, s, rest, trail₂, hlink', h₁, -, htrail⟩ := h.through hr
  obtain rfl := Option.some.inj (hlink.symm.trans hlink')
  obtain ⟨heq, -⟩ := h.unique h₁
  have hlength := congrArg List.length htrail
  rw [heq] at hlength
  simp only [List.length_append, List.length_cons] at hlength
  omega

/-- A way over a link that does not lead to a directory ends where the link leads. -/
theorem eq_of_mem {target : String} {trail₁ : List Place} (h : v.Reach p ns trail q) (hr : r ∈ trail)
    (hlink : v.link? r = some target)
    (hreach : v.Reach (startIn r.dropLast target) (namesOf target) trail₁ s)
    (hs : v.slots s ≠ some .directory) : q = s := by
  obtain ⟨target', _, _, s', rest, trail₂, hlink', h₁, h₂, -⟩ := h.through hr
  obtain rfl := Option.some.inj (hlink.symm.trans hlink')
  obtain ⟨-, rfl⟩ := hreach.unique h₁
  exact (h₂.eq_of_not_directory hs).2.2

/-- A way stays where the directories do and the links on it. -/
theorem congr (h : v.Reach p ns trail q)
    (hd : ∀ r, v.slots r = some .directory → v'.slots r = some .directory)
    (hl : ∀ r ∈ q :: trail, v'.link? r = v.link? r) : v'.Reach p ns trail q := by
  induction h with
  | done p => exact .done p
  | @step p q r name rest trail hstep hlink hrest ih =>
    have hp := directory_of_step hstep
    refine .step ((step_congr hp (hd _ hp) name).trans hstep) ?_ (ih hl)
    -- the place is the last one, or there is a directory
    by_cases hq : v.slots q = some .directory
    · exact link?_of_directory (hd _ hq)
    · obtain ⟨-, -, rfl⟩ := hrest.eq_of_not_directory hq
      rw [hl _ List.mem_cons_self, hlink]
  | @link p q r name target rest trail hstep hlink hne hrest ih =>
    have hp := directory_of_step hstep
    refine .link ((step_congr hp (hd _ hp) name).trans hstep) ?_ hne (ih fun s hs => hl s ?_)
    · rw [hl q (by simp), hlink]
    · rcases List.mem_cons.1 hs with rfl | hs
      · exact List.mem_cons_self
      · exact List.mem_cons_of_mem _ (List.mem_cons_of_mem _ hs)

/-- A way ends where no link is, since a link at its end is followed. -/
theorem link?_eq_none (h : v.Reach p ns trail q) (hns : ns ≠ []) : v.link? q = none := by
  induction h with
  | done => exact absurd rfl hns
  | @step p q r name rest trail hstep hlink hrest ih =>
    cases rest with
    | nil =>
      cases hrest
      exact hlink
    | cons n rest => exact ih (List.cons_ne_nil _ _)
  | @link p q r name target rest trail hstep hlink hne hrest ih =>
    exact ih fun hnil => namesOf_ne_nil hne (List.append_eq_nil_iff.1 hnil).1

end Reach

/-! ### Entries -/

/-- What is behind a place: itself, or what the link there leads to. -/
inductive Behind (v : Volume) (p : Place) : List Place → Place → Prop where
  | here (hlink : v.link? p = none) : Behind v p [] p
  | link {q : Place} {target : String} {trail : List Place} (hlink : v.link? p = some target)
      (hne : target ≠ "") (h : v.Reach (startIn p.dropLast target) (namesOf target) trail q) :
      Behind v p (p :: trail) q

/-- A name leads to what is behind its place. -/
theorem reach_singleton_iff :
    v.Reach p [name] trail r ↔ ∃ q, v.step p name = .ok q ∧ v.Behind q trail r := by
  constructor
  · intro h
    cases h with
    | step hstep hlink hrest =>
      cases hrest
      exact ⟨_, hstep, .here hlink⟩
    | link hstep hlink hne hrest =>
      rw [List.append_nil] at hrest
      exact ⟨_, hstep, .link hlink hne hrest⟩
  · rintro ⟨q, hstep, hlink | ⟨hlink, hne, h⟩⟩
    · exact .step hstep hlink (.done _)
    · exact .link hstep hlink hne (by rwa [List.append_nil])

namespace Behind

theorem unique (h : v.Behind p trail q) (h' : v.Behind p trail' r) : trail = trail' ∧ q = r := by
  cases h with
  | here hlink =>
    cases h' with
    | here => exact ⟨rfl, rfl⟩
    | link hlink' => cases hlink.symm.trans hlink'
  | link hlink _ h =>
    cases h' with
    | here hlink' => cases hlink.symm.trans hlink'
    | link hlink' _ h' =>
      obtain rfl := Option.some.inj (hlink.symm.trans hlink')
      obtain ⟨rfl, rfl⟩ := h.unique h'
      exact ⟨rfl, rfl⟩

theorem link?_eq_none (h : v.Behind p trail q) : v.link? q = none := by
  cases h with
  | here hlink => exact hlink
  | link _ hne h => exact h.link?_eq_none (namesOf_ne_nil hne)

/-- What a link leads to is not the link, and the way inside does not lead over it again. -/
theorem not_mem (h : v.Behind p (p :: trail) q) : p ∉ q :: trail := by
  cases h with
  | link hlink hne h =>
    have hend := h.link?_eq_none (namesOf_ne_nil hne)
    rw [List.mem_cons, not_or]
    refine ⟨?_, Reach.not_mem_self hlink h⟩
    rintro rfl
    cases hend.symm.trans hlink

/-- What is behind a place stays where the directories do and the links on the way. -/
theorem congr (h : v.Behind p trail q)
    (hd : ∀ r, v.slots r = some .directory → v'.slots r = some .directory)
    (hl : ∀ r ∈ q :: trail, v'.link? r = v.link? r) : v'.Behind p trail q := by
  cases h with
  | here hlink => exact .here ((hl _ List.mem_cons_self).trans hlink)
  | link hlink hne h =>
    refine .link ((hl p (by simp)).trans hlink) hne (h.congr hd fun r hr => hl r ?_)
    rcases List.mem_cons.1 hr with rfl | hr
    · exact List.mem_cons_self
    · exact List.mem_cons_of_mem _ (List.mem_cons_of_mem _ hr)

end Behind

/-- A way over a place that nothing but a file is behind ends there. -/
theorem Reach.eq_of_behind (h : v.Reach p ns trail q) (hr : r ∈ trail) (hb : v.Behind r trail' s)
    (hs : v.slots s ≠ some .directory) : q = s := by
  cases hb with
  | here hlink =>
    obtain ⟨target, hlink'⟩ := h.exists_link hr
    cases hlink.symm.trans hlink'
  | link hlink _ hreach => exact h.eq_of_mem hr hlink hreach hs

/-! ### Paths -/

theorem within_eq_ok_iff {path : String} {place : Except IoFault Place} :
    within path place = .ok q ↔ Files.Fits path ∧ place = .ok q := by
  unfold within
  constructor
  · intro h
    split at h
    · cases h
    · split at h
      · cases h
      · split at h
        · cases h
        · exact ⟨⟨by simp_all, by simp_all, by omega⟩, h⟩
  · rintro ⟨hf, h⟩
    rw [if_neg (by simpa using hf.ne_empty), if_neg (by simpa using hf.null),
      if_neg (by have := hf.short; omega), h]

/-- A path leads to a place over these links. -/
structure Leads (v : Volume) (path : String) (trail : List Place) (q : Place) : Prop where
  fits : Files.Fits path
  short : trail.length ≤ linkLimit
  reach : v.Reach (v.start path) (Path.names path) trail q

theorem placeOf_eq_ok_iff {path : String} : v.placeOf path = .ok q ↔ ∃ trail, v.Leads path trail q := by
  rw [placeOf, within_eq_ok_iff, walk_eq_ok_iff]
  exact ⟨fun ⟨hf, trail, hl, h⟩ => ⟨trail, hf, hl, h⟩, fun ⟨trail, hf, hl, h⟩ => ⟨hf, trail, hl, h⟩⟩

/-- A path leads to what is behind its last name. -/
theorem Leads.split {path : String} {before : List String} (h : v.Leads path trail r)
    (hnames : Path.names path = before ++ [name]) : ∃ trail₁ p q trail₂,
      v.Reach (v.start path) before trail₁ p ∧ v.step p name = .ok q ∧ v.Behind q trail₂ r ∧
        trail = trail₁ ++ trail₂ := by
  have hreach := h.reach
  rw [hnames] at hreach
  obtain ⟨trail₁, p, trail₂, h₁, h₂, rfl⟩ := hreach.split
  obtain ⟨q, hstep, hbehind⟩ := reach_singleton_iff.1 h₂
  exact ⟨trail₁, p, q, trail₂, h₁, hstep, hbehind, rfl⟩

theorem leads_of_split {path : String} {before : List String} {trail₁ trail₂ : List Place}
    (hf : Files.Fits path) (hnames : Path.names path = before ++ [name])
    (hl : (trail₁ ++ trail₂).length ≤ linkLimit) (h : v.Reach (v.start path) before trail₁ p)
    (hstep : v.step p name = .ok q) (hbehind : v.Behind q trail₂ r) :
    v.Leads path (trail₁ ++ trail₂) r := by
  refine ⟨hf, hl, ?_⟩
  rw [hnames]
  exact h.append (reach_singleton_iff.2 ⟨q, hstep, hbehind⟩)

/-- A path can be read where it leads to a file. -/
theorem readBytes_eq_ok_iff {path : String} {bytes : List UInt8} : v.readBytes path = .ok bytes ↔
    ∃ trail q n, v.Leads path trail q ∧ endsInSlash path = false ∧ v.slots q = some (.node n) ∧
      v.nodes n = .file bytes := by
  constructor
  · intro h
    rw [readBytes, lookup] at h
    cases hplace : v.placeOf path with
    | error e => simp [hplace, unlessSlash] at h
    | ok q =>
      obtain ⟨trail, hleads⟩ := placeOf_eq_ok_iff.1 hplace
      rw [hplace] at h
      rcases hslot : v.slots q with _ | _ | n
      · simp [unlessSlash, hslot] at h
      · simp [unlessSlash, hslot] at h
      · cases hslash : endsInSlash path with
        | true => simp [unlessSlash, hslot, hslash] at h
        | false =>
          rcases hnode : v.nodes n with b | target
          · have hbytes : b = bytes := by simpa [unlessSlash, hslot, hslash, hnode] using h
            exact ⟨trail, q, n, hleads, rfl, hslot, by rw [hnode, hbytes]⟩
          · simp [unlessSlash, hslot, hslash, hnode] at h
  · rintro ⟨trail, q, n, hleads, hslash, hslot, hnode⟩
    simp [readBytes, lookup, placeOf_eq_ok_iff.2 ⟨trail, hleads⟩, unlessSlash, hslash, hslot, hnode]

/-- The last name of a path is one in the directory that the names before it lead to. -/
theorem of_entryOf_eq_ok {path : String} {before : List String} (h : v.entryOf path = .ok q)
    (hnames : Path.names path = before ++ [name]) : Files.Fits path ∧ ∃ trail p,
      trail.length ≤ linkLimit ∧ v.Reach (v.start path) before trail p ∧ v.step p name = .ok q := by
  obtain ⟨hfits, h⟩ := within_eq_ok_iff.1 h
  rw [hnames] at h
  simp only [List.getLast?_concat, List.dropLast_concat] at h
  refine ⟨hfits, ?_⟩
  split at h
  · cases h
  · rename_i p hp
    obtain ⟨trail, hshort, hreach⟩ := walk_eq_ok_iff.1 hp
    exact ⟨trail, p, hshort, hreach, h⟩

theorem entryOf_eq_ok {path : String} {before : List String} (hf : Files.Fits path)
    (hnames : Path.names path = before ++ [name]) (hl : trail.length ≤ linkLimit)
    (h : v.Reach (v.start path) before trail p) (hstep : v.step p name = .ok q) :
    v.entryOf path = .ok q := by
  refine within_eq_ok_iff.2 ⟨hf, ?_⟩
  rw [hnames]
  simp only [List.getLast?_concat, List.dropLast_concat, h.walk hl]
  exact hstep

end Volume

end Stencil
