import Stencil.Proofs.Files.Steps
import Stencil.Proofs.NameMap

/-!
# A file and what is done beside it

A path leads to the place of a file from a directory that is there already; the names after that only
lead down (`Leads`). A change beside the place keeps the directories, does not touch what is at the
place, and puts no file into the way to it (`Beside`). Such a change cannot be seen by reading the file
(`Beside.readBytes_eq`), and two kinds of it are all that comes before a file is replaced: making a
directory on the way to it (`Sited.ne_of_above`), and writing another file in its directory
(`Sited.not_prefix`).
-/

namespace Stencil.Files

variable {fs fs' : Files} {p q r : Place} {e : Entry} {ns : List String}

/-! ### What is where after a change -/

theorem at?_nil (fs : Files) : fs.at? [] = some .directory := if_pos rfl

theorem at?_current (fs : Files) : fs.at? fs.current = some .directory :=
  if_pos (List.isPrefixOf_iff_prefix.2 (List.prefix_refl _))

/-- Where nothing is, no directory is. -/
theorem ne_directory_of_none (h : fs.at? p = none) : fs.at? p ≠ some .directory := by simp [h]

/-- Where a file is, no directory is. -/
theorem ne_directory_of_file {bytes : List UInt8} (h : fs.at? p = some (.file bytes)) :
    fs.at? p ≠ some .directory := by simp [h]

theorem not_isPrefixOf (h : fs.at? p ≠ some .directory) : p.isPrefixOf fs.current = false := by
  by_contra hp
  exact h (if_pos (Bool.not_eq_false _ ▸ hp))

theorem current_put (fs : Files) (p : Place) (e : Entry) : (fs.put p e).current = fs.current := by
  rw [put]
  split <;> rfl

theorem entries_put (fs : Files) (p : Place) (e : Entry) : (fs.put p e).entries =
    if fs.entries.any (·.1 == p) then fs.entries.map fun x => if x.1 == p then (p, e) else x
    else fs.entries ++ [(p, e)] := by
  rw [put]
  split <;> rfl

/-- What was put at a place last is there. -/
theorem put_put (fs : Files) (p : Place) (e e' : Entry) : (fs.put p e).put p e' = fs.put p e' := by
  cases h : fs.entries.any (·.1 == p) with
  | true =>
    have hany : (fs.entries.map fun x => if x.1 == p then (p, e) else x).any (·.1 == p) = true := by
      obtain ⟨x, hx, hp⟩ := List.any_eq_true.1 h
      exact List.any_eq_true.2 ⟨(p, e), List.mem_map.2 ⟨x, hx, if_pos hp⟩, beq_self_eq_true p⟩
    simp only [put, h, if_true, hany, List.map_map]
    congr 1
    refine List.map_congr_left fun x _ => ?_
    by_cases hx : x.1 = p <;> simp [hx]
  | false =>
    have hany : (fs.entries ++ [(p, e)]).any (·.1 == p) = true := by simp
    have hmap : fs.entries.map (fun x => if x.1 == p then (p, e') else x) = fs.entries := by
      refine (List.map_congr_left fun x hx => ?_).trans (List.map_id _)
      simp only [List.any_eq_false] at h
      exact if_neg (h x hx)
    simp only [put, h, Bool.false_eq_true, if_false, hany, if_true]
    rw [List.map_append, hmap]
    simp

/-- What is at a place after something was put somewhere. -/
theorem at?_put (h : fs.at? p ≠ some .directory) (e : Entry) (r : Place) :
    (fs.put p e).at? r = if r = p then some e else fs.at? r := by
  rw [at?, at?, current_put, entries_put, lookup_put]
  by_cases hr : r = p
  · rw [hr, not_isPrefixOf h, if_pos rfl, if_pos rfl]
    rfl
  · rw [if_neg hr, if_neg hr]

/-- What is at a place after something was taken away. -/
theorem at?_remove (h : fs.at? p ≠ some .directory) (r : Place) :
    (fs.remove p).at? r = if p <+: r then none else fs.at? r := by
  rw [remove, at?, at?, lookup_filter fun r => !p.isPrefixOf r]
  by_cases hr : p <+: r
  · have hcur : ¬ r <+: fs.current := fun hrc =>
      h (if_pos (List.isPrefixOf_iff_prefix.2 (hr.trans hrc)))
    rw [if_neg (by rwa [List.isPrefixOf_iff_prefix]), if_pos hr, List.isPrefixOf_iff_prefix.2 hr]
    rfl
  · have hkeep : (!p.isPrefixOf r) = true := by
      rwa [Bool.not_eq_true', ← Bool.not_eq_true, List.isPrefixOf_iff_prefix]
    rw [hkeep, if_neg hr, if_pos rfl]

/-! ### Sound trees -/

/-- What there is lies in a directory. -/
def Grounded (fs : Files) : Prop :=
  ∀ (p : Place) (n : String), fs.at? (p ++ [n]) ≠ none → fs.at? p = some .directory

theorem grounded_of_forall (h : ∀ x ∈ fs.entries, fs.at? x.1.dropLast = some .directory) :
    fs.Grounded := by
  intro p n hp
  rw [at?] at hp
  split at hp
  · rename_i hcur
    have hpre := (List.prefix_append p [n]).trans (List.isPrefixOf_iff_prefix.1 hcur)
    exact if_pos (List.isPrefixOf_iff_prefix.2 hpre)
  · obtain ⟨e, he⟩ := Option.ne_none_iff_exists'.1 hp
    obtain ⟨l₁, l₂, hl, -⟩ := List.lookup_eq_some_iff.1 he
    have hparent := h (p ++ [n], e) (by rw [hl]; simp)
    rwa [List.dropLast_concat] at hparent

theorem Grounded.directory_of_prefix (h : fs.Grounded) (hp : fs.at? (p ++ r) ≠ none) (hr : r ≠ []) :
    fs.at? p = some .directory := by
  induction r generalizing p with
  | nil => exact absurd rfl hr
  | cons n r ih =>
    rw [List.append_cons] at hp
    refine h p n ?_
    by_cases hnil : r = []
    · rwa [hnil, List.append_nil] at hp
    · rw [ih hp hnil]
      exact Option.some_ne_none _

/-- Below a place where no directory is there is nothing. -/
theorem Grounded.eq_none (h : fs.Grounded) (hp : fs.at? p ≠ some .directory) (hr : r ≠ []) :
    fs.at? (p ++ r) = none := by
  by_contra hne
  exact hp (h.directory_of_prefix hne hr)

theorem Grounded.dropLast (h : fs.Grounded) (hp : fs.at? p = some .directory) :
    fs.at? p.dropLast = some .directory := by
  rcases List.eq_nil_or_concat p with rfl | ⟨r, n, rfl⟩
  · exact hp
  · rw [List.concat_eq_append] at hp ⊢
    rw [List.dropLast_concat]
    exact h r n (by rw [hp]; exact Option.some_ne_none _)

/-- Something is put into a directory, where nothing was or a file. -/
theorem Grounded.put (h : fs.Grounded) (hp : fs.at? p ≠ some .directory)
    (hin : ∃ r n, p = r ++ [n] ∧ fs.at? r = some .directory) (e : Entry) : (fs.put p e).Grounded := by
  intro r n hrn
  rw [at?_put hp] at hrn ⊢
  have hr : fs.at? r = some .directory := by
    by_cases heq : r ++ [n] = p
    · obtain ⟨r', n', rfl, hd⟩ := hin
      rwa [(List.append_inj' heq rfl).1]
    · rw [if_neg heq] at hrn
      exact h r n hrn
  have hne : r ≠ p := by
    rintro rfl
    exact hp hr
  rw [if_neg hne, hr]

/-- A file is taken away. -/
theorem Grounded.remove (h : fs.Grounded) (hp : fs.at? p ≠ some .directory) :
    (fs.remove p).Grounded := by
  intro r n hrn
  rw [at?_remove hp] at hrn ⊢
  split at hrn
  · exact absurd rfl hrn
  · rename_i hnot
    rw [if_neg fun hpr => hnot (hpr.trans (List.prefix_append _ _))]
    exact h r n hrn

/-! ### Walking along names -/

/-- The directories of the one file system are directories of the other, with the same current one. -/
structure Kept (fs fs' : Files) : Prop where
  current : fs'.current = fs.current
  directory : ∀ r, fs.at? r = some .directory → fs'.at? r = some .directory

theorem walk_cons (hp : fs.at? p = some .directory) (n : String) (ns : List String) :
    fs.walk p (n :: ns) =
      if n = "." then fs.walk p ns
      else if n = ".." then fs.walk p.dropLast ns
      else if 255 < n.utf8ByteSize then .error .nameTooLong
      else fs.walk (p ++ [n]) ns := by
  rw [walk, hp]

theorem directory_of_walk_cons {n : String} (h : fs.walk p (n :: ns) = .ok q) :
    fs.at? p = some .directory := by
  rw [walk] at h
  split at h
  · cases h
  · cases h
  · assumption

theorem Kept.walk (h : Kept fs fs') (hw : fs.walk p ns = .ok q) : fs'.walk p ns = .ok q := by
  induction ns generalizing p with
  | nil => exact hw
  | cons n ns ih =>
    have hp := directory_of_walk_cons hw
    rw [walk_cons hp] at hw
    rw [walk_cons (h.directory p hp)]
    by_cases hdot : n = "."
    · rw [if_pos hdot] at hw ⊢
      exact ih hw
    · rw [if_neg hdot] at hw ⊢
      by_cases hdots : n = ".."
      · rw [if_pos hdots] at hw ⊢
        exact ih hw
      · rw [if_neg hdots] at hw ⊢
        by_cases hlong : 255 < n.utf8ByteSize
        · rw [if_pos hlong] at hw
          cases hw
        · rw [if_neg hlong] at hw ⊢
          exact ih hw

/-- Where the names of a path start. -/
def start (fs : Files) (path : String) : Place := if Path.isAbsolute path then [] else fs.current

theorem start_congr {path other : String} (h : Path.isAbsolute other = Path.isAbsolute path)
    (fs : Files) : fs.start other = fs.start path := by
  rw [start, start, h]

/-- The system takes the path as one. -/
structure Fits (path : String) : Prop where
  ne_empty : path ≠ ""
  null : '\x00' ∉ path.toList
  short : path.utf8ByteSize < 4096

theorem placeOf_of_fits {path : String} (h : Fits path) (fs : Files) :
    fs.placeOf path = fs.walk (fs.start path) (Path.names path) := by
  rw [placeOf, if_neg (by simpa using h.ne_empty), if_neg (by simpa using h.null),
    if_neg (by have := h.short; omega)]
  rfl

theorem placeOf_cases (fs : Files) (path : String) : Fits path ∨
    (path = "" ∧ fs.placeOf path = .error .missing) ∨
    ∃ e, fs.placeOf path = .error e ∧ e ≠ .missing := by
  by_cases hempty : path = ""
  · subst hempty
    exact .inr (.inl ⟨rfl, rfl⟩)
  · rw [placeOf, if_neg (by simpa using hempty)]
    by_cases hnull : '\x00' ∈ path.toList
    · rw [if_pos (by simpa using hnull)]
      exact .inr (.inr ⟨_, rfl, by decide⟩)
    · rw [if_neg (by simpa using hnull)]
      by_cases hl : 4096 ≤ path.utf8ByteSize
      · rw [if_pos hl]
        exact .inr (.inr ⟨_, rfl, by decide⟩)
      · exact .inl ⟨hempty, hnull, by omega⟩

theorem fits_of_placeOf {path : String} (h : fs.placeOf path = .ok p) : Fits path := by
  rcases placeOf_cases fs path with hf | ⟨-, he⟩ | ⟨e, he, -⟩
  · exact hf
  · rw [h] at he
    cases he
  · rw [h] at he
    cases he

theorem Kept.placeOf {path : String} (h : Kept fs fs') (hp : fs.placeOf path = .ok p) :
    fs'.placeOf path = .ok p := by
  have hfits := fits_of_placeOf hp
  rw [placeOf_of_fits hfits] at hp ⊢
  rw [start, h.current]
  exact h.walk hp

/-- Walking ends in a directory, or at a place in one. -/
theorem exists_of_walk (h : fs.Grounded) (hp : fs.at? p = some .directory)
    (hw : fs.walk p ns = .ok q) (hq : fs.at? q ≠ some .directory) :
    ∃ r n, q = r ++ [n] ∧ fs.at? r = some .directory := by
  induction ns generalizing p with
  | nil =>
    cases hw
    exact absurd hp hq
  | cons n ns ih =>
    rw [walk_cons hp] at hw
    split at hw
    · exact ih hp hw
    · split at hw
      · exact ih (h.dropLast hp) hw
      · split at hw
        · cases hw
        · by_cases hn : fs.at? (p ++ [n]) = some .directory
          · exact ih hn hw
          · cases ns with
            | nil =>
              cases hw
              exact ⟨p, n, rfl, hp⟩
            | cons m ns => exact absurd (directory_of_walk_cons hw) hn

/-! ### Names that lead down -/

/-- The names that lead somewhere: all but `.`. -/
def steps (ns : List String) : List String := ns.filter (· != ".")

theorem steps_append (ns ms : List String) : steps (ns ++ ms) = steps ns ++ steps ms :=
  List.filter_append ..

theorem steps_cons_dot (ns : List String) : steps ("." :: ns) = steps ns := rfl

theorem steps_cons {n : String} (hn : n ≠ ".") (ns : List String) : steps (n :: ns) = n :: steps ns :=
  List.filter_cons_of_pos (by simpa using hn)

theorem steps_eq_nil (h : ∀ n ∈ ns, n = ".") : steps ns = [] :=
  List.filter_eq_nil_iff.2 fun n hn => by simp [h n hn]

/-- Names that lead down from a directory, and that files can have. -/
def Down (ns : List String) : Prop := ∀ n ∈ ns, n ≠ ".." ∧ n.utf8ByteSize ≤ 255

theorem walk_dot (hp : fs.at? p = some .directory) (ns : List String) :
    fs.walk p ("." :: ns) = fs.walk p ns := by
  rw [walk_cons hp, if_pos rfl]

theorem walk_down {n : String} (hp : fs.at? p = some .directory) (hdot : n ≠ ".") (hdots : n ≠ "..")
    (hl : n.utf8ByteSize ≤ 255) (ns : List String) : fs.walk p (n :: ns) = fs.walk (p ++ [n]) ns := by
  rw [walk_cons hp, if_neg hdot, if_neg hdots, if_neg (by omega)]

/-- The system does not go to a name that is too long. -/
theorem walk_overlong {n : String} (hp : fs.at? p = some .directory) (hl : 255 < n.utf8ByteSize) :
    fs.walk p [n] = .error .nameTooLong := by
  have hdot : n ≠ "." := by
    rintro rfl
    exact absurd hl (by decide)
  have hdots : n ≠ ".." := by
    rintro rfl
    exact absurd hl (by decide)
  rw [walk_cons hp, if_neg hdot, if_neg hdots, if_pos hl]

/-- Where names that lead down lead to. -/
theorem eq_of_walk (hns : ∀ n ∈ ns, n ≠ "..") (h : fs.walk p ns = .ok q) : q = p ++ steps ns := by
  induction ns generalizing p with
  | nil =>
    cases h
    exact (List.append_nil _).symm
  | cons n ns ih =>
    have hp := directory_of_walk_cons h
    obtain ⟨hn, hrest⟩ := List.forall_mem_cons.1 hns
    by_cases hdot : n = "."
    · subst hdot
      rw [walk_dot hp] at h
      rw [steps_cons_dot, ih hrest h]
    · rw [walk_cons hp, if_neg hdot, if_neg hn] at h
      split at h
      · cases h
      · rw [steps_cons hdot, List.append_cons, ih hrest h]

/-- Nothing is at the end of these steps, and no file on the way. -/
def Vacant (fs : Files) (p : Place) (rs : List String) : Prop :=
  fs.at? (p ++ rs) = none ∧ ∀ r b, r <+: rs → fs.at? (p ++ r) ≠ some (.file b)

theorem Vacant.tail {n : String} {rs : List String} (h : fs.Vacant p (n :: rs)) :
    fs.Vacant (p ++ [n]) rs := by
  refine ⟨by simpa using h.1, fun r b hr => ?_⟩
  simpa using h.2 (n :: r) b (List.prefix_cons_inj n |>.2 hr)

/-- Names lead to a vacant place if that place is missing. -/
theorem walk_of_vacant (hns : Down ns) (h : fs.Vacant p (steps ns)) :
    fs.walk p ns = .ok (p ++ steps ns) ∨ fs.walk p ns = .error .missing := by
  induction ns generalizing p with
  | nil => exact .inl (congrArg _ (List.append_nil p).symm)
  | cons n ns ih =>
    obtain ⟨⟨hdots, hl⟩, hrest⟩ := List.forall_mem_cons.1 hns
    rcases hp : fs.at? p with _ | (_ | b)
    · rw [walk, hp]
      exact .inr rfl
    · by_cases hdot : n = "."
      · subst hdot
        rw [walk_dot hp, steps_cons_dot]
        exact ih hrest h
      · rw [steps_cons hdot] at h
        rw [walk_down hp hdot hdots hl, steps_cons hdot, List.append_cons p n (steps ns)]
        exact ih hrest h.tail
    · exact absurd (by simpa using hp) (h.2 [] b List.nil_prefix)

theorem vacant_of_at? (hg : fs.Grounded) (h : fs.at? p = none) (rs : List String) : fs.Vacant p rs := by
  have hnone : ∀ r : List String, fs.at? (p ++ r) = none := fun r => by
    by_cases hr : r = []
    · rwa [hr, List.append_nil]
    · exact hg.eq_none (by simp [h]) hr
  exact ⟨hnone rs, fun r b _ => by simp [hnone r]⟩

/-- Where names lead to nothing, the place is vacant. -/
theorem vacant_of_walk (hg : fs.Grounded) (hns : Down ns)
    (h : fs.walk p ns = .error .missing ∨ fs.walk p ns = .ok q ∧ fs.at? q = none) :
    fs.Vacant p (steps ns) := by
  induction ns generalizing p with
  | nil =>
    rcases h with h | ⟨h, hq⟩ <;> cases h
    exact vacant_of_at? hg hq []
  | cons n ns ih =>
    obtain ⟨⟨hdots, hl⟩, hrest⟩ := List.forall_mem_cons.1 hns
    rcases hp : fs.at? p with _ | (_ | b)
    · exact vacant_of_at? hg hp _
    · by_cases hdot : n = "."
      · subst hdot
        rw [walk_dot hp] at h
        exact ih hrest h
      · rw [walk_down hp hdot hdots hl] at h
        obtain ⟨hnone, hfile⟩ := ih hrest h
        rw [steps_cons hdot]
        refine ⟨by simpa using hnone, fun r b hr => ?_⟩
        rcases List.prefix_cons_iff.1 hr with rfl | ⟨r', rfl, hr'⟩
        · simp [hp]
        · simpa using hfile r' b hr'
    · rw [walk, hp] at h
      simp at h

/-! ### Reading a file -/

section Reading

variable {path : String} {bytes : List UInt8}

theorem resolve_eq_ok (h : fs.resolve path = .ok p) : fs.placeOf path = .ok p := by
  rw [resolve] at h
  split at h
  · cases h
  · rename_i q hq
    split at h
    · split at h
      · cases h
      · rw [hq, Except.ok.inj h]
    · rw [hq, Except.ok.inj h]

/-- A file that can be read is at the place of its path. -/
theorem readBytes_eq_ok_iff : fs.readBytes path = .ok bytes ↔
    ∃ q, fs.placeOf path = .ok q ∧ fs.at? q = some (.file bytes) ∧ endsInSlash path = false := by
  rw [readBytes, lookup, resolve]
  rcases fs.placeOf path with e | q
  · simp
  · rcases hq : fs.at? q with _ | (_ | b)
    · simp [hq]
    · simp [hq]
    · cases hslash : endsInSlash path <;> simp [hq, eq_comm]

/-- There is no file where the path leads nowhere, or to a place where nothing is. -/
theorem readBytes_eq_missing_iff : fs.readBytes path = .error .missing ↔
    fs.placeOf path = .error .missing ∨ ∃ q, fs.placeOf path = .ok q ∧ fs.at? q = none := by
  rw [readBytes, lookup, resolve]
  rcases fs.placeOf path with e | q
  · simp
  · rcases hq : fs.at? q with _ | (_ | b)
    · simp [hq]
    · simp [hq]
    · cases hslash : endsInSlash path <;> simp [hq]

theorem fits_of_missing (hne : path ≠ "") (h : fs.readBytes path = .error .missing) : Fits path := by
  rcases placeOf_cases fs path with hf | ⟨he, -⟩ | ⟨e, he, hm⟩
  · exact hf
  · exact absurd he hne
  · rw [readBytes_eq_missing_iff, he] at h
    rcases h with h | ⟨q, hq, -⟩
    · exact absurd (Except.error.inj h) hm
    · cases hq

/-- The file of the path can be read, or there is none. -/
def Readable (fs : Files) (path : String) : Prop :=
  fs.readBytes path = .error .missing ∨ ∃ bytes, fs.readBytes path = .ok bytes

/-- A path leads to a directory that is there, and from it further down. -/
structure Leads (fs : Files) (path : String) (p : Place) (ns : List String) : Prop where
  names : ∃ before, Path.names path = before ++ ns ∧ fs.walk (fs.start path) before = .ok p
  directory : fs.at? p = some .directory
  down : Down ns

theorem Leads.placeOf (h : fs.Leads path p ns) (hf : Fits path) :
    fs.placeOf path = fs.walk p ns := by
  obtain ⟨before, hnames, hwalk⟩ := h.names
  rw [placeOf_of_fits hf, hnames, walk_append, hwalk]
  rfl

theorem Leads.of_kept (h : fs.Leads path p ns) (hk : Kept fs fs') : fs'.Leads path p ns := by
  obtain ⟨before, hnames, hwalk⟩ := h.names
  refine ⟨⟨before, hnames, ?_⟩, hk.directory p h.directory, h.down⟩
  rw [start, hk.current]
  exact hk.walk hwalk

theorem Leads.eq_of_placeOf (h : fs.Leads path p ns) (hq : fs.placeOf path = .ok q) :
    q = p ++ steps ns := by
  rw [h.placeOf (fits_of_placeOf hq)] at hq
  exact eq_of_walk (fun n hn => (h.down n hn).1) hq

/-- There is no file where the place is vacant, unless the system does not take the path at all. -/
theorem Leads.readBytes_eq_missing_iff (h : fs.Leads path p ns) (hg : fs.Grounded) (hf : Fits path) :
    fs.readBytes path = .error .missing ↔ fs.Vacant p (steps ns) := by
  rw [Files.readBytes_eq_missing_iff, h.placeOf hf]
  constructor
  · rintro (hm | ⟨q, hq, hnone⟩)
    · exact vacant_of_walk (q := []) hg h.down (.inl hm)
    · exact vacant_of_walk hg h.down (.inr ⟨hq, hnone⟩)
  · intro hv
    rcases walk_of_vacant h.down hv with hw | hw
    · exact .inr ⟨_, hw, hv.1⟩
    · exact .inl hw

/-- There is no directory at the place of a file. -/
theorem Leads.at?_ne (h : fs.Leads path p ns) (hg : fs.Grounded) (hne : path ≠ "")
    (hr : fs.Readable path) : fs.at? (p ++ steps ns) ≠ some .directory := by
  rcases hr with hm | ⟨bytes, hb⟩
  · have hf := fits_of_missing hne hm
    exact ne_directory_of_none ((h.readBytes_eq_missing_iff hg hf).1 hm).1
  · obtain ⟨q, hq, hat, -⟩ := readBytes_eq_ok_iff.1 hb
    rw [← h.eq_of_placeOf hq]
    exact ne_directory_of_file hat

/-- The change was made beside a place: the directories stay, and what is at the place; no file has
come into the way. -/
structure Beside (q : Place) (fs fs' : Files) : Prop extends Kept fs fs' where
  at?_eq : fs'.at? q = fs.at? q
  above : ∀ r b, r <+: q → fs'.at? r = some (.file b) → fs.at? r = some (.file b)
  grounded : fs.Grounded → fs'.Grounded

theorem Beside.refl (q : Place) (fs : Files) : Beside q fs fs :=
  ⟨⟨rfl, fun _ h => h⟩, rfl, fun _ _ _ h => h, fun h => h⟩

theorem Beside.trans {fs'' : Files} (h : Beside q fs fs') (h' : Beside q fs' fs'') :
    Beside q fs fs'' where
  current := h'.current.trans h.current
  directory r hr := h'.directory r (h.directory r hr)
  at?_eq := h'.at?_eq.trans h.at?_eq
  above r b hr hb := h.above r b hr (h'.above r b hr hb)
  grounded hg := h'.grounded (h.grounded hg)

/-- A directory is made elsewhere. -/
theorem beside_put_directory (hr : fs.at? r ≠ some .directory)
    (hin : ∃ r' n, r = r' ++ [n] ∧ fs.at? r' = some .directory) (hne : r ≠ q) :
    Beside q fs (fs.put r .directory) where
  current := current_put ..
  directory x hx := by
    rw [at?_put hr]
    split
    · rfl
    · exact hx
  at?_eq := by rw [at?_put hr, if_neg hne.symm]
  above x b _ hb := by
    rw [at?_put hr] at hb
    split at hb
    · cases hb
    · exact hb
  grounded hg := hg.put hr hin _

/-- A file is put where the place does not lie below it. -/
theorem beside_put_file (hr : fs.at? r ≠ some .directory)
    (hin : ∃ r' n, r = r' ++ [n] ∧ fs.at? r' = some .directory) (hnot : ¬ r <+: q)
    (bytes : List UInt8) : Beside q fs (fs.put r (.file bytes)) := by
  have hput : ∀ x, x <+: q ∨ fs.at? x = some .directory →
      (fs.put r (.file bytes)).at? x = fs.at? x := by
    intro x hx
    have hne : x ≠ r := by
      rintro rfl
      exact hx.elim hnot hr
    rw [at?_put hr, if_neg hne]
  exact {
    current := current_put ..
    directory := fun x hx => (hput x (.inr hx)).trans hx
    at?_eq := hput q (.inl (List.prefix_refl _))
    above := fun x b hx hb => (hput x (.inl hx)).symm.trans hb
    grounded := fun hg => hg.put hr hin _ }

/-- **What is done beside a file cannot be seen by reading the file.** -/
theorem Beside.readBytes_eq (h : Beside (p ++ steps ns) fs fs') (hl : fs.Leads path p ns)
    (hg : fs.Grounded) (hr : fs.Readable path) : fs'.readBytes path = fs.readBytes path := by
  by_cases hne : path = ""
  · subst hne
    rfl
  rcases hr with hm | ⟨bytes, hb⟩
  · have hf := fits_of_missing hne hm
    obtain ⟨hnone, hfile⟩ := (hl.readBytes_eq_missing_iff hg hf).1 hm
    rw [hm, (hl.of_kept h.toKept).readBytes_eq_missing_iff (h.grounded hg) hf]
    refine ⟨h.at?_eq.trans hnone, fun r b hr hb => hfile r b hr ?_⟩
    exact h.above _ b ((List.prefix_append_right_inj p).2 hr) hb
  · obtain ⟨q, hq, hat, hslash⟩ := readBytes_eq_ok_iff.1 hb
    rw [hb]
    refine readBytes_eq_ok_iff.2 ⟨q, h.toKept.placeOf hq, ?_, hslash⟩
    rw [hl.eq_of_placeOf hq] at hat ⊢
    rw [h.at?_eq, hat]

end Reading

/-! ### The file and what is beside it -/

section Beside

variable {path directory other : String}

theorem at?_start (fs : Files) (path : String) : fs.at? (fs.start path) = some .directory := by
  rw [start]
  split
  · exact at?_nil fs
  · exact at?_current fs

theorem exists_of_placeOf (hg : fs.Grounded) (h : fs.placeOf path = .ok q)
    (hq : fs.at? q ≠ some .directory) : ∃ r n, q = r ++ [n] ∧ fs.at? r = some .directory := by
  rw [placeOf_of_fits (fits_of_placeOf h)] at h
  exact exists_of_walk hg (at?_start fs path) h hq

/-- A path to something that is no directory, from a directory that is there. -/
structure Sited (fs : Files) (path : String) (p : Place) (ns : List String) : Prop extends
    Leads fs path p ns where
  grounded : fs.Grounded
  at?_ne : fs.at? (p ++ steps ns) ≠ some .directory

theorem Sited.of_beside (h : fs.Sited path p ns) (hb : Beside (p ++ steps ns) fs fs') :
    fs'.Sited path p ns :=
  ⟨h.toLeads.of_kept hb.toKept, hb.grounded h.grounded, by rw [hb.at?_eq]; exact h.at?_ne⟩

theorem Sited.steps_ne_nil (h : fs.Sited path p ns) : steps ns ≠ [] := by
  intro hnil
  refine h.at?_ne ?_
  rw [hnil, List.append_nil, h.directory]

/-- The last name is one of the names that lead down. -/
theorem Sited.split (h : fs.Sited path p ns) {name : String} {before dots : List String}
    (hdots : ∀ n ∈ dots, n = ".") (hnames : Path.names path = before ++ name :: dots) :
    ∃ more, ns = more ++ name :: dots ∧ fs.walk (fs.start path) before = fs.walk p more := by
  obtain ⟨first, hfirst, hwalk⟩ := h.names
  rw [hfirst] at hnames
  have hcase : ∃ more, before = first ++ more ∧ ns = more ++ name :: dots := by
    rcases List.append_eq_append_iff.1 hnames with ⟨more, hb, hns⟩ | ⟨_ | ⟨c, more⟩, hf, hns⟩
    · exact ⟨more, hb, hns⟩
    · exact ⟨[], by simpa using hf.symm, by simpa using hns.symm⟩
    · have hall : ∀ n ∈ ns, n = "." := fun n hn => hdots n <| by
        rw [(List.cons.inj hns).2]
        exact List.mem_append_right _ hn
      exact absurd (steps_eq_nil hall) h.steps_ne_nil
  obtain ⟨more, rfl, rfl⟩ := hcase
  refine ⟨more, rfl, ?_⟩
  rw [walk_append, hwalk]
  rfl

/-- The path has a last name. -/
theorem Sited.exists_ends (h : fs.Sited path p ns) :
    ∃ name before, Path.fileName? path = some name ∧ Path.Ends path name before := by
  rcases hf : Path.fileName? path with _ | name
  · obtain ⟨dots, hdots, hnames | ⟨before, hnames⟩⟩ := Path.of_fileName?_eq_none hf
    · obtain ⟨first, hfirst, -⟩ := h.names
      have hall : ∀ n ∈ ns, n = "." := fun n hn => hdots n <| by
        rw [← hnames, hfirst]
        exact List.mem_append_right _ hn
      exact absurd (steps_eq_nil hall) h.steps_ne_nil
    · obtain ⟨more, rfl, -⟩ := h.split hdots hnames
      exact absurd rfl (h.down ".." (by simp)).1
  · obtain ⟨before, hends⟩ := Path.ends_of_fileName? hf
    exact ⟨name, before, rfl, hends⟩

/-- A directory that is not there, on the way to the file, is not at its place. -/
theorem Sited.ne_of_above (h : fs.Sited path p ns) (ha : Path.IsAbove directory path)
    (hp : fs.placeOf directory = .ok r) (hr : fs.at? r ≠ some .directory) : r ≠ p ++ steps ns := by
  obtain ⟨first, hfirst, hwalk⟩ := h.names
  obtain ⟨more, hmore, n, hn, hdot⟩ := ha.names
  rw [placeOf_of_fits (fits_of_placeOf hp), start_congr ha.absolute] at hp
  rw [hfirst] at hmore
  rcases List.append_eq_append_iff.1 hmore with ⟨mid, hd, rfl⟩ | ⟨mid, rfl, -⟩
  · rw [hd, walk_append, hwalk] at hp
    have hrest := eq_of_walk (fun m hm => (h.down m (List.mem_append_left _ hm)).1) hp
    have hmem : n ∈ steps more := List.mem_filter.2 ⟨hn, by simpa using hdot⟩
    rw [hrest, steps_append]
    intro heq
    have hnil := List.self_eq_append_right.1 (List.append_cancel_left heq)
    rw [hnil] at hmem
    exact absurd hmem List.not_mem_nil
  · rw [walk_append, hp] at hwalk
    have hwalk : fs.walk r mid = .ok p := hwalk
    cases mid with
    | nil =>
      cases hwalk
      exact absurd h.directory hr
    | cons m mid => exact absurd (directory_of_walk_cons hwalk) hr

/-- The place of a path with another last name does not have the file below it. -/
theorem Sited.not_prefix (h : fs.Sited path p ns) {name last : String} {before : List String}
    (he : Path.Ends path name before) (habs : Path.isAbsolute other = Path.isAbsolute path)
    (hnames : Path.names other = before ++ [last]) (hlast : last ≠ "." ∧ last ≠ ".." ∧ last ≠ name)
    (hp : fs.placeOf other = .ok r) : ¬ r <+: p ++ steps ns := by
  obtain ⟨hdot, hdots, hname⟩ := hlast
  obtain ⟨dots, hall, hpath⟩ := he.names
  obtain ⟨more, rfl, hwalk⟩ := h.split hall hpath
  rw [placeOf_of_fits (fits_of_placeOf hp), start_congr habs, hnames, walk_append, hwalk,
    ← walk_append] at hp
  have hdown : ∀ m ∈ more ++ [last], m ≠ ".." := fun m hm => by
    rcases List.mem_append.1 hm with hm | hm
    · exact (h.down m (List.mem_append_left _ hm)).1
    · rwa [List.mem_singleton.1 hm]
  have hr := eq_of_walk hdown hp
  rw [steps_append, steps_cons hdot, steps_eq_nil (List.forall_mem_nil _)] at hr
  rw [hr, steps_append, steps_cons he.ne_dot, steps_eq_nil hall]
  intro hpre
  have heq := hpre.eq_of_length (by simp)
  simp only [List.append_cancel_left_eq, List.cons.injEq, and_true] at heq
  exact hname heq

end Beside

end Stencil.Files
