import Stencil.Proofs.Files.Spared

/-!
# Files as a volume

A file system without links is a volume in which every node is a file and has one name (`Volume.Mirrors`,
`mirrors_ofFiles`). Whatever replacing a file asks of the one, the other answers alike, so replacing a file
ends in the same way in both, and leaves both with the same files (`mirrors_replaceIn`).
-/

namespace Stencil

/-! ### Operations on two states -/

section Alike

variable {σ τ : Type} {α β γ δ ε : Type} {R : σ → τ → Prop} {s : σ} {t : τ}

/-- Two computations end alike: with values that belong together, or in the same failure. -/
inductive Agrees (Q : α → β → Prop) : Except ε α → Except ε β → Prop where
  | ok {a : α} {b : β} (h : Q a b) : Agrees Q (.ok a) (.ok b)
  | error (e : ε) : Agrees Q (.error e) (.error e)

/-- Two computations over a state end alike, and the states that they leave belong together. -/
inductive Alike (R : σ → τ → Prop) (Q : α → β → σ → τ → Prop) :
    Except ε α × σ → Except ε β × τ → Prop where
  | ok {a : α} {b : β} {s : σ} {t : τ} (hR : R s t) (hQ : Q a b s t) : Alike R Q (.ok a, s) (.ok b, t)
  | error {s : σ} {t : τ} (e : ε) (hR : R s t) : Alike R Q (.error e, s) (.error e, t)

theorem Alike.bind {x : Op σ α} {y : Op τ β} {f : α → Op σ γ} {g : β → Op τ δ}
    {Q : α → β → σ → τ → Prop} {Q' : γ → δ → σ → τ → Prop} (h : Alike R Q (x.result s) (y.result t))
    (hfg : ∀ a b s' t', R s' t' → Q a b s' t' → Alike R Q' ((f a).result s') ((g b).result t')) :
    Alike R Q' ((x >>= f).result s) ((y >>= g).result t) := by
  generalize hx : x.result s = rx at h
  generalize hy : y.result t = ry at h
  cases h with
  | ok hR hQ =>
    rw [Op.result_bind_of_ok hx, Op.result_bind_of_ok hy]
    exact hfg _ _ _ _ hR hQ
  | error e hR =>
    rw [Op.result_bind_of_error hx, Op.result_bind_of_error hy]
    exact .error e hR

/-- Computations without a value that end alike have the same outcome. -/
theorem Alike.fst_eq {Q : Unit → Unit → σ → τ → Prop} {x : Except ε Unit × σ} {y : Except ε Unit × τ}
    (h : Alike R Q x y) : x.1 = y.1 := by
  cases h <;> rfl

theorem Alike.related {Q : α → β → σ → τ → Prop} {x : Except ε α × σ} {y : Except ε β × τ}
    (h : Alike R Q x y) : R x.2 y.2 := by
  cases h <;> assumption

/-- Two operations without a value end alike in states that belong together. -/
def Together (R : σ → τ → Prop) (x : Op σ Unit) (y : Op τ Unit) : Prop :=
  ∀ ⦃s t⦄, R s t → Alike R (fun _ _ _ _ => True) (x.result s) (y.result t)

theorem together_pure : Together R (pure ()) (pure ()) := fun _ _ hR => .ok hR trivial

theorem together_throw (e : Fault) : Together R (throw e) (throw e) := fun _ _ hR => .error e hR

theorem Together.bind {x x' : Op σ Unit} {y y' : Op τ Unit} (h : Together R x y)
    (h' : Together R x' y') : Together R (x >>= fun _ => x') (y >>= fun _ => y') :=
  fun _ _ hR => (h hR).bind fun _ _ _ _ hR' _ => h' hR'

theorem together_unlessOut (outage : Option Outage) (step : WriteStep) (context : String) :
    Together R (Files.unlessOut outage step context) (Files.unlessOut outage step context) := by
  unfold Files.unlessOut
  rcases outage with _ | o
  · exact together_pure
  · by_cases ho : o.step = step
    · simp only [if_pos ho]
      exact together_throw _
    · simp only [if_neg ho]
      exact together_pure

end Alike

/-! ### File systems that answer alike -/

/-- Two file systems answer alike in states that belong together. What they give for a file that was opened
may differ, but belongs together too. -/
structure FileSystem.Simulates {σ τ : Type} [FileSystem σ] [FileSystem τ] (R : σ → τ → Prop)
    (H : Handle σ → Handle τ → σ → τ → Prop) : Prop where
  existsAt_eq : ∀ {s t}, R s t → ∀ path, existsAt s path = existsAt t path
  isDirectory_eq : ∀ {s t}, R s t → ∀ path, isDirectory s path = isDirectory t path
  makeDirectory : ∀ {s t}, R s t → ∀ path, Agrees R (makeDirectory s path) (makeDirectory t path)
  create : ∀ {s t}, R s t → ∀ path,
    Agrees (fun x y => R x.2 y.2 ∧ H x.1 y.1 x.2 y.2) (create s path) (create t path)
  write : ∀ {s t h k}, R s t → H h k s t → ∀ bytes, R (write s h bytes) (write t k bytes)
  rename : ∀ {s t}, R s t → ∀ source target,
    Agrees R (rename s source target) (rename t source target)

namespace FileSystem.Simulates

open Files

variable {σ τ : Type} [FileSystem σ] [FileSystem τ] {R : σ → τ → Prop}
  {H : Handle σ → Handle τ → σ → τ → Prop} {s : σ} {t : τ}

/-- A directory that could not be made may be there all the same. -/
theorem alike_unless_isDirectory (h : Simulates R H) (hR : R s t) (path : String) (e : IoFault) :
    Alike R (fun _ _ _ _ => True) (if isDirectory s path then .ok () else .error e, s)
      (if isDirectory t path then .ok () else .error e, t) := by
  rw [h.isDirectory_eq hR]
  split
  · exact .ok hR trivial
  · exact .error e hR

theorem alike_makeDirectories (h : Simulates R H) (hR : R s t) (fuel : Nat) (path : String) :
    Alike R (fun _ _ _ _ => True) (makeDirectories fuel s path) (makeDirectories fuel t path) := by
  induction fuel generalizing path with
  | zero => exact .ok hR trivial
  | succ fuel ih =>
    rw [makeDirectories, makeDirectories]
    split
    · exact .ok hR trivial
    have hmake := h.makeDirectory hR path
    generalize FileSystem.makeDirectory s path = x, FileSystem.makeDirectory t path = y at hmake ⊢
    cases hmake with
    | ok hR' => exact .ok hR' trivial
    | error e =>
      cases e with
      | missing =>
        cases Path.parent? path with
        | none => exact .error _ hR
        | some above =>
          have habove := ih above
          rw [Option.map_some, Option.map_some]
          generalize makeDirectories fuel s above = x, makeDirectories fuel t above = y at habove ⊢
          cases habove with
          | error e hR' => exact .error e hR'
          | @ok _ _ s' t' hR' =>
            have hmake := h.makeDirectory hR' path
            simp only
            generalize FileSystem.makeDirectory s' path = x, FileSystem.makeDirectory t' path = y
              at hmake ⊢
            cases hmake with
            | ok hR' => exact .ok hR' trivial
            | error e => exact h.alike_unless_isDirectory hR' path e
      | _ => exact h.alike_unless_isDirectory hR path _

theorem together_ensureDirectory (h : Simulates R H) (path : String) :
    Together R (ensureDirectory path) (ensureDirectory path) := by
  intro s t hR
  rw [ensureDirectory, ensureDirectory, Op.result_bind_of_ok (Op.result_get s),
    Op.result_bind_of_ok (Op.result_get t), h.existsAt_eq hR]
  split
  · rw [h.isDirectory_eq hR]
    split
    · exact together_throw _ hR
    · exact together_pure hR
  · have hmade := h.alike_makeDirectories hR (path.length + 1) path
    generalize makeDirectories (path.length + 1) s path = x, makeDirectories (path.length + 1) t path = y
      at hmade ⊢
    cases hmade with
    | ok hR' => exact .ok hR' trivial
    | error e hR' => exact .error _ hR'

theorem together_ensureDirectoryIn (h : Simulates R H) (outage : Option Outage) (path : String) :
    Together R (ensureDirectoryIn outage path) (ensureDirectoryIn outage path) := by
  intro s t hR
  have hensure := h.together_ensureDirectory path hR
  rw [ensureDirectoryIn, ensureDirectoryIn, Op.result_bind_of_ok (Op.result_get s),
    Op.result_bind_of_ok (Op.result_get t)]
  split
  · rename_i n reason
    cases ancestor? n path with
    | none => exact hensure
    | some directory =>
      simp only [h.existsAt_eq hR]
      split
      · exact hensure
      · have hmade : Alike R (fun _ _ _ _ => True) (makeDirectoriesAbove s directory)
            (makeDirectoriesAbove t directory) := by
          rw [makeDirectoriesAbove, makeDirectoriesAbove]
          split
          · exact .ok hR trivial
          · exact h.alike_makeDirectories hR _ _
        generalize makeDirectoriesAbove s directory = x, makeDirectoriesAbove t directory = y at hmade ⊢
        cases hmade with
        | ok hR' => exact .error _ hR'
        | error e hR' => exact .error _ hR'
  · exact hensure

theorem together_ensureParentIn (h : Simulates R H) (outage : Option Outage) (path : String) :
    Together R (ensureParentIn outage path) (ensureParentIn outage path) := by
  unfold ensureParentIn
  cases Path.parent? path with
  | none => exact together_pure
  | some directory =>
    simp only
    split
    · exact together_pure
    · exact h.together_ensureDirectoryIn outage directory

theorem alike_createTemporary (h : Simulates R H) (hR : R s t) (path : String) :
    Alike R H (Op.result (createTemporary path) s) (Op.result (createTemporary path) t) := by
  have hcreate := h.create hR path
  rw [createTemporary, createTemporary, Op.result_bind_of_ok (Op.result_get s),
    Op.result_bind_of_ok (Op.result_get t)]
  generalize FileSystem.create s path = x, FileSystem.create t path = y at hcreate ⊢
  cases hcreate with
  | ok hQ => exact .ok hQ.1 hQ.2
  | error e => exact .error _ hR

theorem alike_writeIn (h : Simulates R H) {o : Handle σ} {k : Handle τ} (hR : R s t) (hH : H o k s t)
    (outage : Option Outage) (path : String) (bytes : List UInt8) :
    Alike R (fun _ _ _ _ => True) (Op.result (writeIn outage o path bytes) s)
      (Op.result (writeIn outage k path bytes) t) := by
  unfold writeIn
  split
  · exact .error _ (h.write hR hH _)
  · exact .ok (h.write hR hH _) trivial

theorem together_moveInto (h : Simulates R H) (source target : String) :
    Together R (moveInto source target) (moveInto source target) := by
  intro s t hR
  have hrename := h.rename hR source target
  rw [moveInto, moveInto, Op.result_bind_of_ok (Op.result_get s), Op.result_bind_of_ok (Op.result_get t)]
  generalize FileSystem.rename s source target = x, FileSystem.rename t source target = y at hrename ⊢
  cases hrename with
  | ok hR' => exact .ok hR' trivial
  | error e => exact .error _ hR

/-- **Replacing a file ends alike** in file systems that answer alike. -/
theorem together_replaceIn (h : Simulates R H) (outage : Option Outage) (path : String)
    (bytes : List UInt8) : Together R (replaceIn outage path bytes) (replaceIn outage path bytes) := by
  unfold replaceIn
  refine (h.together_ensureParentIn outage path).bind ?_
  refine (together_unlessOut outage .create _).bind fun s t hR => ?_
  refine (h.alike_createTemporary hR _).bind fun o k s' t' hR' hH => ?_
  refine (h.alike_writeIn hR' hH outage _ bytes).bind fun _ _ _ _ hR'' _ => ?_
  refine ((together_unlessOut outage .sync _).bind ?_) hR''
  exact (together_unlessOut outage .rename _).bind (h.together_moveInto _ path)

end FileSystem.Simulates

/-! ### Files without links -/

namespace Volume

open Files (endsInSlash)

variable {fs fs' : Files} {v v' : Volume} {p q r : Place} {n : Nat} {path : String} {bytes : List UInt8}

/-- The volume shows at a place what is there in the other file system. -/
inductive Shows (v : Volume) : Option Entry → Option Slot → Prop where
  | nothing : Shows v none none
  | directory : Shows v (some .directory) (some .directory)
  | file {n : Nat} {bytes : List UInt8} (h : v.nodes n = .file bytes) :
      Shows v (some (.file bytes)) (some (.node n))

theorem Shows.congr {e : Option Entry} {s : Option Slot} (h : v.Shows e s)
    (hn : ∀ n, s = some (.node n) → v'.nodes n = v.nodes n) : v'.Shows e s := by
  cases h with
  | nothing => exact .nothing
  | directory => exact .directory
  | file h => exact .file ((hn _ rfl).trans h)

/-- A file system without links and a volume with the same files, each of which has one name. -/
structure Mirrors (fs : Files) (v : Volume) : Prop where
  grounded : fs.Grounded
  current : v.current = fs.current
  shows : ∀ p, v.Shows (fs.at? p) (v.slots p)
  unique : ∀ p q n, v.slots p = some (.node n) → v.slots q = some (.node n) → p = q

namespace Mirrors

theorem link?_eq_none (h : Mirrors fs v) (p : Place) : v.link? p = none := by
  have hp := h.shows p
  rw [link?]
  generalize fs.at? p = e, v.slots p = s at hp ⊢
  cases hp with
  | nothing => rfl
  | directory => rfl
  | file hn => simp only [hn, Node.target?]

theorem step_eq (h : Mirrors fs v) (p : Place) (name : String) : v.step p name = fs.walk p [name] := by
  have hp := h.shows p
  rw [step, Files.walk]
  generalize fs.at? p = e, v.slots p = s at hp ⊢
  cases hp with
  | nothing => rfl
  | directory => simp only [Files.walk]
  | file _ => rfl

theorem walk_eq (h : Mirrors fs v) (limit : Nat) (p : Place) (names : List String) :
    v.walk limit p names = fs.walk p names := by
  induction names generalizing p with
  | nil => rw [walk_nil, Files.walk]
  | cons name rest ih =>
    have hsplit := fs.walk_append [name] rest p
    rw [List.singleton_append] at hsplit
    rw [walk_cons, h.step_eq, hsplit]
    cases fs.walk p [name] with
    | error e => rfl
    | ok q =>
      simp only [h.link?_eq_none]
      exact ih q

theorem start_eq (h : Mirrors fs v) (path : String) : v.start path = fs.start path := by
  rw [start, startIn, Files.start, h.current]

theorem placeOf_eq (h : Mirrors fs v) (path : String) : v.placeOf path = fs.placeOf path := by
  rw [placeOf, h.walk_eq, h.start_eq]
  rfl

/-- The last name is followed or not, which is the same where there are no links. -/
theorem entryOf_eq (h : Mirrors fs v) (path : String) : v.entryOf path = fs.placeOf path := by
  rw [← h.placeOf_eq, entryOf, placeOf]
  rcases List.eq_nil_or_concat (Path.names path) with hnil | ⟨before, name, hnames⟩
  · simp [hnil, walk_nil]
  · rw [hnames, List.concat_eq_append]
    simp only [List.getLast?_concat, List.dropLast_concat, h.walk_eq, Files.walk_append, h.step_eq]
    cases fs.walk (v.start path) before <;> rfl

theorem unlessSlash_eq (h : Mirrors fs v) (path : String) :
    v.unlessSlash path (fs.placeOf path) = fs.resolve path := by
  rw [Files.resolve]
  cases fs.placeOf path with
  | error e => rfl
  | ok p =>
    have hp := h.shows p
    simp only [unlessSlash]
    generalize fs.at? p = e, v.slots p = s at hp ⊢
    cases hp <;> rfl

/-- A path leads to the same. -/
theorem agrees_lookup (h : Mirrors fs v) (path : String) :
    Agrees (fun e s => v.Shows (some e) (some s)) (fs.lookup path) (v.lookup path) := by
  rw [lookup, h.placeOf_eq, h.unlessSlash_eq, Files.lookup]
  cases fs.resolve path with
  | error e => exact .error e
  | ok p =>
    have hp := h.shows p
    simp only
    generalize fs.at? p = e, v.slots p = s at hp ⊢
    cases hp with
    | nothing => exact .error _
    | directory => exact .ok .directory
    | file hn => exact .ok (.file hn)

theorem existsAt_eq (h : Mirrors fs v) (path : String) : fs.existsAt path = v.existsAt path := by
  have hlookup := h.agrees_lookup path
  rw [Files.existsAt, existsAt]
  generalize fs.lookup path = x, v.lookup path = y at hlookup ⊢
  cases hlookup <;> rfl

theorem isDirectory_eq (h : Mirrors fs v) (path : String) : fs.isDirectory path = v.isDirectory path := by
  have hlookup := h.agrees_lookup path
  rw [Files.isDirectory, isDirectory]
  generalize fs.lookup path = x, v.lookup path = y at hlookup ⊢
  cases hlookup with
  | ok hs => cases hs <;> rfl
  | error e => rfl

/-- The same is read. -/
theorem readBytes_eq (h : Mirrors fs v) (path : String) : fs.readBytes path = v.readBytes path := by
  have hlookup := h.agrees_lookup path
  rw [Files.readBytes, readBytes]
  generalize fs.lookup path = x, v.lookup path = y at hlookup ⊢
  cases hlookup with
  | ok hs =>
    cases hs with
    | directory => rfl
    | file hn => simp only [hn]
  | error e => rfl

/-! ### Changes -/

theorem shows_node (h : Mirrors fs v) (hp : v.slots p = some (.node n)) :
    ∃ bytes, fs.at? p = some (.file bytes) ∧ v.nodes n = .file bytes := by
  have hshows := h.shows p
  rw [hp] at hshows
  generalize fs.at? p = e at hshows ⊢
  cases hshows with
  | file hn => exact ⟨_, rfl, hn⟩

theorem slots_eq_none_iff (h : Mirrors fs v) : v.slots p = none ↔ fs.at? p = none := by
  have hp := h.shows p
  generalize fs.at? p = e, v.slots p = s at hp ⊢
  cases hp <;> simp

theorem directory_iff (h : Mirrors fs v) :
    v.slots p = some .directory ↔ fs.at? p = some .directory := by
  have hp := h.shows p
  generalize fs.at? p = e, v.slots p = s at hp ⊢
  cases hp <;> simp

/-- A directory is put where nothing was. -/
theorem put_directory (h : Mirrors fs v) (hnone : fs.at? p = none)
    (hin : ∃ r n, p = r ++ [n] ∧ fs.at? r = some .directory) (hcurrent : v'.current = v.current)
    (hnodes : v'.nodes = v.nodes)
    (hslots : ∀ r, v'.slots r = if r = p then some .directory else v.slots r) :
    Mirrors (fs.put p .directory) v' := by
  have hne := Files.ne_directory_of_none hnone
  have hnode {r m} (hr : v'.slots r = some (.node m)) : v.slots r = some (.node m) := by
    rw [hslots] at hr
    split at hr
    · cases hr
    · exact hr
  refine ⟨h.grounded.put hne hin _, ?_, fun r => ?_, fun r r' m hr hr' =>
    h.unique r r' m (hnode hr) (hnode hr')⟩
  · rw [hcurrent, h.current, Files.current_put]
  · rw [Files.at?_put hne, hslots]
    split
    · exact .directory
    · exact (h.shows r).congr fun m _ => congrFun hnodes m

/-- A file is opened and written. -/
theorem put_file (h : Mirrors fs v) (ho : Opened v p n bytes v')
    (hin : ∃ r n, p = r ++ [n] ∧ fs.at? r = some .directory) :
    Mirrors (fs.put p (.file bytes)) v' := by
  have hne : fs.at? p ≠ some .directory := fun hp => ho.slot_ne (h.directory_iff.2 hp)
  have hother {r m} (hrp : r ≠ p) (hr : v.slots r = some (.node m)) : m ≠ n := by
    rintro rfl
    exact hrp (h.unique r p m hr (ho.slot_of_node hr))
  refine ⟨h.grounded.put hne hin _, ?_, fun r => ?_, fun r r' m hr hr' => ?_⟩
  · rw [ho.current, h.current, Files.current_put]
  · rw [Files.at?_put hne, ho.slots]
    split
    · exact .file ho.node_eq
    · rename_i hrp
      refine (h.shows r).congr fun m hm => ?_
      rw [ho.nodes, if_neg (hother hrp hm)]
  · rw [ho.slots] at hr hr'
    split at hr <;> split at hr'
    · subst r r'
      rfl
    · obtain rfl := Slot.node.inj (Option.some.inj hr)
      exact absurd rfl (hother ‹_› hr')
    · obtain rfl := Slot.node.inj (Option.some.inj hr')
      exact absurd rfl (hother ‹_› hr)
    · exact h.unique r r' m hr hr'

/-- A file is moved. -/
theorem move (h : Mirrors fs v) (hp : fs.at? p = some (.file bytes)) (hq : fs.at? q ≠ some .directory)
    (hnot : ¬ p <+: q) (hin : ∃ r n, q = r ++ [n] ∧ fs.at? r = some .directory) :
    Mirrors ((fs.remove p).put q (.file bytes)) (v.move p q) := by
  have hpd := Files.ne_directory_of_file hp
  have hmoved := Files.moved_put h.grounded hpd hq hnot hin bytes
  refine ⟨hmoved.grounded, h.current.trans hmoved.kept.current.symm, fun r => ?_,
    fun r r' m hr hr' => ?_⟩
  · rw [hmoved.at?_eq, slots_move]
    split
    · have hshows := h.shows p
      rw [hp] at hshows
      exact hshows.congr fun _ _ => rfl
    · split
      · rename_i hpre
        split
        · exact .nothing
        · rename_i hrp
          -- there is nothing below a file
          obtain ⟨more, rfl⟩ := hpre
          have hmore : more ≠ [] := by
            rintro rfl
            exact hrp (List.append_nil p)
          rw [h.slots_eq_none_iff.2 (h.grounded.eq_none hpd hmore)]
          exact .nothing
      · rename_i hpre
        have hrp : r ≠ p := by
          rintro rfl
          exact hpre (List.prefix_refl _)
        rw [if_neg hrp]
        exact (h.shows r).congr fun _ _ => rfl
  · rw [slots_move] at hr hr'
    split at hr <;> split at hr'
    · subst r r'
      rfl
    · split at hr'
      · cases hr'
      · exact absurd (h.unique r' p m hr' hr) ‹_›
    · split at hr
      · cases hr
      · exact absurd (h.unique r p m hr hr') ‹_›
    · split at hr
      · cases hr
      · split at hr'
        · cases hr'
        · exact h.unique r r' m hr hr'

/-! ### Answers -/

theorem agrees_makeDirectory (h : Mirrors fs v) (path : String) :
    Agrees Mirrors (fs.makeDirectory path) (v.makeDirectory path) := by
  rw [makeDirectory, h.entryOf_eq, h.unlessSlash_eq, Files.makeDirectory]
  cases hresolve : fs.resolve path with
  | error e => exact .error e
  | ok p =>
    have hp := h.shows p
    simp only
    generalize hat : fs.at? p = e, hslot : v.slots p = s at hp ⊢
    cases hp with
    | nothing =>
      have hin := Files.exists_of_placeOf h.grounded (Files.resolve_eq_ok hresolve)
        (Files.ne_directory_of_none hat)
      exact .ok (h.put_directory hat hin rfl rfl fun _ => rfl)
    | directory => exact .error _
    | file _ => exact .error _

theorem agrees_create (h : Mirrors fs v) (path : String) :
    Agrees (fun x y => Mirrors x.2 y.2 ∧ y.2.slots x.1 = some (.node y.1)) (fs.create path)
      (v.create path) := by
  rw [create, h.placeOf_eq, Files.create]
  cases hplace : fs.placeOf path with
  | error e => exact .error e
  | ok p =>
    have hp := h.shows p
    have hin := Files.exists_of_placeOf h.grounded hplace
    simp only
    generalize hat : fs.at? p = e, hslot : v.slots p = s at hp ⊢
    cases hp with
    | directory => exact .error _
    | nothing =>
      simp only
      split
      · exact .error _
      · have ho := opened_add hslot (h.link?_eq_none p)
        exact .ok ⟨h.put_file ho (hin (Files.ne_directory_of_none hat)), ho.slot_eq⟩
    | file _ =>
      simp only
      split
      · exact .error _
      · have ho := opened_write hslot (h.link?_eq_none p) []
        exact .ok ⟨h.put_file ho (hin (Files.ne_directory_of_file hat)), ho.slot_eq⟩

/-- The bytes of an opened file are written. -/
theorem write (h : Mirrors fs v) (hp : v.slots p = some (.node n)) (bytes : List UInt8) :
    Mirrors (fs.put p (.file bytes)) (v.write n bytes) := by
  obtain ⟨b, hat, -⟩ := h.shows_node hp
  refine h.put_file (opened_write hp (h.link?_eq_none p) bytes) ?_
  rcases List.eq_nil_or_concat p with rfl | ⟨r, name, rfl⟩
  · rw [Files.at?_nil] at hat
    cases hat
  · rw [List.concat_eq_append] at hat ⊢
    exact ⟨r, name, rfl, h.grounded r name (by simp [hat])⟩

theorem agrees_rename (h : Mirrors fs v) (source target : String) :
    Agrees Mirrors (fs.rename source target) (v.rename source target) := by
  rw [rename, h.entryOf_eq, h.unlessSlash_eq, h.entryOf_eq, h.unlessSlash_eq, Files.rename]
  cases fs.resolve source with
  | error e => exact .error e
  | ok p =>
    cases htarget : fs.resolve target with
    | error e => exact .error e
    | ok q =>
      have hp := h.shows p
      have hplace := Files.resolve_eq_ok htarget
      simp only
      generalize hat : fs.at? p = e, hslot : v.slots p = s at hp ⊢
      cases hp with
      | nothing => exact .error _
      | directory => exact .error _
      | @file n bytes hn =>
        have hsame : p = q ↔ v.slots q = some (.node n) :=
          ⟨fun hpq => hpq ▸ hslot, h.unique p q n hslot⟩
        simp only [h.directory_iff, ← hsame]
        split
        · exact .error _
        split
        · exact .error _
        rename_i hq
        split
        · exact .ok h
        · rename_i hne
          have hnot := Files.not_prefix_of_placeOf h.grounded (Files.ne_directory_of_file hat) hplace
            (Ne.symm hne)
          exact .ok (h.move hat hq hnot (Files.exists_of_placeOf h.grounded hplace hq))

end Mirrors

theorem simulates : FileSystem.Simulates Mirrors
    (fun (p : Place) (n : Nat) (_ : Files) (v : Volume) => v.slots p = some (.node n)) where
  existsAt_eq := Mirrors.existsAt_eq
  isDirectory_eq := Mirrors.isDirectory_eq
  makeDirectory := Mirrors.agrees_makeDirectory
  create := Mirrors.agrees_create
  write := Mirrors.write
  rename := Mirrors.agrees_rename

/-- **Replacing a file in a volume without links** ends as it does in the file system with the same files,
and leaves both with the same files. -/
theorem mirrors_replaceIn (h : Mirrors fs v) (outage : Option Outage) (path : String)
    (bytes : List UInt8) :
    (Op.result (Files.replaceIn outage path bytes) fs).1 =
        (Op.result (Files.replaceIn outage path bytes) v).1 ∧
      Mirrors (Op.result (Files.replaceIn outage path bytes) fs).2
        (Op.result (Files.replaceIn outage path bytes) v).2 :=
  have halike := simulates.together_replaceIn outage path bytes h
  ⟨halike.fst_eq, halike.related⟩

/-- What a place stands for is what the list has where the place is first. -/
theorem getElem?_findIdx_of_lookup {entries : List (Place × Entry)} {e : Entry}
    (h : entries.lookup p = some e) : entries[entries.findIdx (·.1 == p)]? = some (p, e) := by
  induction entries with
  | nil => cases h
  | cons x entries ih =>
    obtain ⟨r, e'⟩ := x
    rw [List.lookup_cons] at h
    rw [List.findIdx_cons]
    by_cases hr : r = p
    · subst hr
      rw [beq_self_eq_true] at h ⊢
      rw [← Option.some.inj h]
      rfl
    · rw [beq_false_of_ne (Ne.symm hr)] at h
      rw [beq_false_of_ne hr, cond_false, List.getElem?_cons_succ]
      exact ih h

/-- The volume that is made of files has the same files. -/
theorem mirrors_ofFiles (hg : fs.Grounded) : Mirrors fs (ofFiles fs) := by
  have hentry {p : Place} {bytes : List UInt8} (hat : fs.at? p = some (.file bytes)) :
      fs.entries[fs.entries.findIdx (·.1 == p)]? = some (p, .file bytes) := by
    rw [Files.at?] at hat
    split at hat
    · cases hat
    · exact getElem?_findIdx_of_lookup hat
  have hnode {p : Place} {n : Nat} (hp : (ofFiles fs).slots p = some (.node n)) :
      ∃ bytes, fs.entries[n]? = some (p, .file bytes) := by
    simp only [ofFiles] at hp
    split at hp
    · cases hp
    · cases hp
    · rename_i bytes hat
      rw [← Slot.node.inj (Option.some.inj hp)]
      exact ⟨bytes, hentry hat⟩
  refine ⟨hg, rfl, fun p => ?_, fun p q n hp hq => ?_⟩
  · simp only [ofFiles]
    rcases hat : fs.at? p with _ | _ | bytes
    · exact .nothing
    · exact .directory
    · exact .file (by simp only [hentry hat])
  · obtain ⟨b, hb⟩ := hnode hp
    obtain ⟨b', hb'⟩ := hnode hq
    exact (Prod.mk.inj (Option.some.inj (hb.symm.trans hb'))).1

end Volume

end Stencil
