import Stencil.Proofs.Files.Beside
import Stencil.Proofs.Files.Writing

/-!
# Replacing a file

Replacing a file either gives it the new bytes or leaves it as it was, at whichever step the system
fails (`leaves_replaceIn`). This is about `Files`, in which nothing has two names and no name stands for
another one.
-/

namespace Stencil.Files

variable {fs fs' : Files} {p q r : Place} {ns : List String} {path directory : String}
  {bytes : List UInt8}

/-! ### Directories -/

/-- A directory is made where nothing was. -/
theorem of_makeDirectory_eq_ok (h : fs.makeDirectory directory = .ok fs') :
    ∃ r, fs.placeOf directory = .ok r ∧ fs.at? r = none ∧ fs' = fs.put r .directory := by
  rw [makeDirectory] at h
  split at h
  · cases h
  · rename_i r hr
    split at h
    · cases h
    · rename_i hnone
      exact ⟨r, resolve_eq_ok hr, hnone, (Except.ok.inj h).symm⟩

theorem beside_makeDirectory (h : fs.Sited path p ns) (ha : Path.IsAbove directory path)
    (hm : fs.makeDirectory directory = .ok fs') : Beside (p ++ steps ns) fs fs' := by
  obtain ⟨r, hplace, hnone, rfl⟩ := of_makeDirectory_eq_ok hm
  have hat := ne_directory_of_none hnone
  exact beside_put_directory hat (exists_of_placeOf h.grounded hplace hat) (h.ne_of_above ha hplace hat)

/-- Directories on the way to a file are made beside it. -/
theorem Makes.beside (h : Makes (Path.IsAbove · path) fs fs') (hs : fs.Sited path p ns) :
    Beside (p ++ steps ns) fs fs' := by
  induction h with
  | refl => exact Beside.refl _ fs
  | make _ ha hm ih => exact ih.trans (beside_makeDirectory (hs.of_beside ih) ha hm)

/-! ### The file that is written first -/

/-- A file can be written at the place of a path. -/
structure Opens (fs : Files) (path : String) (p : Place) : Prop where
  placeOf : fs.placeOf path = .ok p
  at?_ne : fs.at? p ≠ some .directory

theorem of_create_eq_ok {t : Place} (h : fs.create path = .ok (t, fs')) :
    fs.Opens path t ∧ fs' = fs.put t (.file []) := by
  rw [create] at h
  split at h
  · cases h
  · rename_i q hq
    split at h
    · cases h
    · rename_i hnot
      split at h
      · cases h
      · obtain ⟨rfl, rfl⟩ := Prod.mk.inj (Except.ok.inj h)
        exact ⟨⟨hq, hnot⟩, rfl⟩

theorem Written.exists_put (h : Written fs path bytes fs') :
    ∃ t, fs.Opens (temporaryPath path) t ∧ fs' = fs.put t (.file bytes) := by
  obtain ⟨t, fs₁, hc, rfl⟩ := h
  obtain ⟨hopens, rfl⟩ := of_create_eq_ok hc
  exact ⟨t, hopens, put_put ..⟩

theorem of_rename_eq_ok {source target : String} (h : fs.rename source target = .ok fs') :
    ∃ t q bytes, fs.placeOf source = .ok t ∧ fs.placeOf target = .ok q ∧
      fs.at? t = some (.file bytes) ∧ fs.at? q ≠ some .directory ∧ endsInSlash target = false ∧
      fs' = if t = q then fs else (fs.remove t).put q (.file bytes) := by
  rw [rename] at h
  split at h
  · cases h
  · cases h
  · rename_i t q ht hq
    split at h
    · cases h
    · cases h
    · rename_i bytes hbytes
      split at h
      · cases h
      · rename_i hslash
        split at h
        · cases h
        · rename_i hnot
          refine ⟨t, q, bytes, resolve_eq_ok ht, resolve_eq_ok hq, hbytes, hnot,
            Bool.not_eq_true _ ▸ hslash, ?_⟩
          by_cases hne : t = q
          · rw [if_pos hne] at h ⊢
            exact (Except.ok.inj h).symm
          · rw [if_neg hne] at h ⊢
            exact (Except.ok.inj h).symm

/-- What a file leaves behind that is moved, with other bytes, to a place that does not lie below it. -/
structure Moved (fs : Files) (t q : Place) (bytes : List UInt8) (fs' : Files) : Prop where
  grounded : fs'.Grounded
  kept : Kept fs fs'
  kept' : Kept fs' fs
  at?_eq : ∀ r, fs'.at? r =
    if r = q then some (.file bytes) else if t <+: r then none else fs.at? r

theorem moved_put (hg : fs.Grounded) {t : Place} (ht : fs.at? t ≠ some .directory)
    (hq : fs.at? q ≠ some .directory) (hnot : ¬ t <+: q)
    (hin : ∃ r n, q = r ++ [n] ∧ fs.at? r = some .directory) (bytes : List UInt8) :
    Moved fs t q bytes ((fs.remove t).put q (.file bytes)) := by
  have hq' : (fs.remove t).at? q ≠ some .directory := by
    rw [at?_remove ht, if_neg hnot]
    exact hq
  have hat (r : Place) : ((fs.remove t).put q (.file bytes)).at? r =
      if r = q then some (.file bytes) else if t <+: r then none else fs.at? r := by
    rw [at?_put hq', at?_remove ht]
  have hremove (r : Place) (hr : fs.at? r = some .directory) : ¬ t <+: r := by
    rintro ⟨more, rfl⟩
    by_cases hmore : more = []
    · subst hmore
      exact ht (by simpa using hr)
    · rw [hg.eq_none ht hmore] at hr
      cases hr
  have hcurrent : ((fs.remove t).put q (.file bytes)).current = fs.current := current_put ..
  refine ⟨?_, ⟨hcurrent, fun r hr => ?_⟩, ⟨hcurrent.symm, fun r hr => ?_⟩, hat⟩
  · obtain ⟨r, n, hqr, hr⟩ := hin
    refine (hg.remove ht).put hq' ⟨r, n, hqr, ?_⟩ _
    rw [at?_remove ht, if_neg (hremove r hr), hr]
  · rw [hat, if_neg, if_neg (hremove r hr), hr]
    rintro rfl
    exact hq hr
  · rw [hat] at hr
    split at hr
    · cases hr
    · split at hr
      · cases hr
      · exact hr

/-- No path leads below a place where no directory is. -/
theorem not_prefix_of_placeOf {t : Place} (hg : fs.Grounded) (ht : fs.at? t ≠ some .directory)
    (hq : fs.placeOf path = .ok q) (hne : q ≠ t) : ¬ t <+: q := by
  rintro ⟨more, rfl⟩
  have hmore : more ≠ [] := by
    rintro rfl
    exact hne (List.append_nil t)
  have hnone := hg.eq_none ht hmore
  obtain ⟨r, n, hr, hdirectory⟩ := exists_of_placeOf hg hq (ne_directory_of_none hnone)
  rcases List.eq_nil_or_concat more with rfl | ⟨more, m, rfl⟩
  · exact hmore rfl
  rw [List.concat_eq_append, ← List.append_assoc] at hr
  rw [← (List.append_inj' hr rfl).1] at hdirectory
  by_cases hnil : more = []
  · rw [hnil, List.append_nil] at hdirectory
    exact ht hdirectory
  · rw [hg.eq_none ht hnil] at hdirectory
    cases hdirectory

/-- The file that was written takes the name of the other one, unless it has that name. -/
theorem moved_of_rename (hg : fs.Grounded) {t : Place} {source target : String}
    (hplace : fs.placeOf source = .ok t) (hat : fs.at? t = some (.file bytes))
    (h : fs.rename source target = .ok fs') :
    ∃ q, fs.placeOf target = .ok q ∧ fs'.readBytes target = .ok bytes ∧
      ((q = t ∧ fs' = fs) ∨ (q ≠ t ∧ Moved fs t q bytes fs')) := by
  obtain ⟨t', q, bytes', ht', hq, hbytes, hnot, hslash, hfs'⟩ := of_rename_eq_ok h
  obtain rfl : t = t' := Except.ok.inj (hplace.symm.trans ht')
  obtain rfl : bytes' = bytes := Entry.file.inj (Option.some.inj (hbytes.symm.trans hat))
  have htdir := ne_directory_of_file hat
  by_cases hne : t = q
  · subst hne
    obtain rfl := hfs'.trans (if_pos rfl)
    exact ⟨t, hq, readBytes_eq_ok_iff.2 ⟨t, hq, hat, hslash⟩, .inl ⟨rfl, rfl⟩⟩
  · obtain rfl := hfs'.trans (if_neg hne)
    have hpre := not_prefix_of_placeOf hg htdir hq (Ne.symm hne)
    have hmoved := moved_put hg htdir hnot hpre (exists_of_placeOf hg hq hnot) bytes'
    refine ⟨q, hq, readBytes_eq_ok_iff.2 ⟨q, hmoved.kept.placeOf hq, ?_, hslash⟩,
      .inr ⟨Ne.symm hne, hmoved⟩⟩
    rw [hmoved.at?_eq, if_pos rfl]

/-! ### Replacing -/

/-- The name of the file that is written first stands for no directory. -/
theorem temporary_name_ne_dots (stem : String) :
    stem ++ "." ++ "tmp" ≠ "." ∧ stem ++ "." ++ "tmp" ≠ ".." := by
  have hlong : 4 ≤ (stem ++ "." ++ "tmp").length := by
    rw [String.length_append, String.length_append, show (".").length = 1 from rfl,
      show ("tmp").length = 3 from rfl]
    omega
  constructor <;> intro he <;> rw [he] at hlong <;> exact absurd hlong (by decide)

/-- It is another name, unless that one ends in `tmp` itself. -/
theorem temporary_name_ne {name : String} (hname : Path.fileName? path = some name)
    (htmp : Path.extension? path ≠ some "tmp") :
    (Path.stemAndExtension name).1 ++ "." ++ "tmp" ≠ "." ∧
      (Path.stemAndExtension name).1 ++ "." ++ "tmp" ≠ ".." ∧
      (Path.stemAndExtension name).1 ++ "." ++ "tmp" ≠ name := by
  obtain ⟨hdot, hdots⟩ := temporary_name_ne_dots (Path.stemAndExtension name).1
  refine ⟨hdot, hdots, Path.stem_append_ne fun he => htmp ?_⟩
  rw [Path.extension?, hname, Option.bind_some, he]

/-- The file that is written first does not have the other one below it. -/
theorem Sited.temporary_not_prefix (h : fs.Sited path p ns) (htmp : Path.extension? path ≠ some "tmp")
    {t : Place} (hp : fs.placeOf (temporaryPath path) = .ok t) : ¬ t <+: p ++ steps ns := by
  obtain ⟨name, before, hname, hends⟩ := h.exists_ends
  obtain ⟨habs, hnames⟩ := hends.other "tmp" (by decide)
  exact h.not_prefix hends habs hnames (temporary_name_ne hname htmp) hp

/-- The directories that are made first lie beside the file. -/
theorem Sited.beside_prepared (h : fs.Sited path p ns) (outage : Option Outage) :
    Beside (p ++ steps ns) fs (prepared outage path fs) := by
  obtain ⟨name, before, hname, hends⟩ := h.exists_ends
  have hmade := makes_ensureParentIn (P := (Path.IsAbove · path)) outage
    (fun _ _ ha hp => ha.parent hp) hends.directory fs
  exact hmade.beside h

/-- So does the file that is written first. -/
theorem Sited.beside_written (h : fs.Sited path p ns) (htmp : Path.extension? path ≠ some "tmp")
    (hw : Written fs path bytes fs') : Beside (p ++ steps ns) fs fs' := by
  obtain ⟨t, hopens, rfl⟩ := hw.exists_put
  exact beside_put_file hopens.at?_ne (exists_of_placeOf h.grounded hopens.placeOf hopens.at?_ne)
    (h.temporary_not_prefix htmp hopens.placeOf) bytes

/-- The new bytes are there in the end, or everything that was done lies beside the file. -/
theorem Sited.leaves_replaceIn (h : fs.Sited path p ns) (htmp : Path.extension? path ≠ some "tmp")
    (outage : Option Outage) (bytes : List UInt8) : (replaceIn outage path bytes).Leaves fs
      (fun _ fs' => fs'.Grounded ∧ Kept fs fs' ∧ fs'.readBytes path = .ok bytes)
      fun fs' => Beside (p ++ steps ns) fs fs' := by
  have h₁ := h.beside_prepared outage
  have hs₁ := h.of_beside h₁
  refine (leaves_replaceIn_steps outage path bytes fs).imp ?_ ?_
  · rintro - fs' ⟨fs₂, hw, hr⟩
    have h₂ := h₁.trans (hs₁.beside_written htmp hw)
    have hs₂ := h.of_beside h₂
    obtain ⟨t, hopens, rfl⟩ := hw.exists_put
    have hplace := (hs₁.beside_written htmp hw).toKept.placeOf hopens.placeOf
    have hat : ((prepared outage path fs).put t (.file bytes)).at? t = some (.file bytes) := by
      rw [at?_put hopens.at?_ne, if_pos rfl]
    obtain ⟨q, hq, hread, ⟨rfl, -⟩ | ⟨-, hmoved⟩⟩ := moved_of_rename hs₂.grounded hplace hat hr
    · exact absurd (hs₂.toLeads.eq_of_placeOf hq ▸ List.prefix_refl q)
        (hs₁.temporary_not_prefix htmp hopens.placeOf)
    · exact ⟨hmoved.grounded, ⟨hmoved.kept.current.trans h₂.current, fun x hx =>
        hmoved.kept.directory x (h₂.directory x hx)⟩, hread⟩
  · rintro fs' (rfl | ⟨written, hw⟩)
    · exact h₁
    · exact h₁.trans (hs₁.beside_written htmp hw)

/-! ### What is written is there -/

theorem Makes.grounded {P : String → Prop} (h : Makes P fs fs') (hg : fs.Grounded) : fs'.Grounded := by
  induction h with
  | refl => exact hg
  | @make fs₁ _ _ _ _ hm ih =>
    obtain ⟨r, hplace, hnone, rfl⟩ := of_makeDirectory_eq_ok hm
    have hat := ne_directory_of_none hnone
    exact ih.put hat (exists_of_placeOf ih hplace hat) _

/-- Where a file is put, directories stay. -/
theorem kept_put_file {t : Place} (ht : fs.at? t ≠ some .directory) (bytes : List UInt8) :
    Kept fs (fs.put t (.file bytes)) := by
  refine ⟨current_put .., fun r hr => ?_⟩
  rw [at?_put ht, if_neg]
  · exact hr
  · rintro rfl
    exact ht hr

/-- A replacement that comes to its end has written the new bytes. -/
theorem readBytes_of_replace (hg : fs.Grounded)
    (h : Op.result (replace path bytes) fs = (.ok (), fs')) : fs'.readBytes path = .ok bytes := by
  have hleaves := leaves_replaceIn_steps none path bytes fs
  rw [replaceIn_none, Op.Leaves, h] at hleaves
  obtain ⟨fs₂, hw, hr⟩ := hleaves
  have hmade : Makes (fun _ => True) fs (prepared none path fs) :=
    makes_ensureParentIn none (fun _ _ _ _ => trivial) (fun _ _ => trivial) fs
  have hg₁ := hmade.grounded hg
  obtain ⟨t, hopens, rfl⟩ := hw.exists_put
  have hg₂ := hg₁.put hopens.at?_ne (exists_of_placeOf hg₁ hopens.placeOf hopens.at?_ne) (.file bytes)
  have hat : ((prepared none path fs).put t (.file bytes)).at? t = some (.file bytes) := by
    rw [at?_put hopens.at?_ne, if_pos rfl]
  obtain ⟨-, -, hread, -⟩ :=
    moved_of_rename hg₂ ((kept_put_file hopens.at?_ne bytes).placeOf hopens.placeOf) hat hr
  exact hread

/-! ### Any path -/

/-- A file can be kept under the path. The tree is sound; no name of the path is too long for the system;
and each name `..` stands behind names that lead to a directory. -/
structure Keepable (fs : Files) (path : String) : Prop where
  grounded : fs.Grounded
  short : ∀ n ∈ Path.names path, n.utf8ByteSize ≤ 255
  up : ∀ before after, Path.names path = before ++ ".." :: after →
    ∃ r, fs.walk (fs.start path) before = .ok r ∧ fs.at? r = some .directory

theorem Keepable.of_kept (h : fs.Keepable path) (hg : fs'.Grounded) (hk : Kept fs fs') :
    fs'.Keepable path := by
  refine ⟨hg, h.short, fun before after hnames => ?_⟩
  obtain ⟨r, hr, hd⟩ := h.up before after hnames
  rw [start, hk.current]
  exact ⟨r, hk.walk hr, hk.directory r hd⟩

/-- A path without a name `..` needs no directory to be there. -/
theorem keepable_of_not_mem (hg : fs.Grounded) (hs : ∀ n ∈ Path.names path, n.utf8ByteSize ≤ 255)
    (hup : ".." ∉ Path.names path) : fs.Keepable path := by
  refine ⟨hg, hs, fun before after hnames => absurd ?_ hup⟩
  rw [hnames]
  simp

theorem Keepable.leads (h : fs.Keepable path) : ∃ p ns, fs.Leads path p ns := by
  by_cases hup : ".." ∈ Path.names path
  · -- Behind the last `..` the names lead down.
    obtain ⟨after, before, hrev, hnot⟩ := List.eq_append_cons_of_mem (List.mem_reverse.2 hup)
    have hnames : Path.names path = before.reverse ++ ".." :: after.reverse := by
      rw [← List.reverse_reverse (Path.names path), hrev]
      simp
    obtain ⟨r, hr, hd⟩ := h.up _ _ hnames
    refine ⟨r.dropLast, after.reverse, ⟨before.reverse ++ [".."], by simp [hnames], ?_⟩, ?_, ?_⟩
    · rw [walk_append, hr]
      show fs.walk r [".."] = _
      rw [walk_cons hd, if_neg (by decide), if_pos rfl, walk]
    · exact h.grounded.dropLast hd
    · refine fun n hn => ⟨?_, h.short n ?_⟩
      · rintro rfl
        exact hnot (List.mem_reverse.1 hn)
      · rw [hnames]
        simp [List.mem_reverse.1 hn]
  · refine ⟨fs.start path, Path.names path, ⟨[], rfl, rfl⟩, at?_start fs path, fun n hn => ⟨?_, ?_⟩⟩
    · exact fun he => hup (he ▸ hn)
    · exact h.short n hn

/-- **A file that is replaced has the new bytes, or what was there before if anything fails**, whatever
step it is. -/
theorem leaves_replaceIn (h : fs.Keepable path) (hr : fs.Readable path)
    (htmp : Path.extension? path ≠ some "tmp") (outage : Option Outage) (bytes : List UInt8) :
    (replaceIn outage path bytes).Leaves fs
      (fun _ fs' => fs'.Keepable path ∧ fs'.readBytes path = .ok bytes)
      fun fs' => fs'.Keepable path ∧ fs'.readBytes path = fs.readBytes path := by
  by_cases hne : path = ""
  · subst hne
    have hcut : Path.cutLast "" = ([], []) := by
      rw [Path.cutLast, show ("".toList.reverse : List Char) = [] from rfl, Path.dropEnd]
      · rfl
      all_goals
        intro rest hrest
        cases hrest
    have hprepared : prepared outage "" fs = fs := by
      rw [prepared, ensureParentIn, Path.parent?, hcut]
      rfl
    have htemp : temporaryPath "" = "" := by
      rw [temporaryPath, Path.withExtension, Path.fileName?, hcut]
    -- there is no file under an empty path
    have hnot (written : List UInt8) (fs₁ : Files) : ¬ Written fs "" written fs₁ := fun hw => by
      obtain ⟨t, hopens, -⟩ := hw.exists_put
      rw [htemp] at hopens
      exact (fits_of_placeOf hopens.placeOf).ne_empty rfl
    refine (leaves_replaceIn_steps outage "" bytes fs).imp ?_ ?_ <;> rw [hprepared]
    · rintro - fs' ⟨fs₁, hw, -⟩
      exact absurd hw (hnot _ _)
    · rintro fs' (rfl | ⟨written, hw⟩)
      · exact ⟨h, rfl⟩
      · exact absurd hw (hnot _ _)
  · obtain ⟨p, ns, hl⟩ := h.leads
    have hs : fs.Sited path p ns := ⟨hl, h.grounded, hl.at?_ne h.grounded hne hr⟩
    refine (hs.leaves_replaceIn htmp outage bytes).imp ?_ fun fs' hb => ?_
    · rintro - fs' ⟨hg, hk, hread⟩
      exact ⟨h.of_kept hg hk, hread⟩
    · exact ⟨h.of_kept (hb.grounded h.grounded) hb.toKept, hb.readBytes_eq hl h.grounded hr⟩

end Stencil.Files
