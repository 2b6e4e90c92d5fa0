import Stencil.Proofs.Except
import Stencil.Proofs.Files.Beside

/-!
# What a directory lists of what is in it

A path with one more name leads into the directory of the path before it (`placeOf_of_join`), and what
it leads to is listed there (`mem_of_lookup_join`), as long as the directory lists all that is in it.
The directories above the current one are the only ones that need not.
-/

namespace Stencil

theorem Path.stemAndExtension_append {stem extension : String} (hs : stem ≠ "")
    (he : '.' ∉ extension.toList) :
    stemAndExtension (stem ++ "." ++ extension) = (stem, some extension) := by
  have hrev : (stem ++ "." ++ extension).toList.reverse =
      extension.toList.reverse ++ '.' :: stem.toList.reverse := by
    rw [String.toList_append, String.toList_append, List.reverse_append, List.reverse_append]
    rfl
  have hcut := Text.takeWhile_append_stop (p := (· != '.')) (s := extension.toList.reverse)
    (t := '.' :: stem.toList.reverse)
    (fun c hc => bne_iff_ne.2 fun h => he (h ▸ List.mem_reverse.1 hc)) (by simp)
  obtain ⟨c, rest, hstem⟩ : ∃ c rest, stem.toList.reverse = c :: rest :=
    List.exists_cons_of_ne_nil (by simpa using hs)
  have hback : String.ofList (c :: rest).reverse = stem := by
    rw [← hstem, List.reverse_reverse, String.ofList_toList]
  rw [stemAndExtension, hrev, hcut.1, hcut.2, hstem, List.reverse_reverse, String.ofList_toList]
  exact congrArg (·, some extension) hback

/-- The path of a directory is a beginning of the paths in it. -/
theorem Path.exists_join {d n : String} (hd : d ≠ "") (hs : '/' ∉ n.toList) :
    ∃ rest, join d n = d ++ rest := by
  have he : d.isEmpty = false := by
    rw [← Bool.not_eq_true, String.isEmpty_iff]
    exact hd
  rw [join, not_isAbsolute hs, he, if_neg (by simp)]
  split
  · exact ⟨n, rfl⟩
  · exact ⟨"/" ++ n, String.append_assoc⟩

namespace Files

variable {fs : Files} {d n : String} {p q : Place} {entries : List (String × Entry)} {e : Entry}

/-- The directory at a place lists all that is in it. -/
def Lists (fs : Files) (p : Place) : Prop := ∀ n, fs.at? (p ++ [n]) ≠ none → n ∈ fs.namesIn p

theorem mem_namesIn (h : (p ++ [n], e) ∈ fs.entries) : n ∈ fs.namesIn p := by
  refine NameSet.mem_ofList_of_mem (List.mem_filterMap.2 ⟨_, h, ?_⟩)
  rw [nameIn, List.dropLast_concat, if_pos (by simp)]
  simp

/-- What is in a directory is listed there, unless it is on the way to the current directory. -/
theorem mem_namesIn_of_at? (h : fs.at? (p ++ [n]) = some e) (hc : ¬ p ++ [n] <+: fs.current) :
    n ∈ fs.namesIn p := by
  rw [at?, if_neg (by rwa [List.isPrefixOf_iff_prefix])] at h
  obtain ⟨l₁, l₂, hl, -⟩ := List.lookup_eq_some_iff.1 h
  exact mem_namesIn (e := e) (by rw [hl]; simp)

theorem lists_of_not_above (h : ∀ n, ¬ p ++ [n] <+: fs.current) : fs.Lists p := fun n hn => by
  obtain ⟨e, he⟩ := Option.ne_none_iff_exists'.1 hn
  exact mem_namesIn_of_at? he (h n)

/-- A path with one more name leads into a directory, to the place of the name. -/
theorem placeOf_of_join (hd : d ≠ "") (hne : n ≠ "") (hslash : '/' ∉ n.toList) (hdot : n ≠ ".")
    (hdots : n ≠ "..") (h : fs.placeOf (Path.join d n) = .ok q) :
    ∃ p, fs.placeOf d = .ok p ∧ fs.at? p = some .directory ∧ q = p ++ [n] := by
  have hfits := fits_of_placeOf h
  rw [placeOf_of_fits hfits, Path.names_join hd hne hslash, walk_append, bind_eq_ok_iff] at h
  obtain ⟨p, hp, hn⟩ := h
  have hdir := directory_of_walk_cons hn
  rw [walk_cons hdir, if_neg hdot, if_neg hdots] at hn
  split at hn
  · cases hn
  have hstart : fs.start (Path.join d n) = fs.start d :=
    start_congr (by rw [Path.isAbsolute, Path.isAbsolute, Path.head?_join hd hslash]) fs
  rw [hstart] at hp
  obtain ⟨rest, hrest⟩ := Path.exists_join hd hslash
  have hnull := hfits.null
  have hshort := hfits.short
  rw [hrest, String.toList_append, List.mem_append, not_or] at hnull
  rw [hrest, String.utf8ByteSize_append] at hshort
  refine ⟨p, ?_, hdir, (Except.ok.inj hn).symm⟩
  rw [placeOf_of_fits ⟨hd, hnull.1, by omega⟩, hp]

theorem readDirectory_of_placeOf (hp : fs.placeOf d = .ok p) (ha : fs.at? p = some .directory) :
    fs.readDirectory d = .ok ((fs.namesIn p).filterMap fun n => (fs.at? (p ++ [n])).map (n, ·)) := by
  rw [readDirectory, resolve, hp]
  simp only [ha]

theorem mem_readDirectory (hr : fs.readDirectory d = .ok entries) (hp : fs.placeOf d = .ok p)
    (hn : n ∈ fs.namesIn p) (he : fs.at? (p ++ [n]) = some e) : (n, e) ∈ entries := by
  obtain ⟨p', hp', -, rfl⟩ := of_readDirectory_eq_ok hr
  obtain rfl : p = p' := Except.ok.inj (hp.symm.trans hp')
  exact List.mem_filterMap.2 ⟨n, hn, by rw [he]; rfl⟩

/-- A file that is read by a path with one more name is listed in the directory of the path. -/
theorem mem_of_readBytes_join {bytes : List UInt8} (hd : d ≠ "") (hne : n ≠ "")
    (hslash : '/' ∉ n.toList) (hdot : n ≠ ".") (hdots : n ≠ "..")
    (h : fs.readBytes (Path.join d n) = .ok bytes) :
    ∃ p entries, fs.placeOf d = .ok p ∧ fs.at? p = some .directory ∧
      fs.readDirectory d = .ok entries ∧ (n, .file bytes) ∈ entries := by
  obtain ⟨q, hq, hfile, -⟩ := readBytes_eq_ok_iff.1 h
  obtain ⟨p, hp, ha, rfl⟩ := placeOf_of_join hd hne hslash hdot hdots hq
  have hnot : ¬ p ++ [n] <+: fs.current := fun hpre => by
    rw [at?, if_pos (List.isPrefixOf_iff_prefix.2 hpre)] at hfile
    cases hfile
  have hr := readDirectory_of_placeOf hp ha
  exact ⟨p, _, hp, ha, hr, mem_readDirectory hr hp (mem_namesIn_of_at? hfile hnot) hfile⟩

end Files

end Stencil
