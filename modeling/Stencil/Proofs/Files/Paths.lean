import Mathlib.Data.List.TakeWhile
import Stencil.Files.Tree
import Stencil.Proofs.NameMap
import Stencil.Proofs.Text.Words

/-!
# Where the names in a directory lead

A directory lists names; the path of the directory joined with such a name leads to what is listed
under it, unless the path is too long for the system (`lookup_join`). For this the tree has to be sound:
the names in it are such as a file can have.
-/

namespace Stencil

/-! ### Pieces between separators -/

namespace Text

variable {sep : Char} {s : List Char}

theorem splitAll_of_not_mem (h : sep ∉ s) : splitAll sep s = [s] := by
  rw [splitAll, List.count_eq_zero.2 h, splitAtMost]

theorem splitAll_append_of_not_mem (h : sep ∉ s) (t : List Char) :
    splitAll sep (s ++ sep :: t) = s :: splitAll sep t := by
  have hs : ∀ c ∈ s, (c != sep) = true := fun c hc => bne_iff_ne.2 fun he => h (he ▸ hc)
  have hcut := takeWhile_append_stop (t := sep :: t) hs (by simp)
  rw [splitAll, List.count_append, List.count_eq_zero.2 h, Nat.zero_add, List.count_cons_self,
    splitAtMost, hcut.1, hcut.2]
  rfl

/-- Two texts with a separator between them fall into the pieces of both. -/
theorem splitAll_append (s t : List Char) :
    splitAll sep (s ++ sep :: t) = splitAll sep s ++ splitAll sep t := by
  induction hn : s.length using Nat.strong_induction_on generalizing s with
  | _ n ih =>
    by_cases h : sep ∈ s
    · obtain ⟨a, b, rfl, ha⟩ := List.eq_append_cons_of_mem h
      have hb : b.length < n := by
        rw [← hn, List.length_append, List.length_cons]
        omega
      rw [List.append_assoc, List.cons_append, splitAll_append_of_not_mem ha,
        splitAll_append_of_not_mem ha, ih b.length hb b rfl, List.cons_append]
    · rw [splitAll_append_of_not_mem h, splitAll_of_not_mem h, List.singleton_append]

end Text

/-! ### Paths -/

namespace Path

variable {d n : String}

theorem not_isAbsolute (hs : '/' ∉ n.toList) : isAbsolute n = false := by
  rw [isAbsolute, beq_eq_false_iff_ne]
  exact fun h => hs (List.mem_of_mem_head? h)

/-- A directory and a name in it, whatever the directory ends in. -/
theorem join_cases (hd : d ≠ "") (hs : '/' ∉ n.toList) :
    (∃ b, d.toList = b ++ ['/'] ∧ (join d n).toList = b ++ '/' :: n.toList) ∨
      (join d n).toList = d.toList ++ '/' :: n.toList := by
  have he : d.isEmpty = false := by
    rw [← Bool.not_eq_true, String.isEmpty_iff]
    exact hd
  rw [join, not_isAbsolute hs, he]
  by_cases hl : d.toList.getLast? = some '/'
  · obtain ⟨b, hb⟩ := List.getLast?_eq_some_iff.1 hl
    refine .inl ⟨b, hb, ?_⟩
    rw [if_neg (by simp), if_pos (by simp [hl]), String.toList_append, hb, List.append_assoc]
    rfl
  · refine .inr ?_
    rw [if_neg (by simp), if_neg (by simp [hl]), String.toList_append, String.toList_append,
      List.append_assoc]
    rfl

theorem names_join (hd : d ≠ "") (hn : n ≠ "") (hs : '/' ∉ n.toList) :
    names (join d n) = names d ++ [n] := by
  have hlast : ((Text.splitAll '/' n.toList).filter fun piece => !piece.isEmpty).map String.ofList =
      [n] := by
    rw [Text.splitAll_of_not_mem hs, List.filter_cons_of_pos (by simpa using hn)]
    simp
  rcases join_cases hd hs with ⟨b, hb, hj⟩ | hj
  · have hnil : Text.splitAll '/' [] = [[]] := Text.splitAll_of_not_mem List.not_mem_nil
    rw [names, names, hj, hb, Text.splitAll_append, Text.splitAll_append, hnil, List.filter_append,
      List.map_append, hlast, List.filter_append]
    simp
  · rw [names, names, hj, Text.splitAll_append, List.filter_append, List.map_append, hlast]

theorem head?_join (hd : d ≠ "") (hs : '/' ∉ n.toList) :
    (join d n).toList.head? = d.toList.head? := by
  have hne : d.toList ≠ [] := by simpa using hd
  rcases join_cases hd hs with ⟨b, hb, hj⟩ | hj
  · rw [hj, hb]
    cases b <;> rfl
  · rw [hj, List.head?_append_of_ne_nil _ hne]

theorem getLast?_join (hd : d ≠ "") (hn : n ≠ "") (hs : '/' ∉ n.toList) :
    (join d n).toList.getLast? = n.toList.getLast? := by
  have hne : n.toList ≠ [] := by simpa using hn
  have hlast : ∀ b : List Char, (b ++ '/' :: n.toList).getLast? = n.toList.getLast? := fun b => by
    rw [List.append_cons, List.getLast?_append_of_ne_nil _ hne]
  rcases join_cases hd hs with ⟨b, -, hj⟩ | hj <;> rw [hj, hlast]

theorem mem_join {c : Char} (hd : d ≠ "") (hs : '/' ∉ n.toList) (h : c ∈ (join d n).toList) :
    c ∈ d.toList ∨ c = '/' ∨ c ∈ n.toList := by
  rcases join_cases hd hs with ⟨b, hb, hj⟩ | hj <;> rw [hj] at h
  · rw [hb]
    simp only [List.mem_append, List.mem_cons] at h ⊢
    tauto
  · simpa using h

theorem utf8ByteSize_join_le (d n : String) :
    (join d n).utf8ByteSize ≤ d.utf8ByteSize + 1 + n.utf8ByteSize := by
  have hslash : ("/" : String).utf8ByteSize = 1 := rfl
  rw [join]
  split
  · omega
  · split
    · rw [String.utf8ByteSize_append]
      omega
    · rw [String.utf8ByteSize_append, String.utf8ByteSize_append, hslash]

theorem stemAndExtension_eq {name stem extension : String}
    (h : stemAndExtension name = (stem, some extension)) :
    name = stem ++ "." ++ extension ∧ stem ≠ "" := by
  rw [stemAndExtension] at h
  have hcut := List.takeWhile_append_dropWhile (p := (· != '.')) (l := name.toList.reverse)
  rcases hd : name.toList.reverse.dropWhile (· != '.') with _ | ⟨c, rest⟩
  · simp [hd] at h
  · have hc : c = '.' := by
      have := List.head?_dropWhile_not (· != '.') name.toList.reverse
      rw [hd] at this
      simpa using this
    subst hc
    cases rest with
    | nil => simp [hd] at h
    | cons c rest =>
      simp only [hd, Prod.mk.injEq, Option.some.injEq] at h
      obtain ⟨rfl, rfl⟩ := h
      rw [hd] at hcut
      have hname := congrArg List.reverse hcut
      rw [List.reverse_append, List.reverse_reverse, List.reverse_cons] at hname
      constructor
      · refine String.toList_inj.1 ?_
        rw [String.toList_append, String.toList_append, String.toList_ofList, String.toList_ofList,
          String.toList_ofList]
        exact hname.symm
      · simp

end Path

/-! ### Files -/

namespace Files

variable {fs : Files} {d n : String} {p : Place} {entries : List (String × Entry)} {e : Entry}

/-- A name that a file can have. -/
structure IsName (n : String) : Prop where
  ne_empty : n ≠ ""
  slash : '/' ∉ n.toList
  null : '\x00' ∉ n.toList
  ne_dot : n ≠ "."
  ne_dots : n ≠ ".."
  short : n.utf8ByteSize ≤ 255

/-- A file system whose names are such as files can have. -/
def Sound (fs : Files) : Prop := ∀ x ∈ fs.entries, ∀ n ∈ x.1, IsName n

instance (n : String) : Decidable (IsName n) :=
  decidable_of_iff (n ≠ "" ∧ '/' ∉ n.toList ∧ '\x00' ∉ n.toList ∧ n ≠ "." ∧ n ≠ ".." ∧
      n.utf8ByteSize ≤ 255)
    ⟨fun ⟨h₁, h₂, h₃, h₄, h₅, h₆⟩ => ⟨h₁, h₂, h₃, h₄, h₅, h₆⟩,
      fun ⟨h₁, h₂, h₃, h₄, h₅, h₆⟩ => ⟨h₁, h₂, h₃, h₄, h₅, h₆⟩⟩

instance (fs : Files) : Decidable (Sound fs) :=
  inferInstanceAs (Decidable (∀ x ∈ fs.entries, ∀ n ∈ x.1, IsName n))

theorem walk_append (fs : Files) (xs ys : List String) (p : Place) :
    fs.walk p (xs ++ ys) = fs.walk p xs >>= fun q => fs.walk q ys := by
  induction xs generalizing p with
  | nil => rfl
  | cons n xs ih =>
    rw [List.cons_append, walk, walk]
    rcases fs.at? p with _ | (_ | bytes)
    · rfl
    · simp only
      split
      · exact ih p
      · split
        · exact ih p.dropLast
        · split
          · rfl
          · exact ih (p ++ [n])
    · rfl

/-- A directory that a path leads to, and what it lists. -/
theorem of_readDirectory_eq_ok (h : fs.readDirectory d = .ok entries) :
    ∃ p, fs.placeOf d = .ok p ∧ fs.at? p = some .directory ∧
      entries = (fs.namesIn p).filterMap fun n => (fs.at? (p ++ [n])).map (n, ·) := by
  rw [readDirectory] at h
  rcases hr : fs.resolve d with e | p
  · simp [hr] at h
  · rcases ha : fs.at? p with _ | (_ | bytes) <;> simp only [hr, ha] at h
    · cases h
    · refine ⟨p, ?_, ha, (Except.ok.inj h).symm⟩
      rw [resolve] at hr
      rcases hp : fs.placeOf d with e | q
      · simp [hp] at hr
      · rw [hp] at hr
        simp only at hr
        split at hr
        · split at hr
          · cases hr
          · exact congrArg _ (Except.ok.inj hr)
        · exact congrArg _ (Except.ok.inj hr)
    · cases h

/-- What a directory lists under a name is at the place of the name. -/
theorem mem_listed {entries : List (String × Entry)}
    (he : entries = (fs.namesIn p).filterMap fun n => (fs.at? (p ++ [n])).map (n, ·))
    (h : (n, e) ∈ entries) : n ∈ fs.namesIn p ∧ fs.at? (p ++ [n]) = some e := by
  rw [he] at h
  obtain ⟨m, hm, hmap⟩ := List.mem_filterMap.1 h
  obtain ⟨e', he', heq⟩ := Option.map_eq_some_iff.1 hmap
  obtain ⟨rfl, rfl⟩ := Prod.mk.inj heq
  exact ⟨hm, he'⟩

theorem eq_of_nameIn {q : Place} (h : nameIn p q = some n) : q = p ++ [n] := by
  rw [nameIn] at h
  split at h
  · rename_i hq
    obtain ⟨hd, -⟩ := Bool.and_eq_true_iff.1 hq
    obtain ⟨b, rfl⟩ := List.getLast?_eq_some_iff.1 h
    rw [← beq_iff_eq.1 hd, List.dropLast_concat]
  · cases h

theorem Sound.isName (h : fs.Sound) (hn : n ∈ fs.namesIn p) : IsName n := by
  obtain ⟨x, hx, hname⟩ := List.mem_filterMap.1 (NameSet.mem_of_mem_ofList hn)
  exact h x hx n (by rw [eq_of_nameIn hname]; simp)

/-- The path of a directory joined with a name is walked from the place of the directory. -/
theorem placeOf_join_eq_walk (hp : fs.placeOf d = .ok p) (hne : n ≠ "") (hslash : '/' ∉ n.toList)
    (hn : '\x00' ∉ n.toList) (hl : (Path.join d n).utf8ByteSize < 4096) :
    fs.placeOf (Path.join d n) = fs.walk p [n] := by
  rw [placeOf] at hp
  split at hp
  · cases hp
  rename_i hempty
  split at hp
  · cases hp
  rename_i hnull
  split at hp
  · cases hp
  have hd : d ≠ "" := by simpa using hempty
  have hjoin : (Path.join d n) ≠ "" := by
    intro he
    rcases Path.join_cases hd hslash with ⟨b, -, hj⟩ | hj <;> simp [he] at hj
  have hnull' : (Path.join d n).toList.contains '\x00' = false := by
    rw [← Bool.not_eq_true, List.contains_iff_mem]
    intro hmem
    rcases Path.mem_join hd hslash hmem with hmem | he | hmem
    · exact hnull (by simpa using hmem)
    · exact absurd he (by decide)
    · exact hn hmem
  have hstart : Path.isAbsolute (Path.join d n) = Path.isAbsolute d := by
    rw [Path.isAbsolute, Path.isAbsolute, Path.head?_join hd hslash]
  rw [placeOf, if_neg (by simpa using hjoin), hnull', if_neg (by simp), if_neg (by omega), hstart,
    Path.names_join hd hne hslash, walk_append, hp]
  rfl

/-- The path of a directory joined with a name in it leads to the place of the name. -/
theorem placeOf_join (hp : fs.placeOf d = .ok p) (ha : fs.at? p = some .directory) (hn : IsName n)
    (hl : (Path.join d n).utf8ByteSize < 4096) : fs.placeOf (Path.join d n) = .ok (p ++ [n]) := by
  rw [placeOf_join_eq_walk hp hn.ne_empty hn.slash hn.null hl, walk, ha]
  simp only
  rw [if_neg hn.ne_dot, if_neg hn.ne_dots, if_neg (by have := hn.short; omega), walk]

/-- **What a directory lists under a name is what the joined path leads to**, unless the path is too
long. -/
theorem lookup_join (h : fs.Sound) (hr : fs.readDirectory d = .ok entries) (he : (n, e) ∈ entries)
    (hl : (Path.join d n).utf8ByteSize < 4096) : fs.lookup (Path.join d n) = .ok e := by
  obtain ⟨p, hp, ha, hlist⟩ := of_readDirectory_eq_ok hr
  obtain ⟨hmem, hat⟩ := mem_listed hlist he
  have hn := h.isName hmem
  have hd : d ≠ "" := by
    rintro rfl
    cases hp
  have hslash : endsInSlash (Path.join d n) = false := by
    rw [endsInSlash, Path.getLast?_join hd hn.ne_empty hn.slash, beq_eq_false_iff_ne]
    exact fun hlast => hn.slash (List.mem_of_getLast? hlast)
  have hres : fs.resolve (Path.join d n) = .ok (p ++ [n]) := by
    rw [resolve, placeOf_join hp ha hn hl]
    cases e <;> simp only [hat, hslash]
    rfl
  rw [lookup, hres]
  simp only [hat]

/-- The names that a directory lists rise. -/
theorem listed_pairwise (hr : fs.readDirectory d = .ok entries) :
    (entries.map (·.1)).Pairwise (· < ·) := by
  obtain ⟨p, -, -, hlist⟩ := of_readDirectory_eq_ok hr
  rw [hlist, List.pairwise_map, List.pairwise_filterMap]
  refine (NameSet.pairwise_ofList _).imp fun {a b} hab x hx y hy => ?_
  obtain ⟨_, -, rfl⟩ := Option.map_eq_some_iff.1 hx
  obtain ⟨_, -, rfl⟩ := Option.map_eq_some_iff.1 hy
  exact hab

theorem Sound.isName_of_listed (h : fs.Sound) (hr : fs.readDirectory d = .ok entries)
    (he : (n, e) ∈ entries) : IsName n := by
  obtain ⟨p, -, -, hlist⟩ := of_readDirectory_eq_ok hr
  exact h.isName (mem_listed hlist he).1

/-- A file that a directory lists is one of the tree. -/
theorem exists_mem_of_listed {bytes : List UInt8} (hr : fs.readDirectory d = .ok entries)
    (he : (n, .file bytes) ∈ entries) : ∃ q, (q, .file bytes) ∈ fs.entries := by
  obtain ⟨p, -, -, hlist⟩ := of_readDirectory_eq_ok hr
  have hat := (mem_listed hlist he).2
  rw [at?] at hat
  split at hat
  · cases hat
  · obtain ⟨l₁, l₂, hl, -⟩ := List.lookup_eq_some_iff.1 hat
    exact ⟨p ++ [n], by rw [hl]; simp⟩

theorem exists_readDirectory (h : fs.lookup d = .ok .directory) :
    ∃ entries, fs.readDirectory d = .ok entries := by
  rw [lookup] at h
  rcases hr : fs.resolve d with e | p
  · simp [hr] at h
  · rw [hr] at h
    rcases ha : fs.at? p with _ | (_ | bytes) <;> simp only [ha] at h
    · cases h
    · simp only [readDirectory, hr, ha]
      exact ⟨_, rfl⟩
    · cases h

end Files

end Stencil
