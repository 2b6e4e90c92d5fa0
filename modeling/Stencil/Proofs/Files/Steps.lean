import Stencil.Proofs.Files.Paths

/-!
# The names of a path and of the paths beside it

The names of a path are those before its last one, the last one, and names `.` behind it. The path of the
directory that a path lies in has names out of the first part (`names_of_parent?`), and the path with
another extension has all of the first part and another last name (`names_withExtension`).
-/

namespace Stencil.Path

variable {path : String}

/-! ### Names as pieces of a text -/

/-- The names of a path that is given as a list of characters. -/
def pieces (cs : List Char) : List String :=
  ((Text.splitAll '/' cs).filter fun piece => !piece.isEmpty).map String.ofList

theorem names_eq_pieces (path : String) : names path = pieces path.toList := rfl

theorem pieces_append (a b : List Char) : pieces (a ++ '/' :: b) = pieces a ++ pieces b := by
  rw [pieces, Text.splitAll_append, List.filter_append, List.map_append]
  rfl

@[simp] theorem pieces_nil : pieces [] = [] := by
  rw [pieces, Text.splitAll_of_not_mem List.not_mem_nil]
  rfl

theorem pieces_of_not_mem {a : List Char} (h : '/' ∉ a) (hne : a ≠ []) :
    pieces a = [String.ofList a] := by
  rw [pieces, Text.splitAll_of_not_mem h, List.filter_cons_of_pos (by simpa using hne)]
  rfl

theorem pieces_concat_slash (a : List Char) : pieces (a ++ ['/']) = pieces a := by
  rw [pieces_append, pieces_nil, List.append_nil]

/-! ### What does not count at the end -/

/-- What does not count at the end of a path are slashes and names `.`. -/
theorem pieces_dropEnd (s : List Char) : ∃ dots, (∀ n ∈ dots, n = ".") ∧
    pieces s.reverse = pieces (dropEnd s).reverse ++ dots := by
  induction s using dropEnd.induct with
  | case1 rest ih =>
    obtain ⟨dots, hdots, hp⟩ := ih
    refine ⟨dots, hdots, ?_⟩
    rw [dropEnd, List.reverse_cons, pieces_concat_slash, hp]
  | case2 rest ih =>
    obtain ⟨dots, hdots, hp⟩ := ih
    refine ⟨dots ++ ["."], fun n hn => ?_, ?_⟩
    · rcases List.mem_append.1 hn with hn | hn
      · exact hdots n hn
      · exact List.mem_singleton.1 hn
    · have hdot : pieces ['.'] = ["."] := pieces_of_not_mem (by decide) (by decide)
      rw [List.reverse_cons, pieces_concat_slash] at hp
      rw [dropEnd, List.reverse_cons, List.reverse_cons, List.append_assoc, List.singleton_append,
        pieces_append, hp, hdot, List.append_assoc]
  | case3 rest h₁ h₂ =>
    refine ⟨[], fun n hn => absurd hn List.not_mem_nil, ?_⟩
    rw [dropEnd.eq_3 rest h₁ h₂, List.append_nil]

theorem dropEnd_suffix (s : List Char) : dropEnd s <:+ s := by
  induction s using dropEnd.induct with
  | case1 rest ih =>
    rw [dropEnd]
    exact ih.trans (List.suffix_cons _ _)
  | case2 rest ih =>
    rw [dropEnd]
    exact ih.trans (List.suffix_cons _ _)
  | case3 rest h₁ h₂ => exact ⟨[], dropEnd.eq_3 rest h₁ h₂⟩

/-- If nothing at all counts, then the path starts at the root. -/
theorem getLast?_of_dropEnd_eq_nil {s : List Char} (h : dropEnd s = []) (hne : s ≠ []) :
    s.getLast? = some '/' := by
  induction s using dropEnd.induct with
  | case1 rest ih =>
    rw [dropEnd] at h
    by_cases hrest : rest = []
    · rw [hrest]
      rfl
    · rw [List.getLast?_cons_of_ne_nil hrest, ih h hrest]
  | case2 rest ih =>
    rw [dropEnd] at h
    rw [List.getLast?_cons_of_ne_nil (List.cons_ne_nil _ _), ih h (List.cons_ne_nil _ _)]
  | case3 rest h₁ h₂ =>
    rw [dropEnd.eq_3 rest h₁ h₂] at h
    exact absurd h hne

/-- What counts does not end in a slash or in a name `.`. -/
theorem dropEnd_ne (s rest : List Char) : dropEnd s ≠ '/' :: rest ∧ dropEnd s ≠ '.' :: '/' :: rest := by
  induction s using dropEnd.induct with
  | case1 s ih => rwa [dropEnd]
  | case2 s ih => rwa [dropEnd]
  | case3 s h₁ h₂ =>
    rw [dropEnd.eq_3 s h₁ h₂]
    exact ⟨h₁ rest, h₂ rest⟩

/-! ### Before the last name -/

theorem cutLast_append {before name : List Char} (h : cutLast path = (before, name)) :
    (dropEnd path.toList.reverse).reverse = before ++ name := by
  obtain ⟨rfl, rfl⟩ := Prod.mk.inj h
  rw [← List.reverse_append, List.takeWhile_append_dropWhile]

theorem prefix_cutLast {before name : List Char} (h : cutLast path = (before, name)) :
    before ++ name <+: path.toList := by
  rw [← cutLast_append h, ← List.reverse_suffix, List.reverse_reverse]
  exact dropEnd_suffix _

/-- A path is cut where its last name begins. -/
theorem cutLast_eq {before name : List Char} (h : path.toList = before ++ '/' :: name)
    (hslash : '/' ∉ name) (hne : name ≠ []) (hdot : name ≠ ['.']) :
    cutLast path = (before ++ ['/'], name) := by
  have hrev : path.toList.reverse = name.reverse ++ '/' :: before.reverse := by simp [h]
  have hcore : dropEnd path.toList.reverse = path.toList.reverse := by
    refine dropEnd.eq_3 _ (fun rest hr => ?_) fun rest hr => ?_ <;> rw [hrev] at hr
    · rcases List.append_eq_cons_iff.1 hr with ⟨hnil, -⟩ | ⟨more, hname, -⟩
      · exact hne (List.reverse_eq_nil_iff.1 hnil)
      · exact hslash (List.mem_reverse.1 (hname ▸ List.mem_cons_self))
    · rcases List.append_eq_cons_iff.1 hr with ⟨hnil, -⟩ | ⟨more, hname, hmore⟩
      · exact hne (List.reverse_eq_nil_iff.1 hnil)
      · rcases List.cons_eq_append_iff.1 hmore with ⟨hnil, -⟩ | ⟨rest', hrest, -⟩
        · exact hdot (by rw [← List.reverse_reverse name, hname, hnil]; rfl)
        · exact hslash (List.mem_reverse.1 (by rw [hname, hrest]; simp))
  have hkeep : ∀ c ∈ name.reverse, (c != '/') = true := fun c hc =>
    bne_iff_ne.2 fun he => hslash (List.mem_reverse.1 (he ▸ hc))
  have hcut := Text.takeWhile_append_stop (t := '/' :: before.reverse) hkeep (by simp)
  rw [cutLast, hcore, hrev, hcut.1, hcut.2]
  simp

theorem not_mem_cutLast {before name : List Char} (h : cutLast path = (before, name)) :
    '/' ∉ name := by
  obtain rfl : (cutLast path).2 = name := congrArg Prod.snd h
  intro hmem
  have htake := List.mem_takeWhile_imp (List.mem_reverse.1 hmem)
  simp at htake

/-- What stands before the last name ends in a slash. -/
theorem cutLast_before (path : String) :
    (cutLast path).1 = [] ∨ ∃ b, (cutLast path).1 = b ++ ['/'] := by
  rw [cutLast]
  rcases hd : (dropEnd path.toList.reverse).dropWhile (· != '/') with _ | ⟨c, rest⟩
  · exact .inl rfl
  · have hc : c = '/' := by
      have := List.head?_dropWhile_not (· != '/') (dropEnd path.toList.reverse)
      rw [hd] at this
      simpa using this
    refine .inr ⟨rest.reverse, ?_⟩
    rw [hc, List.reverse_cons]

/-- The names of what stands before the last name and another name in its place. -/
theorem pieces_before_append (path : String) {name : List Char} (h : '/' ∉ name) (hne : name ≠ []) :
    pieces ((cutLast path).1 ++ name) = pieces (cutLast path).1 ++ [String.ofList name] := by
  rcases cutLast_before path with hb | ⟨b, hb⟩ <;> rw [hb]
  · rw [List.nil_append, pieces_nil, List.nil_append, pieces_of_not_mem h hne]
  · rw [List.append_assoc, List.singleton_append, pieces_append, pieces_concat_slash,
      pieces_of_not_mem h hne]

/-- The names of a path: those before the last one, the last one, and names `.`. -/
theorem names_eq_of_cutLast {before name : List Char} (h : cutLast path = (before, name))
    (hne : name ≠ []) : ∃ dots, (∀ n ∈ dots, n = ".") ∧
      names path = pieces before ++ String.ofList name :: dots := by
  obtain ⟨dots, hdots, hp⟩ := pieces_dropEnd path.toList.reverse
  have hbefore := pieces_before_append path (not_mem_cutLast h) hne
  rw [h] at hbefore
  refine ⟨dots, hdots, ?_⟩
  rw [names_eq_pieces, ← List.reverse_reverse path.toList, hp, cutLast_append h, hbefore,
    List.append_assoc, List.singleton_append]

/-- Two paths start at the same place if what stands before their last names is the same. -/
theorem isAbsolute_append {before name : List Char} (h : cutLast path = (before, name))
    (hne : name ≠ []) (other : List Char) (hslash : '/' ∉ other) :
    isAbsolute (String.ofList (before ++ other)) = isAbsolute path := by
  obtain ⟨tail, htail⟩ := prefix_cutLast h
  rw [isAbsolute, isAbsolute, String.toList_ofList, ← htail, List.append_assoc]
  cases before with
  | cons c before => rfl
  | nil =>
    have hname := not_mem_cutLast h
    rw [List.nil_append, List.nil_append, List.head?_append_of_ne_nil _ hne, Bool.eq_iff_iff,
      beq_iff_eq, beq_iff_eq]
    exact ⟨fun ho => absurd (List.mem_of_mem_head? ho) hslash,
      fun hn => absurd (List.mem_of_mem_head? hn) hname⟩

/-! ### The directory that a path lies in -/

/-- A directory is on the way that a path leads: all names of its path and more. -/
structure IsAbove (directory path : String) : Prop where
  absolute : isAbsolute directory = isAbsolute path
  names : ∃ more, names path = names directory ++ more ∧ ∃ n ∈ more, n ≠ "."

/-- The directory: the current one, the root, or what counts before the last name. -/
theorem parent?_cases {before name : List Char} (hc : cutLast path = (before, name))
    {directory : String} (h : parent? path = some directory) :
    (directory = "" ∧ before = []) ∨ (directory = "/" ∧ before.head? = some '/') ∨
      (directory.toList ≠ [] ∧ directory.toList <+: before ∧
        names directory <+: pieces before) := by
  rw [parent?, hc] at h
  cases name with
  | nil => cases h
  | cons c name =>
    obtain ⟨dots, -, hp⟩ := pieces_dropEnd before.reverse
    rw [List.reverse_reverse] at hp
    have hdirectory := Option.some.inj h
    by_cases hnil : dropEnd before.reverse = []
    · by_cases hb : before = []
      · rw [hnil, hb] at hdirectory
        exact .inl ⟨hdirectory.symm, hb⟩
      · have hlast := getLast?_of_dropEnd_eq_nil hnil (by simpa using hb)
        rw [List.getLast?_reverse] at hlast
        rw [hnil, if_pos (by simpa using hb)] at hdirectory
        exact .inr (.inl ⟨hdirectory.symm, hlast⟩)
    · rw [if_neg (by simp [hnil])] at hdirectory
      rw [← hdirectory, names_eq_pieces, String.toList_ofList]
      refine .inr (.inr ⟨by simpa using hnil, ?_, dots, hp.symm⟩)
      rw [← List.reverse_suffix, List.reverse_reverse]
      exact dropEnd_suffix _

/-- What stands before the last name leads to the directory. -/
theorem names_of_parent? {before name : List Char} (hc : cutLast path = (before, name))
    (hne : name ≠ []) {directory : String} (h : parent? path = some directory) :
    isAbsolute directory = isAbsolute path ∧ names directory <+: pieces before := by
  have hstart := isAbsolute_append hc hne [] List.not_mem_nil
  rw [List.append_nil, isAbsolute, String.toList_ofList] at hstart
  obtain ⟨rfl, rfl⟩ | ⟨rfl, hroot⟩ | ⟨hd, ⟨tail, rfl⟩, hnames⟩ := parent?_cases hc h
  · exact ⟨hstart, List.nil_prefix⟩
  · refine ⟨?_, ?_⟩
    · rw [← hstart, hroot]
      rfl
    · rw [show names "/" = [] from pieces_concat_slash []]
      exact List.nil_prefix
  · refine ⟨?_, hnames⟩
    rw [isAbsolute, ← hstart, List.head?_append_of_ne_nil _ hd]

/-- The directory that one on the way lies in is on the way. -/
theorem IsAbove.parent {directory above : String} (h : IsAbove directory path)
    (hp : parent? directory = some above) : IsAbove above path := by
  rcases hc : cutLast directory with ⟨before, name⟩
  have hne : name ≠ [] := by
    rintro rfl
    rw [parent?, hc] at hp
    cases hp
  obtain ⟨habs, mid, hmid⟩ := names_of_parent? hc hne hp
  obtain ⟨dots, -, hdirectory⟩ := names_eq_of_cutLast hc hne
  obtain ⟨more, hmore, n, hn, hdot⟩ := h.names
  refine ⟨habs.trans h.absolute, mid ++ String.ofList name :: dots ++ more, ?_, n, ?_, hdot⟩
  · rw [hmore, hdirectory, ← hmid]
    simp
  · exact List.mem_append_right _ hn

/-! ### The last name -/

/-- A path with a last name: the names before it, and the paths of its directory and with another
extension. -/
structure Ends (path name : String) (before : List String) : Prop where
  names : ∃ dots, (∀ n ∈ dots, n = ".") ∧ Path.names path = before ++ name :: dots
  ne_dot : name ≠ "."
  ne_dots : name ≠ ".."
  directory : ∀ d, parent? path = some d → IsAbove d path
  other : ∀ extension, '/' ∉ extension.toList →
    isAbsolute (withExtension path extension) = isAbsolute path ∧
      Path.names (withExtension path extension) =
        before ++ [(stemAndExtension name).1 ++ "." ++ extension]

/-- The extension of the last name. -/
def extension? (path : String) : Option String :=
  (fileName? path).bind fun name => (stemAndExtension name).2

theorem prefix_stem (name : String) : (stemAndExtension name).1.toList <+: name.toList := by
  have hcut := List.takeWhile_append_dropWhile (p := (· != '.')) (l := name.toList.reverse)
  rw [stemAndExtension]
  split
  · exact List.prefix_refl _
  · rename_i stem _ hd
    rw [hd] at hcut
    rw [String.toList_ofList, ← List.reverse_suffix, List.reverse_reverse, ← hcut, List.append_cons]
    exact List.suffix_append _ _
  · exact List.prefix_refl _

/-- Another extension makes another name. -/
theorem stem_append_ne {name extension : String} (h : (stemAndExtension name).2 ≠ some extension) :
    (stemAndExtension name).1 ++ "." ++ extension ≠ name := by
  rcases hse : stemAndExtension name with ⟨stem, _ | e⟩
  · obtain rfl : stem = name := by
      rw [stemAndExtension] at hse
      split at hse
      · exact (Prod.mk.inj hse).1.symm
      · cases (Prod.mk.inj hse).2
      · exact (Prod.mk.inj hse).1.symm
    intro heq
    have hlength : (stem ++ "." ++ extension).length = stem.length := congrArg String.length heq
    rw [String.length_append, String.length_append, show (".").length = 1 from rfl] at hlength
    omega
  · obtain ⟨hname, -⟩ := stemAndExtension_eq hse
    intro heq
    rw [hname, String.append_right_inj] at heq
    rw [hse, heq] at h
    exact h rfl

theorem cutLast_of_fileName? {name : String} (h : fileName? path = some name) :
    ∃ before last, cutLast path = (before, last) ∧ last ≠ [] ∧ last ≠ ['.'] ∧ last ≠ ['.', '.'] ∧
      String.ofList last = name := by
  rcases hc : cutLast path with ⟨before, last⟩
  rw [fileName?, hc] at h
  simp only at h
  split at h
  · cases h
  · cases h
  · cases h
  · rename_i h₁ h₂ h₃
    exact ⟨before, last, rfl, h₁, h₂, h₃, Option.some.inj h⟩

theorem ends_of_fileName? {name : String} (h : fileName? path = some name) :
    ∃ before, Ends path name before := by
  obtain ⟨before, last, hc, hne, hdot, hdots, rfl⟩ := cutLast_of_fileName? h
  have hslash := not_mem_cutLast hc
  have hstem : '/' ∉ (stemAndExtension (String.ofList last)).1.toList := fun hmem => by
    have hmem := (prefix_stem (String.ofList last)).subset hmem
    rw [String.toList_ofList] at hmem
    exact hslash hmem
  have hdot' : String.ofList last ≠ "." := fun heq => hdot (by simpa using congrArg String.toList heq)
  refine ⟨pieces before, names_eq_of_cutLast hc hne, hdot', ?_, fun d hd => ?_, fun extension he => ?_⟩
  · exact fun heq => hdots (by simpa using congrArg String.toList heq)
  · obtain ⟨habs, mid, hmid⟩ := names_of_parent? hc hne hd
    obtain ⟨dots, -, hpath⟩ := names_eq_of_cutLast hc hne
    refine ⟨habs, mid ++ String.ofList last :: dots, ?_, String.ofList last, by simp, hdot'⟩
    rw [hpath, ← hmid, List.append_assoc]
  · have hother : withExtension path extension = String.ofList (before ++
        ((stemAndExtension (String.ofList last)).1 ++ "." ++ extension).toList) := by
      rw [withExtension, h, hc]
      simp [String.ofList_append, String.append_assoc]
    have hslash' : '/' ∉ ((stemAndExtension (String.ofList last)).1 ++ "." ++ extension).toList := by
      simp [hstem, he]
    have hpieces := pieces_before_append path hslash' (by simp)
    rw [hc, String.ofList_toList] at hpieces
    rw [hother]
    refine ⟨isAbsolute_append hc hne _ hslash', ?_⟩
    rw [names_eq_pieces, String.toList_ofList, hpieces]

/-- Without a last name, all names are `.`, or the last one but for them is `..`. -/
theorem of_fileName?_eq_none (h : fileName? path = none) :
    ∃ dots, (∀ n ∈ dots, n = ".") ∧
      (names path = dots ∨ ∃ before, names path = before ++ ".." :: dots) := by
  rcases hc : cutLast path with ⟨before, last⟩
  rw [fileName?, hc] at h
  have hcore := congrArg List.reverse (cutLast_append hc)
  rw [List.reverse_reverse, List.reverse_append] at hcore
  by_cases hne : last = []
  · have hnil : dropEnd path.toList.reverse = [] := by
      rcases cutLast_before path with hb | ⟨b, hb⟩ <;> rw [hc] at hb <;> obtain rfl := hb
      · rw [hcore, hne]
        rfl
      · rw [hne, List.reverse_append] at hcore
        exact absurd hcore (dropEnd_ne _ _).1
    obtain ⟨dots, hdots, hp⟩ := pieces_dropEnd path.toList.reverse
    rw [hnil, List.reverse_reverse] at hp
    exact ⟨dots, hdots, .inl (by rw [names_eq_pieces, hp]; rfl)⟩
  · obtain ⟨dots, hdots, hnames⟩ := names_eq_of_cutLast hc hne
    simp only at h
    split at h
    · exact absurd rfl hne
    · rcases cutLast_before path with hb | ⟨b, hb⟩ <;> rw [hc] at hb <;> obtain rfl := hb
      · refine ⟨"." :: dots, List.forall_mem_cons.2 ⟨rfl, hdots⟩, .inl ?_⟩
        rw [hnames]
        rfl
      · rw [List.reverse_append] at hcore
        exact absurd hcore (dropEnd_ne _ _).2
    · exact ⟨dots, hdots, .inr ⟨_, hnames⟩⟩
    · cases h

theorem extension?_of_not_mem (h : '.' ∉ path.toList) : extension? path = none := by
  rcases hf : fileName? path with _ | name
  · rw [extension?, hf, Option.bind_none]
  · rw [extension?, hf, Option.bind_some]
    rcases hse : stemAndExtension name with ⟨stem, _ | e⟩
    · rfl
    · refine absurd ?_ h
      obtain ⟨hname, -⟩ := stemAndExtension_eq hse
      obtain ⟨before, last, hc, -, -, -, rfl⟩ := cutLast_of_fileName? hf
      have hlast := congrArg String.toList hname
      rw [String.toList_ofList, String.toList_append, String.toList_append] at hlast
      refine (prefix_cutLast hc).subset (List.mem_append_right _ ?_)
      rw [hlast]
      simp

end Stencil.Path
