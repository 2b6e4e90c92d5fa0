import Stencil.NameMap

/-!
# Looking up names

A map answers for a name what was last put there, and inserting under one name leaves the others
alone.
-/

namespace Stencil

variable {α κ : Type}

/-! ### Names in the order in which they first occur -/

theorem nodup_eraseDups (ks : List String) : ks.eraseDups.Nodup := by
  induction hlen : ks.length using Nat.strongRecOn generalizing ks with
  | _ n ih =>
    cases ks with
    | nil => exact List.nodup_nil
    | cons k ks =>
      rw [List.eraseDups_cons, List.nodup_cons, List.mem_eraseDups]
      refine ⟨by simp, ih _ ?_ _ rfl⟩
      rw [← hlen, List.length_cons]
      exact Nat.lt_succ_of_le (List.length_filter_le _ _)

/-- A name that is there already goes nowhere, and another one goes to the end. -/
theorem eraseDups_append_singleton (ks : List String) (k : String) :
    (ks ++ [k]).eraseDups = if k ∈ ks then ks.eraseDups else ks.eraseDups ++ [k] := by
  rw [List.eraseDups_append]
  by_cases h : k ∈ ks
  · simp [List.removeAll, h]
  · simp [List.removeAll, h, List.eraseDups_cons]

/-! ### Lists of pairs -/

theorem lookup_cons_eq [BEq κ] [LawfulBEq κ] [DecidableEq κ] (p : κ × α) (l : List (κ × α)) (k : κ) :
    (p :: l).lookup k = if k = p.1 then some p.2 else l.lookup k := by
  rw [List.lookup_cons]
  by_cases h : k = p.1
  · rw [beq_iff_eq.2 h, if_pos h]
  · rw [beq_false_of_ne h, if_neg h]

theorem mem_of_lookup [BEq κ] [LawfulBEq κ] {l : List (κ × α)} {k : κ} {a : α}
    (h : l.lookup k = some a) : (k, a) ∈ l := by
  obtain ⟨before, after, rfl, -⟩ := List.lookup_eq_some_iff.1 h
  simp

/-- Where each name occurs once, a pair is what its name leads to. -/
theorem lookup_of_mem [BEq κ] [LawfulBEq κ] {l : List (κ × α)} (hl : (l.map (·.1)).Nodup) {p : κ × α}
    (h : p ∈ l) : l.lookup p.1 = some p.2 := by
  obtain ⟨before, after, rfl⟩ := List.append_of_mem h
  rw [List.map_append, List.map_cons, List.nodup_append] at hl
  refine List.lookup_eq_some_iff.2 ⟨before, after, rfl, fun q hq => bne_iff_ne.2 fun he => ?_⟩
  exact hl.2.2 q.1 (List.mem_map_of_mem (f := (·.1)) hq) p.1 List.mem_cons_self he.symm

/-- Giving a name another value where it stands. -/
theorem lookup_replace [BEq κ] [LawfulBEq κ] [DecidableEq κ] (l : List (κ × α)) (k : κ) (a : α)
    (other : κ) : (l.map fun p => if p.1 == k then (k, a) else p).lookup other =
      if other = k then (l.lookup k).map fun _ => a else l.lookup other := by
  induction l with
  | nil => simp
  | cons p l ih =>
    rw [List.map_cons, lookup_cons_eq, ih, lookup_cons_eq, lookup_cons_eq]
    by_cases hp : p.1 = k
    · by_cases ho : other = k <;> simp [hp, ho]
    · by_cases ho : other = k
      · simp [hp, ho, Ne.symm hp]
      · simp [hp, ho]

/-- Giving a name a value: where it stands, or else behind all others. -/
theorem lookup_put [BEq κ] [LawfulBEq κ] [DecidableEq κ] (l : List (κ × α)) (k : κ) (a : α)
    (other : κ) : (if l.any (·.1 == k) then l.map fun p => if p.1 == k then (k, a) else p
      else l ++ [(k, a)]).lookup other = if other = k then some a else l.lookup other := by
  by_cases hk : l.any (·.1 == k) = true
  · obtain ⟨p, hp, hpk⟩ := List.any_eq_true.1 hk
    have hsome : (l.lookup k).map (fun _ => a) = some a := by
      cases hl : l.lookup k with
      | none => exact absurd (beq_iff_eq.1 hpk).symm (by simpa using List.lookup_eq_none_iff.1 hl p hp)
      | some b => rfl
    rw [if_pos hk, lookup_replace, hsome]
  · have hnone : l.lookup k = none := by
      refine List.lookup_eq_none_iff.2 fun p hp => bne_iff_ne.2 fun he => hk ?_
      exact List.any_eq_true.2 ⟨p, hp, beq_iff_eq.2 he.symm⟩
    rw [if_neg hk, List.lookup_append, lookup_cons_eq]
    by_cases ho : other = k
    · simp [ho, hnone]
    · simp [ho]

/-- Names that are kept keep their values. -/
theorem lookup_filter [BEq κ] [LawfulBEq κ] [DecidableEq κ] (f : κ → Bool) (l : List (κ × α)) (k : κ) :
    (l.filter fun p => f p.1).lookup k = if f k then l.lookup k else none := by
  induction l with
  | nil => simp
  | cons p l ih =>
    rw [List.filter_cons, lookup_cons_eq]
    by_cases hp : f p.1 = true
    · rw [if_pos hp, lookup_cons_eq, ih]
      by_cases h : k = p.1
      · simp [h, hp]
      · simp [h]
    · rw [if_neg hp, ih]
      by_cases h : k = p.1
      · simp [h, hp]
      · simp [h]

theorem lookup_filter_ne (l : List (String × α)) (key k : String) :
    (l.filter (·.1 != key)).lookup k = if k = key then none else l.lookup k := by
  rw [lookup_filter (· != key)]
  by_cases h : k = key <;> simp [h]

/-- Where each name occurs once, what becomes of a name comes from what it leads to. -/
theorem lookup_filterMap [BEq κ] [LawfulBEq κ] [DecidableEq κ] {β : Type} (f : α → Option β)
    {l : List (κ × α)} (hl : (l.map (·.1)).Nodup) (k : κ) :
    (l.filterMap fun p => (f p.2).map (p.1, ·)).lookup k = (l.lookup k).bind f := by
  induction l with
  | nil => rfl
  | cons p l ih =>
    obtain ⟨hp, hrest⟩ := List.nodup_cons.1 hl
    have hnone : l.lookup p.1 = none := by
      refine List.lookup_eq_none_iff.2 fun p' hp' => bne_iff_ne.2 fun he => hp ?_
      exact List.mem_map.2 ⟨p', hp', he.symm⟩
    rw [List.filterMap_cons, lookup_cons_eq]
    cases hf : f p.2 with
    | none =>
      rw [Option.map_none, ih hrest]
      by_cases hk : k = p.1 <;> simp [hk, hnone, hf]
    | some b =>
      rw [Option.map_some, lookup_cons_eq, ih hrest]
      by_cases hk : k = p.1 <;> simp [hk, hf]

namespace NameMap

theorem get?_cons (k : String) (b : α) (rest : NameMap α) (name : String) :
    get? ((k, b) :: rest) name = if name = k then some b else get? rest name :=
  lookup_cons_eq (k, b) rest name

theorem get?_insert (m : NameMap α) (name other : String) (a : α) :
    get? (insert m name a) other = if other = name then some a else get? m other := by
  induction m with
  | nil => exact get?_cons name a [] other
  | cons p rest ih =>
    obtain ⟨k, b⟩ := p
    rw [insert]
    split
    · rw [get?_cons]
    · split
      · rename_i hk
        subst hk
        rw [get?_cons, get?_cons]
        by_cases h : other = name <;> simp [h]
      · rename_i hk
        rw [get?_cons, get?_cons, ih]
        by_cases h : other = name
        · rw [h, if_neg hk, if_pos rfl]
          exact (if_pos rfl).symm
        · simp [h]

theorem get?_erase (m : NameMap α) (name other : String) :
    get? (erase m name) other = if other = name then none else get? m other :=
  lookup_filter_ne m name other

theorem has_eq_true_iff {m : NameMap α} {name : String} :
    has m name = true ↔ ∃ a, get? m name = some a :=
  Option.isSome_iff_exists

theorem erase_of_has_eq_false {m : NameMap α} {name : String} (h : has m name = false) :
    erase m name = m := by
  have hnone : m.lookup name = none := Option.isSome_eq_false_iff.1 h |> Option.isNone_iff_eq_none.1
  refine List.filter_eq_self.2 fun p hp => ?_
  exact bne_iff_ne.2 fun he => by simpa [he] using List.lookup_eq_none_iff.1 hnone p hp

/-! ### Maps as lists in order -/

theorem mem_insert {m : NameMap α} {name : String} {a : α} {p : String × α}
    (h : p ∈ insert m name a) : p = (name, a) ∨ p ∈ m := by
  induction m with
  | nil => exact .inl (List.mem_singleton.1 h)
  | cons q rest ih =>
    rw [insert] at h
    split at h
    · exact List.mem_cons.1 h
    · split at h
      · exact (List.mem_cons.1 h).imp_right (List.mem_cons_of_mem _)
      · rcases List.mem_cons.1 h with rfl | h
        · exact .inr List.mem_cons_self
        · exact (ih h).imp_right (List.mem_cons_of_mem _)

theorem sorted_insert {m : NameMap α} (h : m.Sorted) (name : String) (a : α) :
    (insert m name a).Sorted := by
  induction m with
  | nil => exact List.pairwise_singleton _ _
  | cons q rest ih =>
    obtain ⟨k, b⟩ := q
    obtain ⟨hk, hrest⟩ := List.pairwise_cons.1 h
    rw [insert]
    split
    · rename_i hlt
      refine List.pairwise_cons.2 ⟨fun p hp => ?_, h⟩
      rcases List.mem_cons.1 hp with rfl | hp
      · exact hlt
      · exact String.lt_trans hlt (hk p hp)
    · rename_i hle
      split
      · rename_i he
        exact List.pairwise_cons.2 ⟨fun p hp => he ▸ hk p hp, hrest⟩
      · rename_i hne
        have hlt : k < name :=
          Std.lt_of_le_of_ne (String.not_lt.1 hle) (Ne.symm hne)
        refine List.pairwise_cons.2 ⟨fun p hp => ?_, ih hrest⟩
        rcases mem_insert hp with rfl | hp
        · exact hlt
        · exact hk p hp

/-- A name behind all others goes to the end. -/
theorem insert_of_forall_lt {m : NameMap α} {name : String} (h : ∀ p ∈ m, p.1 < name) (a : α) :
    insert m name a = m ++ [(name, a)] := by
  induction m with
  | nil => rfl
  | cons q rest ih =>
    have hq := h q List.mem_cons_self
    rw [insert, if_neg (String.not_lt.2 (Std.le_of_lt hq)), if_neg, List.cons_append,
      ih fun p hp => h p (List.mem_cons_of_mem _ hp)]
    rintro rfl
    exact String.lt_irrefl _ hq

/-- Going through a map in order and putting each pair into another map, all of whose names are
smaller, appends it. -/
theorem foldl_insert_of_sorted {m acc : NameMap α} (h : Sorted (acc ++ m)) :
    m.foldl (fun m p => insert m p.1 p.2) acc = acc ++ m := by
  induction m generalizing acc with
  | nil => rw [List.foldl_nil, List.append_nil]
  | cons p rest ih =>
    have hlast : insert acc p.1 p.2 = acc ++ [p] :=
      insert_of_forall_lt (fun q hq => (List.pairwise_append.1 h).2.2 q hq p List.mem_cons_self) p.2
    rw [List.append_cons] at h ⊢
    rw [List.foldl_cons, hlast]
    exact ih h

theorem ofList_of_sorted {m : NameMap α} (h : m.Sorted) : ofList m = m := foldl_insert_of_sorted h

theorem sorted_erase {m : NameMap α} (h : m.Sorted) (name : String) : (erase m name).Sorted :=
  h.sublist List.filter_sublist

theorem nodup_names {m : NameMap α} (h : m.Sorted) : (names m).Nodup :=
  List.pairwise_map.2 (h.imp fun hlt => Std.ne_of_lt hlt)

theorem mem_names_iff {m : NameMap α} {name : String} : name ∈ names m ↔ ∃ a, get? m name = some a := by
  induction m with
  | nil => simp [names, get?]
  | cons p rest ih =>
    obtain ⟨k, b⟩ := p
    rw [get?_cons]
    by_cases h : name = k
    · simp [names, h]
    · simpa [names, h] using ih

theorem get?_of_mem {m : NameMap α} (h : m.Sorted) {name : String} {a : α} (hm : (name, a) ∈ m) :
    get? m name = some a :=
  lookup_of_mem (nodup_names h) hm

/-- **Equal maps are equal lists**: two maps that answer alike are the same. -/
theorem eq_of_sorted {m m' : NameMap α} (hm : m.Sorted) (hm' : m'.Sorted)
    (h : ∀ name, get? m name = get? m' name) : m = m' := by
  have hmem (p : String × α) : p ∈ m ↔ p ∈ m' := by
    constructor
    · exact fun hp => mem_of_lookup ((h p.1).symm.trans (get?_of_mem hm hp))
    · exact fun hp => mem_of_lookup ((h p.1).trans (get?_of_mem hm' hp))
  have hnodup {m : NameMap α} (hm : m.Sorted) : List.Nodup m :=
    List.Pairwise.imp (fun hlt => mt (congrArg Prod.fst) (Std.ne_of_lt hlt)) hm
  exact ((List.perm_ext_iff_of_nodup (hnodup hm) (hnodup hm')).2 hmem).eq_of_pairwise
    (fun a b _ _ hab hba => absurd (String.lt_trans hab hba) (String.lt_irrefl _)) hm hm'

theorem sorted_ofList (pairs : List (String × α)) : (ofList pairs).Sorted := by
  have hfold (m : NameMap α) (hm : m.Sorted) :
      (pairs.foldl (fun m p => insert m p.1 p.2) m).Sorted := by
    induction pairs generalizing m with
    | nil => exact hm
    | cons p pairs ih => exact ih _ (sorted_insert hm p.1 p.2)
  exact hfold [] List.Pairwise.nil

theorem mem_of_mem_ofList {pairs : List (String × α)} {p : String × α} (h : p ∈ ofList pairs) :
    p ∈ pairs := by
  have hfold (pairs : List (String × α)) (m : NameMap α)
      (h : p ∈ pairs.foldl (fun m p => insert m p.1 p.2) m) : p ∈ pairs ∨ p ∈ m := by
    induction pairs generalizing m with
    | nil => exact .inr h
    | cons q pairs ih =>
      rcases ih _ h with hp | hp
      · exact .inl (List.mem_cons_of_mem _ hp)
      · rcases mem_insert hp with rfl | hp
        · exact .inl List.mem_cons_self
        · exact .inr hp
  exact (hfold pairs [] h).resolve_right List.not_mem_nil

/-- Of pairs of one name the last one counts. -/
theorem get?_ofList (pairs : List (String × α)) (name : String) :
    get? (ofList pairs) name = pairs.reverse.lookup name := by
  have hfold (m : NameMap α) : get? (pairs.foldl (fun m p => insert m p.1 p.2) m) name =
      (pairs.reverse.lookup name).or (get? m name) := by
    induction pairs generalizing m with
    | nil => rfl
    | cons p pairs ih =>
      rw [List.foldl_cons, ih, get?_insert, List.reverse_cons, List.lookup_append, lookup_cons_eq]
      by_cases h : name = p.1 <;> simp [h]
  have hnone : get? ([] : NameMap α) name = none := rfl
  rw [ofList, hfold, hnone, Option.or_none]

/-! ### Maps of values -/

variable {β : Type} (f : α → β)

/-- Each value of a map replaced. -/
def mapValues (m : NameMap α) : NameMap β := m.map fun p => (p.1, f p.2)

theorem names_mapValues (m : NameMap α) : names (mapValues f m) = names m := by
  rw [names, mapValues, List.map_map]
  rfl

theorem sorted_mapValues {m : NameMap α} (h : m.Sorted) : (mapValues f m).Sorted :=
  List.pairwise_map.2 h

theorem get?_mapValues (m : NameMap α) (name : String) :
    get? (mapValues f m) name = (get? m name).map f := by
  induction m with
  | nil => rfl
  | cons p rest ih =>
    obtain ⟨k, a⟩ := p
    have hcons : mapValues f ((k, a) :: rest) = (k, f a) :: mapValues f rest := rfl
    rw [hcons, get?_cons, get?_cons, ih]
    split <;> rfl

theorem mapValues_insert (m : NameMap α) (name : String) (a : α) :
    mapValues f (insert m name a) = insert (mapValues f m) name (f a) := by
  induction m with
  | nil => rfl
  | cons p rest ih =>
    obtain ⟨k, b⟩ := p
    have hcons : mapValues f ((k, b) :: rest) = (k, f b) :: mapValues f rest := rfl
    rw [hcons, insert, insert]
    split
    · rfl
    · split
      · rfl
      · rw [← ih]
        rfl

theorem mapValues_erase (m : NameMap α) (name : String) :
    mapValues f (erase m name) = erase (mapValues f m) name := by
  rw [mapValues, erase, erase, mapValues, List.filter_map]
  rfl

theorem has_mapValues (m : NameMap α) (name : String) : has (mapValues f m) name = has m name := by
  rw [has, has, get?_mapValues, Option.isSome_map]

end NameMap

namespace NameSet

theorem mem_insert_self (s : NameSet) (name : String) : name ∈ insert s name := by
  induction s with
  | nil => exact List.mem_cons_self
  | cons k rest ih =>
    rw [insert]
    split
    · exact List.mem_cons_self
    · split
      · simp_all
      · exact List.mem_cons_of_mem _ ih

theorem mem_insert {s : NameSet} {name other : String} (h : other ∈ insert s name) :
    other = name ∨ other ∈ s := by
  induction s with
  | nil => exact .inl (List.mem_singleton.1 h)
  | cons k rest ih =>
    rw [insert] at h
    split at h
    · exact List.mem_cons.1 h
    · split at h
      · exact .inr h
      · rcases List.mem_cons.1 h with rfl | h
        · exact .inr List.mem_cons_self
        · exact (ih h).imp_right (List.mem_cons_of_mem _)

theorem mem_insert_of_mem {s : NameSet} {other : String} (h : other ∈ s) (name : String) :
    other ∈ insert s name := by
  induction s with
  | nil => exact absurd h List.not_mem_nil
  | cons k rest ih =>
    rw [insert]
    split
    · exact List.mem_cons_of_mem _ h
    · split
      · exact h
      · rcases List.mem_cons.1 h with rfl | h
        · exact List.mem_cons_self
        · exact List.mem_cons_of_mem _ (ih h)

theorem mem_insert_iff {s : NameSet} {name other : String} :
    other ∈ insert s name ↔ other = name ∨ other ∈ s :=
  ⟨mem_insert, fun h => h.elim (fun he => he ▸ mem_insert_self s name) fun h =>
    mem_insert_of_mem h name⟩

theorem pairwise_insert {s : NameSet} (h : s.Pairwise (· < ·)) (name : String) :
    (insert s name).Pairwise (· < ·) := by
  induction s with
  | nil => exact List.pairwise_singleton _ _
  | cons k rest ih =>
    obtain ⟨hk, hrest⟩ := List.pairwise_cons.1 h
    rw [insert]
    split
    · rename_i hlt
      refine List.pairwise_cons.2 ⟨fun other ho => ?_, h⟩
      rcases List.mem_cons.1 ho with rfl | ho
      · exact hlt
      · exact String.lt_trans hlt (hk other ho)
    · rename_i hle
      split
      · exact h
      · rename_i hne
        refine List.pairwise_cons.2 ⟨fun other ho => ?_, ih hrest⟩
        rcases mem_insert ho with rfl | ho
        · exact Std.lt_of_le_of_ne (String.not_lt.1 hle) (Ne.symm hne)
        · exact hk other ho

/-- What holds of an empty set and stays so as names are added holds of the set of a list. -/
theorem foldl_insert_induction {P : NameSet → Prop} {names : List String} {s : NameSet} (hs : P s)
    (h : ∀ s, P s → ∀ name ∈ names, P (insert s name)) : P (names.foldl insert s) := by
  induction names generalizing s with
  | nil => exact hs
  | cons name rest ih =>
    exact ih (h s hs name List.mem_cons_self) fun s hs other ho =>
      h s hs other (List.mem_cons_of_mem _ ho)

theorem pairwise_ofList (names : List String) : (ofList names).Pairwise (· < ·) :=
  foldl_insert_induction (P := fun s => s.Pairwise (· < ·)) List.Pairwise.nil
    fun _ hs name _ => pairwise_insert hs name

theorem mem_of_mem_ofList {names : List String} {name : String} (h : name ∈ ofList names) :
    name ∈ names :=
  foldl_insert_induction (P := fun s => ∀ name ∈ s, name ∈ names)
    (fun _ ho => absurd ho List.not_mem_nil)
    (fun _ hs _ hother _ hname => (mem_insert hname).elim (· ▸ hother) (hs _)) name h

theorem mem_ofList_of_mem {names : List String} {name : String} (h : name ∈ names) :
    name ∈ ofList names := by
  have hfold (names : List String) (s : NameSet) (h : name ∈ names ∨ name ∈ s) :
      name ∈ names.foldl insert s := by
    induction names generalizing s with
    | nil => exact h.resolve_left List.not_mem_nil
    | cons other rest ih =>
      refine ih _ ?_
      rw [mem_insert_iff]
      rcases h with h | h
      · rcases List.mem_cons.1 h with rfl | h
        · exact .inr (.inl rfl)
        · exact .inl h
      · exact .inr (.inr h)
  exact hfold names [] (.inl h)

end NameSet

end Stencil
