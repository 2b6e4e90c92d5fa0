import Stencil.Proofs.Json.Integers

/-!
# Indented text read back

The indented text of a value spells the value (`reads_prettyAt`), whatever characters its strings and
names hold, if its numbers read back. So a value without equal names is what its indented text stands
for (`ofText_pretty`, `parseObject_pretty`), unless it is nested too deep: then it is written all the
same, and not read (`parseObject_pretty_of_deep`).
-/

namespace Stencil

namespace Json

mutual

/-- There is no number in the value. -/
def Numberless : Json → Prop
  | .num _ => False
  | .arr items => NumberlessItems items
  | .obj ms => NumberlessMembers ms
  | _ => True

/-- There is no number in the items. -/
def NumberlessItems : List Json → Prop
  | [] => True
  | j :: js => Numberless j ∧ NumberlessItems js

/-- There is no number in the values of the members. -/
def NumberlessMembers : List (String × Json) → Prop
  | [] => True
  | (_, j) :: ms => Numberless j ∧ NumberlessMembers ms

end

theorem numberlessMembers_of_forall {ms : Members} (h : ∀ m ∈ ms, m.2.Numberless) :
    NumberlessMembers ms := by
  induction ms with
  | nil => trivial
  | cons m ms ih =>
    exact ⟨h m List.mem_cons_self, ih fun n hn => h n (List.mem_cons_of_mem _ hn)⟩

mutual

theorem numbers_of_numberless : ∀ {v : Json}, v.Numberless → v.numbers = []
  | .null, _ | .bool _, _ | .str _, _ => rfl
  | .num _, h => h.elim
  | .arr items, h => by
    have hitems : NumberlessItems items := h
    rw [numbers, numbersItems_of_numberless hitems]
  | .obj ms, h => by
    have hmembers : NumberlessMembers ms := h
    rw [numbers, numbersMembers_of_numberless hmembers]

theorem numbersItems_of_numberless : ∀ {vs : List Json}, NumberlessItems vs → numbersItems vs = []
  | [], _ => rfl
  | j :: js, h => by
    rw [numbersItems, numbers_of_numberless h.1, numbersItems_of_numberless h.2]
    rfl

theorem numbersMembers_of_numberless : ∀ {ms : Members}, NumberlessMembers ms → numbersMembers ms = []
  | [], _ => rfl
  | (k, j) :: ms, h => by
    rw [numbersMembers, numbers_of_numberless h.1, numbersMembers_of_numberless h.2]
    rfl

end

theorem depthMembers_le_of_forall {ms : Members} {n : Nat} (h : ∀ m ∈ ms, m.2.depth ≤ n) :
    depthMembers ms ≤ n := by
  induction ms with
  | nil => exact Nat.zero_le n
  | cons m ms ih =>
    exact Nat.max_le.2 ⟨h m List.mem_cons_self, ih fun k hk => h k (List.mem_cons_of_mem _ hk)⟩

theorem depth_le_depthMembers {ms : Members} {m : String × Json} (h : m ∈ ms) :
    m.2.depth ≤ depthMembers ms := by
  induction ms with
  | nil => cases h
  | cons p ms ih =>
    rw [depthMembers]
    rcases List.mem_cons.1 h with rfl | h
    · exact Nat.le_max_left _ _
    · exact Nat.le_trans (ih h) (Nat.le_max_right _ _)

end Json

namespace Read

open Json

/-! ### Blanks -/

theorem skipSpace_newLine (level : Nat) (s : List Char) :
    skipSpace (newLine level ++ s) = skipSpace s := by
  refine List.dropWhile_append_of_pos fun c hc => ?_
  rcases List.mem_cons.1 hc with rfl | hc
  · decide
  · rw [List.eq_of_mem_replicate hc]
    decide

theorem skipSpace_prettyAt (level : Nat) (v : Json) (t : List Char) :
    skipSpace (prettyAt level v ++ t) = prettyAt level v ++ t := by
  cases v with
  | arr items => cases items <;> rw [prettyAt, List.cons_append, skipSpace_cons (by decide)]
  | obj ms =>
    rcases ms with _ | ⟨⟨k, j⟩, ms⟩ <;> rw [prettyAt, List.cons_append, skipSpace_cons (by decide)]
  | null | bool | num | str =>
    rw [prettyAt]
    · exact skipSpace_print _ t
    all_goals exact nofun

/-! ### Values -/

theorem reads_str (s : String) (t : List Char) : Reads (.value (.str s)) (quote s ++ t) t := by
  have h := Reads.string (spells_quote s.toList t)
  rw [String.ofList_toList] at h
  rwa [quote, List.cons_append, List.append_assoc]

/-- A member with a blank behind the colon. -/
theorem reads_member (k : String) {j : Json} {s r : List Char} (hs : skipSpace s = s)
    (h : Reads (.value j) s r) : Reads (.member (k, j)) (quote k ++ ':' :: ' ' :: s) r := by
  have hcolon : skipSpace (':' :: ' ' :: s) = ':' :: ' ' :: s := skipSpace_cons (by decide) _
  have hblank : skipSpace (' ' :: s) = s := hs
  have hm := Reads.member (spells_quote k.toList (':' :: ' ' :: s)) hcolon (by rwa [hblank])
  rw [String.ofList_toList] at hm
  rwa [quote, List.cons_append, List.append_assoc]

/-- Behind a value, no number goes on. -/
theorem stops_prettyItems (level : Nat) (vs : List Json) (t : List Char) :
    Stops (prettyItems level vs ++ (newLine level ++ ']' :: t)) := by
  cases vs <;> rintro c ⟨rfl⟩ <;> decide

theorem stops_prettyMembers (level : Nat) (ms : Members) (t : List Char) :
    Stops (prettyMembers level ms ++ (newLine level ++ '}' :: t)) := by
  cases ms <;> rintro c ⟨rfl⟩ <;> decide

mutual

/-- **The indented text of a value spells it**, whatever stands behind the text where no number goes
on. -/
theorem reads_prettyAt : ∀ (v : Json) (level : Nat) (t : List Char),
    (∀ n ∈ v.numbers, n.ReadsBack) → Stops t → Reads (.value v) (prettyAt level v ++ t) t
  | .null, _, t, _, _ => .null t
  | .bool true, _, t, _, _ => .yes t
  | .bool false, _, t, _, _ => .no t
  | .num n, _, _, h, ht => reads_num (h n List.mem_cons_self) ht
  | .str s, _, t, _, _ => reads_str s t
  | .arr [], _, t, _, _ => .emptyArray (skipSpace_cons (by decide) t)
  | .arr (j :: js), level, t, h, _ => by
    obtain ⟨hfirst, hrest⟩ := List.forall_mem_append.1 h
    have hj := reads_prettyAt j (level + 1) _ hfirst (stops_prettyItems level js t)
    have hjs := reads_prettyItems js level t hrest
    rw [prettyAt, List.cons_append]
    refine .array ?_ hjs
    simpa [skipSpace_newLine, skipSpace_prettyAt] using hj
  | .obj [], _, t, _, _ => .emptyObject (skipSpace_cons (by decide) t)
  | .obj ((k, j) :: ms), level, t, h, _ => by
    obtain ⟨hfirst, hrest⟩ := List.forall_mem_append.1 h
    have hj := reads_prettyAt j (level + 1) _ hfirst (stops_prettyMembers level ms t)
    have hms := reads_prettyMembers ms level t hrest
    have hm := reads_member k (skipSpace_prettyAt ..) hj
    rw [prettyAt, List.cons_append]
    refine .object ?_ hms
    simpa [skipSpace_newLine, skipSpace_quote] using hm

theorem reads_prettyItems : ∀ (vs : List Json) (level : Nat) (t : List Char),
    (∀ n ∈ numbersItems vs, n.ReadsBack) →
      Reads (.items vs) (prettyItems level vs ++ (newLine level ++ ']' :: t)) t
  | [], level, t, _ => .lastItem ((skipSpace_newLine level _).trans (skipSpace_cons (by decide) t))
  | j :: js, level, t, h => by
    obtain ⟨hfirst, hrest⟩ := List.forall_mem_append.1 h
    have hj := reads_prettyAt j (level + 1) _ hfirst (stops_prettyItems level js t)
    have hjs := reads_prettyItems js level t hrest
    rw [prettyItems, List.cons_append]
    refine .nextItem (skipSpace_cons (by decide) _) ?_ hjs
    simpa [skipSpace_newLine, skipSpace_prettyAt] using hj

theorem reads_prettyMembers : ∀ (ms : Members) (level : Nat) (t : List Char),
    (∀ n ∈ numbersMembers ms, n.ReadsBack) →
      Reads (.members ms) (prettyMembers level ms ++ (newLine level ++ '}' :: t)) t
  | [], level, t, _ => .lastMember ((skipSpace_newLine level _).trans (skipSpace_cons (by decide) t))
  | (k, j) :: ms, level, t, h => by
    obtain ⟨hfirst, hrest⟩ := List.forall_mem_append.1 h
    have hj := reads_prettyAt j (level + 1) _ hfirst (stops_prettyMembers level ms t)
    have hms := reads_prettyMembers ms level t hrest
    have hm := reads_member k (skipSpace_prettyAt ..) hj
    rw [prettyMembers, List.cons_append]
    refine .nextMember (skipSpace_cons (by decide) _) ?_ hms
    simpa [skipSpace_newLine, skipSpace_quote] using hm

end

/-! ### Whole texts -/

theorem reads_pretty {v : Json} (hn : ∀ n ∈ v.numbers, n.ReadsBack) :
    Reads (.value v) (skipSpace v.pretty.toList) [] := by
  have hreads := reads_prettyAt v 0 [] hn ends_nil.stops
  have hskip := skipSpace_prettyAt 0 v []
  rw [List.append_nil] at hreads hskip
  rw [pretty, String.toList_ofList, hskip]
  exact hreads

/-- A value is what its indented text stands for, if no name occurs twice in one of its objects. -/
theorem ofText_pretty {v : Json} (hn : ∀ n ∈ v.numbers, n.ReadsBack) (hd : v.depth ≤ depthLimit)
    (hm : v.merged = v) : Json.ofText v.pretty = .ok v := by
  have hraw : Json.readRaw v.pretty.toList = .ok v := readRaw_of_reads (reads_pretty hn) rfl hd
  rw [Json.ofText, Json.parse, hraw]
  show Except.ok v.merged = _
  rw [hm]

theorem prettyAt_obj (level : Nat) (ms : Members) : ∃ s, prettyAt level (.obj ms) = '{' :: s := by
  rcases ms with _ | ⟨⟨k, j⟩, ms⟩
  · exact ⟨_, by rw [prettyAt]⟩
  · exact ⟨_, by rw [prettyAt]⟩

/-- **An object is what its indented text stands for**, if no name occurs twice in it. -/
theorem parseObject_pretty {ms : Members} (hn : ∀ n ∈ numbersMembers ms, n.ReadsBack)
    (hd : (Json.obj ms).depth ≤ depthLimit) (hm : (Json.obj ms).merged = .obj ms) :
    Json.parseObject (Json.obj ms).pretty.toList = .ok ms := by
  have hreads := reads_pretty (v := .obj ms) hn
  rw [pretty, String.toList_ofList] at hreads ⊢
  obtain ⟨s, hs⟩ := prettyAt_obj 0 ms
  rw [hs, skipSpace_cons (by decide)] at hreads
  have hvalue := value_of_reads hreads (Nat.lt_succ_self _) hd
  have hobject : onlyObject (('{' :: s).length + 1) ('{' :: s) = .ok (ms, []) := by
    rw [depthLimit, value] at hvalue
    simp only [Char.reduceEq, if_false, show ('{').isDigit = false from rfl, Bool.false_eq_true,
      if_true] at hvalue
    obtain ⟨⟨ms', r⟩, hres, heq⟩ := map_eq_ok hvalue
    obtain ⟨hobj, rfl⟩ := Prod.mk.inj heq
    obtain rfl := Json.obj.inj hobj
    rw [onlyObject]
    exact hres
  have hmerged : Members.insertAll [] (mergedMembers ms) = ms := Json.obj.inj hm
  rw [hs, parseObject, whole, skipSpace_cons (by decide), hobject]
  show Except.ok (Members.insertAll [] (mergedMembers ms)) = _
  rw [hmerged]

/-- **An object that is nested too deep is not read again from its text.** -/
theorem parseObject_pretty_of_deep {ms : Members} (hn : ∀ n ∈ numbersMembers ms, n.ReadsBack)
    (hd : depthLimit < (Json.obj ms).depth) :
    ∃ e, Json.parseObject (Json.obj ms).pretty.toList = .error e := by
  rcases hparse : Json.parseObject (Json.obj ms).pretty.toList with e | read
  · exact ⟨e, rfl⟩
  · -- what is read is the object, and no more than the limit deep
    obtain ⟨raw, r, hraw, hdepth⟩ := reads_of_parseObject hparse
    obtain ⟨hobj, -⟩ := reads_value_unique (reads_pretty (v := .obj ms) hn) hraw
    rw [hobj] at hd
    omega

end Read

end Stencil
