import Stencil.Catalog.Stored
import Stencil.Proofs.Files.Replace
import Stencil.Proofs.Store.Reading
import Stencil.Proofs.Template.Bundle

/-!
# What outlives a restart

A catalog keeps its sets in a store in a file. Sets are uploaded and removed, writing the file may fail
at any step of it, and now and then everything starts anew from the file. A `Ledger` keeps beside this
what is held in memory, and what was when the file was last written. The catalog answers from the one,
and after a restart from the other (`answers_run`).

What carries this through a run is that the file, as far as it can be read, holds what the ledger says
is durable (`Agrees`): every write either gives it what is held, or leaves it as it was.
-/

namespace Stencil

/-- A catalog of a store in a file: the path of the file, the hashes that count as supported, and how
many compiled templates are kept. -/
structure Site where
  path : String
  known : KnownHashes
  limit : Nat

namespace Site

/-- The store and the workshop of the catalog. -/
abbrev State := Store.FileState × Workshop

/-- The catalog, where writing the file goes as an outage allows. -/
def sets (c : Site) (outage : Option Outage) : StoredSets State :=
  .ofStore (Store.fileIn outage c.path) c.known

/-- A new store and a new catalog. -/
def start (c : Site) (fs : Files) : State := ((none, fs), Workshop.empty c.limit)

/-- What is done with the catalog. -/
inductive Deed where
  | upload (b : Bundle) (outage : Option Outage)
  | remove (set : String) (outage : Option Outage)
  | read (set : String)
  | restart

def perform (c : Site) : Deed → Op State Unit
  | .upload b outage => (c.sets outage).upload b
  | .remove set outage => (c.sets outage).catalog.removeSet set
  | .read set => do let _ ← (c.sets none).catalog.setData set
  | .restart => modify fun s => c.start s.1.2

/-- The sets in memory, and the sets that were in memory when the file was last written. -/
structure Ledger where
  held : NameMap Bundle
  durable : NameMap Bundle

namespace Ledger

def empty : Ledger := ⟨[], []⟩

/-- The sets in memory have changed, and are written if all went well. -/
def write (l : Ledger) (held : NameMap Bundle) (succeeded : Bool) : Ledger :=
  ⟨held, if succeeded then held else l.durable⟩

/-- Takes down what was done, and whether it succeeded. Without a name nothing is changed. -/
def note (l : Ledger) (succeeded : Bool) : Deed → Ledger
  | .upload b _ => if b.name = "" then l else l.write (NameMap.insert l.held b.name b) succeeded
  | .remove set _ => if set = "" then l else l.write (NameMap.erase l.held set) succeeded
  | .read _ => l
  | .restart => ⟨l.durable, l.durable⟩

end Ledger

/-- One deed, noted in the ledger. -/
def step (c : Site) (x : State × Ledger) (d : Deed) : State × Ledger :=
  ((Op.result (c.perform d) x.1).2, x.2.note (Op.result (c.perform d) x.1).1.isOk d)

/-- Deeds one after another, from a new store and a new catalog. -/
def run (c : Site) (fs : Files) (deeds : List Deed) : State × Ledger :=
  deeds.foldl c.step (c.start fs, .empty)

/-- What is read as the set of a name. -/
def readFrom (m : NameMap Bundle) (set : String) : Except Fault Bundle :=
  if set = "" then .error (.problem (.missingArgument "key"))
  else
    match NameMap.get? m set with
    | some b => .ok b
    | none => .error (.problem (.setNotFound set))

/-- The store has the names of these sets as its keys, and the catalog reads these sets, as they are,
and no others. -/
def Answers (c : Site) (m : NameMap Bundle) (s : State) : Prop :=
  (Op.result (c.sets none).store.keys s).1 = .ok (NameMap.names m) ∧
    ∀ set, (Op.result ((c.sets none).catalog.setData set) s).1 = readFrom m set

variable {c : Site} {fs : Files} {s : State} {l : Ledger} {m : NameMap Bundle}

/-! ### Reading -/

/-- The values of sets. -/
def values (m : NameMap Bundle) : NameMap Json := NameMap.mapValues Bundle.toJson m

/-- The sets are in order, and so are their texts. -/
structure Ordered (m : NameMap Bundle) : Prop where
  names : m.Sorted
  texts : ∀ p ∈ m, p.2.Sorted

theorem result_keys (h : Store.itemsOf c.path s.1 = .ok (values m)) :
    (Op.result (c.sets none).store.keys s).1 = .ok (NameMap.names m) := by
  show (Op.result ((Store.file c.path).keys.zoom Lens.fst) s).1 = _
  rw [Op.result_zoom, show Lens.fst.get s = s.1 from rfl, Store.result_file_keys h, values,
    NameMap.names_mapValues]

theorem Ordered.sorted_of_get? (hm : Ordered m) {set : String} {b : Bundle}
    (h : NameMap.get? m set = some b) : b.Sorted := by
  obtain ⟨l₁, l₂, rfl, -⟩ := List.lookup_eq_some_iff.1 h
  exact hm.texts (set, b) (by simp)

theorem result_setData (hm : Ordered m) (h : Store.itemsOf c.path s.1 = .ok (values m)) (set : String) :
    Op.result ((c.sets none).catalog.setData set) s =
      (readFrom m set, if set = "" then s else ((some (values m), s.1.2), s.2)) := by
  show Op.result ((c.sets none).readSet set) s = _
  rw [readFrom]
  by_cases hset : set = ""
  · subst hset
    rfl
  · have hget : Op.result ((c.sets none).store.get set) s =
        (.ok ((NameMap.get? m set).map Bundle.toJson), (some (values m), s.1.2), s.2) := by
      rw [← NameMap.get?_mapValues]
      exact Op.result_zoom_fst (Store.result_file_get hset h) s.2
    rw [StoredSets.readSet, Op.result_bind_of_ok hget, if_neg hset, if_neg hset]
    rcases hb : NameMap.get? m set with _ | b
    · rfl
    · have hsorted := hm.sorted_of_get? hb
      simp only [Option.map_some, Bundle.ofJson_toJson set hsorted.templates hsorted.schemas]
      rfl

theorem answers_of_itemsOf (hm : Ordered m) (h : Store.itemsOf c.path s.1 = .ok (values m)) :
    c.Answers m s :=
  ⟨result_keys h, fun set => by rw [result_setData hm h set]⟩

/-! ### Writing -/

theorem ordered_nil : Ordered [] := ⟨List.Pairwise.nil, fun _ hp => absurd hp List.not_mem_nil⟩

theorem Ordered.insert (hm : Ordered m) {b : Bundle} (hb : b.Sorted) (set : String) :
    Ordered (NameMap.insert m set b) := by
  refine ⟨NameMap.sorted_insert hm.names set b, fun p hp => ?_⟩
  rcases NameMap.mem_insert hp with rfl | hp
  · exact hb
  · exact hm.texts p hp

theorem Ordered.erase (hm : Ordered m) (set : String) : Ordered (NameMap.erase m set) :=
  ⟨NameMap.sorted_erase hm.names set, fun p hp => hm.texts p (List.mem_of_mem_filter hp)⟩

/-- The values of sets are read as they were written. -/
theorem readItems_written (hm : Ordered m) (h : fs.readBytes c.path = .ok (Store.fileBytes (values m))) :
    Store.readItems fs c.path = .ok (values m) := by
  apply Store.readItems_fileBytes h (NameMap.sorted_mapValues _ hm.names)
  · intro p hp n hn
    obtain ⟨q, hq, rfl⟩ := List.mem_map.1 hp
    rw [Json.numbers_of_numberless q.2.toJson_plain.1] at hn
    cases hn
  · intro p hp
    obtain ⟨q, hq, rfl⟩ := List.mem_map.1 hp
    exact ⟨q.2.toJson_plain.2.trans (by decide), Bundle.merged_toJson (hm.texts q hq)⟩

/-- The memory and the file hold what the ledger says. -/
structure Agrees (c : Site) (s : State) (l : Ledger) : Prop where
  keepable : s.1.2.Keepable c.path
  readable : s.1.2.Readable c.path
  held : Store.itemsOf c.path s.1 = .ok (values l.held)
  durable : Store.readItems s.1.2 c.path = .ok (values l.durable)
  held_ordered : Ordered l.held
  durable_ordered : Ordered l.durable

/-- Writes the file, and then has everything compiled anew. -/
def writeBack (c : Site) (outage : Option Outage) : Op State Unit := do
  (c.sets outage).store.persist
  Op.change (c.sets outage).workshop Workshop.reload

theorem result_writeBack (c : Site) (outage : Option Outage) (items : NameMap Json) (fs : Files)
    (w : Workshop) : Op.result (c.writeBack outage) ((some items, fs), w) =
      match Op.result (Files.replaceIn outage c.path (Store.fileBytes items)) fs with
      | (.ok (), fs') => (.ok (), (some items, fs'), w.reload)
      | (.error e, fs') => (.error e, (some items, fs'), w) := by
  have hpersist := Store.result_fileIn_persist outage c.path items fs
  rcases hr : Op.result (Files.replaceIn outage c.path (Store.fileBytes items)) fs with ⟨e | u, fs'⟩ <;>
    rw [hr] at hpersist
  · exact Op.result_bind_of_error (Op.result_zoom_fst hpersist w)
  · exact Op.result_bind_of_ok (Op.result_zoom_fst hpersist w)

/-- A write makes durable what is in memory, if it succeeds. -/
theorem Agrees.writeBack (h : c.Agrees s l) (htmp : Path.extension? c.path ≠ some "tmp")
    (hm : Ordered m) (outage : Option Outage) {x : Except Fault Unit × State}
    (hx : Op.result (c.writeBack outage) ((some (values m), s.1.2), s.2) = x) :
    c.Agrees x.2 (l.write m x.1.isOk) := by
  have hleaves := Files.leaves_replaceIn h.keepable h.readable htmp outage (Store.fileBytes (values m))
  rw [result_writeBack] at hx
  rw [Op.Leaves] at hleaves
  rcases hr : Op.result (Files.replaceIn outage c.path (Store.fileBytes (values m))) s.1.2 with
    ⟨e | u, fs⟩ <;> rw [hr] at hleaves hx <;> obtain ⟨hk, hread⟩ := hleaves <;> obtain rfl := hx
  · refine ⟨hk, ?_, rfl, ?_, hm, h.durable_ordered⟩
    · rw [Files.Readable, hread]
      exact h.readable
    · exact (Store.readItems_congr hread).trans h.durable
  · exact ⟨hk, .inr ⟨_, hread⟩, rfl, readItems_written hm hread, hm, hm⟩

theorem result_upload {items : NameMap Json} {b : Bundle} (hname : b.name ≠ "")
    (h : Store.itemsOf c.path s.1 = .ok items) (outage : Option Outage) :
    Op.result (c.perform (.upload b outage)) s = Op.result (c.writeBack outage)
      ((some (NameMap.insert items b.name b.toJson), s.1.2), s.2) := by
  have hset : Op.result ((c.sets outage).store.set b.name b.toJson) s =
      (.ok ⟨⟩, (some (NameMap.insert items b.name b.toJson), s.1.2), s.2) :=
    Op.result_zoom_fst (Store.result_file_set hname b.toJson h) s.2
  show Op.result ((c.sets outage).upload b) s = _
  rw [StoredSets.upload, Op.result_bind_of_ok hset]
  rfl

/-! ### Runs -/

theorem Agrees.restart (h : c.Agrees s l) : c.Agrees (c.start s.1.2) ⟨l.durable, l.durable⟩ :=
  ⟨h.keepable, h.readable, h.durable, h.durable, h.durable_ordered, h.durable_ordered⟩

/-- The sets that are uploaded are in order. -/
def Deed.Admissible : Deed → Prop
  | .upload b _ => b.Sorted
  | _ => True

theorem Agrees.upload (h : c.Agrees s l) (htmp : Path.extension? c.path ≠ some "tmp") {b : Bundle}
    (hb : b.Sorted) (outage : Option Outage) :
    c.Agrees (c.step (s, l) (.upload b outage)).1 (c.step (s, l) (.upload b outage)).2 := by
  rw [Site.step, Ledger.note]
  by_cases hname : b.name = ""
  · have hfail : Op.result (c.perform (.upload b outage)) s =
        (.error (.problem (.missingArgument "key")), s) := by
      show Op.result ((c.sets outage).upload b) s = _
      rw [StoredSets.upload, Op.result_bind_of_error]
      show Op.result (((Store.file c.path).set b.name b.toJson).zoom Lens.fst) s = _
      rw [hname]
      rfl
    rw [if_pos hname, hfail]
    exact h
  · have hwrite := result_upload hname h.held outage
    rw [values, ← NameMap.mapValues_insert] at hwrite
    rw [if_neg hname]
    exact h.writeBack htmp (h.held_ordered.insert hb b.name) outage hwrite.symm

theorem Agrees.remove (h : c.Agrees s l) (htmp : Path.extension? c.path ≠ some "tmp") (set : String)
    (outage : Option Outage) :
    c.Agrees (c.step (s, l) (.remove set outage)).1 (c.step (s, l) (.remove set outage)).2 := by
  have hm := h.held_ordered.erase set
  rw [Site.step, Ledger.note]
  by_cases hname : set = ""
  · have hfail : Op.result (c.perform (.remove set outage)) s =
        (.error (.problem (.missingArgument "key")), s) := by
      subst hname
      rfl
    rw [if_pos hname, hfail]
    exact h
  · have hdelete : Op.result ((c.sets outage).store.delete set) s =
        (.ok (NameMap.has l.held set), (some (values (NameMap.erase l.held set)), s.1.2), s.2) := by
      rw [values, NameMap.mapValues_erase, ← NameMap.has_mapValues Bundle.toJson]
      exact Op.result_zoom_fst (Store.result_file_delete hname h.held) s.2
    have hperform : Op.result (c.perform (.remove set outage)) s =
        Op.result (if NameMap.has l.held set = true then c.writeBack outage
          else Op.fail (.setNotFound set))
          ((some (values (NameMap.erase l.held set)), s.1.2), s.2) := by
      show Op.result ((c.sets outage).remove set) s = _
      rw [StoredSets.remove, Op.result_bind_of_ok hdelete]
      rfl
    rw [if_neg hname]
    by_cases hhas : NameMap.has l.held set = true
    · rw [if_pos hhas] at hperform
      exact h.writeBack htmp hm outage hperform.symm
    · rw [if_neg hhas] at hperform
      rw [hperform]
      exact ⟨h.keepable, h.readable, rfl, h.durable, hm, h.durable_ordered⟩

theorem Agrees.read (h : c.Agrees s l) (set : String) :
    c.Agrees (c.step (s, l) (.read set)).1 (c.step (s, l) (.read set)).2 := by
  have hstate : (Op.result (c.perform (.read set)) s).2 =
      if set = "" then s else ((some (values l.held), s.1.2), s.2) := by
    have hres := result_setData h.held_ordered h.held set
    show (Op.result (((c.sets none).catalog.setData set) >>= fun _ => pure ()) s).2 = _
    rcases hread : readFrom l.held set with e | b <;> rw [hread] at hres
    · rw [Op.result_bind_of_error hres]
    · rw [Op.result_bind_of_ok hres]
      rfl
  rw [Site.step, Ledger.note, hstate]
  split
  · exact h
  · exact ⟨h.keepable, h.readable, rfl, h.durable, h.held_ordered, h.durable_ordered⟩

theorem Agrees.step (h : c.Agrees s l) (htmp : Path.extension? c.path ≠ some "tmp") {d : Deed}
    (hd : d.Admissible) : c.Agrees (c.step (s, l) d).1 (c.step (s, l) d).2 := by
  cases d with
  | upload b outage => exact h.upload htmp hd outage
  | remove set outage => exact h.remove htmp set outage
  | read set => exact h.read set
  | restart => exact h.restart

theorem Agrees.run (h : c.Agrees s l) (htmp : Path.extension? c.path ≠ some "tmp") {deeds : List Deed}
    (hd : ∀ d ∈ deeds, d.Admissible) :
    c.Agrees (deeds.foldl c.step (s, l)).1 (deeds.foldl c.step (s, l)).2 := by
  induction deeds generalizing s l with
  | nil => exact h
  | cons d deeds ih =>
    exact ih (h.step htmp (hd d List.mem_cons_self)) fun e he => hd e (List.mem_cons_of_mem _ he)

/-- A new store without a file holds nothing. -/
theorem agrees_start (hk : fs.Keepable c.path) (hm : fs.readBytes c.path = .error .missing) :
    c.Agrees (c.start fs) .empty :=
  have hitems := Store.readItems_of_missing hm
  ⟨hk, .inl hm, hitems, hitems, ordered_nil, ordered_nil⟩

/-- **What was written outlives a restart, and nothing else does.** Sets are uploaded, removed and read,
and everything starts anew from the file, in whatever order; writing the file fails wherever an outage
says. At first there is no file; the path is one under which a file can be kept, and its extension is not
the one of the file that is written first. Then the catalog answers from the sets in memory; and after
one more restart it answers from the sets that were in memory when the file was last written, each as it
was uploaded. -/
theorem answers_run (hk : fs.Keepable c.path) (htmp : Path.extension? c.path ≠ some "tmp")
    (hm : fs.readBytes c.path = .error .missing) {deeds : List Deed}
    (hd : ∀ d ∈ deeds, d.Admissible) {s : State} {l : Ledger} (hrun : c.run fs deeds = (s, l)) :
    c.Answers l.held s ∧ c.Answers l.durable (c.start s.1.2) := by
  have h := (agrees_start hk hm).run htmp hd
  rw [show deeds.foldl c.step (c.start fs, Ledger.empty) = (s, l) from hrun] at h
  exact ⟨answers_of_itemsOf h.held_ordered h.held,
    answers_of_itemsOf h.durable_ordered h.restart.held⟩

/-- One set that is written, and another one whose write fails. -/
theorem answers_run_failed_write :
    Files.empty.Keepable "d/s.json" ∧ Path.extension? "d/s.json" ≠ some "tmp" ∧
      Files.empty.readBytes "d/s.json" = .error .missing ∧
      ∃ s l, (⟨"d/s.json", .empty, 1⟩ : Site).run Files.empty
          [.upload ⟨"a", "h", [("t", "x\n")], []⟩ none,
            .upload ⟨"b", "h", [], []⟩ (some ⟨.write 3, .other "No space left on device"⟩)] = (s, l) ∧
        l.held = [("a", ⟨"a", "h", [("t", "x\n")], []⟩), ("b", ⟨"b", "h", [], []⟩)] ∧
        l.durable = [("a", ⟨"a", "h", [("t", "x\n")], []⟩)] ∧
        (⟨"d/s.json", .empty, 1⟩ : Site).Answers l.held s ∧
        (⟨"d/s.json", .empty, 1⟩ : Site).Answers l.durable
          ((⟨"d/s.json", .empty, 1⟩ : Site).start s.1.2) := by
  have hg : Files.empty.Grounded := Files.grounded_of_forall fun x hx => absurd hx List.not_mem_nil
  have hk : Files.empty.Keepable "d/s.json" :=
    Files.keepable_of_not_mem hg (by decide +kernel) (by decide +kernel)
  have htmp : Path.extension? "d/s.json" ≠ some "tmp" := by decide +kernel
  have hm : Files.empty.readBytes "d/s.json" = .error .missing := by decide +kernel
  obtain ⟨deeds, hdeeds⟩ : ∃ deeds : List Deed, deeds =
      [.upload ⟨"a", "h", [("t", "x\n")], []⟩ none,
        .upload ⟨"b", "h", [], []⟩ (some ⟨.write 3, .other "No space left on device"⟩)] := ⟨_, rfl⟩
  have hd : ∀ d ∈ deeds, d.Admissible := by
    rw [hdeeds]
    rintro d (_ | ⟨_, _ | ⟨_, ⟨⟩⟩⟩)
    · exact ⟨List.pairwise_singleton _ _, List.Pairwise.nil⟩
    · exact ⟨List.Pairwise.nil, List.Pairwise.nil⟩
  obtain ⟨⟨s, l⟩, hrun⟩ :
      ∃ x, (⟨"d/s.json", .empty, 1⟩ : Site).run Files.empty deeds = x := ⟨_, rfl⟩
  have hanswers := answers_run (c := ⟨"d/s.json", .empty, 1⟩) hk htmp hm hd hrun
  have hl : l.held = [("a", ⟨"a", "h", [("t", "x\n")], []⟩), ("b", ⟨"b", "h", [], []⟩)] ∧
      l.durable = [("a", ⟨"a", "h", [("t", "x\n")], []⟩)] := by
    rw [show l = ((⟨"d/s.json", .empty, 1⟩ : Site).run Files.empty deeds).2 by rw [hrun], hdeeds]
    decide +kernel
  rw [← hdeeds]
  exact ⟨hk, htmp, hm, s, l, hrun, hl.1, hl.2, hanswers⟩

/-! ### Paths under which no file can be kept -/

/-- There is no file at first, and the path does not have the extension of the file that is written
first; yet nothing was ever written, and the store does not answer that it is empty. -/
def Loses (c : Site) (fs : Files) : Prop :=
  fs.Grounded ∧ Path.extension? c.path ≠ some "tmp" ∧ fs.readBytes c.path = .error .missing ∧
    ∃ deeds : List Deed, (∀ d ∈ deeds, d.Admissible) ∧ (c.run fs deeds).2.durable = [] ∧
      ¬ c.Answers [] (c.start (c.run fs deeds).1.1.2)

/-- The set of one text. -/
def smallSet : Bundle := ⟨"s", "h", [("t", "x")], []⟩

/-- A path lets a catalog down if it leads somewhere else once the directories above the file are made,
or nowhere that the system would go. -/
theorem loses_of_parent {e : IoFault} (hg : fs.Grounded) (htmp : Path.extension? c.path ≠ some "tmp")
    (hm : fs.readBytes c.path = .error .missing) {x : Except Fault Unit × Files}
    (hx : Op.result (Files.ensureParentIn (some ⟨.create, .denied⟩) c.path) fs = x)
    (hok : x.1 = .ok ()) (he : x.2.readBytes c.path = .error e) (hne : e.isMissing = false) :
    c.Loses fs := by
  obtain ⟨r, fs₁⟩ := x
  obtain rfl : r = .ok () := hok
  have hreplace (bytes : List UInt8) : ∃ e,
      Op.result (Files.replaceIn (some ⟨.create, .denied⟩) c.path bytes) fs = (.error e, fs₁) := by
    unfold Files.replaceIn
    rw [Op.result_bind_of_ok hx]
    exact ⟨_, rfl⟩
  obtain ⟨e', hreplace⟩ := hreplace (Store.fileBytes [("s", smallSet.toJson)])
  have hrun : c.run fs [.upload smallSet (some ⟨.create, .denied⟩)] =
      (((some [("s", smallSet.toJson)], fs₁), Workshop.empty c.limit), ⟨[("s", smallSet)], []⟩) := by
    have hupload := result_upload (s := c.start fs) (b := smallSet) (by decide)
      (Store.readItems_of_missing hm) (some ⟨.create, .denied⟩)
    have hwrite := result_writeBack c (some ⟨.create, .denied⟩) [("s", smallSet.toJson)] fs
      (Workshop.empty c.limit)
    rw [hreplace] at hwrite
    show c.step (c.start fs, Ledger.empty) _ = _
    rw [step, hupload.trans hwrite]
    rfl
  have hitems : Store.itemsOf c.path (c.start fs₁).1 =
      .error (.context ("Failed to read store file: " ++ c.path) (.io e)) := by
    show Store.readItems fs₁ c.path = _
    simp only [Store.readItems, Files.readText, he, hne]
    rfl
  have hsorted : (Deed.upload smallSet (some ⟨.create, .denied⟩)).Admissible :=
    ⟨List.pairwise_singleton _ _, List.Pairwise.nil⟩
  refine ⟨hg, htmp, hm, _, List.forall_mem_singleton.2 hsorted, congrArg (·.2.durable) hrun,
    fun hanswers => ?_⟩
  have hkeys := Op.result_zoom_fst (Store.result_file_keys_of_error hitems) (Workshop.empty c.limit)
  have hkeys' := hanswers.1
  rw [hrun, show Op.result (c.sets none).store.keys (c.start fs₁) = _ from hkeys] at hkeys'
  cases hkeys'

/-- The system does not go to a name that is too long, once the directory before it is there. -/
theorem loses_overlong {n : String} (hn : ∀ d ∈ n.toList, d = 'y') (hl : 255 < n.utf8ByteSize)
    (hs : n.utf8ByteSize < 4000) : (⟨Path.join "x" n, .empty, 1⟩ : Site).Loses Files.empty := by
  have hne : n ≠ "" := by
    rintro rfl
    exact absurd hl (by decide)
  have hslash : '/' ∉ n.toList := fun h => absurd (hn _ h) (by decide)
  have hnull : '\x00' ∉ n.toList := fun h => absurd (hn _ h) (by decide)
  have hlist : (Path.join "x" n).toList = ['x'] ++ '/' :: n.toList := by
    rcases Path.join_cases (d := "x") (by decide) hslash with ⟨l, hl, -⟩ | hj
    · exact absurd (congrArg List.getLast? hl) (by simp)
    · exact hj
  have htmp : Path.extension? (Path.join "x" n) ≠ some "tmp" := by
    rw [Path.extension?_of_not_mem]
    · exact nofun
    · rw [hlist]
      rintro (_ | ⟨_, _ | ⟨_, hdot⟩⟩)
      exact absurd (hn _ hdot) (by decide)
  have hparent : Path.parent? (Path.join "x" n) = some "x" := by
    have hcut := Path.cutLast_eq hlist hslash (by simpa using hne) fun hdot =>
      absurd (hn '.' (by simp [hdot])) (by decide)
    obtain ⟨d, rest, hlist'⟩ := List.exists_cons_of_ne_nil (show n.toList ≠ [] by simpa using hne)
    have hroot : (if (Path.dropEnd (['x'] ++ ['/']).reverse).reverse.isEmpty &&
        !(['x'] ++ ['/']).isEmpty then "/"
        else String.ofList (Path.dropEnd (['x'] ++ ['/']).reverse).reverse) = "x" := by decide +kernel
    rw [Path.parent?, hcut, hlist']
    exact congrArg some hroot
  have hplace (fs : Files) (hp : fs.placeOf "x" = .ok ["work", "x"]) :
      fs.placeOf (Path.join "x" n) = fs.walk ["work", "x"] [n] := by
    refine Files.placeOf_join_eq_walk hp hne hslash hnull ?_
    have hjoin := Path.utf8ByteSize_join_le "x" n
    rw [show ("x" : String).utf8ByteSize = 1 from rfl] at hjoin
    omega
  have hm : Files.empty.readBytes (Path.join "x" n) = .error .missing :=
    Files.readBytes_eq_missing_iff.2 (.inl ((hplace _ (by decide +kernel)).trans rfl))
  obtain ⟨x, hx⟩ : ∃ x,
      Op.result (Files.ensureDirectoryIn (some ⟨.create, .denied⟩) "x") Files.empty = x := ⟨_, rfl⟩
  have hparentIn : Op.result (Files.ensureParentIn (some ⟨.create, .denied⟩) (Path.join "x" n))
      Files.empty = x := by
    rw [Files.ensureParentIn, hparent]
    exact hx
  have hmade : x.2.placeOf "x" = .ok ["work", "x"] ∧ x.2.at? ["work", "x"] = some .directory := by
    subst hx
    decide +kernel
  have hread : x.2.readBytes (Path.join "x" n) = .error .nameTooLong := by
    rw [Files.readBytes, Files.lookup, Files.resolve, hplace _ hmade.1, Files.walk_overlong hmade.2 hl]
  exact loses_of_parent (Files.grounded_of_forall fun x hx => absurd hx List.not_mem_nil) htmp hm
    hparentIn (by subst hx; decide +kernel) hread rfl

/-- A path that goes up from a directory that is not there, and one with a name that is too long for the
system. -/
theorem loses_up_and_overlong :
    (⟨"x/..", .empty, 1⟩ : Site).Loses Files.empty ∧
      (⟨Path.join "x" (String.ofList (List.replicate 256 'y')), .empty, 1⟩ : Site).Loses Files.empty := by
  constructor
  · exact loses_of_parent (e := .isDirectory)
      (Files.grounded_of_forall fun x hx => absurd hx List.not_mem_nil) (by decide +kernel)
      (by decide +kernel) rfl (by decide +kernel) (by decide +kernel) rfl
  · have hsize : (String.ofList (List.replicate 256 'y')).utf8ByteSize = 256 := by decide +kernel
    refine loses_overlong (fun d hd => ?_) (by rw [hsize]; decide) (by rw [hsize]; decide)
    rw [String.toList_ofList] at hd
    exact List.eq_of_mem_replicate hd

end Site

end Stencil
