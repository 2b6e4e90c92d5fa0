import Stencil.Proofs.Json.Pretty
import Stencil.Proofs.Op
import Stencil.Proofs.Text.Ascii
import Stencil.Store.Outage

/-!
# What stores read

What a store reads hangs on a view of its state (`Store.ReadsFrom`): on the values, for a store in
memory; for a store in a file, on the values that it has read, or on what is in the file until then.
-/

namespace Stencil.Store

/-- What a store reads hangs on a view of its state, and reading leaves the view as it is. Nothing is
said of writes. -/
structure ReadsFrom {σ ν : Type} (st : Store σ) (view : σ → ν) : Prop where
  keys : st.keys.Looks view fun _ => ()
  get : ∀ key, (st.get key).Looks view fun _ => ()

/-! ### In memory -/

theorem readsFrom_memory : memory.ReadsFrom id where
  keys := Op.looks_get.bind fun _ => Op.looks_pure _
  get key := (Op.looks_requireKey "key" key).bind fun _ => Op.looks_get.bind fun _ => Op.looks_pure _

theorem result_memory_set {key : String} (hk : key ≠ "") (value : Json) (m : NameMap Json) :
    Op.result (memory.set key value) m = (.ok ⟨⟩, NameMap.insert m key value) := by
  simp only [memory]
  rw [Op.result_bind_of_ok (Op.result_requireKey "key" hk m)]
  rfl

theorem result_memory_delete {key : String} (hk : key ≠ "") (m : NameMap Json) :
    Op.result (memory.delete key) m = (.ok (NameMap.has m key), NameMap.erase m key) := by
  simp only [memory]
  rw [Op.result_bind_of_ok (Op.result_requireKey "key" hk m)]
  rfl

/-! ### In a file -/

/-- The values of a store in a file, or the failure to read them. -/
def itemsOf (path : String) (s : FileState) : Except Fault (NameMap Json) :=
  match s.1 with
  | some m => .ok m
  | none => readItems s.2 path

theorem result_loaded_of_ok {path : String} {s : FileState} {m : NameMap Json}
    (h : itemsOf path s = .ok m) : Op.result (loaded path) s = (.ok m, some m, s.2) := by
  obtain ⟨items, fs⟩ := s
  rw [loaded, Op.result_bind_of_ok (Op.result_get _)]
  cases items with
  | some m' =>
    obtain rfl : m' = m := Except.ok.inj h
    rfl
  | none =>
    simp only [show readItems fs path = .ok m from h]
    rfl

theorem result_loaded_of_error {path : String} {s : FileState} {e : Fault}
    (h : itemsOf path s = .error e) : Op.result (loaded path) s = (.error e, s) := by
  obtain ⟨items, fs⟩ := s
  rw [loaded, Op.result_bind_of_ok (Op.result_get _)]
  cases items with
  | some m => cases h
  | none =>
    simp only [show readItems fs path = .error e from h]
    rfl

theorem looks_loaded (path : String) : (loaded path).Looks (itemsOf path) fun _ => () := by
  have hres (s : FileState) : ∃ s', Op.result (loaded path) s = (itemsOf path s, s') ∧
      itemsOf path s' = itemsOf path s := by
    rcases h : itemsOf path s with e | m
    · exact ⟨s, result_loaded_of_error h, h⟩
    · exact ⟨_, result_loaded_of_ok h, rfl⟩
  refine ⟨fun {s t} hv => ?_, fun s => ?_, fun _ => rfl⟩
  · obtain ⟨s', hs, -⟩ := hres s
    obtain ⟨t', ht, -⟩ := hres t
    rw [hs, ht, hv]
  · obtain ⟨s', hs, hv⟩ := hres s
    rw [hs, hv]

theorem readsFrom_file (path : String) : (file path).ReadsFrom (itemsOf path) where
  keys := (looks_loaded path).bind fun _ => Op.looks_pure _
  get key := (Op.looks_requireKey "key" key).bind fun _ => (looks_loaded path).bind fun _ => Op.looks_pure _

theorem result_file_set {path key : String} (hk : key ≠ "") (value : Json) {s : FileState}
    {m : NameMap Json} (h : itemsOf path s = .ok m) :
    Op.result ((file path).set key value) s = (.ok ⟨⟩, some (NameMap.insert m key value), s.2) := by
  simp only [file]
  rw [Op.result_bind_of_ok (Op.result_requireKey "key" hk s),
    Op.result_bind_of_ok (result_loaded_of_ok h)]
  rfl

theorem result_file_keys {path : String} {s : FileState} {m : NameMap Json}
    (h : itemsOf path s = .ok m) :
    Op.result (file path).keys s = (.ok (NameMap.names m), some m, s.2) := by
  simp only [file]
  rw [Op.result_bind_of_ok (result_loaded_of_ok h)]
  rfl

theorem result_file_keys_of_error {path : String} {s : FileState} {e : Fault}
    (h : itemsOf path s = .error e) : Op.result (file path).keys s = (.error e, s) := by
  simp only [file]
  rw [Op.result_bind_of_error (result_loaded_of_error h)]

theorem result_file_get {path key : String} (hk : key ≠ "") {s : FileState} {m : NameMap Json}
    (h : itemsOf path s = .ok m) :
    Op.result ((file path).get key) s = (.ok (NameMap.get? m key), some m, s.2) := by
  simp only [file]
  rw [Op.result_bind_of_ok (Op.result_requireKey "key" hk s),
    Op.result_bind_of_ok (result_loaded_of_ok h)]
  rfl

theorem result_file_get_of_error {path key : String} (hk : key ≠ "") {s : FileState} {e : Fault}
    (h : itemsOf path s = .error e) : Op.result ((file path).get key) s = (.error e, s) := by
  simp only [file]
  rw [Op.result_bind_of_ok (Op.result_requireKey "key" hk s),
    Op.result_bind_of_error (result_loaded_of_error h)]

theorem result_file_delete {path key : String} (hk : key ≠ "") {s : FileState} {m : NameMap Json}
    (h : itemsOf path s = .ok m) :
    Op.result ((file path).delete key) s =
      (.ok (NameMap.has m key), some (NameMap.erase m key), s.2) := by
  simp only [file]
  rw [Op.result_bind_of_ok (Op.result_requireKey "key" hk s),
    Op.result_bind_of_ok (result_loaded_of_ok h)]
  rfl

/-- The values are written back as far as the files allow, and are there to be read either way. -/
theorem result_file_persist_of_ok {path : String} {s : FileState} {m : NameMap Json}
    (h : itemsOf path s = .ok m) :
    Op.result (file path).persist s =
      ((Op.result (Files.replace path (fileBytes m)) s.2).1, some m,
        (Op.result (Files.replace path (fileBytes m)) s.2).2) := by
  simp only [file]
  rw [Op.result_bind_of_ok (result_loaded_of_ok h)]
  rfl

theorem result_file_persist (path : String) (m : NameMap Json) (fs : Files) :
    Op.result (file path).persist (some m, fs) =
      ((Op.result (Files.replace path (fileBytes m)) fs).1, some m,
        (Op.result (Files.replace path (fileBytes m)) fs).2) :=
  result_file_persist_of_ok rfl

theorem result_fileIn_persist (outage : Option Outage) (path : String) (m : NameMap Json) (fs : Files) :
    Op.result (fileIn outage path).persist (some m, fs) =
      ((Op.result (Files.replaceIn outage path (fileBytes m)) fs).1, some m,
        (Op.result (Files.replaceIn outage path (fileBytes m)) fs).2) := by
  simp only [fileIn]
  rw [Op.result_bind_of_ok (result_loaded_of_ok (s := (some m, fs)) rfl)]
  rfl

/-! ### What a file holds -/

/-- What is read from a store file hangs on its bytes. -/
theorem readItems_congr {fs fs' : Files} {path : String} (h : fs'.readBytes path = fs.readBytes path) :
    readItems fs' path = readItems fs path := by
  simp only [readItems, Files.readText, h]

theorem readItems_of_missing {fs : Files} {path : String} (h : fs.readBytes path = .error .missing) :
    readItems fs path = .ok [] := by
  simp only [readItems, Files.readText, h]
  rfl

/-- What was written is the text of an object. -/
theorem readText_fileBytes {fs : Files} {path : String} {m : NameMap Json}
    (h : fs.readBytes path = .ok (fileBytes m)) :
    fs.readText path = .ok (Json.obj m).pretty ∧ Text.isBlankText (Json.obj m).pretty = false := by
  constructor
  · rw [Files.readText, h, fileBytes]
    simp only [Text.ofBytes?_bytes]
  · obtain ⟨s, hs⟩ := Read.prettyAt_obj 0 m
    rw [Text.isBlankText, Json.pretty, String.toList_ofList, hs, List.all_cons]
    rfl

theorem readsBack_of_forall {m : NameMap Json}
    (h : ∀ p ∈ m, ∀ n ∈ p.2.numbers, n.ReadsBack) : ∀ n ∈ Json.numbersMembers m, n.ReadsBack := by
  intro n hn
  obtain ⟨p, hp, hn⟩ := Json.mem_numbersMembers_iff.1 hn
  exact h p hp n hn

/-- **Values that were written are read again**, if their numbers read back and no name occurs twice in
one of their objects. The object of all values takes one level of nesting. -/
theorem readItems_fileBytes {fs : Files} {path : String} {m : NameMap Json}
    (h : fs.readBytes path = .ok (fileBytes m)) (hs : m.Sorted)
    (hnumbers : ∀ p ∈ m, ∀ n ∈ p.2.numbers, n.ReadsBack)
    (hm : ∀ p ∈ m, p.2.depth ≤ 126 ∧ p.2.merged = p.2) : readItems fs path = .ok m := by
  have hdistinct : Members.Distinct ([] ++ m) := NameMap.nodup_names hs
  have hmerged : (Json.obj m).merged = .obj m := by
    rw [Json.merged, Json.mergedMembers_eq_self fun p hp => (hm p hp).2,
      Members.insertAll_of_distinct hdistinct, List.nil_append]
  have hdepth : (Json.obj m).depth ≤ Read.depthLimit :=
    Nat.succ_le_succ (Json.depthMembers_le_of_forall fun p hp => (hm p hp).1)
  have hparse := Read.parseObject_pretty (readsBack_of_forall hnumbers) hdepth hmerged
  obtain ⟨htext, hblank⟩ := readText_fileBytes h
  rw [readItems, htext]
  simp only [hblank, hparse]
  rw [if_neg (by simp), NameMap.ofList_of_sorted hs]

/-- **A value that is nested too deep for the object around it makes all of them unreadable.** -/
theorem readItems_fileBytes_of_deep {fs : Files} {path : String} {m : NameMap Json}
    (h : fs.readBytes path = .ok (fileBytes m))
    (hnumbers : ∀ p ∈ m, ∀ n ∈ p.2.numbers, n.ReadsBack) {p : String × Json} (hp : p ∈ m)
    (hdeep : 126 < p.2.depth) :
    ∃ e, readItems fs path =
      .error (.context ("Store file is not a JSON object: " ++ path) (.json e)) := by
  have hdepth : Read.depthLimit < (Json.obj m).depth :=
    Nat.succ_lt_succ (Nat.lt_of_lt_of_le hdeep (Json.depth_le_depthMembers hp))
  obtain ⟨e, hparse⟩ := Read.parseObject_pretty_of_deep (readsBack_of_forall hnumbers) hdepth
  obtain ⟨htext, hblank⟩ := readText_fileBytes h
  refine ⟨e, ?_⟩
  rw [readItems, htext]
  simp only [hblank, hparse]
  rw [if_neg (by simp)]

end Stencil.Store
