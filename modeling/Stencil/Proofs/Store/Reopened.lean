import Stencil.Proofs.Files.Replace
import Stencil.Proofs.Store.Reading

/-!
# A store in a file, opened again

Values are put into a new store over a file that is missing, and written. A store that is opened over
the same file afterwards has the same keys and values, if each value can be read from some text and is
nested less deep than a text can be. In the file the object of all values lies around each of them, and
the file is written whether or not that is one level too many: then nothing is read any more
(`reopened_unless_deep`).
-/

namespace Stencil.Store

/-- Sets every entry, one after another. -/
def setAll {σ : Type} (st : Store σ) : List (String × Json) → Op σ Unit
  | [] => pure ()
  | (key, value) :: rest => do
    st.set key value
    setAll st rest

/-- Sets every entry, and writes. -/
def save {σ : Type} (st : Store σ) (entries : List (String × Json)) : Op σ Unit := do
  st.setAll entries
  st.persist

/-- The store has the keys and the values of a map. -/
structure AnswersWith {σ : Type} (st : Store σ) (s : σ) (m : NameMap Json) : Prop where
  keys : (Op.result st.keys s).1 = .ok (NameMap.names m)
  get : ∀ key, key ≠ "" → (Op.result (st.get key) s).1 = .ok (NameMap.get? m key)

/-- The store gives neither keys nor values. -/
structure FailsWith {σ : Type} (st : Store σ) (s : σ) (e : Fault) : Prop where
  keys : (Op.result st.keys s).1 = .error e
  get : ∀ key, key ≠ "" → (Op.result (st.get key) s).1 = .error e

variable {path : String} {entries : List (String × Json)} {fs : Files} {m : NameMap Json}

theorem answersWith_file {s : FileState} (h : itemsOf path s = .ok m) : (file path).AnswersWith s m where
  keys := by rw [result_file_keys h]
  get key hkey := by rw [result_file_get hkey h]

theorem failsWith_file {s : FileState} {e : Fault} (h : itemsOf path s = .error e) :
    (file path).FailsWith s e where
  keys := by rw [result_file_keys_of_error h]
  get key hkey := by rw [result_file_get_of_error hkey h]

/-- One entry after another is put into what the store holds; the files stay. -/
theorem result_setAll (hkeys : ∀ p ∈ entries, p.1 ≠ "") {s : FileState} (h : itemsOf path s = .ok m) :
    ∃ s', Op.result (setAll (file path) entries) s = (.ok (), s') ∧
      itemsOf path s' = .ok (entries.foldl (fun m p => NameMap.insert m p.1 p.2) m) ∧ s'.2 = s.2 := by
  induction entries generalizing s m with
  | nil => exact ⟨s, rfl, h, rfl⟩
  | cons p entries ih =>
    obtain ⟨key, value⟩ := p
    have hset := result_file_set (hkeys (key, value) List.mem_cons_self) value h
    obtain ⟨s', hrest, hitems, hfiles⟩ :=
      ih (fun p hp => hkeys p (List.mem_cons_of_mem _ hp))
        (s := (some (NameMap.insert m key value), s.2)) rfl
    refine ⟨s', ?_, hitems, hfiles⟩
    rw [setAll, Op.result_bind_of_ok hset, hrest]

/-- What was saved is in the file. -/
theorem readBytes_of_save (hg : fs.Grounded) (hmissing : fs.readBytes path = .error .missing)
    (hkeys : ∀ p ∈ entries, p.1 ≠ "") {s : FileState}
    (hsaved : Op.result (save (file path) entries) (none, fs) = (.ok (), s)) :
    s.2.readBytes path = .ok (fileBytes (NameMap.ofList entries)) := by
  have hempty : itemsOf path (none, fs) = .ok [] := readItems_of_missing hmissing
  obtain ⟨s', hset, hitems, hfiles⟩ := result_setAll hkeys hempty
  rw [save, Op.result_bind_of_ok hset, result_file_persist_of_ok hitems, hfiles] at hsaved
  obtain ⟨hok, rfl⟩ := Prod.mk.inj hsaved
  exact Files.readBytes_of_replace hg (Prod.ext hok rfl)

/-- **A store that was saved answers the same when it is opened again, unless a value is nested too
deep.** The entries have keys, their values can be read from text, and their numbers are integers or
read back. Values of up to 126 levels come back, all of them; if one has more, every request fails. -/
theorem reopened_unless_deep (path : String) (fs : Files) (hg : fs.Grounded)
    (hmissing : fs.readBytes path = .error .missing) (entries : List (String × Json))
    (hkeys : ∀ p ∈ entries, p.1 ≠ "") (hread : ∀ p ∈ entries, ∃ text, Json.ofText text = .ok p.2)
    (hnumbers : ∀ p ∈ entries, ∀ n ∈ p.2.numbers, (∃ i, n = .int i) ∨ n.ReadsBack) (s : FileState)
    (hsaved : Op.result (save (file path) entries) (none, fs) = (.ok (), s)) :
    ((∀ p ∈ NameMap.ofList entries, p.2.depth ≤ 126) →
      (file path).AnswersWith (none, s.2) (NameMap.ofList entries)) ∧
    ((∃ p ∈ NameMap.ofList entries, 126 < p.2.depth) →
      ∃ e, (file path).FailsWith (none, s.2)
        (.context ("Store file is not a JSON object: " ++ path) (.json e))) := by
  have hbytes := readBytes_of_save hg hmissing hkeys hsaved
  have hback : ∀ p ∈ NameMap.ofList entries, ∀ n ∈ p.2.numbers, n.ReadsBack := by
    intro p hp
    obtain ⟨text, htext⟩ := hread p (NameMap.mem_of_mem_ofList hp)
    exact Read.readsBack_of_ofText htext (hnumbers p (NameMap.mem_of_mem_ofList hp))
  constructor
  · intro hshallow
    apply answersWith_file
    apply readItems_fileBytes hbytes (NameMap.sorted_ofList entries) hback
    intro p hp
    obtain ⟨text, htext⟩ := hread p (NameMap.mem_of_mem_ofList hp)
    exact ⟨hshallow p hp, merged_of_parse htext⟩
  · rintro ⟨p, hp, hdeep⟩
    obtain ⟨e, hitems⟩ := readItems_fileBytes_of_deep hbytes hback hp hdeep
    exact ⟨e, failsWith_file hitems⟩

/-- A list of 127 levels, which a text may have, beside a number. -/
theorem reopened_unless_deep_list :
    let fs : Files := ⟨[], ["work"]⟩
    let list := Nat.repeat (fun j => Json.arr [j]) 126 (.arr [])
    let entries := [("list", list), ("number", .num (.int (-5)))]
    let s := (Op.result (save (file "store.json") entries) (none, fs)).2
    fs.Grounded ∧ fs.readBytes "store.json" = .error .missing ∧ (∀ p ∈ entries, p.1 ≠ "") ∧
      (∀ p ∈ entries, ∃ text, Json.ofText text = .ok p.2) ∧
      (∀ p ∈ entries, ∀ n ∈ p.2.numbers, (∃ i, n = .int i) ∨ n.ReadsBack) ∧
      Op.result (save (file "store.json") entries) (none, fs) = (.ok (), s) ∧
      ∃ e, (file "store.json").FailsWith (none, s.2)
        (.context "Store file is not a JSON object: store.json" (.json e)) := by
  intro fs list entries s
  have hg : fs.Grounded := Files.grounded_of_forall (by decide +kernel)
  have hmissing : fs.readBytes "store.json" = .error .missing := by decide +kernel
  have hkeys : ∀ p ∈ entries, p.1 ≠ "" := by decide +kernel
  have hnone : list.numbers = [] := by decide +kernel
  have hread : ∀ p ∈ entries, ∃ text, Json.ofText text = .ok p.2 := by
    simp only [entries, List.forall_mem_cons]
    refine ⟨⟨list.pretty, Read.ofText_pretty ?_ ?_ ?_⟩, ⟨"-5", ?_⟩, List.forall_mem_nil _⟩
    · rw [hnone]
      exact List.forall_mem_nil _
    · decide +kernel
    · decide +kernel
    · decide +kernel
  have hnumbers : ∀ p ∈ entries, ∀ n ∈ p.2.numbers, (∃ i, n = .int i) ∨ n.ReadsBack := by
    simp only [entries, List.forall_mem_cons]
    refine ⟨?_, fun n hn => .inl ⟨-5, List.mem_singleton.1 hn⟩, List.forall_mem_nil _⟩
    rw [hnone]
    exact List.forall_mem_nil _
  have hok : (Op.result (save (file "store.json") entries) (none, fs)).1 = .ok () := by
    decide +kernel
  have hsaved : Op.result (save (file "store.json") entries) (none, fs) = (.ok (), s) :=
    Prod.ext hok rfl
  have hdeep : ∃ p ∈ NameMap.ofList entries, 126 < p.2.depth :=
    ⟨("list", list), by decide +kernel, by decide +kernel⟩
  obtain ⟨-, hfails⟩ :=
    reopened_unless_deep "store.json" fs hg hmissing entries hkeys hread hnumbers s hsaved
  obtain ⟨e, he⟩ := hfails hdeep
  exact ⟨hg, hmissing, hkeys, hread, hnumbers, hsaved, e, he⟩

end Stencil.Store
