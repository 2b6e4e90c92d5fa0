import Stencil.Proofs.Store.Collection

/-!
# The records of a collection, written and listed

The command that replaces the records of a collection has them on one line, with their data in quotes;
the listing has them on many lines, without quotes and between other words. One rule finds the records
in both texts. The simulated appliance keeps exactly the records that it was given, and its listing gives
the same records again, whatever words they spell and however the collection is called
(`listed_after_writeRecords`).
-/

namespace Stencil

namespace Collection

/-- The characters of folders and collections: those of record names but the slash. -/
def isPathChar (d : Char) : Bool := d.isAlphanum || d == '_' || d == '.' || d == '-'

/-- The folder and the name have characters of paths only. -/
structure Spelled (c : Collection) : Prop where
  folder : ∀ d ∈ c.folder.toList, isPathChar d = true
  name : ∀ d ∈ c.name.toList, isPathChar d = true

instance (c : Collection) : Decidable c.Spelled :=
  decidable_of_iff (c.folder.toList.all isPathChar ∧ c.name.toList.all isPathChar)
    ⟨fun h => ⟨List.all_eq_true.1 h.1, List.all_eq_true.1 h.2⟩, fun h =>
      ⟨List.all_eq_true.2 h.folder, List.all_eq_true.2 h.name⟩⟩

theorem isNameChar_of_isPathChar {d : Char} (h : isPathChar d = true) : Record.isNameChar d = true := by
  simp [Record.isNameChar, show (d.isAlphanum || d == '_' || d == '.' || d == '-') = true from h]

theorem Spelled.plain {c : Collection} (h : c.Spelled) : c.Plain := by
  constructor
  · intro d hd
    exact Record.isBlank_eq_false_of_isNameChar (isNameChar_of_isPathChar (h.folder d hd))
  · intro d hd
    exact Record.isBlank_eq_false_of_isNameChar (isNameChar_of_isPathChar (h.name d hd))
  · intro hslash
    have hpath := h.name '/' hslash
    have hnot : isPathChar '/' = false := by decide
    rw [hnot] at hpath
    cases hpath

end Collection

namespace Appliance

open ApplianceStore

/-- **Records are listed as they were written**: on an appliance that has the collection, and of which
no failure is arranged for the two commands, writing stores these records and no others, leaves all
other collections as they are, and what is listed then is read as these records. -/
theorem listed_after_writeRecords (c : Collection) (hc : c.Spelled) (a : Appliance)
    (hprovisioned : a.HasCollection c) (rs : List Record) (hrs : ∀ r ∈ rs, r.Legible)
    (hmodify : a.Permits (c.modify rs)) (hlist : a.Permits c.list) (known : Bool) :
    ∃ (written listed : Appliance) (text : String),
      Op.result (writeRecords execute c rs) (known, a) = (.ok (), known, written) ∧
      (∀ path, NameMap.get? written.groups path =
        if path = c.path then some rs else NameMap.get? a.groups path) ∧
      Op.result (execute c.list) written = (.ok text, listed) ∧
      listed.groups = written.groups ∧ Record.ofListing text = rs := by
  have hp := hc.plain
  have hmodified := result_modify_of_has hp hmodify hprovisioned hrs
  obtain ⟨written, hwritten, hgroups, hfailures⟩ : ∃ written : Appliance,
      Op.result (writeRecords execute c rs) (known, a) = (.ok (), known, written) ∧
        written.groups = NameMap.insert a.groups c.path rs ∧ written.failures = a.failures := by
    refine ⟨{ a with
      received := c.modify rs :: a.received, groups := NameMap.insert a.groups c.path rs }, ?_, rfl, rfl⟩
    rw [writeRecords, Op.result_bind_of_ok (result_send known hmodified)]
    rfl
  have hget : ∀ path, NameMap.get? written.groups path =
      if path = c.path then some rs else NameMap.get? a.groups path := by
    intro path
    rw [hgroups, NameMap.get?_insert]
  have hpermits : written.Permits c.list := by
    rw [Permits, hfailures]
    exact hlist
  have hlisted := result_list_of_get? hp hpermits ((hget c.path).trans (if_pos rfl))
  exact ⟨written, _, listing c.path rs, hwritten, hget, hlisted, rfl,
    Record.ofListing_listing hp.path_unbroken (Collection.head?_path c) hrs⟩

/-- Records, data and a collection that are called like the words around them; one record twice, and one
without data. -/
theorem listed_after_writeRecords_words :
    let c : Collection := ⟨"a.b-c_1", "none"⟩
    let a := (Op.result (provision execute c) (false, empty)).2.2
    let rs : List Record := [⟨"data", "records"⟩, ⟨"records", ""⟩, ⟨"data", "records"⟩, ⟨"/-.", "+/="⟩]
    c.Spelled ∧ a.HasCollection c ∧ (∀ r ∈ rs, r.Legible) ∧ a.Permits (c.modify rs) ∧ a.Permits c.list ∧
      ∃ (written listed : Appliance) (text : String),
        Op.result (writeRecords execute c rs) (true, a) = (.ok (), true, written) ∧
        (∀ path, NameMap.get? written.groups path =
          if path = c.path then some rs else NameMap.get? a.groups path) ∧
        Op.result (execute c.list) written = (.ok text, listed) ∧
        listed.groups = written.groups ∧ Record.ofListing text = rs := by
  intro c a rs
  have hc : c.Spelled := by decide +kernel
  have ha : a.HasCollection c := by
    show NameMap.has a.groups c.path = true
    decide +kernel
  have hrs : ∀ r ∈ rs, r.Legible := by decide +kernel
  have hfailures : a.failures = [] := by decide +kernel
  have hmodify : a.Permits (c.modify rs) := permits_of_failures_eq hfailures _
  have hlist : a.Permits c.list := permits_of_failures_eq hfailures _
  exact ⟨hc, ha, hrs, hmodify, hlist, listed_after_writeRecords c hc a ha rs hrs hmodify hlist true⟩

end Appliance

end Stencil
