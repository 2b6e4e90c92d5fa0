import Stencil.Proofs.Store.Reading
import Stencil.Store.Appliance

/-!
# Keys are listed once

A store that keeps its values in a map lists each key once as long as the map is in order, and every
operation keeps it in order (`Store.ListsOnce`). A store on an appliance lists the keys of groups, of
which it drops those that it has listed before, so there it does not matter what the shell says.
-/

namespace Stencil

/-! ### Stores -/

/-- Each key is listed once in a state with a property that all operations preserve. -/
structure Store.ListsOnce {σ : Type} (st : Store σ) (kept : σ → Prop) : Prop where
  nodup : ∀ {s ks}, kept s → (Op.result st.keys s).1 = .ok ks → ks.Nodup
  keys : st.keys.Preserves kept
  get : ∀ key, (st.get key).Preserves kept
  set : ∀ key value, (st.set key value).Preserves kept
  delete : ∀ key, (st.delete key).Preserves kept
  persist : st.persist.Preserves kept

namespace Store

theorem listsOnce_memory : memory.ListsOnce NameMap.Sorted where
  nodup {m ks} hm hks := by
    obtain rfl : NameMap.names m = ks := Except.ok.inj hks
    exact NameMap.nodup_names hm
  keys := Op.preserves_get.bind fun _ => Op.preserves_pure _
  get key := (Op.preserves_requireKey "key" key).bind fun _ => Op.preserves_get.bind fun _ =>
    Op.preserves_pure _
  set key value := (Op.preserves_requireKey "key" key).bind fun _ =>
    Op.preserves_modify fun _ hm => NameMap.sorted_insert hm key value
  delete key := by
    have herase : Op.Preserves NameMap.Sorted (modify fun m : NameMap Json => NameMap.erase m key) :=
      Op.preserves_modify fun _ hm => NameMap.sorted_erase hm key
    exact (Op.preserves_requireKey "key" key).bind fun _ => Op.preserves_get.bind fun _ =>
      herase.bind fun _ => Op.preserves_pure _
  persist := Op.preserves_pure ()

/-! ### In a file -/

/-- The values that were read are in order. -/
def InOrder (s : FileState) : Prop := ∀ m, s.1 = some m → m.Sorted

theorem inOrder_none (fs : Files) : InOrder (none, fs) := fun _ hm => nomatch hm

theorem inOrder_some {m : NameMap Json} (hm : m.Sorted) (fs : Files) : InOrder (some m, fs) := by
  rintro _ ⟨rfl⟩
  exact hm

theorem sorted_of_readItems {fs : Files} {path : String} {m : NameMap Json}
    (h : readItems fs path = .ok m) : m.Sorted := by
  rw [readItems] at h
  split at h
  · split at h <;> cases h
    exact List.Pairwise.nil
  · split at h
    · cases h
      exact List.Pairwise.nil
    · split at h <;> cases h
      exact NameMap.sorted_ofList _

theorem InOrder.sorted_of_itemsOf {path : String} {s : FileState} {m : NameMap Json} (hs : InOrder s)
    (hm : itemsOf path s = .ok m) : m.Sorted := by
  obtain ⟨items, fs⟩ := s
  cases items with
  | none => exact sorted_of_readItems hm
  | some m' =>
    obtain rfl : m' = m := Except.ok.inj hm
    exact hs m' rfl

/-- What comes behind the reading of the values works on values in order. -/
theorem preserves_loaded_bind {path : String} {α : Type} {f : NameMap Json → Op FileState α}
    (hf : ∀ m, m.Sorted → (f m).Preserves InOrder) : (loaded path >>= f).Preserves InOrder := by
  intro s hs
  cases hm : itemsOf path s with
  | error e =>
    rw [Op.result_bind_of_error (result_loaded_of_error hm)]
    exact hs
  | ok m =>
    have hsorted := hs.sorted_of_itemsOf hm
    rw [Op.result_bind_of_ok (result_loaded_of_ok hm)]
    exact hf m hsorted _ (inOrder_some hsorted s.2)

theorem listsOnce_file (path : String) : (file path).ListsOnce InOrder where
  nodup {s ks} hs hks := by
    cases hm : itemsOf path s with
    | error e =>
      rw [result_file_keys_of_error hm] at hks
      cases hks
    | ok m =>
      rw [result_file_keys hm] at hks
      obtain rfl : NameMap.names m = ks := Except.ok.inj hks
      exact NameMap.nodup_names (hs.sorted_of_itemsOf hm)
  keys := preserves_loaded_bind fun _ _ => Op.preserves_pure _
  get key := (Op.preserves_requireKey "key" key).bind fun _ => preserves_loaded_bind fun _ _ =>
    Op.preserves_pure _
  set key value := (Op.preserves_requireKey "key" key).bind fun _ => preserves_loaded_bind fun _ hm =>
    Op.preserves_modify fun s _ => inOrder_some (NameMap.sorted_insert hm key value) s.2
  delete key := by
    have herase (m : NameMap Json) (hm : m.Sorted) : Op.Preserves InOrder
        (modify fun s : FileState => (some (NameMap.erase m key), s.2)) :=
      Op.preserves_modify fun s _ => inOrder_some (NameMap.sorted_erase hm key) s.2
    exact (Op.preserves_requireKey "key" key).bind fun _ => preserves_loaded_bind fun m hm =>
      (herase m hm).bind fun _ => Op.preserves_pure _
  persist := preserves_loaded_bind fun _ _ s hs => hs

/-! ### On an appliance -/

theorem listsOnce_appliance {τ : Type} (z : Compression) (shell : Shell τ) (c : Collection) :
    (appliance z shell c).ListsOnce fun _ => True where
  nodup {s ks} _ hks := by
    obtain ⟨groups, s', -, hkeys⟩ := Op.exists_of_result_bind hks
    obtain rfl := Except.ok.inj hkeys
    exact nodup_eraseDups _
  keys := Op.preserves_true _
  get _ := Op.preserves_true _
  set _ _ := Op.preserves_true _
  delete _ := Op.preserves_true _
  persist := Op.preserves_true _

end Store

end Stencil
