import Mathlib.Data.List.Basic
import Mathlib.Data.List.Induction
import Mathlib.Data.List.Nodup
import Stencil.Proofs.NameMap
import Stencil.Store.Appliance

/-!
# What a store should hold

The requests made of a store say what it should answer: the value that was last set, unless it was
deleted since (`lastValue`). The ledger has the same values in the order in which they were last
written, which is how they lie in a collection.
-/

namespace Stencil

namespace ApplianceStore

/-- A key that a record name can hold. -/
structure ValidKey (key : String) : Prop where
  ne_empty : key ≠ ""
  isKeyChar_of_mem : ∀ d ∈ key.toList, isKeyChar d = true

instance (key : String) : Decidable (ValidKey key) :=
  decidable_of_iff (key ≠ "" ∧ key.toList.all isKeyChar)
    ⟨fun h => ⟨h.1, List.all_eq_true.1 h.2⟩,
      fun h => ⟨h.ne_empty, List.all_eq_true.2 h.isKeyChar_of_mem⟩⟩

/-- What is asked of a store. -/
inductive Request where
  | set (key : String) (value : Json)
  | delete (key : String)
  /-- The store is opened again, over the same appliance. -/
  | reopen

namespace Request

/-- The values after a request. -/
def apply : Request → (String → Option Json) → String → Option Json
  | .set key value, m, k => if k = key then some value else m k
  | .delete key, m, k => if k = key then none else m k
  | .reopen, m, k => m k

/-- The ledger after a request. -/
def note : Request → List (String × Json) → List (String × Json)
  | .set key value, l => l.filter (·.1 != key) ++ [(key, value)]
  | .delete key, l => l.filter (·.1 != key)
  | .reopen, l => l

end Request

/-- The value that was last set under a key and not deleted since. -/
def lastValue (requests : List Request) : String → Option Json :=
  requests.foldl (fun m r => r.apply m) fun _ => none

/-- The keys with their values, in the order in which they were last set. -/
def ledger (requests : List Request) : List (String × Json) :=
  requests.foldl (fun l r => r.note l) []

@[simp] theorem lastValue_append (requests : List Request) (r : Request) :
    lastValue (requests ++ [r]) = r.apply (lastValue requests) := by
  rw [lastValue, List.foldl_append]
  rfl

@[simp] theorem ledger_append (requests : List Request) (r : Request) :
    ledger (requests ++ [r]) = r.note (ledger requests) := by
  rw [ledger, List.foldl_append]
  rfl

theorem lookup_note (r : Request) (l : List (String × Json)) (k : String) :
    (r.note l).lookup k = r.apply (l.lookup ·) k := by
  cases r with
  | set key value =>
    rw [Request.note, Request.apply, List.lookup_append, lookup_filter_ne, lookup_cons_eq]
    by_cases h : k = key <;> simp [h]
  | delete key => exact lookup_filter_ne l key k
  | reopen => rfl

/-- The ledger has the last values. -/
theorem lookup_ledger (requests : List Request) (k : String) :
    (ledger requests).lookup k = lastValue requests k := by
  induction requests using List.reverseRecOn generalizing k with
  | nil => rfl
  | append_singleton requests r ih =>
    rw [ledger_append, lastValue_append, lookup_note]
    cases r <;> simp only [Request.apply, ih]

/-- A key is in the ledger once. -/
theorem nodup_note {l : List (String × Json)} (h : (l.map (·.1)).Nodup) (r : Request) :
    ((r.note l).map (·.1)).Nodup := by
  have hf (key : String) : ((l.filter (·.1 != key)).map (·.1)).Nodup :=
    h.sublist (List.filter_sublist.map _)
  cases r with
  | set key value =>
    rw [Request.note, List.map_append, List.nodup_append']
    refine ⟨hf key, List.nodup_singleton _, ?_⟩
    simp
  | delete key => exact hf key
  | reopen => exact h

theorem nodup_ledger (requests : List Request) : ((ledger requests).map (·.1)).Nodup := by
  induction requests using List.reverseRecOn with
  | nil => exact List.nodup_nil
  | append_singleton requests r ih =>
    rw [ledger_append]
    exact nodup_note ih r

/-- What stands in the ledger was set. -/
theorem set_mem_of_mem_ledger {requests : List Request} {p : String × Json}
    (h : p ∈ ledger requests) : Request.set p.1 p.2 ∈ requests := by
  induction requests using List.reverseRecOn with
  | nil => simp [ledger] at h
  | append_singleton requests r ih =>
    rw [ledger_append] at h
    rw [List.mem_append, List.mem_singleton]
    cases r with
    | set key value =>
      rw [Request.note, List.mem_append, List.mem_singleton] at h
      rcases h with h | rfl
      · exact .inl (ih (List.mem_of_mem_filter h))
      · exact .inr rfl
    | delete key => exact .inl (ih (List.mem_of_mem_filter h))
    | reopen => exact .inl (ih h)

end ApplianceStore

end Stencil
