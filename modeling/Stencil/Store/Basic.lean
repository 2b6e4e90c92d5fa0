import Stencil.NameMap
import Stencil.Op

/-!
# Stores

A `Store` keeps JSON values under keys. It is a record of operations over some state, so one
interface serves a map in memory, a file, and an appliance. What is set is durable only after
`persist`.
-/

namespace Stencil

/-- The operations of a store over a state. -/
structure Store (σ : Type) where
  /-- The name of the kind of store. -/
  name : String
  keys : Op σ (List String)
  has : String → Op σ Bool
  get : String → Op σ (Option Json)
  set : String → Json → Op σ Unit
  /-- Tells whether there was a value. -/
  delete : String → Op σ Bool
  persist : Op σ Unit

namespace Store

/-- The store over a larger state. -/
def lift {σ τ : Type} (l : Lens τ σ) (s : Store σ) : Store τ where
  name := s.name
  keys := s.keys.zoom l
  has key := (s.has key).zoom l
  get key := (s.get key).zoom l
  set key value := (s.set key value).zoom l
  delete key := (s.delete key).zoom l
  persist := s.persist.zoom l

/-- A store in memory. -/
def memory : Store (NameMap Json) where
  name := "memory"
  keys := do return NameMap.names (← MonadState.get)
  has key := do
    Op.requireKey "key" key
    return NameMap.has (← MonadState.get) key
  get key := do
    Op.requireKey "key" key
    return NameMap.get? (← MonadState.get) key
  set key value := do
    Op.requireKey "key" key
    modify fun m => NameMap.insert m key value
  delete key := do
    Op.requireKey "key" key
    let m ← MonadState.get
    modify fun m => NameMap.erase m key
    return NameMap.has m key
  persist := pure ()

end Store

end Stencil
