import Stencil.Fault

/-!
# Operations

An `Op` works on a state and may fail; what it did before a failure stays done. A `Lens` picks out a
part of a state, so that an operation on the part is one on the whole.
-/

namespace Stencil

/-- A computation over a state that may fail. -/
abbrev Op (σ α : Type) := ExceptT Fault (StateM σ) α

/-- A part of a state. -/
structure Lens (σ τ : Type) where
  get : σ → τ
  set : τ → σ → σ

namespace Lens

variable {σ τ υ : Type}

/-- The whole state. -/
def id : Lens σ σ := ⟨fun s => s, fun s _ => s⟩

/-- The first component of a pair. -/
def fst : Lens (σ × τ) σ := ⟨Prod.fst, fun a p => (a, p.2)⟩

/-- The second component of a pair. -/
def snd : Lens (σ × τ) τ := ⟨Prod.snd, fun b p => (p.1, b)⟩

/-- A part of a part. -/
def comp (l : Lens σ τ) (m : Lens τ υ) : Lens σ υ :=
  ⟨fun s => m.get (l.get s), fun u s => l.set (m.set u (l.get s)) s⟩

/-- Two parts side by side. -/
def both (l : Lens σ τ) (m : Lens σ υ) : Lens σ (τ × υ) :=
  ⟨fun s => (l.get s, m.get s), fun p s => m.set p.2 (l.set p.1 s)⟩

end Lens

namespace Op

variable {σ τ α : Type}

/-- Fails with a problem. -/
def fail (p : Problem) : Op σ α := throw (.problem p)

/-- Takes over a result. -/
def ofExcept : Except Fault α → Op σ α
  | .ok a => pure a
  | .error e => throw e

/-- Runs an operation and keeps its failure as a value. -/
def attempt (op : Op σ α) : Op σ (Except Fault α) :=
  tryCatch (op >>= fun a => pure (.ok a)) fun e => pure (.error e)

/-- Runs an operation on a part of the state. -/
def zoom (l : Lens τ σ) (op : Op σ α) : Op τ α :=
  fun t => let (r, s) := op.run (l.get t); (r, l.set s t)

/-- Reads a part of the state. -/
def view (l : Lens τ σ) : Op τ σ := do return l.get (← get)

/-- Changes a part of the state. -/
def change (l : Lens τ σ) (f : σ → σ) : Op τ Unit := modify fun t => l.set (f (l.get t)) t

/-- Refuses an empty argument. -/
def requireKey (argument value : String) : Op σ Unit :=
  if value.isEmpty then fail (.missingArgument argument) else pure ()

end Op

end Stencil
