import Stencil.Op

/-!
# Tasks

A task works on a state that it shares with others. It takes one step after another, and between two of
its steps the others may take theirs; a step that has to wait is put off until the state is ready for it.
A `Crew` is a state with the tasks at work on it. A schedule says which of them is asked next to take a
step.
-/

namespace Stencil

/-- A computation in steps on a shared state. A step changes the state at once, when the state is ready
for it, and what it finds there decides how to go on. -/
inductive Task (σ α : Type) where
  | done (result : Except Fault α)
  | step (ready : σ → Bool) (act : σ → σ) (next : σ → Task σ α)

namespace Task

variable {σ α β : Type}

/-- Goes on after a task with what it gives, unless it fails. -/
def bind : Task σ α → (α → Task σ β) → Task σ β
  | done (.ok a), f => f a
  | done (.error e), _ => done (.error e)
  | step ready act next, f => step ready act fun s => bind (next s) f

instance : Monad (Task σ) where
  pure a := done (.ok a)
  bind := bind

/-- A step that does an operation when the state is ready. -/
def when (ready : σ → Bool) (op : Op σ α) : Task σ α :=
  step ready (fun s => (op.run s).2) fun s => done (op.run s).1

/-- A step that does an operation. -/
def once (op : Op σ α) : Task σ α := when (fun _ => true) op

/-- Takes over a result; this is no step. -/
def ofExcept (r : Except Fault α) : Task σ α := done r

/-- Keeps a failure as a value. -/
def attempt : Task σ α → Task σ (Except Fault α)
  | done r => done (.ok r)
  | step ready act next => step ready act fun s => attempt (next s)

/-- The result of a task that has come to its end. -/
def result? : Task σ α → Option (Except Fault α)
  | done r => some r
  | step _ _ _ => none

/-- The next step, if the state is ready for it. -/
def poll : Task σ α → σ → Task σ α × σ
  | done r, s => (done r, s)
  | step ready act next, s => if ready s then (next s, act s) else (step ready act next, s)

/-- What comes of a task that nobody interferes with; nothing if it waits for good. -/
def alone : Task σ α → σ → Option (Except Fault α × σ)
  | done r, s => some (r, s)
  | step ready act next, s => if ready s then alone (next s) (act s) else none

end Task

/-- A state with the tasks at work on it. -/
structure Crew (σ α : Type) where
  state : σ
  tasks : List (Task σ α)

namespace Crew

variable {σ α : Type}

/-- A task is asked to take a step. -/
def poll (c : Crew σ α) (i : Nat) : Crew σ α :=
  match c.tasks[i]? with
  | none => c
  | some t => ⟨(t.poll c.state).2, c.tasks.set i (t.poll c.state).1⟩

/-- Tasks are asked to take steps, one after another. -/
def run (c : Crew σ α) (schedule : List Nat) : Crew σ α := schedule.foldl poll c

/-- The result of a task, once it has come to its end. -/
def result? (c : Crew σ α) (i : Nat) : Option (Except Fault α) := (c.tasks[i]?).bind Task.result?

end Crew

end Stencil
