import Stencil.Cache.Basic

/-!
# Fetches in flight

Several fetches may be under way on one cache. Each of them takes its steps on its own: it reserves
a slot; if the slot is empty it makes the value, unless another fetch is making it for the same slot,
in which case it waits. A fetch that fails hands the slot to the next one that waits, even though
the cache may have dropped the slot by then. In between, entries may be dropped from outside.

`Flight.poll` lets one fetch take its next step, and `Flight.after` is what comes of any events in
any order. `Flight.run` polls all fetches in turn until every one is done.
-/

namespace Stencil

/-- What fetches do to a cache, and what is done to it from outside. Each of these happens at once. -/
class Caching (C : Type → Type) where
  /-- The value in a slot. -/
  value? {α : Type} : C α → Nat → Option α
  /-- The slot of a key: the one it has, else a new one. -/
  reserve {α : Type} : C α → String → Nat × C α
  /-- Puts a value into a slot. -/
  fill {α : Type} : C α → Nat → α → C α
  /-- Drops a slot that got no value, unless the key has another slot by now. -/
  discard {α : Type} : C α → String → Nat → C α
  /-- Drops the entry of a key. -/
  invalidate {α : Type} : C α → String → C α
  /-- Drops all entries. -/
  clear {α : Type} : C α → C α

instance : Caching Cache where
  value? := Cache.value?
  reserve := Cache.reserve
  fill := Cache.fill
  discard := Cache.discard
  invalidate := Cache.invalidate
  clear := Cache.clear

/-- How far a fetch has come. -/
inductive Progress (α : Type) where
  | fresh
  /-- Another fetch is making the value of the slot. -/
  | waiting (slot : Nat)
  /-- The value of the slot is being made. -/
  | making (slot : Nat)
  /-- The fetch is over; it has no slot if its key was refused. -/
  | done (slot : Option Nat) (result : Except Fault α)

/-- The slot that a fetch has turned to. -/
def Progress.slot? {α : Type} : Progress α → Option Nat
  | .fresh => none
  | .waiting slot | .making slot => some slot
  | .done slot _ => slot

/-- A fetch of a key, with what making the value comes to. -/
structure Fetch (α : Type) where
  key : String
  outcome : Except Fault α
  progress : Progress α

/-- A cache with the fetches under way on it. -/
structure Flight (C : Type → Type) (α : Type) where
  cache : C α
  fetches : List (Fetch α)
  /-- How often the making of a value was begun. -/
  begun : Nat

/-- What may happen next. -/
inductive Event where
  /-- A fetch takes a step. -/
  | poll (i : Nat)
  | invalidate (key : String)
  | clear

namespace Flight

variable {C : Type → Type} [Caching C] {α : Type}

/-- The fetch is making the value of a slot. -/
def makes (slot : Nat) (f : Fetch α) : Bool :=
  match f.progress with
  | .making s => s == slot
  | _ => false

/-- Sets the progress of a fetch. -/
def setProgress (fl : Flight C α) (i : Nat) (p : Progress α) : Flight C α :=
  { fl with fetches := fl.fetches.modify i fun f => { f with progress := p } }

/-- A fetch gets the slot of its key. -/
def join (fl : Flight C α) (i : Nat) (key : String) : Flight C α :=
  setProgress { fl with cache := (Caching.reserve fl.cache key).2 } i
    (.waiting (Caching.reserve fl.cache key).1)

/-- A fetch turns to its slot: it takes the value, or waits, or begins to make it. -/
def turnTo (fl : Flight C α) (i slot : Nat) : Flight C α :=
  match Caching.value? fl.cache slot with
  | some a => fl.setProgress i (.done slot (.ok a))
  | none =>
    if fl.fetches.any (makes slot) then fl.setProgress i (.waiting slot)
    else { fl.setProgress i (.making slot) with begun := fl.begun + 1 }

/-- The making of a value comes to its end. -/
def finish (fl : Flight C α) (i slot : Nat) (f : Fetch α) : Flight C α :=
  let fl' := fl.setProgress i (.done slot f.outcome)
  match f.outcome with
  | .ok a => { fl' with cache := Caching.fill fl.cache slot a }
  | .error _ => { fl' with cache := Caching.discard fl.cache f.key slot }

/-- The next step of a fetch. -/
def poll (fl : Flight C α) (i : Nat) : Flight C α :=
  match fl.fetches[i]? with
  | none => fl
  | some f =>
    match f.progress with
    | .fresh =>
      if f.key = "" then fl.setProgress i (.done none (.error (.problem (.missingArgument "key"))))
      else (fl.join i f.key).turnTo i (Caching.reserve fl.cache f.key).1
    | .waiting slot => fl.turnTo i slot
    | .making slot => fl.finish i slot f
    | .done .. => fl

/-- What an event does. -/
def act (fl : Flight C α) : Event → Flight C α
  | .poll i => fl.poll i
  | .invalidate key => { fl with cache := Caching.invalidate fl.cache key }
  | .clear => { fl with cache := Caching.clear fl.cache }

/-- The flight after some events. -/
def after (fl : Flight C α) (events : List Event) : Flight C α := events.foldl act fl

/-- The flight of fetches that start on a cache. -/
def start (c : C α) (fetches : List (String × Except Fault α)) : Flight C α :=
  ⟨c, fetches.map fun (key, outcome) => ⟨key, outcome, .fresh⟩, 0⟩

/-- Every fetch takes a step, in order. -/
def pollAll (fl : Flight C α) : Flight C α :=
  fl.after ((List.range fl.fetches.length).map .poll)

/-- The flight after a number of rounds. -/
def rounds : Nat → Flight C α → Flight C α
  | 0, fl => fl
  | n + 1, fl => rounds n fl.pollAll

/-- Runs fetches to their ends; in every round but the first at least one of them comes to its end. -/
def run (c : C α) (fetches : List (String × Except Fault α)) : Flight C α :=
  rounds (fetches.length + 1) (start c fetches)

/-- The results of the fetches that are done. -/
def results (fl : Flight C α) : List (Except Fault α) :=
  fl.fetches.filterMap fun f =>
    match f.progress with
    | .done _ r => some r
    | _ => none

end Flight

end Stencil
