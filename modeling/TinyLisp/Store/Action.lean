import TinyLisp.Failure
import TinyLisp.Store.Basic

/-!
# Actions

An action runs on a store and ends in one of three ways: with a result, with a
failure, or not within the time it was given. The first two come with the store
as the action left it; a failure takes nothing back. Running out of time is kept
apart from failing, since no handler may see it.

A heap action is the smaller kind that cannot see the frames. What hosts and
most built-in functions do is of this kind, so it is plain from its type that
they bind no variable.
-/

namespace TinyLisp

/-- How an action ends. -/
inductive Outcome (α : Type) where
  | result (value : α) (store : Store)
  | failure (error : Failure) (store : Store)
  | exhausted

/-- Something that runs on a store. -/
def Action (α : Type) : Type := Store → Outcome α

namespace Action

variable {α β : Type}

/-- The action that changes nothing and has this result. -/
@[always_inline, inline]
protected def pure (a : α) : Action α := fun s => .result a s

/-- Run an action and, if it has a result, the next one on it. -/
@[always_inline, inline]
protected def bind (x : Action α) (f : α → Action β) : Action β := fun s =>
  match x s with
  | .result a s => f a s
  | .failure e s => .failure e s
  | .exhausted => .exhausted

instance : Monad Action where
  pure := Action.pure
  bind := Action.bind

@[inline]
def fail (f : Fault) : Action α := fun s => .failure (.ofFault f) s

/-- The action that runs out of time. -/
def exhausted : Action α := fun _ => .exhausted

/-- Give a failure without a place this one. -/
@[inline]
def located (span : Option Span) (x : Action α) : Action α := fun s =>
  match x s with
  | .failure e s => .failure (e.locate span) s
  | .result a s => .result a s
  | .exhausted => .exhausted

/-- Turn a failure into a result. -/
@[inline]
def attempt (x : Action α) : Action (Except Failure α) := fun s =>
  match x s with
  | .failure e s => .result (.error e) s
  | .result a s => .result (.ok a) s
  | .exhausted => .exhausted

/-- Fail as another action has. -/
@[inline]
def rethrow (e : Failure) : Action α := fun s => .failure e s

/-- A result that may be a fault. -/
@[inline]
def ofExcept (x : Except Fault α) : Action α := fun s =>
  match x with
  | .ok a => .result a s
  | .error f => .failure (.ofFault f) s

/-- Something computed from the store. -/
@[inline]
def read (f : Store → α) : Action α := fun s => .result (f s) s

/-- Run an action for one value after the other, and collect the results. -/
def each (f : α → Action β) : List α → Action (List β)
  | [] => pure []
  | x :: xs => do
    let y ← f x
    let ys ← each f xs
    return y :: ys

@[inline]
def define (scope : Scope) (name : String) (value : Value) : Action Unit :=
  fun s => .result () (s.bind scope name value)

/-- A scope inside another, with a frame of its own. -/
@[inline]
def enter (scope : Scope) : Action Scope := fun s =>
  let (inner, s) := s.enter scope
  .result inner s

def resolve (scope : Scope) (name : String) : Action Value := fun s =>
  match s.lookup scope name with
  | some v => .result v s
  | none => .failure (.ofFault (.unbound name)) s

end Action

/-- Something that runs on the heap alone. -/
abbrev HeapAction (α : Type) := ExceptT Failure (StateM Heap) α

namespace HeapAction

variable {α : Type}

def fail (f : Fault) : HeapAction α := throw (.ofFault f)

/-- A result that may be a fault. -/
def ofExcept (x : Except Fault α) : HeapAction α :=
  match x with
  | .ok a => pure a
  | .error f => fail f

/-- A number that no object has yet. -/
def freshId : HeapAction ObjectId := fun h =>
  (.ok h.nextId, { h with nextId := h.nextId + 1 })

/-- A new cell with this content. -/
def newCell (v : Value) : HeapAction CellId := fun h =>
  (.ok h.cells.size, { h with cells := h.cells.push v })

def readCell (cell : CellId) : HeapAction Value := fun h =>
  (.ok (h.cells[cell]?.getD .nil), h)

def writeCell (cell : CellId) (v : Value) : HeapAction Unit := fun h =>
  (.ok (), { h with cells := h.cells.setIfInBounds cell v })

/-- A new text buffer with this content. -/
def newBuffer (s : String) : HeapAction Nat := fun h =>
  (.ok h.buffers.size, { h with buffers := h.buffers.push s })

def readBuffer (id : Nat) : HeapAction String := fun h =>
  (.ok (h.buffers[id]?.getD ""), h)

/-- Add to the end of a text buffer. -/
def appendBuffer (id : Nat) (s : String) : HeapAction Unit := fun h =>
  (.ok (), { h with buffers := h.buffers.modify id (· ++ s) })

def print (s : String) : HeapAction Unit := fun h =>
  (.ok (), { h with output := h.output ++ s })

/-- Add a line to the journal of the host. -/
def note (line : String) : HeapAction Unit := fun h =>
  (.ok (), { h with journal := h.journal.push line })

/-- The text of a value, given what the cells hold now. -/
def render (readable : Bool) (v : Value) : HeapAction String := fun h =>
  (.ok (v.render h.cells readable), h)

def renderAll (readable : Bool) (vs : List Value) : HeapAction (List String) :=
  fun h => (.ok (vs.map (Value.render h.cells readable)), h)

/-- A heap action as an action on the store. -/
def lift (x : HeapAction α) : Action α := fun s =>
  match x s.heap with
  | (.ok a, h) => .result a { s with heap := h }
  | (.error e, h) => .failure e { s with heap := h }

instance : MonadLift HeapAction Action := ⟨lift⟩

end HeapAction

end TinyLisp
