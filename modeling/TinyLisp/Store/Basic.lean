import TinyLisp.Value.Basic

/-!
# The store

Everything that running a program can change. Frames hold variable bindings;
the heap holds the rest: the cells of atoms, the text buffers of the host, the
number for the next object, what has been printed, and the journal. Nothing is
ever taken out of the store, so a number that was handed out stays valid.

The journal belongs to the host, which consists of functions and has no other
place for what it has to remember. No rule of the language reads or writes it.
-/

namespace TinyLisp

abbrev Bindings := List (String × Value)

namespace Bindings

def find? (name : String) : Bindings → Option Value
  | [] => none
  | b :: bs => if b.1 == name then some b.2 else find? name bs

def contains (name : String) (bs : Bindings) : Bool :=
  (find? name bs).isSome

/-- Replace the value of a variable that is bound. -/
def replace (name : String) (value : Value) : Bindings → Bindings
  | [] => []
  | b :: bs =>
    if b.1 == name then (name, value) :: bs else b :: replace name value bs

/-- Bind a variable. A new one goes to the front. -/
def set (name : String) (value : Value) (bs : Bindings) : Bindings :=
  if bs.contains name then replace name value bs else (name, value) :: bs

end Bindings

/-- What a program can change, variables apart. -/
structure Heap where
  cells : Array Value := #[]
  buffers : Array String := #[]
  nextId : ObjectId := 0
  output : String := ""
  journal : Array String := #[]

/-- The frames and the heap. -/
structure Store where
  frames : Array Bindings := #[]
  heap : Heap := {}

namespace Store

/-- The value of a variable in the first of several frames that binds it. -/
def lookupIn (s : Store) (name : String) : List FrameId → Option Value
  | [] => none
  | f :: fs =>
    match s.frames[f]?.bind (Bindings.find? name) with
    | some v => some v
    | none => lookupIn s name fs

/-- The value of a variable as seen from a scope. -/
def lookup (s : Store) (scope : Scope) (name : String) : Option Value :=
  s.lookupIn name scope.frames

def bind (s : Store) (scope : Scope) (name : String) (value : Value) : Store :=
  { s with frames := s.frames.modify scope.here (Bindings.set name value) }

/-- A scope inside another, with a frame of its own. -/
def enter (s : Store) (scope : Scope) : Scope × Store :=
  (⟨s.frames.size, scope.frames⟩, { s with frames := s.frames.push [] })

/-- The store with what was printed and noted taken away. -/
def silenced (s : Store) : Store :=
  { s with heap := { s.heap with output := "", journal := #[] } }

/-- How many variables the frame of a scope binds. -/
def count (s : Store) (scope : Scope) : Nat :=
  match s.frames[scope.here]? with
  | some bs => bs.length
  | none => 0

end Store

end TinyLisp
