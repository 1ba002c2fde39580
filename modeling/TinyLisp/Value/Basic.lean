import TinyLisp.Builtin.Name
import TinyLisp.HashTrie.Basic
import TinyLisp.Source.Position
import TinyLisp.Value.Items

/-!
# Values

One type holds both the forms that are read and the values that programs
compute, since either can become the other. A form that was read carries its
span; spans take part in neither equality nor hashing.

A map literal is kept as it was read, a list of pairs in source order, because
its keys and values are still to be evaluated. Evaluating it, or taking it as
data, makes it a map.

Atoms, functions and host objects have an identity. An atom is its cell in the
store; the others carry a number that no other object has.
-/

namespace TinyLisp

/-- The number of a cell, the mutable place that an atom names. -/
abbrev CellId := Nat

/-- The number of an object with an identity. -/
abbrev ObjectId := Nat

/-- The number of a frame, a set of variable bindings. -/
abbrev FrameId := Nat

/-- Where an expression stands: the frame it can bind in and the frames around
it, innermost first. -/
structure Scope where
  here : FrameId
  outer : List FrameId
deriving DecidableEq, Repr

/-- The frames that a name is looked up in, in this order. -/
def Scope.frames (s : Scope) : List FrameId := s.here :: s.outer

/-- What calling a closure does with its arguments. -/
inductive ClosureKind where
  /-- Binds their values and gives the value of the body. -/
  | function
  /-- Binds them unevaluated and gives a form to be evaluated in their place. -/
  | expander
deriving DecidableEq, Repr

/-- What a native function runs. -/
inductive NativeCode where
  | builtin (b : Builtin)
  /-- A function of the host under a key, with a cell of its own. -/
  | custom (key : String) (cell : CellId)
  /-- Nothing that can be run. -/
  | missing
deriving DecidableEq, Repr

/-- What a host object holds. -/
inductive HostState where
  | bare
  /-- The constructor of the named type. -/
  | constructor (name : String)
  /-- A text buffer of the store. -/
  | buffer (id : Nat)
deriving DecidableEq, Repr

/-- A form or a value. -/
inductive Value where
  | nil
  | bool (b : Bool)
  | number (x : Float)
  | string (s : String)
  | symbol (name : String) (span : Option Span)
  | keyword (name : String)
  | list (items : List Value) (span : Option Span)
  | vector (items : Items Value) (span : Option Span)
  | map (entries : HashTrie Value Value) (span : Option Span)
  /-- A map literal: the pairs as they were read. -/
  | mapForm (pairs : List (Value × Value)) (span : Option Span)
  | atom (cell : CellId)
  /-- A closure with its parameter pattern, its body and the scope it
  was made in. -/
  | closure (kind : ClosureKind) (name : Option String) (params body : Value)
      (scope : Option Scope) (id : ObjectId)
  | native (name : String) (code : NativeCode) (id : ObjectId)
  | host (typeName : String) (state : HostState) (id : ObjectId)

namespace Value

instance : Inhabited Value := ⟨nil⟩

/-- The vector of several items, read from no source. -/
def vectorOf (xs : List Value) : Value := vector (.ofList xs) none

def typeName : Value → String
  | nil => "nil"
  | bool _ => "boolean"
  | number _ => "number"
  | string _ => "string"
  | symbol _ _ => "symbol"
  | keyword _ => "keyword"
  | list _ _ => "list"
  | vector _ _ => "vector"
  | map _ _ => "map"
  | mapForm _ _ => "map"
  | atom _ => "atom"
  | closure .function _ _ _ _ _ => "fn"
  | closure .expander _ _ _ _ _ => "macro"
  | native _ _ _ => "native-fn"
  | host _ _ _ => "host-object"

/-- Where a form was read. -/
def span : Value → Option Span
  | symbol _ s => s
  | list _ s => s
  | vector _ s => s
  | map _ s => s
  | mapForm _ s => s
  | _ => none

/-- Everything but `nil` and `false` counts as true. -/
def truthy : Value → Bool
  | nil => false
  | bool b => b
  | _ => true

def isNil : Value → Bool
  | nil => true
  | _ => false

def items? : Value → Option (List Value)
  | list xs _ => some xs
  | vector xs _ => some xs.toList
  | _ => none

def symbolName? : Value → Option String
  | symbol name _ => some name
  | _ => none

def isKeyword (v : Value) (name : String) : Bool :=
  match v with
  | keyword n => n == name
  | _ => false

def isSymbol (v : Value) (name : String) : Bool :=
  match v with
  | symbol n _ => n == name
  | _ => false

/-- Whether the value is a list whose head is the symbol of this name. -/
def isCallOf (v : Value) (name : String) : Bool :=
  match v with
  | list (head :: _) _ => head.isSymbol name
  | _ => false

/-- What follows `lead` in `name`, if anything does. -/
def afterLead? (lead name : String) : Option String :=
  let cs := name.toList
  if lead.toList.isPrefixOf cs && lead.length < name.length then
    some (String.ofList (cs.drop lead.length))
  else none

/-- The host global that a symbol such as `host/Math` names. -/
def hostGlobal? (name : String) : Option String :=
  afterLead? "host/" name

/-- The member that a symbol such as `.length` calls. -/
def memberCall? (name : String) : Option String :=
  afterLead? "." name

end Value

end TinyLisp
