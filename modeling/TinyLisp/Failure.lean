import TinyLisp.Reader.Program
import TinyLisp.Value.Render

/-!
# Failures

What can go wrong when a program is read or run. A fault is the cause, with its
wording in one place; a failure is a fault together with the form that it is
reported at. The innermost form wins: once a failure has a span it keeps it.

A handler in a program sees the wording of the fault and nothing else.
-/

namespace TinyLisp

/-- The kinds into which faults fall. -/
inductive FaultKind where
  | lexical
  | syntactic
  | reference
  | invalid
  | notCallable
  | thrown
  | host
  | io
deriving DecidableEq, Repr

/-- What a value was to be taken apart as. -/
inductive Aggregate where
  | sequence
  | map
deriving DecidableEq, Repr

/-- The cause of a failure. -/
inductive Fault where
  | lexical (f : Lexer.Fault)
  | reading (f : Reader.Fault)
  /-- A name without a binding. -/
  | unbound (name : String)
  /-- A special form or a pattern of the wrong shape. -/
  | malformed (form detail : String)
  | arity (name expected : String) (got : Nat)
  /-- An argument of the wrong type. -/
  | argument (name expected got : String)
  /-- A value of this type does not match the pattern. -/
  | mismatch (typeName : String) (wanted : Aggregate)
  | divisionByZero
  | outOfBounds (index : String) (length : Nat)
  /-- A key without a value among the arguments. -/
  | oddArguments (name : String)
  /-- Something other than a pair was added to a map. -/
  | notAnEntry
  /-- A complaint in the embedder's own words. -/
  | invalid (message : String)
  /-- A call of a value that is no function; its readable text. -/
  | notCallable (text : String)
  /-- Thrown by the program; the display text of what was thrown. -/
  | thrown (text : String)
  | host (message : String)
  | unreadable (path reason : String)
deriving DecidableEq, Repr

namespace Fault

def kind : Fault → FaultKind
  | lexical _ => .lexical
  | reading _ => .syntactic
  | unbound _ => .reference
  | malformed _ _ => .invalid
  | arity _ _ _ => .invalid
  | argument _ _ _ => .invalid
  | mismatch _ _ => .invalid
  | divisionByZero => .invalid
  | outOfBounds _ _ => .invalid
  | oddArguments _ => .invalid
  | notAnEntry => .invalid
  | invalid _ => .invalid
  | notCallable _ => .notCallable
  | thrown _ => .thrown
  | host _ => .host
  | unreadable _ _ => .io

def message : Fault → String
  | lexical f => f.message
  | reading f => f.message
  | unbound name => "Unable to resolve symbol: " ++ name
  | malformed form detail => "Invalid '" ++ form ++ "' form: " ++ detail
  | arity name expected got =>
    "Wrong number of arguments to '" ++ name ++ "': expected " ++
      expected ++ ", got "
      ++ Nat.repr got
  | argument name expected got =>
    name ++ ": expected " ++ expected ++ ", got " ++ got
  | mismatch typeName .sequence =>
    "Cannot destructure " ++ typeName ++ " as a sequence"
  | mismatch typeName .map => "Cannot destructure " ++ typeName ++ " as a map"
  | divisionByZero => "Division by zero"
  | outOfBounds index length =>
    "Index " ++ index ++ " out of bounds for length " ++ Nat.repr length
  | oddArguments name =>
    name ++ " expects an even number of key/value arguments"
  | notAnEntry => "conj on a map requires [key value] entries"
  | invalid message => message
  | notCallable text => "Cannot call value: " ++ text
  | thrown text => text
  | host message => message
  | unreadable path reason => "Cannot read " ++ path ++ ": " ++ reason

/-- The fault of calling `name` with an argument of the wrong type. -/
def wrongType (name expected : String) (got : Value) : Fault :=
  argument name expected got.typeName

/-- The fault of passing `name` a number of arguments other than `expected`. -/
def wrongCount (name : String) (expected got : Nat) : Fault :=
  arity name (Nat.repr expected) got

/-- The fault of running a native function that has nothing to run. -/
def noCode (name : String) : Fault :=
  host ("native function '" ++ name ++ "' has an invalid type")

/-- The fault of calling a closure that was made in no scope. -/
def noScope : Fault :=
  host "closure environment has an unexpected type"

end Fault

/-- A fault, and where it is reported. -/
structure Failure where
  fault : Fault
  span : Option Span
deriving DecidableEq, Repr

namespace Failure

def ofFault (f : Fault) : Failure := ⟨f, none⟩

instance : Coe Fault Failure := ⟨ofFault⟩

def ofLexError (e : LexError) : Failure := ⟨.lexical e.fault, some e.span⟩

def ofReadError (e : ReadError) : Failure := ⟨.reading e.fault, some e.span⟩

/-- Report the failure at `span`, unless it has a place already. -/
def locate (span : Option Span) (e : Failure) : Failure :=
  ⟨e.fault, e.span.or span⟩

/-- The failure as a line of text: the place, if there is one, and the
wording. -/
def text (e : Failure) : String :=
  match e.span with
  | some span => span.text ++ ": " ++ e.fault.message
  | none => e.fault.message

end Failure

end TinyLisp
