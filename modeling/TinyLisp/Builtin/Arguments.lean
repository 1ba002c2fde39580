import TinyLisp.Failure
import TinyLisp.Value.Data

/-!
# Checking arguments

Built-in functions check the number of their arguments first and then their
types, from the left.
-/

namespace TinyLisp.Arguments

def one (name : String) : List Value → Except Fault Value
  | [x] => .ok x
  | args => .error (.wrongCount name 1 args.length)

def two (name : String) : List Value → Except Fault (Value × Value)
  | [x, y] => .ok (x, y)
  | args => .error (.wrongCount name 2 args.length)

def number (name : String) : Value → Except Fault Float
  | .number x => .ok x
  | other => .error (.wrongType name "number" other)

def numbers (name : String) (args : List Value) : Except Fault (List Float) :=
  args.mapM (number name)

/-- The items of an argument that must be a sequence. `nil` is an empty one. -/
def sequence (name : String) : Value → Except Fault (List Value)
  | .list items _ => .ok items
  | .vector items _ => .ok items.toList
  | .nil => .ok []
  | other => .error (.wrongType name "sequence" other)

/-- The same items, to be found by index. -/
def indexed (name : String) : Value → Except Fault (Items Value)
  | .vector items _ => .ok items
  | other => (sequence name other).map .ofList

/-- An argument that must be a map. `nil` is an empty one. -/
def mapping (name : String) : Value → Except Fault ValueMap
  | .map m _ => .ok m
  | .nil => .ok {}
  | other => .error (.wrongType name "map" other)

end TinyLisp.Arguments
