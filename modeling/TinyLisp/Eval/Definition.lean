import TinyLisp.Eval.Basic

/-!
# Definitions and closures

`def`, `defn` and `defmacro` bind a name in the frame where they stand. A
closure keeps its parameter pattern as data, checked when the closure is made,
its body as one form, and the scope it was made in.
-/

namespace TinyLisp.Evaluator

/-- The name that a definition starts with. -/
def definedName (form : String) : List Value → Except Fault String
  | .symbol name _ :: _ => .ok name
  | _ => .error (.malformed form "first argument must be a symbol")

/-- Several forms as one: nothing is `nil`, more than one are a `do`. -/
def bodyForm : List Value → Value
  | [] => .nil
  | [form] => form
  | forms => .list (.symbol "do" none :: forms) none

/-- The checked parameter pattern of a closure, as data. -/
def parameters (form : String) : List Value → Except Fault Value
  | .vector patterns span :: _ => do
    let pattern := (Value.vector patterns span).toData
    Pattern.validate pattern
    return pattern
  | _ => .error (.malformed form "parameters must be a vector")

/-- Make a closure of a parameter vector and the forms behind it. -/
def makeClosure (form : String) (kind : ClosureKind) (name : Option String)
    (forms : List Value) (scope : Scope) : Action Value := do
  let pattern ← Action.ofExcept (parameters form forms)
  let id ← HeapAction.freshId
  return .closure kind name pattern (bodyForm forms.tail) (some scope) id

def defForm (ev : Evaluator) (args : List Value) (scope : Scope) :
    Action Value :=
  match args with
  | [_, form] => do
    let name ← Action.ofExcept (definedName "def" args)
    let v ← ev.eval form scope
    Action.define scope name v
    return v
  | _ => Action.fail (.malformed "def" "requires a name and a value")

/-- `(defn name [params] forms*)` and `(defmacro name [params] forms*)`. -/
def defClosureForm (form : String) (kind : ClosureKind) (args : List Value)
    (scope : Scope) : Action Value := do
  let name ← Action.ofExcept (definedName form args)
  let v ← makeClosure form kind (some name) args.tail scope
  Action.define scope name v
  return v

def fnForm (args : List Value) (scope : Scope) : Action Value :=
  makeClosure "fn" .function none args scope

end TinyLisp.Evaluator
