import TinyLisp.Builtin.Call
import TinyLisp.Pattern.Bind

/-!
# What evaluation is made of

Evaluating a form takes steps. A step either finishes with a value or comes to a
call of a closure, whose body is then still to be evaluated; handing it back
instead of evaluating it at once is what keeps a chain of tail calls flat.

The rules of evaluation are written here against an `Evaluator`, the
evaluator as they call it for the parts of a form. Tying the knot is
left to `Eval.Machine`.
-/

namespace TinyLisp

/-- A finished value, or a body that is still to be evaluated in a scope. -/
inductive Bounce where
  | done (value : Value)
  | more (body : Value) (scope : Scope)

/-- The evaluator as its own rules call it. -/
structure Evaluator where
  eval : Value → Scope → Action Value
  /-- The first step of a form. -/
  step : Value → Scope → Action Bounce
  apply : Value → List Value → Action Value
  /-- What becomes of the body of a closure that has been called. -/
  enter : Value → Scope → Action Bounce

namespace Evaluator

/-- The values of several forms, from the left. -/
def evalAll (ev : Evaluator) (scope : Scope) (forms : List Value) :
    Action (List Value) :=
  Action.each (ev.eval · scope) forms

/-- The value of the last of several forms, after those before it. -/
def evalLast (ev : Evaluator) (scope : Scope) : List Value → Action Value
  | [] => pure .nil
  | [form] => ev.eval form scope
  | form :: forms => do
    let _ ← ev.eval form scope
    ev.evalLast scope forms

/-- The first step of the last of several forms, after the values of
those before it. -/
def stepBody (ev : Evaluator) (scope : Scope) : List Value → Action Bounce
  | [] => pure (.done .nil)
  | [form] => ev.step form scope
  | form :: forms => do
    let _ ← ev.eval form scope
    ev.stepBody scope forms

/-- Add pairs of forms to a map, each key evaluated before its value. -/
def evalEntries (ev : Evaluator) (scope : Scope) (m : ValueMap) :
    List (Value × Value) → Action ValueMap
  | [] => pure m
  | (k, v) :: pairs => do
    let key ← ev.eval k scope
    let value ← ev.eval v scope
    ev.evalEntries scope (m.insert key value) pairs

def bind (ev : Evaluator) (pattern value : Value) (scope : Scope) :
    Action Unit :=
  Pattern.bind ev.eval pattern value scope

end Evaluator

/-- Fail with a fault that shows a value. -/
def failShowing {α : Type} (readable : Bool) (v : Value)
    (fault : String → Fault) : Action α :=
  fun s => .failure (.ofFault (fault (v.render s.heap.cells readable))) s

/-- The failure of calling something that is no function. -/
def failNotCallable {α : Type} (v : Value) : Action α :=
  failShowing true v .notCallable

/-- A new scope inside the one that a closure was made in. -/
def enterClosure : Option Scope → Action Scope
  | some scope => Action.enter scope
  | none => Action.fail .noScope

end TinyLisp
