import TinyLisp.Eval.Basic

/-!
# Control

`if`, `do` and `let` end in the step of their last form, so that a call there is
a tail call. `throw` fails with the display text of a value. `try` evaluates its
body form by form; when one fails and there is a `catch`, the handler runs in a
frame of its own that binds the wording of the fault.
-/

namespace TinyLisp.Evaluator

variable (ev : Evaluator)

def ifForm (args : List Value) (scope : Scope) : Action Bounce :=
  match args with
  | [test, yes] => do
    if (← ev.eval test scope).truthy then ev.step yes scope
    else return .done .nil
  | [test, yes, no] => do
    if (← ev.eval test scope).truthy then ev.step yes scope
    else ev.step no scope
  | _ => Action.fail (.malformed "if" "requires 2 or 3 arguments")

/-- Bind patterns to the values of the forms behind them, each seeing
those before it. -/
def bindPairs (scope : Scope) : List Value → Action Unit
  | pattern :: form :: rest => do
    let v ← ev.eval form scope
    ev.bind pattern v scope
    bindPairs scope rest
  | _ => pure ()

/-- `(let [pattern form ...] forms*)`. -/
def letForm (args : List Value) (scope : Scope) : Action Bounce :=
  match args with
  | .vector bindings _ :: body =>
    if bindings.size % 2 = 0 then do
      let inner ← Action.enter scope
      bindPairs ev inner bindings.toList
      ev.stepBody inner body
    else
      Action.fail (.malformed "let"
        "requires an even number of forms in the binding vector")
  | _ => Action.fail (.malformed "let" "requires a vector of bindings")

def throwForm (args : List Value) (scope : Scope) : Action Bounce :=
  match args with
  | [form] => do
    failShowing false (← ev.eval form scope) .thrown
  | _ => Action.fail (.malformed "throw" "requires exactly 1 argument")

structure Handler where
  name : String
  forms : List Value

/-- The handler that a `catch` clause holds, or nothing if the form is
no such clause. -/
def handler? (form : Value) : Option (Except Fault Handler) :=
  match form with
  | .list (head :: rest) _ =>
    if head.isSymbol "catch" then
      match rest with
      | .symbol name _ :: forms => some (.ok ⟨name, forms⟩)
      | _ => some (.error (.malformed "catch" "error name must be a symbol"))
    else none
  | _ => none

/-- The body of a `try` and its handler. The last of several clauses counts, but
all are checked. -/
def splitHandlers : List Value → Except Fault (List Value × Option Handler)
  | [] => .ok ([], none)
  | form :: forms =>
    match handler? form with
    | none => do
      let (body, h) ← splitHandlers forms
      return (form :: body, h)
    | some (.error fault) => .error fault
    | some (.ok h) => do
      let (body, later) ← splitHandlers forms
      return (body, later.or (some h))

def handle (h : Handler) (e : Failure) (scope : Scope) : Action Bounce := do
  let inner ← Action.enter scope
  Action.define inner h.name (.string e.fault.message)
  ev.stepBody inner h.forms

/-- `(try forms* (catch name forms*))`. -/
def tryForm (args : List Value) (scope : Scope) : Action Bounce := do
  let (body, handler) ← Action.ofExcept (splitHandlers args)
  match ← Action.attempt (ev.evalLast scope body), handler with
  | .ok v, _ => return .done v
  | .error e, some h => handle ev h e scope
  | .error e, none => Action.rethrow e

end TinyLisp.Evaluator
