import TinyLisp.Eval.Basic

/-!
# Calling functions

A closure binds its parameters in a new frame inside the scope it was made in. A
function's body is then entered; an expander's body is evaluated, and what it
gives is a form that takes the place of the call.
-/

namespace TinyLisp

namespace Evaluator

variable (host : Host) (ev : Evaluator)

def callNative (name : String) (code : NativeCode) (args : List Value) :
    Action Value :=
  match code with
  | .builtin b => b.call ev.apply args
  | .custom key cell => HeapAction.lift (host.call key cell args)
  | .missing => Action.fail (.noCode name)

/-- The first step of a call. Only closures have more than one. -/
def applyStep (f : Value) (args : List Value) : Action Bounce :=
  match f with
  | .closure .function _ params body scope _ => do
    let inner ← enterClosure scope
    ev.bind params (.vectorOf args) inner
    ev.enter body inner
  | .native name code _ => do
    return .done (← callNative host ev name code args)
  | .keyword name => do
    return .done (← Action.ofExcept (Mapping.keywordCall name args))
  | other => failNotCallable other

/-- The form that an expander makes of the forms it is called with. It sees
them as data. -/
def expand (params body : Value) (scope : Option Scope) (forms : List Value) :
    Action Value := do
  let inner ← enterClosure scope
  ev.bind params (.vectorOf (forms.map Value.toData)) inner
  ev.eval body inner

/-- The first step of a list that is no special form: its head says what to do
with the rest. -/
def stepApplication (head : Value) (forms : List Value) (scope : Scope) :
    Action Bounce := do
  match ← ev.eval head scope with
  | .closure .expander _ params body inner _ => do
    let form ← expand ev params body inner forms
    ev.step form scope
  | .closure .function name params body inner id => do
    let args ← ev.evalAll scope forms
    applyStep host ev (.closure .function name params body inner id) args
  | .native name code id => do
    let args ← ev.evalAll scope forms
    applyStep host ev (.native name code id) args
  | .keyword name => do
    let args ← ev.evalAll scope forms
    applyStep host ev (.keyword name) args
  | other => failNotCallable other

end Evaluator

end TinyLisp
