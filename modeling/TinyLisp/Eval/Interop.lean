import TinyLisp.Eval.Basic

/-!
# Talking to the host

`new` makes an object, `.` and `.member` use a member of one. The operands are
evaluated from the left; all else is up to the host.
-/

namespace TinyLisp.Evaluator

variable (host : Host) (ev : Evaluator)

/-- The constructor that a form names. A symbol without a binding is a global
of the host. -/
def constructor (form : Value) (scope : Scope) : Action Value :=
  match form with
  | .symbol name span =>
    match Value.hostGlobal? name with
    | some _ => ev.eval (.symbol name span) scope
    | none => do
      match ← Action.read (·.lookup scope name) with
      | some v => pure v
      | none => HeapAction.lift (host.global name)
  | form => ev.eval form scope

/-- `(new Constructor args*)`. -/
def newForm (args : List Value) (scope : Scope) : Action Value :=
  match args with
  | [] => Action.fail (.malformed "new" "requires a constructor")
  | form :: forms => do
    let ctor ← constructor host ev form scope
    let values ← ev.evalAll scope forms
    HeapAction.lift (host.construct ctor values)

def invokeForm (member : String) (target : Value) (forms : List Value)
    (scope : Scope) : Action Value := do
  let v ← ev.eval target scope
  let values ← ev.evalAll scope forms
  HeapAction.lift (host.invoke v member values)

/-- The member that a form names: a string, or a symbol with or without
a leading dot. -/
def memberName : Value → Except Fault String
  | .symbol name _ => .ok ((Value.memberCall? name).getD name)
  | .string s => .ok s
  | other => .error
      (.malformed "." ("member name must be a symbol, got " ++ other.typeName))

/-- `(. target member args*)`. -/
def dotForm (args : List Value) (scope : Scope) : Action Value :=
  match args with
  | target :: member :: forms => do
    let name ← Action.ofExcept (memberName member)
    invokeForm host ev name target forms scope
  | _ => Action.fail (.malformed "." "requires a target and a member name")

/-- `(.member target args*)`. -/
def memberForm (member : String) (args : List Value) (scope : Scope) :
    Action Value :=
  match args with
  | target :: forms => invokeForm host ev member target forms scope
  | [] => Action.fail (.malformed ("." ++ member) "requires a target")

end TinyLisp.Evaluator
