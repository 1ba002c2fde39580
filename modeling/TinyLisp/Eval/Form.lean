import TinyLisp.Eval.Application
import TinyLisp.Eval.Control
import TinyLisp.Eval.Definition
import TinyLisp.Eval.Interop
import TinyLisp.Eval.Template

/-!
# The rules of evaluation

A symbol stands for its binding, or for a global of the host. Vectors and maps
evaluate their parts. A list is a special form if its head names one, then a
member call if its head starts with a dot, and else an application; the empty
list is `nil`. Everything else stands for itself.

Special forms are recognised by name alone, whatever the name is bound to.
-/

namespace TinyLisp

inductive Special where
  | define
  | defineFunction
  | defineExpander
  | function
  | branch
  | sequence
  | bindings
  | quote
  | quasiquote
  | unquote
  | attempt
  | throw
  | construct
  | member
deriving DecidableEq, Repr

def Special.ofName? : String → Option Special
  | "def" => some .define
  | "defn" => some .defineFunction
  | "defmacro" => some .defineExpander
  | "fn" => some .function
  | "if" => some .branch
  | "do" => some .sequence
  | "let" => some .bindings
  | "quote" => some .quote
  | "quasiquote" => some .quasiquote
  | "unquote" => some .unquote
  | "try" => some .attempt
  | "throw" => some .throw
  | "new" => some .construct
  | "." => some .member
  | _ => none

namespace Evaluator

variable (host : Host) (ev : Evaluator)

/-- An action that finishes in one step. -/
def finish (x : Action Value) : Action Bounce := do
  return .done (← x)

def stepSpecial (form : Special) (args : List Value) (scope : Scope) :
    Action Bounce :=
  match form with
  | .define => finish (defForm ev args scope)
  | .defineFunction => finish (defClosureForm "defn" .function args scope)
  | .defineExpander => finish (defClosureForm "defmacro" .expander args scope)
  | .function => finish (fnForm args scope)
  | .branch => ifForm ev args scope
  | .sequence => ev.stepBody scope args
  | .bindings => letForm ev args scope
  | .quote => finish (quoteForm args)
  | .quasiquote => finish (quasiquoteForm ev scope args)
  | .unquote => Action.fail (.malformed "unquote" "used outside of quasiquote")
  | .attempt => tryForm ev args scope
  | .throw => throwForm ev args scope
  | .construct => finish (newForm host ev args scope)
  | .member => finish (dotForm host ev args scope)

/-- What the head of a list makes it. -/
inductive Operator where
  | special (form : Special)
  | member (name : String)
  | value

def operator : Value → Operator
  | .symbol name _ =>
    match Special.ofName? name with
    | some form => .special form
    | none =>
      match Value.memberCall? name with
      | some member => .member member
      | none => .value
  | _ => .value

def stepList (head : Value) (args : List Value) (scope : Scope) :
    Action Bounce :=
  match operator head with
  | .special form => stepSpecial host ev form args scope
  | .member name => finish (memberForm host ev name args scope)
  | .value => stepApplication host ev head args scope

def evalSymbol (name : String) (scope : Scope) : Action Value :=
  match Value.hostGlobal? name with
  | some global => HeapAction.lift (host.global global)
  | none => Action.resolve scope name

def stepForm (form : Value) (scope : Scope) : Action Bounce :=
  match form with
  | .symbol name _ => finish (evalSymbol host name scope)
  | .vector items span => do
    return .done (.vector (.ofList (← ev.evalAll scope items.toList)) span)
  | .mapForm pairs span => do
    return .done (.map (← ev.evalEntries scope {} pairs) span)
  | .map m span => do
    return .done (.map (← ev.evalEntries scope {} m.entries) span)
  | .list [] _ => return .done .nil
  | .list (head :: args) _ => stepList host ev head args scope
  | v => return .done v

end Evaluator

end TinyLisp
