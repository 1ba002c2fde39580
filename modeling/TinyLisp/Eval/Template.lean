import TinyLisp.Eval.Basic

/-!
# Quotation

`quote` gives a form as data. `quasiquote` does too, but with the holes filled:
each list `(unquote x)` in it, reached through lists and vectors, is replaced by
the value of `x`. Maps are not looked into.
-/

namespace TinyLisp.Evaluator

/-- A hole with another number of arguments than one. -/
def badHole : Fault :=
  .malformed "unquote" "requires exactly 1 argument"

/-- A template with its holes filled, from the left, down to a depth. -/
def fillWithin (ev : Evaluator) (scope : Scope) :
    (depth : Nat) → Value → Action Value
  | 0, form => pure form
  | n + 1, form =>
    match form with
    | .list items span =>
      if form.isCallOf "unquote" then
        match items with
        | [_, form] => ev.eval form scope
        | _ => Action.fail badHole
      else do
        return .list (← Action.each (fillWithin ev scope n) items) span
    | .vector items span => do
      return .vector
        (.ofList (← Action.each (fillWithin ev scope n) items.toList)) span
    | form => pure form.toData

def fill (ev : Evaluator) (scope : Scope) (form : Value) : Action Value :=
  ev.fillWithin scope form.depth form

def quoteForm : List Value → Action Value
  | [form] => pure form.toData
  | _ => Action.fail (.malformed "quote" "requires exactly 1 argument")

def quasiquoteForm (ev : Evaluator) (scope : Scope) : List Value → Action Value
  | [form] => ev.fill scope form
  | _ => Action.fail (.malformed "quasiquote" "requires exactly 1 argument")

end TinyLisp.Evaluator
