import TinyLisp.Eval.Form

/-!
# The evaluator

The rules of `Eval.Form` call the evaluator for the parts of a form. Here the
knot is tied. A program may run forever, so the evaluator works on a budget:
each call into it, and each closure body it goes on with, leaves one less. When
the budget is used up the outcome is `exhausted`, and a larger budget may give
another; any other outcome is final.

There are two strategies for the body of a closure that has been called. The
deferring one hands it back, to be gone on with when the step is over: a tail
call is a turn of the loop in `eval`. The direct one evaluates it on the spot.
-/

namespace TinyLisp

/-- When the body of a called closure is evaluated. -/
inductive Strategy where
  | deferring
  | direct
deriving DecidableEq, Repr

namespace Strategy

/-- What becomes of the body of a closure. -/
def enter (strategy : Strategy) (eval : Value → Scope → Action Value)
    (body : Value) (scope : Scope) : Action Bounce :=
  match strategy with
  | deferring => pure (.more body scope)
  | direct => do
    return .done (← eval body scope)

end Strategy

namespace Machine

variable (host : Host) (strategy : Strategy)

mutual

/-- The value of a form: its first step, and on with the body it leads to. -/
def eval : (budget : Nat) → Value → Scope → Action Value
  | 0, _, _ => Action.exhausted
  | n + 1, form, scope => do
    match ← step n form scope with
    | .done v => pure v
    | .more body inner => eval n body inner

/-- The first step of a form. A failure without a place is reported
at the form. -/
def step : (budget : Nat) → Value → Scope → Action Bounce
  | 0, _, _ => Action.exhausted
  | n + 1, form, scope =>
    let inner : Evaluator := ⟨eval n, step n, apply n, strategy.enter (eval n)⟩
    Action.located form.span (inner.stepForm host form scope)

def apply : (budget : Nat) → Value → List Value → Action Value
  | 0, _, _ => Action.exhausted
  | n + 1, f, args => do
    let inner : Evaluator := ⟨eval n, step n, apply n, strategy.enter (eval n)⟩
    match ← inner.applyStep host f args with
    | .done v => pure v
    | .more body inner => eval n body inner

end

end Machine

end TinyLisp
