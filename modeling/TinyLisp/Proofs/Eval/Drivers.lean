import TinyLisp.Proofs.Eval.Strategy

/-!
# Counting drivers

`eval` drives a form to its value: it takes the first step and goes on with the
body that the step hands back, as often as one is handed back. A part of a form
whose value is needed in the middle of a step is driven by another driver inside
the first. How far drivers nest is what a run takes from the stack of the
machine it runs on, and the budget does not show it, since it pays for turns of
a driver as well.

Here the evaluator is given a limit for drivers of its own. Entering a driver
uses one up and a turn of it uses none, so what ends within a limit never nests
drivers deeper. With as many drivers as the budget allows calls it is the
evaluator itself. A larger limit or budget changes nothing that has ended.
-/

namespace TinyLisp

open TinyLisp.Action (EndsAs)

theorem settle_endsAs {resume resume' : Resume}
    (h : ∀ body scope, EndsAs (resume body scope) (resume' body scope))
    (b : Bounce) : EndsAs (b.settle resume) (b.settle resume') := by
  cases b with
  | done v => exact EndsAs.refl _
  | more body scope => exact h body scope

/-- The body as a value, so that it can be told apart from a value and
from another body. -/
def sealed (id : ObjectId) : Resume := fun body scope =>
  pure (.closure .function none .nil body (some scope) id)

/-- Two steps that end alike however they are settled, end alike. -/
theorem endsAs_of_settled {x y : Action Bounce}
    (h : ∀ resume,
      EndsAs (x >>= Bounce.settle resume) (y >>= Bounce.settle resume)) :
    EndsAs x y := by
  intro s hs
  have hseal (id : ObjectId) : ((x >>= Bounce.settle (sealed id)) s).Agrees
      ((y >>= Bounce.settle (sealed id)) s) := by
    refine h _ s fun hx => hs ?_
    rw [Action.bind_apply] at hx
    cases hxs : x s with
    | result b t => rw [hxs] at hx; cases b <;> cases hx
    | failure e t => rw [hxs] at hx; cases hx
    | exhausted => rfl
  -- One seal tells bodies apart. Two of them tell a body from a value.
  have h0 := hseal 0
  have h1 := hseal 1
  rw [Action.bind_apply, Action.bind_apply] at h0 h1
  generalize x s = o at h0 h1
  generalize y s = o' at h0 h1
  rcases o with ⟨_ | _, _⟩ | ⟨⟨_, _⟩, _⟩ | _ <;>
    rcases o' with ⟨_ | _, _⟩ | ⟨⟨_, _⟩, _⟩ | _ <;>
    cases h0 <;> cases h1
  · exact .result _ _
  · exact .result _ _
  · exact .failure _ _ _ _

namespace Drivers

variable (host : Host)

mutual

/-- The value of a form, with a limit for how far drivers nest,
this one counted. -/
def eval : (budget drivers : Nat) → Value → Scope → Action Value
  | 0, _, _, _ => Action.exhausted
  | _ + 1, 0, _, _ => Action.exhausted
  | n + 1, d + 1, form, scope => do
    match ← step n d form scope with
    | .done v => pure v
    | .more body inner => eval n (d + 1) body inner

/-- The first step of a form. The drivers in it are inside the one that
takes the step. -/
def step : (budget drivers : Nat) → Value → Scope → Action Bounce
  | 0, _, _, _ => Action.exhausted
  | n + 1, d, form, scope =>
    let inner : Evaluator :=
      ⟨eval n d, step n d, apply n d, fun body scope => pure (.more body scope)⟩
    Action.located form.span (inner.stepForm host form scope)

def apply : (budget drivers : Nat) → Value → List Value → Action Value
  | 0, _, _, _ => Action.exhausted
  | _ + 1, 0, _, _ => Action.exhausted
  | n + 1, d + 1, f, args => do
    let inner : Evaluator :=
      ⟨eval n d, step n d, apply n d, fun body scope => pure (.more body scope)⟩
    match ← inner.applyStep host f args with
    | .done v => pure v
    | .more body inner => eval n (d + 1) body inner

end

/-- The evaluator that the rules are given at a budget and a limit for
drivers. -/
def inner (n d : Nat) : Evaluator :=
  ⟨eval host n d, step host n d, apply host n d, fun body scope =>
    pure (.more body scope)⟩

theorem eval_succ (n d : Nat) (form : Value) (scope : Scope) :
    eval host (n + 1) (d + 1) form scope =
      step host n d form scope >>= Bounce.settle (eval host n (d + 1)) := by
  rw [eval]
  refine congrArg _ (funext fun b => ?_)
  cases b <;> rfl

theorem step_succ (n d : Nat) (form : Value) (scope : Scope) :
    step host (n + 1) d form scope =
      Action.located form.span ((inner host n d).stepForm host form scope) := by
  rw [step]
  rfl

theorem apply_succ (n d : Nat) (f : Value) (args : List Value) :
    apply host (n + 1) (d + 1) f args =
      (inner host n d).applyStep host f args >>=
        Bounce.settle (eval host n (d + 1)) := by
  rw [apply]
  refine congrArg _ (funext fun b => ?_)
  cases b <;> rfl

/-! ## Larger limits -/

/-- Whatever ends at a budget and a limit ends so at larger ones. -/
theorem follows_of_le {n m d d' : Nat} (hn : n ≤ m) (hd : d ≤ d')
    (resume : Resume) :
    (inner host n d).Follows resume (inner host m d') resume := by
  induction n generalizing m d d' resume with
  | zero =>
      exact ⟨fun _ _ => Action.exhausted_endsAs _, fun _ _ =>
        Action.exhausted_endsAs _,
          fun _ _ => Action.exhausted_endsAs _, fun _ _ => EndsAs.refl _⟩
  | succ n ih =>
      obtain ⟨m, rfl⟩ : ∃ k, m = k + 1 := ⟨m - 1, by omega⟩
      have hle : n ≤ m := by omega
      refine ⟨fun form scope => ?_, fun f args => ?_, fun form scope => ?_,
        fun _ _ => EndsAs.refl _⟩
      · show EndsAs (eval host (n + 1) d form scope)
          (eval host (m + 1) d' form scope)
        cases d with
        | zero => exact Action.exhausted_endsAs _
        | succ d =>
            obtain ⟨d', rfl⟩ : ∃ k, d' = k + 1 := ⟨d' - 1, by omega⟩
            rw [eval_succ, eval_succ]
            have hrest := (ih hle hd resume).eval
            refine ((ih hle (Nat.le_of_succ_le_succ hd) _).step form
              scope).trans ?_
            exact EndsAs.after _ (settle_endsAs hrest)
      · show EndsAs (apply host (n + 1) d f args) (apply host (m + 1) d' f args)
        cases d with
        | zero => exact Action.exhausted_endsAs _
        | succ d =>
            obtain ⟨d', rfl⟩ : ∃ k, d' = k + 1 := ⟨d' - 1, by omega⟩
            rw [apply_succ, apply_succ]
            have hrest := (ih hle hd resume).eval
            refine ((ih hle (Nat.le_of_succ_le_succ hd) _).applyStep host f
              args).trans ?_
            exact EndsAs.after _ (settle_endsAs hrest)
      · show EndsAs (step host (n + 1) d form scope >>= Bounce.settle resume)
          (step host (m + 1) d' form scope >>= Bounce.settle resume)
        rw [step_succ, step_succ]
        refine EndsAs.trans ?_
          (EndsAs.trans ((ih hle hd resume).stepForm host form scope) ?_)
        · exact (Action.located_endsAs _ _).bind fun _ => EndsAs.refl _
        · exact (Action.endsAs_located _ _).bind fun _ => EndsAs.refl _

variable {host}

/-! ## Enough drivers -/

/-- Each driver takes from the budget, so with as many drivers none
is ever missing. -/
theorem inner_eq {n d : Nat} (h : n ≤ d) :
    inner host n d = Machine.inner host .deferring n := by
  suffices eval host n d = Machine.eval host .deferring n ∧
      step host n d = Machine.step host .deferring n ∧
      apply host n d = Machine.apply host .deferring n by
    obtain ⟨heval, hstep, happly⟩ := this
    rw [inner, heval, hstep, happly]
    rfl
  induction n generalizing d with
  | zero => exact ⟨rfl, rfl, rfl⟩
  | succ n ih =>
      obtain ⟨d, rfl⟩ : ∃ k, d = k + 1 := ⟨d - 1, by omega⟩
      have hinner {d : Nat} (h : n ≤ d) :
          inner host n d = Machine.inner host .deferring n := by
        obtain ⟨heval, hstep, happly⟩ := ih h
        rw [inner, heval, hstep, happly]
        rfl
      obtain ⟨heval, -, -⟩ := ih (d := d + 1) (by omega)
      obtain ⟨-, hstep, -⟩ := ih (d := d) (by omega)
      refine ⟨?_, ?_, ?_⟩
      · funext form scope
        rw [eval_succ, Machine.eval_succ, heval, hstep]
      · funext form scope
        rw [step_succ, Machine.step_succ, hinner (by omega)]
      · funext f args
        rw [apply_succ, Machine.apply_succ, hinner (by omega), heval]

end Drivers

end TinyLisp
