import TinyLisp.Eval.Machine
import TinyLisp.Proofs.Eval.Rules

/-!
# Deferring the body of a closure changes nothing

The two strategies give every form the same fate: one ends if and only if the
other does, with the same value or fault and the same store.

Both are the same rules with the knot tied differently, so `Evaluator.Follows`
does the work, and what is left is a count of budgets. The deferring evaluator
needs no more than the direct one, since a body that is handed back is gone on
with at a budget at least as large as the one it would have been evaluated at.
The other way round there is a price: the direct evaluator nests the bodies that
the deferring one runs through in a loop, and each starts where the one before
it has got to. `nested n` is enough for whatever the deferring evaluator ends
with at `n`.
-/

namespace TinyLisp

open TinyLisp.Action (EndsAs)
open Evaluator (Handler splitHandlers handle)

namespace Machine

variable (host : Host)

/-- The evaluator that the rules are given at a budget. -/
def inner (strategy : Strategy) (n : Nat) : Evaluator :=
  ⟨eval host strategy n, step host strategy n, apply host strategy n,
    strategy.enter (eval host strategy n)⟩

theorem eval_succ (strategy : Strategy) (n : Nat) (form : Value)
    (scope : Scope) :
    eval host strategy (n + 1) form scope =
      step host strategy n form scope >>=
        Bounce.settle (eval host strategy n) := by
  rw [eval]
  refine congrArg _ (funext fun b => ?_)
  cases b <;> rfl

theorem step_succ (strategy : Strategy) (n : Nat) (form : Value)
    (scope : Scope) :
    step host strategy (n + 1) form scope =
      Action.located form.span
        ((inner host strategy n).stepForm host form scope) := by
  rw [step]
  rfl

theorem apply_succ (strategy : Strategy) (n : Nat) (f : Value)
    (args : List Value) :
    apply host strategy (n + 1) f args =
      (inner host strategy n).applyStep host f args >>=
        Bounce.settle (eval host strategy n) := by
  rw [apply]
  refine congrArg _ (funext fun b => ?_)
  cases b <;> rfl

theorem enter_deferring (eval resume : Resume) (body : Value) (scope : Scope) :
    Strategy.deferring.enter eval body scope >>= Bounce.settle resume =
      resume body scope := rfl

theorem finish_settle (x : Action Value) (resume : Resume) :
    Evaluator.finish x >>= Bounce.settle resume = x := by
  rw [Evaluator.finish, bind_assoc]
  exact bind_pure x

theorem enter_direct (eval resume : Resume) (body : Value) (scope : Scope) :
    Strategy.direct.enter eval body scope >>= Bounce.settle resume =
      eval body scope :=
  finish_settle (eval body scope) resume

variable {host}

/-- A form whose first step comes to finishing with an action is
over after it. -/
theorem eval_of_finish {strategy : Strategy} {n : Nat} {form : Value}
    {scope : Scope} {x : Action Value} {s t : Store}
    (h : (inner host strategy n).stepForm host form scope s =
      Evaluator.finish x t) :
    eval host strategy (n + 2) form scope s = Action.located form.span x t := by
  rw [eval_succ, step_succ, Action.bind_apply, Action.located, h,
    Action.located, Evaluator.finish, Action.bind_apply]
  cases x t <;> rfl

theorem step_succ_endsAs {σ τ : Strategy} {n m : Nat} {resume resume' : Resume}
    (h : (inner host σ n).Follows resume (inner host τ m) resume')
    (form : Value) (scope : Scope) :
    EndsAs (step host σ (n + 1) form scope >>= Bounce.settle resume)
      (step host τ (m + 1) form scope >>= Bounce.settle resume') := by
  rw [step_succ, step_succ]
  refine EndsAs.trans ?_ (EndsAs.trans (h.stepForm host form scope) ?_)
  · exact (Action.located_endsAs _ _).bind fun _ => EndsAs.refl _
  · exact (Action.endsAs_located _ _).bind fun _ => EndsAs.refl _

/-! ## Larger budgets, and from direct to deferring -/

/-- At budget `n` of the one strategy everything ends as at budget `m` of the
other. A step of the second is settled by something that ends as the bodies of
the first do. -/
structure Covered (host : Host) (σ τ : Strategy) (n m : Nat) : Prop where
  eval : ∀ form scope,
    EndsAs (eval host σ n form scope) (eval host τ m form scope)
  apply : ∀ f args, EndsAs (apply host σ n f args) (apply host τ m f args)
  step : ∀ resume resume' : Resume,
    (∀ body scope, EndsAs (resume body scope) (resume' body scope)) →
    (∀ k < n, ∀ body scope,
      EndsAs (Machine.eval host σ k body scope) (resume' body scope)) →
    ∀ form scope, EndsAs (step host σ n form scope >>= Bounce.settle resume)
      (step host τ m form scope >>= Bounce.settle resume')

theorem Covered.follows {σ τ : Strategy} (h : σ = .direct ∨ τ = .deferring)
    {n m : Nat} (hc : Covered host σ τ n m) {resume resume' : Resume}
    (hresume : ∀ body scope, EndsAs (resume body scope) (resume' body scope))
    (hbody : ∀ k < n + 1, ∀ body scope,
      EndsAs (Machine.eval host σ k body scope) (resume' body scope)) :
    (inner host σ n).Follows resume (inner host τ m) resume' := by
  refine ⟨hc.eval, hc.apply,
    hc.step _ _ hresume fun k hk => hbody k (by omega), ?_⟩
  intro body scope
  show EndsAs (σ.enter (Machine.eval host σ n) body scope >>=
    Bounce.settle resume)
    (τ.enter (Machine.eval host τ m) body scope >>= Bounce.settle resume')
  cases σ with
  | direct => cases τ with
    | direct =>
        rw [enter_direct, enter_direct]
        exact hc.eval body scope
    | deferring =>
        rw [enter_direct, enter_deferring]
        exact hbody n (by omega) body scope
  | deferring => cases τ with
    | direct => rcases h with h | h <;> cases h
    | deferring => exact hresume body scope

/-- A budget covers every smaller one, and the deferring evaluator covers
the direct one. -/
theorem covered_of_le {σ τ : Strategy} (h : σ = .direct ∨ τ = .deferring)
    {n m : Nat} (hle : n ≤ m) : Covered host σ τ n m := by
  induction n using Nat.strongRecOn generalizing m with
  | ind n ih =>
      cases n with
      | zero =>
          exact ⟨fun _ _ => Action.exhausted_endsAs _,
            fun _ _ => Action.exhausted_endsAs _, fun _ _ _ _ _ _ =>
              Action.exhausted_endsAs _⟩
      | succ n =>
          obtain ⟨m, rfl⟩ : ∃ k, m = k + 1 := ⟨m - 1, by omega⟩
          have hc : Covered host σ τ n m := ih n (by omega) (by omega)
          have hbody : ∀ k < n + 1, ∀ body scope,
              EndsAs (Machine.eval host σ k body scope)
                (Machine.eval host τ m body scope) :=
            fun k hk => (ih k hk (by omega)).eval
          refine ⟨fun form scope => ?_, fun f args => ?_,
            fun resume resume' hr hb => ?_⟩
          · rw [eval_succ, eval_succ]
            exact hc.step _ _ hc.eval (fun k hk => hbody k (by omega)) form scope
          · rw [apply_succ, apply_succ]
            exact (hc.follows h hc.eval hbody).applyStep host f args
          · exact step_succ_endsAs (hc.follows h hr hb)

/-! ## From deferring to direct -/

/-- A budget for the direct evaluator that is enough for what the deferring one
does at `n`. -/
def nested : Nat → Nat
  | 0 => 0
  | n + 1 => nested n + n + 1

section

variable {n : Nat} (heval : ∀ m ≥ nested n, ∀ form scope,
    EndsAs (eval host .deferring n form scope) (eval host .direct m form scope))
  (happly : ∀ m ≥ nested n, ∀ f args,
    EndsAs (apply host .deferring n f args) (apply host .direct m f args))
include heval happly

theorem follows_direct {j : Nat} (hj : j ≤ n) {m : Nat} (hm : nested n ≤ m)
    {resume : Resume}
    (hstep : ∀ form scope, EndsAs (step host .deferring j form scope >>=
      Bounce.settle (eval host .deferring n))
      (step host .direct m form scope >>= Bounce.settle resume)) :
    (inner host .deferring j).Follows (eval host .deferring n)
      (inner host .direct m) resume := by
  have hmono : Covered host .deferring .deferring j n :=
    covered_of_le (.inr rfl) hj
  refine ⟨fun form scope => (hmono.eval form scope).trans (heval m hm form scope),
    fun f args => (hmono.apply f args).trans (happly m hm f args), hstep,
    fun body scope => ?_⟩
  show EndsAs (eval host .deferring n body scope)
    (Strategy.direct.enter (eval host .direct m) body scope >>=
      Bounce.settle resume)
  rw [enter_direct]
  exact heval m hm body scope

theorem step_direct {j : Nat} (hj : j ≤ n) {m : Nat} (hm : nested n + j ≤ m)
    (resume : Resume) (form : Value) (scope : Scope) :
    EndsAs (step host .deferring j form scope >>=
      Bounce.settle (eval host .deferring n))
      (step host .direct m form scope >>= Bounce.settle resume) := by
  induction j generalizing m form scope with
  | zero => exact Action.exhausted_endsAs _
  | succ j ih =>
      obtain ⟨m, rfl⟩ : ∃ k, m = k + 1 := ⟨m - 1, by omega⟩
      refine step_succ_endsAs
        (follows_direct heval happly (by omega) (by omega) ?_) form scope
      exact ih (by omega) (by omega)

end

theorem direct_covers_deferring (n : Nat) : ∀ m ≥ nested n,
    (∀ form scope, EndsAs (eval host .deferring n form scope)
      (eval host .direct m form scope)) ∧
      ∀ f args, EndsAs (apply host .deferring n f args)
        (apply host .direct m f args) := by
  induction n with
  | zero =>
      exact fun m _ => ⟨fun _ _ => Action.exhausted_endsAs _,
        fun _ _ => Action.exhausted_endsAs _⟩
  | succ n ih =>
      intro m hm
      have heval := fun m hm => (ih m hm).1
      have happly := fun m hm => (ih m hm).2
      rw [nested] at hm
      obtain ⟨m, rfl⟩ : ∃ k, m = k + 1 := ⟨m - 1, by omega⟩
      have hstep (resume : Resume) :=
        step_direct heval happly (Nat.le_refl n) (m := m) (by omega)
          resume
      refine ⟨fun form scope => ?_, fun f args => ?_⟩
      · rw [eval_succ, eval_succ]
        exact hstep _ form scope
      · rw [apply_succ, apply_succ]
        have hfollows := follows_direct heval happly (Nat.le_refl n) (by omega)
          (hstep (eval host .direct m))
        exact hfollows.applyStep host f args

/-! ## Failures inside `try` -/

/-- The forms behind one that fails are not looked at. -/
theorem evalLast_failure {ev : Evaluator} {scope : Scope}
    {before after vs : List Value} {form : Value} {s t u : Store} {e : Failure}
    (hbefore : ev.evalAll scope before s = .result vs t)
    (hform : ev.eval form scope t = .failure e u) :
    ev.evalLast scope (before ++ form :: after) s = .failure e u := by
  induction before generalizing s vs with
  | nil =>
      cases hbefore
      cases after with
      | nil => exact hform
      | cons next after => exact Action.bind_of_failure hform
  | cons first before ih =>
      obtain ⟨v, s', hfirst, hrest⟩ := Action.bind_eq_result hbefore
      obtain ⟨vs', t', hrest, hpure⟩ := Action.bind_eq_result hrest
      cases hpure
      have hcons : ev.evalLast scope (first :: before ++ form :: after) =
          ev.eval first scope >>= fun _ =>
            ev.evalLast scope (before ++ form :: after) := by
        cases before <;> rfl
      rw [hcons, Action.bind_of_result hfirst]
      exact ih hrest

/-- A `try` that has a handler gives it whatever its body fails with. -/
theorem step_try {n : Nat} {strategy : Strategy}
    {args before after vs : List Value} {form : Value} {h : Handler}
    {scope : Scope} {s t u : Store} {e : Failure}
    (hsplit : splitHandlers args = .ok (before ++ form :: after, some h))
    (hbefore : (inner host strategy n).evalAll scope before s = .result vs t)
    (hform : eval host strategy n form scope t = .failure e u)
    (p q : Option Span) :
    step host strategy (n + 1) (.list (.symbol "try" p :: args) q) scope s =
      Action.located q (handle (inner host strategy n) h e scope) u := by
  have htry : (inner host strategy n).tryForm args scope s =
      handle (inner host strategy n) h e scope u := by
    have hbody :
        Action.attempt
          ((inner host strategy n).evalLast scope (before ++ form :: after)) s =
            .result (.error e) u := by
      rw [Action.attempt, evalLast_failure hbefore hform]
    rw [Evaluator.tryForm, hsplit]
    exact Action.bind_of_result hbody
  rw [step_succ]
  show Action.located q ((inner host strategy n).tryForm args scope) s = _
  rw [Action.located, Action.located, htry]

/-- For every form, scope and store, the deferring evaluator ends if and
only if the direct one does, and then both end alike: the same value or the
same fault, and the same store. In particular a call that a form in the body
of a `try` hands back is over, if it fails, before the handler of that `try`
is looked for. -/
theorem deferring_agrees_with_direct (host : Host) (form : Value)
    (scope : Scope) (s : Store) :
    ((∃ n, eval host .deferring n form scope s ≠ .exhausted) ↔
      ∃ n, eval host .direct n form scope s ≠ .exhausted) ∧
    (∀ n m, eval host .deferring n form scope s ≠ .exhausted →
      eval host .direct m form scope s ≠ .exhausted →
      (eval host .deferring n form scope s).Agrees
      (eval host .direct m form scope s)) ∧
    (∀ n args before called after h vs body frame e p q t u v,
      form = .list (.symbol "try" p :: args) q →
      splitHandlers args = .ok (before ++ called :: after, some h) →
      Action.each (eval host .deferring (n + 1) · scope) before s =
        .result vs t →
      step host .deferring n called scope t = .result (.more body frame) u →
      eval host .deferring n body frame u = .failure e v →
      step host .deferring (n + 2) form scope s =
        Action.located q
          (handle (inner host .deferring (n + 1)) h e scope) v) := by
  refine ⟨⟨?_, ?_⟩, ?_, ?_⟩
  · rintro ⟨n, hn⟩
    have hcover :
        EndsAs (eval host .deferring n form scope)
          (eval host .direct (nested n) form scope) :=
      (direct_covers_deferring n (nested n) (Nat.le_refl _)).1 form scope
    exact ⟨nested n, (hcover s hn).ended⟩
  · rintro ⟨n, hn⟩
    have hcover : Covered host .direct .deferring n n :=
      covered_of_le (.inl rfl) (Nat.le_refl n)
    exact ⟨n, (hcover.eval form scope s hn).ended⟩
  · intro n m hn hm
    -- Both agree with the deferring evaluator at a budget that covers either.
    have hdeferring : Covered host .deferring .deferring n (max n m) :=
      covered_of_le (.inr rfl) (Nat.le_max_left n m)
    have hdirect : Covered host .direct .deferring m (max n m) :=
      covered_of_le (.inl rfl) (Nat.le_max_right n m)
    exact (hdeferring.eval form scope s hn).trans
      (hdirect.eval form scope s hm).symm
  · rintro n args before called after h vs body frame e p q t u v rfl hsplit
      hbefore hcalled hbody
    have hform : eval host .deferring (n + 1) called scope t = .failure e v := by
      rw [eval_succ, Action.bind_of_result hcalled]
      exact hbody
    have hbefore : (inner host .deferring (n + 1)).evalAll scope before s =
        .result vs t := hbefore
    exact step_try hsplit hbefore hform p q

/-- `(try (f) (catch e e))`, where the body of `f` is `(throw "boom")`. -/
theorem deferring_agrees_with_direct_try :
    let root : Scope := ⟨0, []⟩
    let body : Value := .list [.symbol "throw" none, .string "boom"] none
    let f : Value := .closure .function none (.vectorOf []) body (some root) 0
    let s : Store := { frames := #[[("f", f)]] }
    let args : List Value := [.list [.symbol "f" none] none,
      .list [.symbol "catch" none, .symbol "e" none, .symbol "e" none] none]
    let form : Value := .list (.symbol "try" none :: args) none
    (eval Host.standard .deferring 8 form root s).Agrees
        (eval Host.standard .direct 8 form root s) ∧
      ∃ t, step Host.standard .deferring 8 form root s =
        .result (.done (.string "boom")) t := by
  intro root body f s args form
  obtain ⟨_, hagree, htry⟩ :=
    deferring_agrees_with_direct Host.standard form root s
  have hends : ∀ strategy, ∃ t,
      eval Host.standard strategy 8 form root s =
        .result (.string "boom") t := by
    intro strategy
    cases strategy with
    | deferring => exact ⟨_, rfl⟩
    | direct => exact ⟨_, rfl⟩
  obtain ⟨t, hdeferring⟩ := hends .deferring
  obtain ⟨u, hdirect⟩ := hends .direct
  refine ⟨hagree 8 8 (by rw [hdeferring]; exact nofun)
    (by rw [hdirect]; exact nofun), ?_⟩
  have hstep := htry 6 args [] (.list [.symbol "f" none] none) []
    ⟨"e", [.symbol "e" none]⟩ [] body ⟨1, [0]⟩ ⟨.thrown "boom", none⟩ none none
    s { frames := #[[("f", f)], []] } { frames := #[[("f", f)], []] } rfl rfl
      rfl rfl rfl
  exact ⟨_, hstep⟩

end Machine

end TinyLisp
