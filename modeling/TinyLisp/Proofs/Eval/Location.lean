import TinyLisp.Engine
import TinyLisp.Proofs.Eval.Tail

/-!
# Failures without a place

A step of a form gives its place to whatever failure has none, so the step of a
form with a place never fails without one. A driver takes more than one step,
though: when the first comes to a call of a closure, the driver goes on with the
body, and the step that would have given the failure its place is over by then.
The body has no place if an expander has built it.

So the place of a form is lost in one way only, which is what
`unlocated_failure_iff` says: a failure of a located form has no place if and
only if it comes from the first step of a body without a place, to which the
driver has been led by the steps before.
-/

namespace TinyLisp

namespace Failure

theorem isSome_locate {p : Option Span} (h : p.isSome) (e : Failure) :
    (e.locate p).span.isSome := by
  show (e.span.or p).isSome
  rw [Option.isSome_or, h, Bool.or_true]

end Failure

namespace Config

def eval (host : Host) (n : Nat) (c : Config) : Outcome Value :=
  Machine.eval host .deferring n c.form c.scope c.store

def step (host : Host) (n : Nat) (c : Config) : Outcome Bounce :=
  Machine.step host .deferring n c.form c.scope c.store

/-- A driver that starts at the first form with this budget gets to the second
with that much left: each step hands back the body that the driver takes for
its next form. -/
inductive Drives (host : Host) : Nat → Config → Nat → Config → Prop where
  | here (n : Nat) (c : Config) : Drives host n c n c
  | turn {n m : Nat} {c body c' : Config}
      (hstep : c.step host n = .result (.more body.form body.scope) body.store)
      (hbody : Drives host n body m c') : Drives host (n + 1) c m c'

variable {host : Host} {n m : Nat} {c c' : Config} {e : Failure} {t : Store}

theorem eval_succ_eq_failure_iff :
    c.eval host (n + 1) = .failure e t ↔
      c.step host n = .failure e t ∨
        ∃ body : Config, c.step host n =
            .result (.more body.form body.scope) body.store ∧
          body.eval host n = .failure e t := by
  rw [eval, Machine.eval_succ]
  constructor
  · intro h
    rcases Action.bind_eq_failure h with hstep | ⟨b, s, hstep, hsettle⟩
    · exact .inl hstep
    · cases b with
      | done v => cases hsettle
      | more form scope => exact .inr ⟨⟨form, scope, s⟩, hstep, hsettle⟩
  · rintro (hstep | ⟨body, hstep, hbody⟩)
    · exact Action.bind_of_failure hstep
    · exact (Action.bind_of_result hstep).trans hbody

/-- A driver fails with what the step fails with that it has got to. -/
theorem eval_eq_failure_iff :
    c.eval host n = .failure e t ↔
      ∃ m c', Drives host n c (m + 1) c' ∧ c'.step host m = .failure e t := by
  induction n generalizing c with
  | zero =>
      constructor
      · intro h
        cases h
      · rintro ⟨m, c', hdrives, -⟩
        cases hdrives
  | succ n ih =>
      rw [eval_succ_eq_failure_iff]
      constructor
      · rintro (hstep | ⟨body, hstep, hbody⟩)
        · exact ⟨n, c, .here _ c, hstep⟩
        · obtain ⟨m, c', hdrives, hfail⟩ := ih.mp hbody
          exact ⟨m, c', .turn hstep hdrives, hfail⟩
      · rintro ⟨m, c', hdrives, hfail⟩
        cases hdrives with
        | here => exact .inl hfail
        | @turn _ _ _ body _ hstep hbody =>
            exact .inr ⟨body, hstep, ih.mpr ⟨m, c', hbody, hfail⟩⟩

/-- The step of a form with a place does not fail without one. -/
theorem isSome_of_step_failure (hc : c.form.span.isSome)
    (h : c.step host n = .failure e t) : e.span.isSome := by
  cases n with
  | zero => cases h
  | succ n =>
      rw [step, Machine.step_succ, Action.located] at h
      split at h
      · obtain ⟨rfl, rfl⟩ := Outcome.failure.inj h
        exact Failure.isSome_locate hc _
      · cases h
      · cases h

/-- A step of a form with a place does not fail without one. The form does if
and only if its first step comes to a call, and the driver goes on from there to
a body without a place whose step fails without one. -/
theorem unlocated_failure_iff (host : Host) (c : Config)
    (hc : c.form.span.isSome) (n : Nat) :
    (∀ e t, c.step host n = .failure e t → e.span.isSome) ∧
    ∀ fault t, c.eval host (n + 1) = .failure ⟨fault, none⟩ t ↔
      ∃ (called : Config) (m : Nat) (body : Config),
        c.step host n = .result (.more called.form called.scope) called.store ∧
        Drives host n called (m + 1) body ∧ body.form.span = none ∧
        body.step host m = .failure ⟨fault, none⟩ t := by
  refine ⟨fun _ _ => isSome_of_step_failure hc, fun fault t => ?_⟩
  rw [eval_succ_eq_failure_iff]
  constructor
  · rintro (hstep | ⟨called, hstep, hcalled⟩)
    · cases isSome_of_step_failure hc hstep
    · obtain ⟨m, body, hdrives, hfail⟩ := eval_eq_failure_iff.mp hcalled
      refine ⟨called, m, body, hstep, hdrives, ?_, hfail⟩
      rw [← Option.not_isSome_iff_eq_none]
      intro hbody
      cases isSome_of_step_failure hbody hfail
  · rintro ⟨called, m, body, hstep, hdrives, -, hfail⟩
    exact .inr ⟨called, hstep, eval_eq_failure_iff.mpr ⟨m, body, hdrives, hfail⟩⟩

end Config

/-! ## A program that loses its place -/

/-- The form `(defmacro mk [] (list 'fn [] (list 'throw "deep")))`, on the first
line of a text. -/
def deepMaker : Value :=
  let span (start stop : Nat) : Option Span :=
    some ⟨"deep.l", ⟨1, start + 1, start⟩, ⟨1, stop + 1, stop⟩⟩
  let quoted (name : String) (start stop : Nat) : Value :=
    .list [.symbol "quote" (span start (start + 1)),
      .symbol name (span (start + 1) stop)] (span start (start + 1))
  let thrown : Value :=
    .list [.symbol "list" (span 30 34), quoted "throw" 35 41, .string "deep"]
      (span 29 49)
  let closure : Value :=
    .list [.symbol "list" (span 17 21), quoted "fn" 22 25,
      .vector (.ofList []) (span 26 28), thrown] (span 16 50)
  .list [.symbol "defmacro" (span 1 9), .symbol "mk" (span 10 12),
    .vector (.ofList []) (span 13 15), closure] (span 0 51)

/-- The form `((mk))` on the second line: a call of the closure that
the expansion gives. -/
def deepCall : Value :=
  let span (col stop : Nat) : Option Span :=
    some ⟨"deep.l", ⟨2, col, col + 51⟩, ⟨2, stop, stop + 51⟩⟩
  .list [.list [.symbol "mk" (span 3 5)] (span 2 6)] (span 1 7)

set_option maxRecDepth 4000 in
theorem deepCall_eval : ∃ (v : Value) (s t : Store),
    (Engine.mk Host.standard 20).evalForms .nil [deepMaker] Store.initial =
      .result v s ∧
    (Engine.mk Host.standard 20).eval deepCall s =
      .failure ⟨.thrown "deep", none⟩ t :=
  ⟨_, _, _, rfl, rfl⟩

namespace Config

/-- The step of the call is over when the body that `mk` has built is run, and
that has no place. -/
theorem unlocated_failure_iff_deep :
    ∃ (v : Value) (s t : Store),
      (Engine.mk Host.standard 20).evalForms .nil [deepMaker] Store.initial =
        .result v s ∧
      ∃ (called : Config) (m : Nat) (body : Config),
        step Host.standard 19 ⟨deepCall, Store.root, s⟩ =
          .result (.more called.form called.scope) called.store ∧
        Drives Host.standard 19 called (m + 1) body ∧ body.form.span = none ∧
        body.step Host.standard m = .failure ⟨.thrown "deep", none⟩ t := by
  obtain ⟨v, s, t, hmaker, hcall⟩ := deepCall_eval
  have hiff :=
    (unlocated_failure_iff Host.standard ⟨deepCall, Store.root, s⟩ rfl 19).2
  exact ⟨v, s, t, hmaker, (hiff (.thrown "deep") t).mp hcall⟩

/-- A form with a place may fail without one. -/
theorem not_all_failures_located :
    ¬ ∀ (budget : Nat) (program : List Value) (form v : Value) (e : Failure)
      (s t : Store), (Engine.mk Host.standard budget).evalForms .nil program
      Store.initial = .result v s →
      form.span.isSome →
      (Engine.mk Host.standard budget).eval form s = .failure e t →
      e.span.isSome := by
  intro hlocated
  obtain ⟨v, s, t, hmaker, hcall⟩ := deepCall_eval
  cases hlocated 20 [deepMaker] deepCall v _ s t hmaker rfl hcall

end Config

end TinyLisp
