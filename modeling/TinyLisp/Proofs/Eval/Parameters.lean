import TinyLisp.Proofs.Eval.Strategy
import TinyLisp.Proofs.Pattern.Validity

/-!
# Calls do not fail on the shape of their parameters

The forms that make a closure check its parameter pattern first. A call binds
that same pattern in a new frame, so what is known of valid patterns holds of
it: the call fails in its body, or because an argument has the wrong type for a
pattern inside, or in a default. How a function is called and how an expander is
called differ in what the parameters are bound to and in nothing else.
-/

namespace TinyLisp

open Pattern (Excused Evaluate)

/-- The kind of closure that a special form makes. -/
def Special.closureKind? : Special → Option ClosureKind
  | .function => some .function
  | .defineFunction => some .function
  | .defineExpander => some .expander
  | _ => none

/-- The closure was made in this scope and its parameters are a valid
pattern. -/
inductive MadeIn (kind : ClosureKind) (scope : Scope) : Value → Prop where
  | mk (name : Option String) {params : Value} (body : Value) (id : ObjectId)
      (h : Pattern.validate params = .ok ()) :
      MadeIn kind scope (.closure kind name params body (some scope) id)

namespace Evaluator

/-! ## Making a closure -/

theorem validate_of_parameters {form : String} {forms : List Value}
    {params : Value} (h : parameters form forms = .ok params) :
    Pattern.validate params = .ok () := by
  unfold parameters at h
  split at h
  · next patterns span rest =>
      dsimp only at h
      cases hvalid : Pattern.validate (Value.vector patterns span).toData with
      | error fault => rw [hvalid] at h; cases h
      | ok _ =>
          rw [hvalid] at h
          obtain rfl := Except.ok.inj h
          exact hvalid
  · cases h

theorem makeClosure_eq_result {form : String} {kind : ClosureKind}
    {name : Option String} {forms : List Value} {scope : Scope} {s t : Store}
    {f : Value} (h : makeClosure form kind name forms scope s = .result f t) :
    MadeIn kind scope f := by
  obtain ⟨params, u, hparams, h⟩ := Action.bind_eq_result h
  obtain ⟨id, w, -, h⟩ := Action.bind_eq_result h
  cases hform : parameters form forms with
  | error fault =>
      rw [hform] at hparams
      cases hparams
  | ok params' =>
      rw [hform] at hparams
      obtain ⟨rfl, -⟩ := Outcome.result.inj hparams
      obtain ⟨rfl, -⟩ := Outcome.result.inj h
      exact .mk name _ id (validate_of_parameters hform)

theorem defClosureForm_eq_result {form : String} {kind : ClosureKind}
    {args : List Value} {scope : Scope} {s t : Store} {f : Value}
    (h : defClosureForm form kind args scope s = .result f t) :
    MadeIn kind scope f := by
  obtain ⟨name, u, -, h⟩ := Action.bind_eq_result h
  obtain ⟨v, w, hmade, h⟩ := Action.bind_eq_result h
  obtain ⟨_, x, -, h⟩ := Action.bind_eq_result h
  obtain ⟨rfl, -⟩ := Outcome.result.inj h
  exact makeClosure_eq_result hmade

theorem finish_eq_result {x : Action Value} {s t : Store} {b : Bounce}
    (h : finish x s = .result b t) : ∃ v, b = .done v ∧ x s = .result v t := by
  obtain ⟨v, u, hx, h⟩ := Action.bind_eq_result h
  obtain ⟨rfl, rfl⟩ := Outcome.result.inj h
  exact ⟨v, rfl, hx⟩

theorem stepSpecial_eq_result {host : Host} {ev : Evaluator} {form : Special}
    {kind : ClosureKind} (hkind : form.closureKind? = some kind)
    {args : List Value} {scope : Scope} {s t : Store} {b : Bounce}
    (h : stepSpecial host ev form args scope s = .result b t) :
    ∃ f, b = .done f ∧ MadeIn kind scope f := by
  cases form with
  | function =>
      obtain rfl := Option.some.inj hkind
      obtain ⟨f, rfl, hf⟩ := finish_eq_result h
      exact ⟨f, rfl, makeClosure_eq_result hf⟩
  | defineFunction =>
      obtain rfl := Option.some.inj hkind
      obtain ⟨f, rfl, hf⟩ := finish_eq_result h
      exact ⟨f, rfl, defClosureForm_eq_result hf⟩
  | defineExpander =>
      obtain rfl := Option.some.inj hkind
      obtain ⟨f, rfl, hf⟩ := finish_eq_result h
      exact ⟨f, rfl, defClosureForm_eq_result hf⟩
  | _ => cases hkind

end Evaluator

/-! ## Calling it -/

/-- How a call may fail. In a new frame it binds the parameters to `v` and
goes on with the body: it fails there, or binding fails for a reason that is
not the pattern's own. -/
def CallFails {α : Type} (eval : Evaluate) (enter : Value → Scope → Action α)
    (params v body : Value) (scope : Scope) (s : Store) (e : Failure)
    (t : Store) : Prop :=
  Excused eval (s.enter scope).1 params e t ∨
    ∃ u, Pattern.bind eval params v (s.enter scope).1 (s.enter scope).2 =
        .result () u ∧
      enter body (s.enter scope).1 u = .failure e t

theorem callFails_of_failure {α : Type} {eval : Evaluate}
    {enter : Value → Scope → Action α} {params v body : Value} {scope : Scope} {s t : Store} {e : Failure}
    (hvalid : Pattern.validate params = .ok ())
    (h : (do
      let inner ← enterClosure (some scope)
      Pattern.bind eval params v inner
      enter body inner : Action α) s = .failure e t) :
    CallFails eval enter params v body scope s e t := by
  rcases Action.bind_eq_failure h with h | ⟨inner, s', henter, h⟩
  · cases h
  obtain ⟨rfl, rfl⟩ := Outcome.result.inj henter
  rcases Action.bind_eq_failure h with h | ⟨_, u, hbind, h⟩
  · exact .inl (Pattern.bind_failsOnly eval _ hvalid v _ e t h)
  · exact .inr ⟨u, hbind, h⟩

/-! ## Closures that a program makes -/

theorem Machine.eval_special_eq_result {host : Host} {strategy : Strategy}
    {n : Nat} {name : String} {form : Special}
    (hform : Special.ofName? name = some form) {kind : ClosureKind}
    (hkind : form.closureKind? = some kind) {span span' : Option Span}
    {args : List Value} {scope : Scope} {s t : Store} {f : Value}
    (h : eval host strategy n (.list (.symbol name span :: args) span') scope
      s = .result f t) :
    MadeIn kind scope f := by
  -- A form is evaluated by its first step, so this takes a budget of two.
  obtain _ | _ | n := n
  · cases h
  · rw [eval_succ] at h
    obtain ⟨b, u, hstep, -⟩ := Action.bind_eq_result h
    cases hstep
  · rw [eval_succ, step_succ] at h
    obtain ⟨b, u, hstep, hsettle⟩ := Action.bind_eq_result h
    have hspecial := Action.located_eq_result hstep
    have hop : Evaluator.operator (.symbol name span) = .special form := by
      rw [Evaluator.operator, hform]
    rw [Evaluator.stepForm, Evaluator.stepList, hop] at hspecial
    obtain ⟨f', rfl, hmade⟩ := Evaluator.stepSpecial_eq_result hkind hspecial
    obtain ⟨rfl, -⟩ := Outcome.result.inj hsettle
    exact hmade

open Pattern (validate bind)
open Evaluator (applyStep expand)

/-- Checking and binding agree on which patterns are well formed. A valid
pattern fails to bind only on a value of the wrong type or in a default, and a
pattern that binds some value is valid. So a call of a closure that a program
has made does not fail on the shape of its parameters. -/
theorem Pattern.validate_agrees_with_bind :
    (∀ eval scope p v s e t, validate p = .ok () →
      bind eval p v scope s = .failure e t →
      Excused eval scope p e t) ∧
    (∀ eval scope p v s t, p.Built → bind eval p v scope s = .result () t →
      validate p = .ok ()) ∧
    (∀ host strategy n name kind span span' args scope s f t,
      (Special.ofName? name).bind Special.closureKind? = some kind →
      Machine.eval host strategy n
        (.list (.symbol name span :: args) span') scope s =
          .result f t →
      ∃ name' params body id,
        f = .closure kind name' params body (some scope) id ∧
        ∀ (ev : Evaluator) s e t,
          (kind = .function →
            ∀ host args, applyStep host ev f args s = .failure e t →
            CallFails ev.eval ev.enter params (.vectorOf args) body scope s e t) ∧
          (kind = .expander → ∀ forms,
            expand ev params body (some scope) forms s = .failure e t →
            CallFails ev.eval ev.eval params
              (.vectorOf (forms.map Value.toData)) body scope s e
              t)) := by
  refine ⟨?_, ?_, ?_⟩
  · intro eval scope p v s e t hvalid hfail
    exact Pattern.bind_failsOnly eval scope hvalid v s e t hfail
  · intro eval scope p v s t hbuilt hbind
    exact Pattern.validate_of_bind hbuilt ⟨s, (), t, hbind⟩
  · intro host strategy n name kind span span' args scope s f t hname heval
    obtain ⟨form, hform, hkind⟩ := Option.bind_eq_some_iff.mp hname
    obtain ⟨name', body, id, hvalid⟩ :=
      Machine.eval_special_eq_result hform hkind heval
    refine ⟨name', _, body, id, rfl, fun ev s e t => ⟨?_, ?_⟩⟩
    · rintro rfl host args hfail
      exact callFails_of_failure hvalid hfail
    · rintro - forms hfail
      exact callFails_of_failure hvalid hfail

/-- `p` is `{:keys [k] :or {k missing}}` as it is read. It fails on `nil`, where
the default is needed and has no value. In `[p :as & & r]` the first `&` is the
name of the whole and the second one marks the rest; this binds a vector that
has a `:k`. A call of `(fn [p] k)` without arguments fails as `p` does. -/
theorem Pattern.validate_agrees_with_bind_default :
    let eval := Machine.eval Host.standard .deferring 2
    let root : Scope := ⟨0, []⟩
    let s : Store := { frames := #[[]] }
    let p : Value := .mapForm [(.keyword "keys", .vectorOf [.symbol "k" none]),
      (.keyword "or",
        .mapForm [(.symbol "k" none, .symbol "missing" none)] none)] none
    let q : Value :=
      .vectorOf [p, .keyword "as", .symbol "&" none, .symbol "&" none,
        .symbol "r" none]
    let v : Value :=
      .vectorOf [.map (.ofList [(.keyword "k", .nil)]) none, .nil]
    let f : Value :=
      .closure .function none (Value.vectorOf [p]).toData (.symbol "k" none)
        (some root) 0
    (validate p = .ok () ∧ ∃ e t, bind eval p .nil root s = .failure e t ∧
      e.fault = .unbound "missing" ∧ Excused eval root p e t) ∧
    (q.Built ∧ ∃ t, bind eval q v root s = .result () t ∧ validate q = .ok ()) ∧
    ∃ t, Machine.eval Host.standard .direct 3
        (.list [.symbol "fn" none, .vectorOf [p], .symbol "k" none] none) root
        s = .result f t ∧
      ∃ e u, applyStep Host.standard
        (Machine.inner Host.standard .deferring 2) f [] t =
          .failure e u ∧
        CallFails eval (Strategy.deferring.enter eval)
          (Value.vectorOf [p]).toData (.vectorOf [])
          (.symbol "k" none) root t e u := by
  intro eval root s p q v f
  have hleaf : ∀ name, Value.Built (.symbol name none) ∧
      Value.Built (.keyword name) :=
    fun _ => ⟨.leaf rfl rfl, .leaf rfl rfl⟩
  have hnames : Value.Built (.vectorOf [.symbol "k" none]) :=
    .items rfl (by simp [hleaf])
  have hdefaults : Value.Built
      (.mapForm [(.symbol "k" none, .symbol "missing" none)] none) :=
    .mapForm none (by simp [hleaf]) (by simp [hleaf])
  have hp : p.Built :=
    .mapForm none (by simp [hleaf]) (by simp [hnames, hdefaults])
  have hq : q.Built := .items rfl (by simp [hp, hleaf])
  obtain ⟨hfails, hbinds, hcalls⟩ := Pattern.validate_agrees_with_bind
  refine ⟨⟨rfl, _, _, rfl, rfl, ?_⟩, ⟨hq, _, rfl, ?_⟩, _, rfl, _, _, rfl, ?_⟩
  · exact hfails eval root p .nil s _ _ rfl rfl
  · exact hbinds eval root q v s _ hq rfl
  · obtain ⟨_, _, _, _, hf, hcall⟩ :=
      hcalls Host.standard .direct 3 "fn" .function none none
        [.vectorOf [p], .symbol "k" none] root s f _ rfl rfl
    obtain ⟨-, -, rfl, rfl, -⟩ := Value.closure.inj hf
    exact (hcall (Machine.inner Host.standard .deferring 2) _ _ _).1 rfl
      Host.standard [] rfl

end TinyLisp
