import TinyLisp.Eval.Form
import TinyLisp.Proofs.Store.Agreement

/-!
# The rules ask nothing else of the evaluator

The rules of evaluation are written against an `Evaluator`. Take two of them
such that what the first one does for the parts of a form ends as what the
second does; then so does what the rules make of it, form by form. A step may
hand back a body instead of a value, and two evaluators need not do so in the
same places. Steps are therefore compared by what comes of them when they are
settled, each side going on with its own bodies in its own way.

This is where it is checked that no rule drops a body, or keeps it until after
the place that should have seen how it ends: a step in the middle of a form
could not be settled from outside, and the only steps a rule may take are the
ones it ends with.
-/

namespace TinyLisp

open TinyLisp.Action (EndsAs)

/-- How to go on with the body of a closure. -/
abbrev Resume := Value → Scope → Action Value

/-- The value that a step leads to. -/
def Bounce.settle (resume : Resume) : Bounce → Action Value
  | .done v => pure v
  | .more body scope => resume body scope

/-- One evaluator ends as another on every part of a form, when steps of the
first are settled by `resume` and steps of the second by `resume'`. -/
structure Evaluator.Follows (ev : Evaluator) (resume : Resume) (ev' : Evaluator)
    (resume' : Resume) : Prop where
  eval : ∀ form scope, EndsAs (ev.eval form scope) (ev'.eval form scope)
  apply : ∀ f args, EndsAs (ev.apply f args) (ev'.apply f args)
  step : ∀ form scope,
    EndsAs (ev.step form scope >>= Bounce.settle resume)
      (ev'.step form scope >>= Bounce.settle resume')
  enter : ∀ body scope,
    EndsAs (ev.enter body scope >>= Bounce.settle resume)
      (ev'.enter body scope >>= Bounce.settle resume')

/-! ## Patterns -/

namespace Pattern

section

variable {eval eval' : Evaluate}
  (h : ∀ form scope, EndsAs (eval form scope) (eval' form scope))
include h

theorem fetch_endsAs (scope : Scope) (m : ValueMap) (defaults : Option ValueMap)
    (key : Value) (name? : Option String) :
    EndsAs (fetch eval scope m defaults key name?)
      (fetch eval' scope m defaults key name?) := by
  unfold fetch
  split
  · exact EndsAs.refl _
  · split
    · split
      · exact h _ scope
      · exact EndsAs.refl _
    · exact EndsAs.refl _

end

variable {get get' : Value → Option String → Action Value}
  {bind bind' : Value → Value → Action Unit}

theorem bindNames_endsAs
    (hget : ∀ key name?, EndsAs (get key name?) (get' key name?))
    (scope : Scope) (n : Naming) (vs : List Value) :
    EndsAs (bindNames get scope n vs) (bindNames get' scope n vs) := by
  induction vs with
  | nil => exact EndsAs.refl _
  | cons v vs ih =>
      rw [bindNames, bindNames]
      split
      · exact EndsAs.refl _
      · exact (hget _ _).bind fun v => EndsAs.after _ fun _ => ih

theorem bindEntry_endsAs (hbind : ∀ p v, EndsAs (bind p v) (bind' p v))
    (hget : ∀ key name?, EndsAs (get key name?) (get' key name?))
    (scope : Scope) (whole : Value) (entry : Value × Value) :
    EndsAs (bindEntry bind get scope whole entry)
      (bindEntry bind' get' scope whole entry) := by
  unfold bindEntry
  split
  · split
    · exact bindNames_endsAs hget scope _ _
    · exact EndsAs.refl _
  · exact EndsAs.refl _
  · exact EndsAs.refl _
  · exact (hget _ _).bind fun v => hbind _ v

theorem bindItems_endsAs (hbind : ∀ p v, EndsAs (bind p v) (bind' p v))
    (scope : Scope) (whole : Value) (ps items : List Value) :
    EndsAs (bindItems bind scope whole ps items)
      (bindItems bind' scope whole ps items) := by
  fun_induction bindItems bind scope whole ps items with
  | case1 items => rw [bindItems]; exact EndsAs.refl _
  | case2 p items hrest => rw [bindItems, if_pos hrest]; exact EndsAs.refl _
  | case3 p items hrest rest tail hends ih =>
      rw [bindItems, if_pos hrest, if_pos hends]
      exact (hbind _ _).bind fun _ => ih
  | case4 p items hrest rest tail hends =>
      rw [bindItems, if_pos hrest, if_neg hends]
      exact EndsAs.refl _
  | case5 p items hrest has name span ps ih =>
      rw [bindItems, if_neg hrest, if_pos has]
      exact EndsAs.after _ fun _ => ih
  | case6 p ps items hrest has hname =>
      rw [bindItems.eq_def bind']
      dsimp only
      rw [if_neg hrest, if_pos has]
      split
      · next name span ps => exact absurd rfl (hname name span ps)
      · exact EndsAs.refl _
  | case7 p ps items hrest has ih =>
      rw [bindItems.eq_def bind']
      dsimp only
      rw [if_neg hrest, if_neg has]
      exact (hbind _ _).bind fun _ => ih

theorem forM_endsAs {f g : Value × Value → Action Unit}
    (h : ∀ e, EndsAs (f e) (g e)) (es : List (Value × Value)) :
    EndsAs (es.forM f) (es.forM g) := by
  induction es with
  | nil => exact EndsAs.refl _
  | cons e es ih => exact (h e).bind fun _ => ih

theorem bindWithin_endsAs {eval eval' : Evaluate}
    (h : ∀ form scope, EndsAs (eval form scope) (eval' form scope))
    (scope : Scope) (n : Nat) (p v : Value) :
    EndsAs (bindWithin eval scope n p v) (bindWithin eval' scope n p v) := by
  induction n generalizing p v with
  | zero => exact EndsAs.refl _
  | succ n ih =>
      rw [bindWithin, bindWithin]
      split
      · exact EndsAs.refl _
      · exact EndsAs.after _ fun items => bindItems_endsAs ih scope v _ items
      · refine EndsAs.after _ fun m => EndsAs.after _ fun defaults => ?_
        exact forM_endsAs (bindEntry_endsAs ih (fetch_endsAs h scope m defaults)
          scope v) _
      · exact EndsAs.refl _

end Pattern

namespace Evaluator

theorem finish_endsAs {x y : Action Value} (h : EndsAs x y)
    (resume resume' : Resume) :
    EndsAs (finish x >>= Bounce.settle resume)
      (finish y >>= Bounce.settle resume') :=
  h.bind_bind fun _ => EndsAs.refl _

section

variable {ev ev' : Evaluator} {resume resume' : Resume}
  (h : ev.Follows resume ev' resume')
include h

theorem Follows.bind (p v : Value) (scope : Scope) :
    EndsAs (ev.bind p v scope) (ev'.bind p v scope) :=
  Pattern.bindWithin_endsAs h.eval scope p.depth p v

/-! ## Forms in a row -/

theorem Follows.evalAll (scope : Scope) (forms : List Value) :
    EndsAs (ev.evalAll scope forms) (ev'.evalAll scope forms) :=
  EndsAs.each (fun form => h.eval form scope) forms

theorem Follows.evalLast (scope : Scope) (forms : List Value) :
    EndsAs (ev.evalLast scope forms) (ev'.evalLast scope forms) := by
  induction forms with
  | nil => exact EndsAs.refl _
  | cons form forms ih => cases forms with
    | nil => exact h.eval form scope
    | cons next forms => exact (h.eval form scope).bind fun _ => ih

theorem Follows.stepBody (scope : Scope) (forms : List Value) :
    EndsAs (ev.stepBody scope forms >>= Bounce.settle resume)
      (ev'.stepBody scope forms >>= Bounce.settle resume') := by
  induction forms with
  | nil => exact EndsAs.refl _
  | cons form forms ih => cases forms with
    | nil => exact h.step form scope
    | cons next forms => exact (h.eval form scope).bind_bind fun _ => ih

theorem Follows.evalEntries (scope : Scope) (m : ValueMap)
    (pairs : List (Value × Value)) :
    EndsAs (ev.evalEntries scope m pairs) (ev'.evalEntries scope m pairs) := by
  induction pairs generalizing m with
  | nil => exact EndsAs.refl _
  | cons p pairs ih =>
      exact (h.eval p.1 scope).bind fun key =>
        (h.eval p.2 scope).bind fun value => ih _

/-! ## Calls -/

theorem Follows.callBuiltin (b : Builtin) (args : List Value) :
    EndsAs (b.call ev.apply args) (b.call ev'.apply args) := by
  cases b with
  | primitive p => exact EndsAs.refl _
  | map =>
      show EndsAs (mapCall ev.apply args) (mapCall ev'.apply args)
      unfold mapCall
      split
      · exact EndsAs.after _ fun items =>
          (EndsAs.each (h.apply _) _).bind fun _ => EndsAs.refl _
      · exact EndsAs.after _ fun columns =>
          (EndsAs.each (h.apply _) _).bind fun _ => EndsAs.refl _
      · exact EndsAs.refl _
  | apply =>
      show EndsAs (applyCall ev.apply args) (applyCall ev'.apply args)
      unfold applyCall
      split
      · exact EndsAs.after _ fun items => h.apply _ _
      · exact EndsAs.refl _
  | swap =>
      show EndsAs (swapCall ev.apply args) (swapCall ev'.apply args)
      unfold swapCall
      split
      · refine EndsAs.after _ fun cell => EndsAs.after _ fun held => ?_
        exact (h.apply _ _).bind fun v => EndsAs.refl _
      · exact EndsAs.refl _

theorem Follows.callNative (host : Host) (name : String) (code : NativeCode)
    (args : List Value) :
    EndsAs (callNative host ev name code args)
      (callNative host ev' name code args) := by
  cases code with
  | builtin b => exact h.callBuiltin b args
  | custom key cell => exact EndsAs.refl _
  | missing => exact EndsAs.refl _

theorem Follows.applyStep (host : Host) (f : Value) (args : List Value) :
    EndsAs (applyStep host ev f args >>= Bounce.settle resume)
      (applyStep host ev' f args >>= Bounce.settle resume') := by
  unfold Evaluator.applyStep
  split
  · refine (EndsAs.refl _).bind_bind fun inner => ?_
    exact (h.bind _ _ inner).bind_bind fun _ => h.enter _ inner
  · exact finish_endsAs (h.callNative host _ _ args) _ _
  · exact finish_endsAs (EndsAs.refl _) _ _
  · exact EndsAs.refl _

theorem Follows.expand (params body : Value) (scope : Option Scope)
    (forms : List Value) :
    EndsAs (expand ev params body scope forms)
      (expand ev' params body scope forms) :=
  EndsAs.after _ fun inner => (h.bind _ _ inner).bind fun _ => h.eval body inner

theorem Follows.stepApplication (host : Host) (head : Value)
    (forms : List Value) (scope : Scope) :
    EndsAs (stepApplication host ev head forms scope >>= Bounce.settle resume)
      (stepApplication host ev' head forms scope >>= Bounce.settle resume') := by
  refine (h.eval head scope).bind_bind fun f => ?_
  split
  · exact (h.expand _ _ _ forms).bind_bind fun form => h.step form scope
  · exact (h.evalAll scope forms).bind_bind fun args => h.applyStep host _ args
  · exact (h.evalAll scope forms).bind_bind fun args => h.applyStep host _ args
  · exact (h.evalAll scope forms).bind_bind fun args => h.applyStep host _ args
  · exact EndsAs.refl _

/-! ## Special forms -/

theorem Follows.ifForm (args : List Value) (scope : Scope) :
    EndsAs (ifForm ev args scope >>= Bounce.settle resume)
      (ifForm ev' args scope >>= Bounce.settle resume') := by
  unfold Evaluator.ifForm
  split
  · refine (h.eval _ scope).bind_bind fun test => ?_
    split
    · exact h.step _ scope
    · exact EndsAs.refl _
  · refine (h.eval _ scope).bind_bind fun test => ?_
    split
    · exact h.step _ scope
    · exact h.step _ scope
  · exact EndsAs.refl _

theorem Follows.bindPairs (scope : Scope) (forms : List Value) :
    EndsAs (bindPairs ev scope forms) (bindPairs ev' scope forms) := by
  fun_induction Evaluator.bindPairs ev scope forms with
  | case1 pattern form rest ih =>
      exact (h.eval form scope).bind fun v =>
        (h.bind pattern v scope).bind fun _ => ih
  | case2 forms hshort =>
      rw [Evaluator.bindPairs.eq_def]
      split
      · next pattern form rest => exact absurd rfl (hshort pattern form rest)
      · exact EndsAs.refl _

theorem Follows.letForm (args : List Value) (scope : Scope) :
    EndsAs (letForm ev args scope >>= Bounce.settle resume)
      (letForm ev' args scope >>= Bounce.settle resume') := by
  unfold Evaluator.letForm
  split
  · split
    · refine (EndsAs.refl _).bind_bind fun inner => ?_
      exact (h.bindPairs inner _).bind_bind fun _ => h.stepBody inner _
    · exact EndsAs.refl _
  · exact EndsAs.refl _

theorem Follows.throwForm (args : List Value) (scope : Scope) :
    EndsAs (throwForm ev args scope >>= Bounce.settle resume)
      (throwForm ev' args scope >>= Bounce.settle resume') := by
  unfold Evaluator.throwForm
  split
  · exact (h.eval _ scope).bind_bind fun v => EndsAs.refl _
  · exact EndsAs.refl _

/-- Handlers do not look at the place of a failure. -/
theorem Follows.handle (handler : Handler) (fault : Fault) (p q : Option Span)
    (scope : Scope) :
    EndsAs (handle ev handler ⟨fault, p⟩ scope >>= Bounce.settle resume)
      (handle ev' handler ⟨fault, q⟩ scope >>= Bounce.settle resume') := by
  refine (EndsAs.refl _).bind_bind fun inner =>
    (EndsAs.refl _).bind_bind fun _ => ?_
  exact h.stepBody inner handler.forms

/-- The body of a `try` is evaluated to its end inside the attempt, so how it
ends is the same on either side by the time the handler is chosen. -/
theorem Follows.tryForm (args : List Value) (scope : Scope) :
    EndsAs (tryForm ev args scope >>= Bounce.settle resume)
      (tryForm ev' args scope >>= Bounce.settle resume') := by
  refine (EndsAs.refl _).bind_bind fun ⟨body, handler⟩ => ?_
  rw [bind_assoc, bind_assoc]
  refine (h.evalLast scope body).attempt_bind (fun v => EndsAs.refl _)
    fun fault p q => ?_
  cases handler with
  | none =>
      intro s _
      exact .failure fault p q s
  | some handler => exact h.handle handler fault p q scope

theorem Follows.defForm (args : List Value) (scope : Scope) :
    EndsAs (defForm ev args scope) (defForm ev' args scope) := by
  unfold Evaluator.defForm
  split
  · exact EndsAs.after _ fun name => (h.eval _ scope).bind fun v =>
      EndsAs.refl _
  · exact EndsAs.refl _

theorem Follows.fillWithin (scope : Scope) (n : Nat) (form : Value) :
    EndsAs (ev.fillWithin scope n form) (ev'.fillWithin scope n form) := by
  induction n generalizing form with
  | zero => exact EndsAs.refl _
  | succ n ih =>
      unfold Evaluator.fillWithin
      split
      · split
        · split
          · exact h.eval _ scope
          · exact EndsAs.refl _
        · exact (EndsAs.each ih _).bind fun _ => EndsAs.refl _
      · exact (EndsAs.each ih _).bind fun _ => EndsAs.refl _
      · exact EndsAs.refl _

theorem Follows.quasiquoteForm (scope : Scope) (args : List Value) :
    EndsAs (quasiquoteForm ev scope args) (quasiquoteForm ev' scope args) := by
  unfold Evaluator.quasiquoteForm
  split
  · exact h.fillWithin scope _ _
  · exact EndsAs.refl _

theorem Follows.constructor (host : Host) (form : Value) (scope : Scope) :
    EndsAs (constructor host ev form scope)
      (constructor host ev' form scope) := by
  unfold Evaluator.constructor
  split
  · split
    · exact h.eval _ scope
    · exact EndsAs.refl _
  · exact h.eval _ scope

theorem Follows.newForm (host : Host) (args : List Value) (scope : Scope) :
    EndsAs (newForm host ev args scope) (newForm host ev' args scope) := by
  unfold Evaluator.newForm
  split
  · exact EndsAs.refl _
  · refine (h.constructor host _ scope).bind fun ctor => ?_
    exact (h.evalAll scope _).bind fun values => EndsAs.refl _

theorem Follows.invokeForm (host : Host) (member : String) (target : Value)
    (forms : List Value) (scope : Scope) :
    EndsAs (invokeForm host ev member target forms scope)
      (invokeForm host ev' member target forms scope) :=
  (h.eval target scope).bind fun _ => (h.evalAll scope forms).bind fun _ =>
    EndsAs.refl _

theorem Follows.dotForm (host : Host) (args : List Value) (scope : Scope) :
    EndsAs (dotForm host ev args scope) (dotForm host ev' args scope) := by
  unfold Evaluator.dotForm
  split
  · exact EndsAs.after _ fun name => h.invokeForm host name _ _ scope
  · exact EndsAs.refl _

theorem Follows.memberForm (host : Host) (member : String) (args : List Value)
    (scope : Scope) :
    EndsAs (memberForm host ev member args scope)
      (memberForm host ev' member args scope) := by
  unfold Evaluator.memberForm
  split
  · exact h.invokeForm host member _ _ scope
  · exact EndsAs.refl _

theorem Follows.stepSpecial (host : Host) (form : Special) (args : List Value)
    (scope : Scope) :
    EndsAs (stepSpecial host ev form args scope >>= Bounce.settle resume)
      (stepSpecial host ev' form args scope >>= Bounce.settle resume') := by
  cases form with
  | define => exact finish_endsAs (h.defForm args scope) _ _
  | defineFunction => exact finish_endsAs (EndsAs.refl _) _ _
  | defineExpander => exact finish_endsAs (EndsAs.refl _) _ _
  | function => exact finish_endsAs (EndsAs.refl _) _ _
  | branch => exact h.ifForm args scope
  | sequence => exact h.stepBody scope args
  | bindings => exact h.letForm args scope
  | quote => exact finish_endsAs (EndsAs.refl _) _ _
  | quasiquote => exact finish_endsAs (h.quasiquoteForm scope args) _ _
  | unquote => exact EndsAs.refl _
  | attempt => exact h.tryForm args scope
  | throw => exact h.throwForm args scope
  | construct => exact finish_endsAs (h.newForm host args scope) _ _
  | member => exact finish_endsAs (h.dotForm host args scope) _ _

/-! ## All forms -/

theorem Follows.stepForm (host : Host) (form : Value) (scope : Scope) :
    EndsAs (stepForm host ev form scope >>= Bounce.settle resume)
      (stepForm host ev' form scope >>= Bounce.settle resume') := by
  unfold Evaluator.stepForm
  split
  · exact finish_endsAs (EndsAs.refl _) _ _
  · exact (h.evalAll scope _).bind_bind fun _ => EndsAs.refl _
  · exact (h.evalEntries scope _ _).bind_bind fun _ => EndsAs.refl _
  · exact (h.evalEntries scope _ _).bind_bind fun _ => EndsAs.refl _
  · exact EndsAs.refl _
  · next head args _ =>
      unfold stepList
      split
      · exact h.stepSpecial host _ args scope
      · exact finish_endsAs (h.memberForm host _ args scope) _ _
      · exact h.stepApplication host head args scope
  · exact EndsAs.refl _

end

end Evaluator

end TinyLisp
