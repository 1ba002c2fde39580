import TinyLisp.Proofs.Eval.Strategy
import TinyLisp.Proofs.Store.Footprint

/-!
# Evaluation binds variables only where it stands

Evaluating a form in a scope binds variables in the frame of that scope and in
frames made on the way, and in no other frame: not in the frames around it,
and not in those that closures have kept. A call binds nothing in any frame
that is already there.

The argument goes rule by rule, for an evaluator of which it is known for the
parts of a form. Definitions and patterns write where they stand. `let`,
handlers and calls enter a frame first. A body that a step hands back belongs to
a frame that was made for it, so here too steps are looked at together with what
comes of them when they are settled.
-/

namespace TinyLisp

open TinyLisp.Action (BindsWithin Quiet quiet_pure quiet_fail quiet_ofExcept
  quiet_lift quiet_read quiet_rethrow quiet_resolve quiet_exhausted
  bindsWithin_define bindsWithin_enter)

theorem quiet_failShowing {α : Type} (readable : Bool) (v : Value)
    (fault : String → Fault) :
    Quiet (failShowing readable v fault : Action α) := by
  intro s t h
  obtain rfl : s = t := Option.some.inj h
  rfl

/-- Calling a closure opens a frame, so what follows binds nothing outside. -/
theorem bindsWithin_enterClosure {α : Type} {f : Scope → Action α}
    (hf : ∀ inner : Scope, (f inner).BindsWithin (some inner.here))
    (scope : Option Scope) (own : Option FrameId) :
    (enterClosure scope >>= f).BindsWithin own := by
  cases scope with
  | none =>
      intro s t h
      exact (quiet_fail (α := α) .noScope).bindsWithin own s t h
  | some scope => exact bindsWithin_enter hf scope own

/-! ## Patterns -/

namespace Pattern

variable {own : Option FrameId} {get : Value → Option String → Action Value}
  {bind : Value → Value → Action Unit}

theorem fetch_bindsWithin {eval : Evaluate} {scope : Scope}
    (h : ∀ form, (eval form scope).BindsWithin own) (m : ValueMap)
    (defaults : Option ValueMap) (key : Value) (name? : Option String) :
    (fetch eval scope m defaults key name?).BindsWithin own := by
  unfold fetch
  split
  · exact (quiet_pure _).bindsWithin own
  · split
    · split
      · exact h _
      · exact (quiet_pure _).bindsWithin own
    · exact (quiet_pure _).bindsWithin own

theorem bindNames_bindsWithin {scope : Scope}
    (hget : ∀ key name?, (get key name?).BindsWithin (some scope.here))
    (n : Naming) (vs : List Value) :
    (bindNames get scope n vs).BindsWithin (some scope.here) := by
  induction vs with
  | nil => exact (quiet_pure _).bindsWithin _
  | cons v vs ih =>
      rw [bindNames]
      split
      · exact (quiet_fail _).bindsWithin _
      · exact (hget _ _).bind fun v =>
          (bindsWithin_define scope _ v).bind fun _ => ih

theorem bindEntry_bindsWithin {scope : Scope}
    (hbind : ∀ p v, (bind p v).BindsWithin (some scope.here))
    (hget : ∀ key name?, (get key name?).BindsWithin (some scope.here))
    (whole : Value) (entry : Value × Value) :
    (bindEntry bind get scope whole entry).BindsWithin (some scope.here) := by
  unfold bindEntry
  split
  · split
    · exact bindNames_bindsWithin hget _ _
    · exact (quiet_fail _).bindsWithin _
  · split
    · exact bindsWithin_define scope _ whole
    · exact (quiet_fail _).bindsWithin _
  · exact (quiet_pure _).bindsWithin _
  · exact (hget _ _).bind fun v => hbind _ v

theorem bindItems_bindsWithin {scope : Scope}
    (hbind : ∀ p v, (bind p v).BindsWithin (some scope.here)) (whole : Value)
    (ps items : List Value) :
    (bindItems bind scope whole ps items).BindsWithin (some scope.here) := by
  fun_induction bindItems bind scope whole ps items with
  | case1 items => exact (quiet_pure _).bindsWithin _
  | case2 p items hrest => exact (quiet_fail _).bindsWithin _
  | case3 p items hrest rest tail hends ih => exact (hbind _ _).bind fun _ => ih
  | case4 p items hrest rest tail hends => exact (quiet_fail _).bindsWithin _
  | case5 p items hrest has name span ps ih =>
      exact (bindsWithin_define scope name whole).bind fun _ => ih
  | case6 p ps items hrest has hname => exact (quiet_fail _).bindsWithin _
  | case7 p ps items hrest has ih => exact (hbind _ _).bind fun _ => ih

theorem bindWithin_bindsWithin {eval : Evaluate} {scope : Scope}
    (h : ∀ form, (eval form scope).BindsWithin (some scope.here)) (n : Nat)
    (p v : Value) :
    (bindWithin eval scope n p v).BindsWithin (some scope.here) := by
  induction n generalizing p v with
  | zero => exact (quiet_fail _).bindsWithin _
  | succ n ih =>
      rw [bindWithin]
      split
      · exact bindsWithin_define scope _ v
      · exact (quiet_ofExcept _).bind fun items =>
          bindItems_bindsWithin ih v _ items
      · refine (quiet_ofExcept _).bind fun m =>
          (quiet_ofExcept _).bind fun defaults => ?_
        exact BindsWithin.forM
          (bindEntry_bindsWithin ih (fetch_bindsWithin h m defaults) v) _
      · exact (quiet_fail _).bindsWithin _

end Pattern

namespace Evaluator

/-- The evaluator, when its steps are settled by `resume`, binds variables only
where a form stands, and none at all for a call. -/
structure Confined (ev : Evaluator) (resume : Resume) : Prop where
  eval : ∀ form (scope : Scope),
    (ev.eval form scope).BindsWithin (some scope.here)
  apply : ∀ f args, (ev.apply f args).BindsWithin none
  step : ∀ form (scope : Scope),
    (ev.step form scope >>= Bounce.settle resume).BindsWithin (some scope.here)
  enter : ∀ body (scope : Scope),
    (ev.enter body scope >>= Bounce.settle resume).BindsWithin (some scope.here)

variable {own : Option FrameId} {ev : Evaluator} {resume : Resume}

/-- A step that comes to a value and nothing else. -/
theorem finish_bindsWithin {x : Action Value} (h : x.BindsWithin own)
    (resume : Resume) : (finish x >>= Bounce.settle resume).BindsWithin own :=
  h.bind_bind fun v => (quiet_pure v).bindsWithin own

section

variable (h : ev.Confined resume)
include h

theorem Confined.bind (p v : Value) (scope : Scope) :
    (ev.bind p v scope).BindsWithin (some scope.here) :=
  Pattern.bindWithin_bindsWithin (fun form => h.eval form scope) p.depth p v

/-! ## Forms in a row -/

theorem Confined.evalAll (scope : Scope) (forms : List Value) :
    (ev.evalAll scope forms).BindsWithin (some scope.here) :=
  BindsWithin.each (fun form => h.eval form scope) forms

theorem Confined.evalLast (scope : Scope) (forms : List Value) :
    (ev.evalLast scope forms).BindsWithin (some scope.here) := by
  induction forms with
  | nil => exact (quiet_pure _).bindsWithin _
  | cons form forms ih => cases forms with
    | nil => exact h.eval form scope
    | cons next forms => exact (h.eval form scope).bind fun _ => ih

theorem Confined.stepBody (scope : Scope) (forms : List Value) :
    (ev.stepBody scope forms >>= Bounce.settle resume).BindsWithin
      (some scope.here) := by
  induction forms with
  | nil => exact (quiet_pure _).bindsWithin _
  | cons form forms ih => cases forms with
    | nil => exact h.step form scope
    | cons next forms => exact (h.eval form scope).bind_bind fun _ => ih

theorem Confined.evalEntries (scope : Scope) (m : ValueMap)
    (pairs : List (Value × Value)) :
    (ev.evalEntries scope m pairs).BindsWithin (some scope.here) := by
  induction pairs generalizing m with
  | nil => exact (quiet_pure _).bindsWithin _
  | cons p pairs ih =>
      exact (h.eval p.1 scope).bind fun key =>
        (h.eval p.2 scope).bind fun value => ih _

/-! ## Calls -/

theorem Confined.callBuiltin (b : Builtin) (args : List Value) :
    (b.call ev.apply args).BindsWithin none := by
  cases b with
  | primitive p => exact (quiet_lift _).bindsWithin _
  | map =>
      show (mapCall ev.apply args).BindsWithin none
      unfold mapCall
      split
      · refine (quiet_ofExcept _).bind fun items => ?_
        exact (BindsWithin.each (h.apply _) _).bind fun _ =>
          (quiet_pure _).bindsWithin _
      · refine (quiet_ofExcept _).bind fun columns => ?_
        exact (BindsWithin.each (h.apply _) _).bind fun _ =>
          (quiet_pure _).bindsWithin _
      · exact (quiet_fail _).bindsWithin _
  | apply =>
      show (applyCall ev.apply args).BindsWithin none
      unfold applyCall
      split
      · exact (quiet_ofExcept _).bind fun items => h.apply _ _
      · exact (quiet_fail _).bindsWithin _
  | swap =>
      show (swapCall ev.apply args).BindsWithin none
      unfold swapCall
      split
      · refine (quiet_ofExcept _).bind fun cell =>
          (quiet_lift _).bind fun held => ?_
        refine (h.apply _ _).bind fun v => (quiet_lift _).bind fun _ => ?_
        exact (quiet_pure _).bindsWithin _
      · exact (quiet_fail _).bindsWithin _

theorem Confined.callNative (host : Host) (name : String) (code : NativeCode)
    (args : List Value) :
    (callNative host ev name code args).BindsWithin none := by
  cases code with
  | builtin b => exact h.callBuiltin b args
  | custom key cell => exact (quiet_lift _).bindsWithin _
  | missing => exact (quiet_fail _).bindsWithin _

theorem Confined.applyStep (host : Host) (f : Value) (args : List Value) :
    (applyStep host ev f args >>= Bounce.settle resume).BindsWithin none := by
  unfold Evaluator.applyStep
  split
  · rw [bind_assoc]
    refine bindsWithin_enterClosure (fun inner => ?_) _ none
    exact (h.bind _ _ inner).bind_bind fun _ => h.enter _ inner
  · exact finish_bindsWithin (h.callNative host _ _ args) resume
  · exact finish_bindsWithin ((quiet_ofExcept _).bindsWithin _) resume
  · exact (quiet_failShowing _ _ _).bindsWithin _

theorem Confined.expand (params body : Value) (scope : Option Scope)
    (forms : List Value) :
    (expand ev params body scope forms).BindsWithin none :=
  bindsWithin_enterClosure
    (fun inner => (h.bind _ _ inner).bind fun _ => h.eval body inner) scope none

theorem Confined.stepApplication (host : Host) (head : Value)
    (forms : List Value) (scope : Scope) :
    (stepApplication host ev head forms scope >>=
      Bounce.settle resume).BindsWithin
      (some scope.here) := by
  refine (h.eval head scope).bind_bind fun f => ?_
  split
  · exact ((h.expand _ _ _ forms).weaken _).bind_bind fun form =>
      h.step form scope
  · exact (h.evalAll scope forms).bind_bind fun args =>
      (h.applyStep host _ args).weaken _
  · exact (h.evalAll scope forms).bind_bind fun args =>
      (h.applyStep host _ args).weaken _
  · exact (h.evalAll scope forms).bind_bind fun args =>
      (h.applyStep host _ args).weaken _
  · exact (quiet_failShowing _ _ _).bindsWithin _

/-! ## Special forms -/

theorem Confined.ifForm (args : List Value) (scope : Scope) :
    (ifForm ev args scope >>= Bounce.settle resume).BindsWithin
      (some scope.here) := by
  unfold Evaluator.ifForm
  split
  · refine (h.eval _ scope).bind_bind fun test => ?_
    split
    · exact h.step _ scope
    · exact (quiet_pure _).bindsWithin _
  · refine (h.eval _ scope).bind_bind fun test => ?_
    split
    · exact h.step _ scope
    · exact h.step _ scope
  · exact (quiet_fail _).bindsWithin _

theorem Confined.bindPairs (scope : Scope) (forms : List Value) :
    (bindPairs ev scope forms).BindsWithin (some scope.here) := by
  fun_induction Evaluator.bindPairs ev scope forms with
  | case1 pattern form rest ih =>
      exact (h.eval form scope).bind fun v =>
        (h.bind pattern v scope).bind fun _ => ih
  | case2 forms hshort => exact (quiet_pure _).bindsWithin _

theorem Confined.letForm (args : List Value) (scope : Scope) :
    (letForm ev args scope >>= Bounce.settle resume).BindsWithin none := by
  unfold Evaluator.letForm
  split
  · split
    · rw [bind_assoc]
      refine bindsWithin_enter (fun inner => ?_) scope none
      exact (h.bindPairs inner _).bind_bind fun _ => h.stepBody inner _
    · exact (quiet_fail _).bindsWithin _
  · exact (quiet_fail _).bindsWithin _

theorem Confined.throwForm (args : List Value) (scope : Scope) :
    (throwForm ev args scope >>= Bounce.settle resume).BindsWithin
      (some scope.here) := by
  unfold Evaluator.throwForm
  split
  · exact (h.eval _ scope).bind_bind fun v =>
      (quiet_failShowing _ _ _).bindsWithin _
  · exact (quiet_fail _).bindsWithin _

theorem Confined.handle (handler : Handler) (e : Failure) (scope : Scope) :
    (handle ev handler e scope >>= Bounce.settle resume).BindsWithin none := by
  rw [Evaluator.handle, bind_assoc]
  refine bindsWithin_enter (fun inner => ?_) scope none
  exact (bindsWithin_define inner _ _).bind_bind fun _ =>
    h.stepBody inner handler.forms

theorem Confined.tryForm (args : List Value) (scope : Scope) :
    (tryForm ev args scope >>= Bounce.settle resume).BindsWithin
      (some scope.here) := by
  refine ((quiet_ofExcept _).bindsWithin _).bind_bind fun ⟨body, handler⟩ => ?_
  refine (h.evalLast scope body).attempt.bind_bind fun r => ?_
  split
  · exact (quiet_pure _).bindsWithin _
  · exact (h.handle _ _ scope).weaken _
  · exact (quiet_rethrow _).bindsWithin _

theorem Confined.defForm (args : List Value) (scope : Scope) :
    (defForm ev args scope).BindsWithin (some scope.here) := by
  unfold Evaluator.defForm
  split
  · refine (quiet_ofExcept _).bind fun name => (h.eval _ scope).bind fun v => ?_
    exact (bindsWithin_define scope name v).bind fun _ =>
      (quiet_pure _).bindsWithin _
  · exact (quiet_fail _).bindsWithin _

omit h in
theorem makeClosure_bindsWithin (form : String) (kind : ClosureKind)
    (name : Option String) (forms : List Value) (scope : Scope)
    (own : Option FrameId) :
    (makeClosure form kind name forms scope).BindsWithin own :=
  (quiet_ofExcept _).bind fun _ => (quiet_lift _).bind fun _ =>
    (quiet_pure _).bindsWithin own

omit h in
theorem defClosureForm_bindsWithin (form : String) (kind : ClosureKind)
    (args : List Value) (scope : Scope) :
    (defClosureForm form kind args scope).BindsWithin (some scope.here) := by
  refine (quiet_ofExcept _).bind fun name => ?_
  refine (makeClosure_bindsWithin form kind _ _ scope _).bind fun v => ?_
  exact (bindsWithin_define scope name v).bind fun _ =>
    (quiet_pure _).bindsWithin _

omit h in
theorem quoteForm_bindsWithin (args : List Value) (own : Option FrameId) :
    (quoteForm args).BindsWithin own := by
  unfold quoteForm
  split
  · exact (quiet_pure _).bindsWithin own
  · exact (quiet_fail _).bindsWithin own

theorem Confined.fillWithin (scope : Scope) (n : Nat) (form : Value) :
    (ev.fillWithin scope n form).BindsWithin (some scope.here) := by
  induction n generalizing form with
  | zero => exact (quiet_pure _).bindsWithin _
  | succ n ih =>
      unfold Evaluator.fillWithin
      split
      · split
        · split
          · exact h.eval _ scope
          · exact (quiet_fail _).bindsWithin _
        · exact (BindsWithin.each ih _).bind fun _ =>
            (quiet_pure _).bindsWithin _
      · exact (BindsWithin.each ih _).bind fun _ => (quiet_pure _).bindsWithin _
      · exact (quiet_pure _).bindsWithin _

theorem Confined.quasiquoteForm (scope : Scope) (args : List Value) :
    (quasiquoteForm ev scope args).BindsWithin (some scope.here) := by
  unfold Evaluator.quasiquoteForm
  split
  · exact h.fillWithin scope _ _
  · exact (quiet_fail _).bindsWithin _

theorem Confined.constructor (host : Host) (form : Value) (scope : Scope) :
    (constructor host ev form scope).BindsWithin (some scope.here) := by
  unfold Evaluator.constructor
  split
  · split
    · exact h.eval _ scope
    · refine (quiet_read _).bind fun v? => ?_
      split
      · exact (quiet_pure _).bindsWithin _
      · exact (quiet_lift _).bindsWithin _
  · exact h.eval _ scope

theorem Confined.newForm (host : Host) (args : List Value) (scope : Scope) :
    (newForm host ev args scope).BindsWithin (some scope.here) := by
  unfold Evaluator.newForm
  split
  · exact (quiet_fail _).bindsWithin _
  · refine (h.constructor host _ scope).bind fun ctor => ?_
    exact (h.evalAll scope _).bind fun values => (quiet_lift _).bindsWithin _

theorem Confined.invokeForm (host : Host) (member : String) (target : Value)
    (forms : List Value) (scope : Scope) :
    (invokeForm host ev member target forms scope).BindsWithin
      (some scope.here) :=
  (h.eval target scope).bind fun _ => (h.evalAll scope forms).bind fun _ =>
    (quiet_lift _).bindsWithin _

theorem Confined.dotForm (host : Host) (args : List Value) (scope : Scope) :
    (dotForm host ev args scope).BindsWithin (some scope.here) := by
  unfold Evaluator.dotForm
  split
  · exact (quiet_ofExcept _).bind fun name => h.invokeForm host name _ _ scope
  · exact (quiet_fail _).bindsWithin _

theorem Confined.memberForm (host : Host) (member : String) (args : List Value)
    (scope : Scope) :
    (memberForm host ev member args scope).BindsWithin (some scope.here) := by
  unfold Evaluator.memberForm
  split
  · exact h.invokeForm host member _ _ scope
  · exact (quiet_fail _).bindsWithin _

theorem Confined.stepSpecial (host : Host) (form : Special) (args : List Value)
    (scope : Scope) :
    (stepSpecial host ev form args scope >>= Bounce.settle resume).BindsWithin
      (some scope.here) := by
  cases form with
  | define => exact finish_bindsWithin (h.defForm args scope) resume
  | defineFunction =>
      exact finish_bindsWithin (defClosureForm_bindsWithin _ _ args scope) resume
  | defineExpander =>
      exact finish_bindsWithin (defClosureForm_bindsWithin _ _ args scope) resume
  | function =>
      exact finish_bindsWithin (makeClosure_bindsWithin _ _ _ args scope _) resume
  | branch => exact h.ifForm args scope
  | sequence => exact h.stepBody scope args
  | bindings => exact (h.letForm args scope).weaken _
  | quote => exact finish_bindsWithin (quoteForm_bindsWithin args _) resume
  | quasiquote => exact finish_bindsWithin (h.quasiquoteForm scope args) resume
  | unquote => exact (quiet_fail _).bindsWithin _
  | attempt => exact h.tryForm args scope
  | throw => exact h.throwForm args scope
  | construct => exact finish_bindsWithin (h.newForm host args scope) resume
  | member => exact finish_bindsWithin (h.dotForm host args scope) resume

/-! ## All forms -/

omit h in
theorem evalSymbol_bindsWithin (host : Host) (name : String) (scope : Scope)
    (own : Option FrameId) : (evalSymbol host name scope).BindsWithin own := by
  unfold evalSymbol
  split
  · exact (quiet_lift _).bindsWithin own
  · exact (quiet_resolve scope name).bindsWithin own

theorem Confined.stepForm (host : Host) (form : Value) (scope : Scope) :
    (stepForm host ev form scope >>= Bounce.settle resume).BindsWithin
      (some scope.here) := by
  unfold Evaluator.stepForm
  split
  · exact finish_bindsWithin (evalSymbol_bindsWithin host _ scope _) resume
  · exact (h.evalAll scope _).bind_bind fun _ => (quiet_pure _).bindsWithin _
  · exact (h.evalEntries scope _ _).bind_bind fun _ =>
      (quiet_pure _).bindsWithin _
  · exact (h.evalEntries scope _ _).bind_bind fun _ =>
      (quiet_pure _).bindsWithin _
  · exact (quiet_pure _).bindsWithin _
  · next head args _ =>
      unfold stepList
      split
      · exact h.stepSpecial host _ args scope
      · exact finish_bindsWithin (h.memberForm host _ args scope) resume
      · exact h.stepApplication host head args scope
  · exact (quiet_pure _).bindsWithin _

end

end Evaluator

/-! ## The evaluator -/

namespace Machine

theorem settle_enter (strategy : Strategy) {eval resume : Resume}
    {own : Option FrameId} {body : Value} {scope : Scope}
    (heval : (eval body scope).BindsWithin own)
    (hresume : (resume body scope).BindsWithin own) :
    (strategy.enter eval body scope >>= Bounce.settle resume).BindsWithin
      own := by
  cases strategy with
  | deferring =>
      rw [enter_deferring]
      exact hresume
  | direct =>
      rw [enter_direct]
      exact heval

/-- The evaluator is confined at every budget, whatever way its steps are
settled in that is confined itself. -/
theorem confined_inner (host : Host) (strategy : Strategy) (n : Nat)
    {resume : Resume}
    (hresume : ∀ body (scope : Scope),
      (resume body scope).BindsWithin (some scope.here)) :
    (inner host strategy n).Confined resume := by
  induction n generalizing resume with
  | zero =>
      have hnone : ∀ body (scope : Scope),
          (eval host strategy 0 body scope).BindsWithin (some scope.here) :=
        fun _ _ => quiet_exhausted.bindsWithin _
      exact ⟨hnone, fun _ _ => quiet_exhausted.bindsWithin _,
        fun _ _ => quiet_exhausted.bindsWithin _,
        fun body scope =>
          settle_enter strategy (hnone body scope) (hresume body scope)⟩
  | succ n ih =>
      -- Bodies are gone on with at the smaller budget.
      have hbody := ih (ih hresume).eval
      have heval : ∀ form (scope : Scope),
          (eval host strategy (n + 1) form scope).BindsWithin
          (some scope.here) := by
        intro form scope
        rw [eval_succ]
        exact hbody.step form scope
      refine ⟨heval, fun f args => ?_, fun form scope => ?_, fun body scope => ?_⟩
      · show (apply host strategy (n + 1) f args).BindsWithin none
        rw [apply_succ]
        exact hbody.applyStep host f args
      · show (step host strategy (n + 1) form scope >>= _).BindsWithin _
        rw [step_succ]
        exact ((ih hresume).stepForm host form scope).located_bind form.span
      · exact settle_enter strategy (heval body scope) (hresume body scope)

/-- Evaluating a form binds variables in the frame it stands in and in frames
made on the way. Of the frames there were, any other is left as it was, and
no binding is taken out of its own. A call leaves all frames there were as
they were. Either way it does not matter whether the run ends with a value or
with a failure. -/
theorem frames_unchanged_elsewhere (host : Host) (strategy : Strategy) (n : Nat)
    (s t : Store) :
    (∀ form (scope : Scope), (eval host strategy n form scope s).left? = some t →
      (∀ f < s.frames.size, f ≠ scope.here → t.frames[f]? = s.frames[f]?) ∧
      (∀ bs, s.frames[scope.here]? = some bs →
        ∃ bs', t.frames[scope.here]? = some bs' ∧
        ∀ name, Bindings.contains name bs = true →
          Bindings.contains name bs' = true)) ∧
    (∀ f args, (apply host strategy n f args s).left? = some t →
      ∀ g < s.frames.size, t.frames[g]? = s.frames[g]?) := by
  have hconfined : (inner host strategy n).Confined fun _ _ =>
      Action.exhausted :=
        confined_inner host strategy n fun _ _ => quiet_exhausted.bindsWithin _
  refine ⟨fun form scope hleft => ?_, fun f args hleft => ?_⟩
  · have hwithin := hconfined.eval form scope s t hleft
    refine ⟨fun f hf hne => hwithin.others f hf ?_, hwithin.kept scope.here⟩
    exact fun heq => hne (Option.some.inj heq).symm
  · have hwithin := hconfined.apply f args s t hleft
    exact fun g hg => hwithin.others g hg nofun

/-- `(do (def x 2) (f 3) (y))` in a frame inside the root, where `f` is `(fn [x]
(def y x))` made in the root. The run fails, since `y` was bound in the frame of
the call. The root, where `x` is 1, is left as it was, and the call alone leaves
both frames as they were. -/
theorem frames_unchanged_elsewhere_call :
    let root : Scope := ⟨0, []⟩
    let body : Value :=
      .list [.symbol "def" none, .symbol "y" none, .symbol "x" none] none
    let f : Value :=
      .closure .function none (.vectorOf [.symbol "x" none]) body (some root) 0
    let s : Store := { frames := #[[("x", .number 1), ("f", f)], []] }
    let form : Value := .list [.symbol "do" none,
      .list [.symbol "def" none, .symbol "x" none, .number 2] none,
      .list [.symbol "f" none, .number 3] none,
      .list [.symbol "y" none] none] none
    (∃ e t, eval Host.standard .deferring 9 form ⟨1, [0]⟩ s = .failure e t ∧
      e.fault = .unbound "y" ∧ t.frames[0]? = s.frames[0]? ∧ t.frames.size = 3) ∧
    ∃ v t, apply Host.standard .deferring 9 f [.number 3] s = .result v t ∧
      t.frames[0]? = s.frames[0]? ∧ t.frames[1]? = s.frames[1]? := by
  intro root body f s form
  refine ⟨⟨_, _, rfl, rfl, ?_, rfl⟩, ⟨_, _, rfl, ?_, ?_⟩⟩
  · exact ((frames_unchanged_elsewhere Host.standard .deferring 9 s _).1 form
      ⟨1, [0]⟩ rfl).1 0 (by decide) (by decide)
  · exact (frames_unchanged_elsewhere Host.standard .deferring 9 s _).2 f
      [.number 3] rfl 0 (by decide)
  · exact (frames_unchanged_elsewhere Host.standard .deferring 9 s _).2 f
      [.number 3] rfl 1 (by decide)

end Machine

end TinyLisp
