import TinyLisp.Engine
import TinyLisp.Proofs.Eval.Strategy
import TinyLisp.Proofs.Pattern.Places

/-!
# Evaluation does not look at places

Two runs of matching forms on matching stores go alike: they print the same,
bind and hold matching values, and end with matching values or with the same
fault. The places in forms are copied into literals, closures and templates, and
a failure is given the place of the form around it, but nothing that a program
can see is made of a place. A handler is given the wording of the fault, and the
host is assumed to look at no place either.

The argument goes rule by rule for an evaluator that treats the parts of
matching forms alike, and then by induction on the budget. Both runs use it up
at the same point.
-/

namespace TinyLisp

open Value (Matches matches_vectorOf)
open TinyLisp.Action (Mirrors mirrors_pure mirrors_fail mirrors_rethrow
  mirrors_exhausted mirrors_ofExcept mirrors_each mirrors_define mirrors_enter
  mirrors_lookup mirrors_resolve)

variable {R : Places}

/-- Both are finished with matching values, or both lead to matching bodies in
the same scope. -/
inductive Bounce.Matches (R : Places) : Bounce → Bounce → Prop where
  | done {v w : Value} (h : v.Matches R w) : Matches R (.done v) (.done w)
  | more {body body' : Value} {scope : Scope} (h : body.Matches R body') :
      Matches R (.more body scope) (.more body' scope)

theorem Bounce.Matches.settle {b b' : Bounce} (h : b.Matches R b')
    {resume : Resume}
    (hresume : ∀ {body body' : Value} (scope : Scope), body.Matches R body' →
      (resume body scope).Mirrors R (Value.Matches R) (resume body' scope)) :
    (b.settle resume).Mirrors R (Value.Matches R) (b'.settle resume) := by
  cases h with
  | done h => exact mirrors_pure h
  | more h => exact hresume _ h

theorem mirrors_failShowing {α β : Type} {P : α → β → Prop} (readable : Bool)
    {v w : Value} (h : v.Matches R w) (fault : String → Fault) :
    Mirrors R P (failShowing readable v fault)
      (failShowing readable w fault) := by
  intro s t hs
  unfold failShowing
  rw [h.render_eq hs.heap.cells]
  exact .failure ⟨rfl, R.none⟩ hs

theorem mirrors_enterClosure (scope : Option Scope) :
    Mirrors R Eq (enterClosure scope) (enterClosure scope) := by
  cases scope with
  | none => exact mirrors_fail _
  | some scope => exact mirrors_enter scope

namespace Evaluator

/-- The evaluator treats matching forms and values alike. -/
structure Mirrors (R : Places) (ev : Evaluator) : Prop where
  eval : ∀ {form form' : Value} (scope : Scope), form.Matches R form' →
    (ev.eval form scope).Mirrors R (Matches R) (ev.eval form' scope)
  step : ∀ {form form' : Value} (scope : Scope), form.Matches R form' →
    (ev.step form scope).Mirrors R (Bounce.Matches R) (ev.step form' scope)
  apply : ∀ {f f' : Value} {args args' : List Value}, f.Matches R f' →
    AllMatch R args args' →
    (ev.apply f args).Mirrors R (Matches R) (ev.apply f' args')
  enter : ∀ {body body' : Value} (scope : Scope), body.Matches R body' →
    (ev.enter body scope).Mirrors R (Bounce.Matches R) (ev.enter body' scope)

variable {host : Host} {ev : Evaluator} {scope : Scope}
  {forms forms' args args' : List Value}

theorem finish_mirrors {x y : Action Value} (h : x.Mirrors R (Matches R) y) :
    (finish x).Mirrors R (Bounce.Matches R) (finish y) :=
  h.bind fun _ _ hv => mirrors_pure (.done hv)

section

variable (h : ev.Mirrors R)
include h

theorem Mirrors.bind {p p' v v' : Value} (hp : p.Matches R p')
    (hv : v.Matches R v') (scope : Scope) :
    (ev.bind p v scope).Mirrors R Eq (ev.bind p' v' scope) :=
  Pattern.bind_mirrors (h.eval scope) hp hv

/-! ## Forms in a row -/

theorem Mirrors.evalAll (hforms : AllMatch R forms forms') :
    (ev.evalAll scope forms).Mirrors R (AllMatch R) (ev.evalAll scope forms') :=
  mirrors_each (fun _ _ hform => h.eval scope hform) hforms

theorem Mirrors.evalLast (hforms : AllMatch R forms forms') :
    (ev.evalLast scope forms).Mirrors R (Matches R)
      (ev.evalLast scope forms') := by
  induction hforms with
  | nil => exact mirrors_pure .nil
  | cons hform hforms ih => cases hforms with
    | nil => exact h.eval scope hform
    | cons _ _ => exact (h.eval scope hform).bind fun _ _ _ => ih

theorem Mirrors.stepBody (hforms : AllMatch R forms forms') :
    (ev.stepBody scope forms).Mirrors R (Bounce.Matches R)
      (ev.stepBody scope forms') := by
  induction hforms with
  | nil => exact mirrors_pure (.done .nil)
  | cons hform hforms ih => cases hforms with
    | nil => exact h.step scope hform
    | cons _ _ => exact (h.eval scope hform).bind fun _ _ _ => ih

theorem Mirrors.evalEntries {m m' : ValueMap} (hm : m.Matches R m')
    {pairs pairs' : List (Value × Value)} (hpairs : PairsMatch R pairs pairs') :
    (ev.evalEntries scope m pairs).Mirrors R (ValueMap.Matches R)
      (ev.evalEntries scope m' pairs') := by
  induction hpairs generalizing m m' with
  | nil => exact mirrors_pure hm
  | cons hp _ ih => cases hp with
    | mk hkey hvalue =>
        refine (h.eval scope hkey).bind fun k k' hk => ?_
        exact (h.eval scope hvalue).bind fun v v' hv => ih (hm.insert hk hv)

/-! ## Calls -/

theorem Mirrors.callNative (hh : host.Mirrors R) (name : String)
    (code : NativeCode) (hargs : AllMatch R args args') :
    (callNative host ev name code args).Mirrors R (Matches R)
      (callNative host ev name code args') := by
  cases code with
  | builtin b => exact b.call_mirrors h.apply hargs
  | custom key cell => exact hh.call key cell hargs
  | missing => exact mirrors_fail _

theorem Mirrors.applyStep (hh : host.Mirrors R) {f f' : Value}
    (hf : f.Matches R f') (hargs : AllMatch R args args') :
    (applyStep host ev f args).Mirrors R (Bounce.Matches R)
      (applyStep host ev f' args') := by
  have hother : Action.Mirrors R (Bounce.Matches R) (failNotCallable f)
      (failNotCallable f') :=
    mirrors_failShowing true hf .notCallable
  cases hf with
  | @closure kind _ _ _ _ _ scope _ hparams hbody => cases kind with
    | function =>
        refine (mirrors_enterClosure scope).bind_eq fun inner => ?_
        refine (h.bind hparams (matches_vectorOf hargs) inner).bind_eq
          fun _ => ?_
        exact h.enter inner hbody
    | expander => exact hother
  | native => exact finish_mirrors (h.callNative hh _ _ hargs)
  | keyword =>
      exact finish_mirrors (mirrors_ofExcept (Mapping.keywordCall_concur _ hargs))
  | _ => exact hother

theorem Mirrors.expand {params params' body body' : Value}
    (hparams : params.Matches R params') (hbody : body.Matches R body')
    (inner : Option Scope) (hforms : AllMatch R forms forms') :
    (expand ev params body inner forms).Mirrors R (Matches R)
      (expand ev params' body' inner forms') := by
  refine (mirrors_enterClosure inner).bind_eq fun inner => ?_
  refine (h.bind hparams (matches_vectorOf (Value.allMatch_toData hforms))
    inner).bind_eq ?_
  exact fun _ => h.eval inner hbody

theorem Mirrors.stepApplication (hh : host.Mirrors R) {head head' : Value}
    (hhead : head.Matches R head') (hforms : AllMatch R forms forms') :
    (stepApplication host ev head forms scope).Mirrors R (Bounce.Matches R)
      (stepApplication host ev head' forms' scope) := by
  refine (h.eval scope hhead).bind fun f f' hf => ?_
  have hother : Action.Mirrors R (Bounce.Matches R) (failNotCallable f)
      (failNotCallable f') :=
    mirrors_failShowing true hf .notCallable
  have hcall : Action.Mirrors R (Bounce.Matches R)
      (ev.evalAll scope forms >>= Evaluator.applyStep host ev f)
      (ev.evalAll scope forms' >>= Evaluator.applyStep host ev f') :=
    (h.evalAll hforms).bind fun args args' hargs => h.applyStep hh hf hargs
  cases hf with
  | @closure kind _ _ _ _ _ inner _ hparams hbody => cases kind with
    | function => exact hcall
    | expander =>
        exact (h.expand hparams hbody inner hforms).bind fun form form' hform =>
          h.step scope hform
  | native => exact hcall
  | keyword => exact hcall
  | _ => exact hother

/-! ## Control -/

theorem Mirrors.ifForm (hargs : AllMatch R args args') :
    (ifForm ev args scope).Mirrors R (Bounce.Matches R)
      (ifForm ev args' scope) := by
  rcases hargs with _ | ⟨htest, _ | ⟨hyes, _ | ⟨hno, _ | ⟨_, _⟩⟩⟩⟩
  · exact mirrors_fail _
  · exact mirrors_fail _
  · refine (h.eval scope htest).bind fun v v' hv => ?_
    rw [hv.truthy_eq]
    split
    · exact h.step scope hyes
    · exact mirrors_pure (.done .nil)
  · refine (h.eval scope htest).bind fun v v' hv => ?_
    rw [hv.truthy_eq]
    split
    · exact h.step scope hyes
    · exact h.step scope hno
  · exact mirrors_fail _

theorem Mirrors.bindPairs (hforms : AllMatch R forms forms') :
    (bindPairs ev scope forms).Mirrors R Eq (bindPairs ev scope forms') := by
  fun_induction Evaluator.bindPairs ev scope forms generalizing forms' with
  | case1 pattern form rest ih =>
      obtain _ | ⟨hpattern, _ | ⟨hform, hrest⟩⟩ := hforms
      exact (h.eval scope hform).bind fun v v' hv =>
        (h.bind hpattern hv scope).bind_eq fun _ => ih hrest
  | case2 forms hshort =>
      rcases hforms with _ | ⟨_, _ | ⟨_, _⟩⟩
      · exact mirrors_pure rfl
      · exact mirrors_pure rfl
      · exact absurd rfl (hshort _ _ _)

theorem Mirrors.letForm (hargs : AllMatch R args args') :
    (letForm ev args scope).Mirrors R (Bounce.Matches R)
      (letForm ev args' scope) := by
  rcases hargs with _ | ⟨hbindings, hbody⟩
  · exact mirrors_fail _
  · cases hbindings with
    | vector items _ =>
        simp only [Evaluator.letForm, Value.size_eq_of_allMatch items]
        split
        · refine (mirrors_enter scope).bind_eq fun inner => ?_
          exact (h.bindPairs items).bind_eq fun _ => h.stepBody hbody
        · exact mirrors_fail _
    | _ => exact mirrors_fail _

theorem Mirrors.throwForm (hargs : AllMatch R args args') :
    (throwForm ev args scope).Mirrors R (Bounce.Matches R)
      (throwForm ev args' scope) := by
  rcases hargs with _ | ⟨hform, _ | ⟨_, _⟩⟩
  · exact mirrors_fail _
  · exact (h.eval scope hform).bind fun v v' hv =>
      mirrors_failShowing false hv .thrown
  · exact mirrors_fail _

/-- Handlers for the same name, with matching forms. -/
structure Handler.Matches (R : Places) (h h' : Handler) : Prop where
  name : h.name = h'.name
  forms : AllMatch R h.forms h'.forms

omit h in
theorem handler?_rel {form form' : Value} (hform : form.Matches R form') :
    Option.Rel (Concur Eq (Handler.Matches R)) (handler? form)
      (handler? form') := by
  cases hform with
  | list items _ => cases items with
    | nil => exact .none
    | cons hhead hrest =>
        simp only [handler?, hhead.isSymbol_eq]
        split
        · cases hrest with
          | nil => exact .some (concur_error _)
          | cons hname hforms => cases hname with
            | symbol _ => exact .some (.ok ⟨rfl, hforms⟩)
            | _ => exact .some (concur_error _)
        · exact .none
  | _ => exact .none

omit h in
theorem splitHandlers_concur (hforms : AllMatch R forms forms') :
    Concur Eq (fun r r' : List Value × Option Handler => AllMatch R r.1 r'.1 ∧
      Option.Rel (Handler.Matches R) r.2 r'.2) (splitHandlers forms)
    (splitHandlers forms') := by
  induction hforms with
  | nil => exact concur_pure ⟨.nil, .none⟩
  | @cons form form' _ _ hform _ ih =>
      have hhandler := handler?_rel hform
      rw [splitHandlers, splitHandlers]
      generalize handler? form = h? at hhandler
      generalize handler? form' = h?' at hhandler
      rcases hhandler with ⟨hhandler⟩ | _
      · cases hhandler with
        | ok hfirst =>
            refine ih.bind fun r r' ⟨hbody, hlater⟩ => concur_pure ⟨hbody, ?_⟩
            generalize r.2 = l? at hlater
            generalize r'.2 = l?' at hlater
            cases hlater with
            | none => exact .some hfirst
            | some hl => exact .some hl
        | error hfault => exact .error hfault
      · exact ih.bind fun r r' ⟨hbody, hlater⟩ =>
          concur_pure ⟨.cons hform hbody, hlater⟩

theorem Mirrors.handle {handler handler' : Handler}
    (hhandler : handler.Matches R handler') {e e' : Failure}
    (he : e.Matches R e') :
    (handle ev handler e scope).Mirrors R (Bounce.Matches R)
      (handle ev handler' e' scope) := by
  rw [Evaluator.handle, Evaluator.handle, he.fault, hhandler.name]
  refine (mirrors_enter scope).bind_eq fun inner => ?_
  exact (mirrors_define inner handler'.name .string).bind_eq fun _ =>
    h.stepBody hhandler.forms

theorem Mirrors.tryForm (hargs : AllMatch R args args') :
    (tryForm ev args scope).Mirrors R (Bounce.Matches R)
      (tryForm ev args' scope) := by
  refine (mirrors_ofExcept (splitHandlers_concur hargs)).bind ?_
  intro ⟨body, handler⟩ ⟨body', handler'⟩ ⟨hbody, hhandler⟩
  refine (h.evalLast hbody).attempt.bind fun r r' hr => ?_
  cases hr with
  | ok hv => exact mirrors_pure (.done hv)
  | error he => cases hhandler with
    | none => exact mirrors_rethrow he
    | some hh => exact h.handle hh he

/-! ## Definitions and closures -/

omit h in
theorem definedName_concur (form : String) (hargs : AllMatch R args args') :
    Concur Eq Eq (definedName form args) (definedName form args') := by
  rcases hargs with _ | ⟨hname, _⟩
  · exact concur_error _
  · cases hname with
    | symbol _ => exact concur_pure rfl
    | _ => exact concur_error _

theorem Mirrors.defForm (hargs : AllMatch R args args') :
    (defForm ev args scope).Mirrors R (Matches R) (defForm ev args' scope) := by
  have hdefined := definedName_concur "def" hargs
  rcases hargs with _ | ⟨_, _ | ⟨hform, _ | ⟨_, _⟩⟩⟩
  · exact mirrors_fail _
  · exact mirrors_fail _
  · refine (mirrors_ofExcept hdefined).bind_eq fun name => ?_
    refine (h.eval scope hform).bind fun v v' hv => ?_
    exact (mirrors_define scope name hv).bind_eq fun _ => mirrors_pure hv
  · exact mirrors_fail _

omit h in
theorem parameters_concur (form : String) (hforms : AllMatch R forms forms') :
    Concur Eq (Matches R) (parameters form forms) (parameters form forms') := by
  rcases hforms with _ | ⟨hparams, _⟩
  · exact concur_error _
  · cases hparams with
    | vector items place =>
        have hdata := (Matches.vector items place).toData
        exact (Pattern.validate_concur hdata).bind_eq fun _ => concur_pure hdata
    | _ => exact concur_error _

omit h in
theorem bodyForm_matches (hforms : AllMatch R forms forms') :
    (bodyForm forms).Matches R (bodyForm forms') := by
  rcases hforms with _ | ⟨hform, _ | ⟨hnext, hforms⟩⟩
  · exact .nil
  · exact hform
  · exact .list (.cons (.symbol R.none) (.cons hform (.cons hnext hforms))) R.none

omit h in
theorem makeClosure_mirrors (form : String) (kind : ClosureKind)
    (name : Option String) (hforms : AllMatch R forms forms') :
    (makeClosure form kind name forms scope).Mirrors R (Matches R)
      (makeClosure form kind name forms' scope) := by
  refine (mirrors_ofExcept (parameters_concur form hforms)).bind
    fun params params' hparams => ?_
  refine HeapAction.mirrors_freshId.bind_eq fun id => ?_
  exact mirrors_pure
    (.closure hparams (bodyForm_matches (Value.allMatch_tail hforms)))

omit h in
theorem defClosureForm_mirrors (form : String) (kind : ClosureKind)
    (hargs : AllMatch R args args') :
    (defClosureForm form kind args scope).Mirrors R (Matches R)
      (defClosureForm form kind args' scope) := by
  refine (mirrors_ofExcept (definedName_concur form hargs)).bind_eq
    fun name => ?_
  refine (makeClosure_mirrors form kind (some name)
    (Value.allMatch_tail hargs)).bind ?_
  exact fun v v' hv => (mirrors_define scope name hv).bind_eq fun _ =>
    mirrors_pure hv

/-! ## Quotation -/

omit h in
theorem quoteForm_mirrors (hargs : AllMatch R args args') :
    (quoteForm args).Mirrors R (Matches R) (quoteForm args') := by
  rcases hargs with _ | ⟨hform, _ | ⟨_, _⟩⟩
  · exact mirrors_fail _
  · exact mirrors_pure hform.toData
  · exact mirrors_fail _

theorem Mirrors.fillWithin (n : Nat) {form form' : Value}
    (hform : form.Matches R form') :
    (ev.fillWithin scope n form).Mirrors R (Matches R)
      (ev.fillWithin scope n form') := by
  induction n generalizing form form' with
  | zero => exact mirrors_pure hform
  | succ n ih =>
      have hcall := hform.isCallOf_eq "unquote"
      have hdata := hform.toData
      have hitems {xs ys : List Value} (hxs : AllMatch R xs ys) :
          (Action.each (ev.fillWithin scope n) xs).Mirrors R (AllMatch R)
            (Action.each (ev.fillWithin scope n) ys) :=
        mirrors_each (fun _ _ hx => ih hx) hxs
      cases hform with
      | list items place =>
          simp only [Evaluator.fillWithin, hcall]
          split
          · rcases items with _ | ⟨_, _ | ⟨hhole, _ | ⟨_, _⟩⟩⟩
            · exact mirrors_fail _
            · exact mirrors_fail _
            · exact h.eval scope hhole
            · exact mirrors_fail _
          · exact (hitems items).bind fun vs vs' hvs =>
              mirrors_pure (.list hvs place)
      | vector items place =>
          exact (hitems items).bind fun vs vs' hvs =>
            mirrors_pure (.vector hvs place)
      | _ => exact mirrors_pure hdata

theorem Mirrors.quasiquoteForm (hargs : AllMatch R args args') :
    (quasiquoteForm ev scope args).Mirrors R (Matches R)
      (quasiquoteForm ev scope args') := by
  rcases hargs with _ | ⟨hform, _ | ⟨_, _⟩⟩
  · exact mirrors_fail _
  · rw [Evaluator.quasiquoteForm, Evaluator.quasiquoteForm, fill, fill,
      hform.depth_eq]
    exact h.fillWithin _ hform
  · exact mirrors_fail _

/-! ## The host -/

theorem Mirrors.constructor (hh : host.Mirrors R) {form form' : Value}
    (hform : form.Matches R form') :
    (constructor host ev form scope).Mirrors R (Matches R)
      (constructor host ev form' scope) := by
  have heval := h.eval scope hform
  cases hform with
  | @symbol name p q place =>
      simp only [Evaluator.constructor]
      split
      · exact heval
      · refine (mirrors_lookup scope name).bind fun v? v?' hv => ?_
        cases hv with
        | none => exact hh.global name
        | some hv => exact mirrors_pure hv
  | _ => exact heval

theorem Mirrors.newForm (hh : host.Mirrors R) (hargs : AllMatch R args args') :
    (newForm host ev args scope).Mirrors R (Matches R)
      (newForm host ev args' scope) := by
  rcases hargs with _ | ⟨hform, hforms⟩
  · exact mirrors_fail _
  · refine (h.constructor hh hform).bind fun ctor ctor' hctor => ?_
    exact (h.evalAll hforms).bind fun vs vs' hvs => hh.construct hctor hvs

theorem Mirrors.invokeForm (hh : host.Mirrors R) (member : String)
    {target target' : Value} (htarget : target.Matches R target')
    (hforms : AllMatch R forms forms') :
    (invokeForm host ev member target forms scope).Mirrors R (Matches R)
      (invokeForm host ev member target' forms' scope) :=
  (h.eval scope htarget).bind fun _ _ hv =>
    (h.evalAll hforms).bind fun _ _ hvs =>
      hh.invoke member hv hvs

omit h in
theorem memberName_concur {form form' : Value} (hform : form.Matches R form') :
    Concur Eq Eq (memberName form) (memberName form') := by
  have htype := hform.typeName_eq
  cases hform with
  | symbol _ => exact concur_pure rfl
  | string => exact concur_pure rfl
  | _ =>
      refine .error (congrArg (Fault.malformed ".") ?_)
      exact congrArg ("member name must be a symbol, got " ++ ·) htype

theorem Mirrors.dotForm (hh : host.Mirrors R) (hargs : AllMatch R args args') :
    (dotForm host ev args scope).Mirrors R (Matches R)
      (dotForm host ev args' scope) := by
  rcases hargs with _ | ⟨htarget, _ | ⟨hmember, hforms⟩⟩
  · exact mirrors_fail _
  · exact mirrors_fail _
  · exact (mirrors_ofExcept (memberName_concur hmember)).bind_eq fun name =>
      h.invokeForm hh name htarget hforms

theorem Mirrors.memberForm (hh : host.Mirrors R) (member : String)
    (hargs : AllMatch R args args') :
    (memberForm host ev member args scope).Mirrors R (Matches R)
      (memberForm host ev member args' scope) := by
  rcases hargs with _ | ⟨htarget, hforms⟩
  · exact mirrors_fail _
  · exact h.invokeForm hh member htarget hforms

/-! ## All forms -/

theorem Mirrors.stepSpecial (hh : host.Mirrors R) (form : Special)
    (hargs : AllMatch R args args') :
    (stepSpecial host ev form args scope).Mirrors R (Bounce.Matches R)
      (stepSpecial host ev form args' scope) := by
  cases form with
  | define => exact finish_mirrors (h.defForm hargs)
  | defineFunction => exact finish_mirrors (defClosureForm_mirrors _ _ hargs)
  | defineExpander => exact finish_mirrors (defClosureForm_mirrors _ _ hargs)
  | function => exact finish_mirrors (makeClosure_mirrors _ _ _ hargs)
  | branch => exact h.ifForm hargs
  | sequence => exact h.stepBody hargs
  | bindings => exact h.letForm hargs
  | quote => exact finish_mirrors (quoteForm_mirrors hargs)
  | quasiquote => exact finish_mirrors (h.quasiquoteForm hargs)
  | unquote => exact mirrors_fail _
  | attempt => exact h.tryForm hargs
  | throw => exact h.throwForm hargs
  | construct => exact finish_mirrors (h.newForm hh hargs)
  | member => exact finish_mirrors (h.dotForm hh hargs)

omit h in
theorem evalSymbol_mirrors (hh : host.Mirrors R) (name : String) :
    (evalSymbol host name scope).Mirrors R (Matches R)
      (evalSymbol host name scope) := by
  unfold evalSymbol
  split
  · exact hh.global _
  · exact mirrors_resolve scope name

omit h in
theorem operator_eq {head head' : Value} (hhead : head.Matches R head') :
    operator head = operator head' := by
  cases hhead <;> rfl

theorem Mirrors.stepForm (hh : host.Mirrors R) {form form' : Value}
    (hform : form.Matches R form') :
    (stepForm host ev form scope).Mirrors R (Bounce.Matches R)
      (stepForm host ev form' scope) := by
  have hself : Action.Mirrors R (Bounce.Matches R) (pure (.done form))
      (pure (.done form')) :=
    mirrors_pure (.done hform)
  cases hform with
  | symbol _ => exact finish_mirrors (evalSymbol_mirrors hh _)
  | vector items place =>
      exact (h.evalAll items).bind fun vs vs' hvs =>
        mirrors_pure (.done (.vector hvs place))
  | mapForm pairs place =>
      exact (h.evalEntries ValueMap.matches_empty pairs).bind fun m m' hm =>
        mirrors_pure (.done (.map hm place))
  | map entries place =>
      exact (h.evalEntries ValueMap.matches_empty entries.entries).bind
        fun m m' hm => mirrors_pure (.done (.map hm place))
  | list items _ => cases items with
    | nil => exact mirrors_pure (.done .nil)
    | @cons head head' args args' hhead hargs =>
        show (stepList host ev head args scope).Mirrors R (Bounce.Matches R)
          (stepList host ev head' args' scope)
        rw [stepList, stepList, operator_eq hhead]
        split
        · exact h.stepSpecial hh _ hargs
        · exact finish_mirrors (h.memberForm hh _ hargs)
        · exact h.stepApplication hh hhead hargs
  | _ => exact hself

end

end Evaluator

/-! ## The evaluator -/

namespace Machine

variable {host : Host}

theorem mirrors_inner (hh : host.Mirrors R) (strategy : Strategy) (n : Nat) :
    (inner host strategy n).Mirrors R := by
  have henter {n : Nat}
      (heval : ∀ {form form' : Value} (scope : Scope), form.Matches R form' →
        (eval host strategy n form scope).Mirrors R (Matches R)
          (eval host strategy n form' scope))
      {body body' : Value} (scope : Scope) (hbody : body.Matches R body') :
      (strategy.enter (eval host strategy n) body scope).Mirrors R
        (Bounce.Matches R)
        (strategy.enter (eval host strategy n) body' scope) := by
    cases strategy with
    | deferring => exact mirrors_pure (.more hbody)
    | direct =>
        exact (heval scope hbody).bind fun _ _ hv => mirrors_pure (.done hv)
  induction n with
  | zero =>
      exact ⟨fun _ _ => mirrors_exhausted, fun _ _ => mirrors_exhausted,
        fun _ _ => mirrors_exhausted, henter fun _ _ => mirrors_exhausted⟩
  | succ n ih =>
      have heval {form form' : Value} (scope : Scope)
          (hform : form.Matches R form') :
          (eval host strategy (n + 1) form scope).Mirrors R (Matches R)
            (eval host strategy (n + 1) form' scope) := by
        rw [eval_succ, eval_succ]
        exact (ih.step scope hform).bind fun b b' hb => hb.settle ih.eval
      refine ⟨heval, fun {form form'} scope hform => ?_,
        fun {f f' args args'} hf hargs => ?_, henter heval⟩
      · show (step host strategy (n + 1) form scope).Mirrors R (Bounce.Matches R)
          (step host strategy (n + 1) form' scope)
        rw [step_succ, step_succ]
        exact (ih.stepForm hh hform).located hform.span
      · show (apply host strategy (n + 1) f args).Mirrors R (Matches R)
          (apply host strategy (n + 1) f' args')
        rw [apply_succ, apply_succ]
        exact (ih.applyStep hh hf hargs).bind fun b b' hb => hb.settle ih.eval

/-- Two runs of forms that differ in nothing but places, on stores that differ
in nothing but places, go alike on every host that looks at no place, and the
standard host is one. They print and note the same and leave frames and cells
that hold the same up to places, and they end with values that are the same up
to places, or with the same fault, or both out of time. -/
theorem places_never_matter :
    Host.standard.Blind ∧ ∀ host : Host, host.Blind →
      ∀ (strategy : Strategy) (n : Nat) (form form' : Value) (scope : Scope)
        (s t : Store),
        form.Matches .any form' → s.Matches .any t →
        (eval host strategy n form scope s).Matches .any (Value.Matches .any)
          (eval host strategy n form' scope t) :=
  ⟨StandardHost.blind, fun _ hh strategy n _ _ scope s t hform hs =>
    (mirrors_inner (hh .any) strategy n).eval scope hform s t hs⟩

/-- A function that was read somewhere fails in its body. The failure is caught,
and its wording is put into a vector literal; uncaught, it is reported at a
place in one run and at none in the other. -/
theorem places_never_matter_caught :
    let p : Option Span := some ⟨"a", ⟨1, 1, 0⟩, ⟨1, 2, 1⟩⟩
    let f (q : Option Span) : Value :=
      .closure .function none (.vector (.ofList []) q) (.symbol "y" q)
        (some Store.root) 0
    let store (q : Option Span) : Store := { frames := #[[("f", f q)]] }
    let call (q : Option Span) : Value := .list [.symbol "f" q] q
    let form (q : Option Span) : Value := .list [.symbol "try" q, call q,
      .list [.symbol "catch" q, .symbol "e" q,
        .vector (.ofList [.symbol "e" q]) q] q] q
    let run (form : Value) (q : Option Span) : Outcome Value :=
      eval Host.standard .deferring 9 form Store.root (store q)
    (∃ u u' v, run (form p) p = .result (.vector (.ofList [v]) p) u ∧
        run (form none) none = .result (.vector (.ofList [v]) none) u') ∧
      (run (form p) p).Matches .any (Value.Matches .any) (run (form none) none) ∧
      (∃ u u', run (call p) p = .failure ⟨.unbound "y", p⟩ u ∧
        run (call none) none = .failure ⟨.unbound "y", none⟩ u') ∧
      (run (call p) p).Matches .any (Value.Matches .any)
      (run (call none) none) := by
  intro p f store call form run
  have hsymbol (name : String) :
      (Value.symbol name p).Matches .any (.symbol name none) :=
    .symbol trivial
  have hcall : (call p).Matches .any (call none) :=
    .list (.cons (hsymbol "f") .nil) trivial
  have hform : (form p).Matches .any (form none) := by
    have hvector : AllMatch .any [.vector (.ofList [.symbol "e" p]) p]
        [.vector (.ofList [.symbol "e" none]) none] :=
      .cons (.vector (.cons (hsymbol "e") .nil) trivial) .nil
    refine .list (.cons (hsymbol "try") (.cons hcall (.cons ?_ .nil))) trivial
    exact .list (.cons (hsymbol "catch") (.cons (hsymbol "e") hvector)) trivial
  have hstore : (store p).Matches .any (store none) := by
    refine ⟨.cons (.cons (.mk rfl (.closure ?_ (hsymbol "y"))) .nil) .nil, .nil,
      rfl, rfl, rfl, rfl⟩
    exact .vector .nil trivial
  have hrun :=
    places_never_matter.2 Host.standard places_never_matter.1 .deferring 9
  exact ⟨⟨_, _, _, rfl, rfl⟩, hrun _ _ Store.root _ _ hform hstore,
    ⟨_, _, rfl, rfl⟩, hrun _ _ Store.root _ _ hcall hstore⟩

end Machine

end TinyLisp
