import TinyLisp.Proofs.Eval.Strategy
import TinyLisp.Proofs.Pattern.Parts

/-!
# Special forms of the wrong shape

Every special form says which arguments it takes, and it looks at all of them
before it does anything: a form of the wrong shape fails at once and leaves the
store as it was. What is wrong can be seen in the form alone. No binding
matters, since special forms are known by name, and no evaluator does, since
none is called.

`Rejects` is what a rule does then. It passes to all that a rule does
afterwards, so for each form only the check that stands first is looked at.
-/

namespace TinyLisp

/-! ## Failing over a shape -/

/-- The fault of a form or pattern of the wrong shape. -/
def Fault.IsMalformed (fault : Fault) : Prop :=
  ∃ what detail, fault = .malformed what detail

namespace Action

variable {α β : Type}

/-- The action fails over the shape of a form, always in the same way, and
does nothing else. -/
def Rejects (x : Action α) : Prop :=
  ∃ fault : Fault, fault.IsMalformed ∧ ∀ s, x s = .failure (.ofFault fault) s

theorem rejects_fail (what detail : String) :
    (fail (.malformed what detail) : Action α).Rejects :=
  ⟨_, ⟨what, detail, rfl⟩, fun _ => rfl⟩

theorem rejects_ofExcept {x : Except Fault α} {fault : Fault}
    (hx : x = .error fault) (h : fault.IsMalformed) : (ofExcept x).Rejects := by
  subst hx
  exact ⟨fault, h, fun _ => rfl⟩

theorem Rejects.bind {x : Action α} (h : x.Rejects) (f : α → Action β) :
    (x >>= f).Rejects := by
  obtain ⟨fault, hfault, hx⟩ := h
  exact ⟨fault, hfault, fun s => bind_of_failure (hx s)⟩

end Action

/-! ## Patterns

A pattern is checked by checks of its parts, and each complains
about a shape. -/

namespace Pattern

/-- If the check complains, it does about a shape. -/
def Complains (x : Except Fault Unit) : Prop :=
  ∀ fault, x = .error fault → fault.IsMalformed

theorem complains_ok : Complains (.ok ()) := nofun

theorem complains_malformed (detail : String) :
    Complains (.error (malformed detail)) := by
  intro fault h
  cases h
  exact ⟨_, detail, rfl⟩

theorem Complains.bind {x y : Except Fault Unit} (hx : Complains x)
    (hy : Complains y) : Complains (x >>= fun _ => y) := by
  cases x with
  | ok a => exact hy
  | error fault => exact hx

theorem Complains.forM {α : Type} {f : α → Except Fault Unit}
    (h : ∀ x, Complains (f x)) (xs : List α) : Complains (xs.forM f) := by
  induction xs with
  | nil => exact complains_ok
  | cons x xs ih => exact (h x).bind ih

variable {check : Value → Except Fault Unit}

theorem complains_checkItems (hcheck : ∀ p, Complains (check p))
    (ps : List Value) : Complains (checkItems check ps) := by
  induction ps using items_induct with
  | nil => exact complains_ok
  | whole name span ps ih =>
      rw [checkItems_whole]
      exact ih
  | rest span p tail hends ih =>
      rw [checkItems_rest span p hends]
      exact (hcheck p).bind ih
  | item p ps has hamp ih =>
      rw [checkItems_item has hamp]
      exact (hcheck p).bind ih
  | refused ps fault hrefused =>
      rw [hrefused.checkItems_eq]
      cases hrefused <;> exact complains_malformed _

theorem complains_checkEntry (hcheck : ∀ p, Complains (check p))
    (entry : Value × Value) : Complains (checkEntry check entry) := by
  unfold checkEntry
  split
  · split
    · exact complains_ok
    · exact complains_malformed _
  · split
    · exact complains_ok
    · exact complains_malformed _
  · split
    · exact complains_ok
    · exact complains_malformed _
  · exact hcheck _

theorem complains_validateWithin (n : Nat) (p : Value) :
    Complains (validateWithin n p) := by
  induction n generalizing p with
  | zero => exact complains_malformed _
  | succ n ih =>
      unfold validateWithin
      split
      · exact complains_ok
      · exact complains_checkItems ih _
      · exact Complains.forM (complains_checkEntry ih) _
      · exact complains_malformed _

end Pattern

/-! ## Which shapes are wrong -/

/-- The first argument is a symbol. -/
def StartsWithName (args : List Value) : Prop :=
  ∃ name span rest, args = .symbol name span :: rest

/-- The first argument is a vector of patterns. -/
def StartsWithParameters (args : List Value) : Prop :=
  ∃ patterns span rest, args = .vector patterns span :: rest ∧
    Pattern.validate (Value.vector patterns span).toData = .ok ()

/-- The first argument is a vector of pairs. -/
def StartsWithBindings (args : List Value) : Prop :=
  ∃ items span rest, args = .vector items span :: rest ∧ items.size % 2 = 0

/-- The form is a `catch` clause that names no variable. -/
def IsNamelessCatch (form : Value) : Prop :=
  ∃ place rest span, form = .list (.symbol "catch" place :: rest) span ∧
    ¬ StartsWithName rest

/-- The form can stand for the name of a member. -/
def NamesMember (form : Value) : Prop :=
  (∃ name span, form = .symbol name span) ∨ ∃ text, form = .string text

/-- A special form does not take these arguments. -/
def Special.Misshapen (form : Special) (args : List Value) : Prop :=
  match form with
  | .define => args.length ≠ 2 ∨ ¬ StartsWithName args
  | .defineFunction => ¬ StartsWithName args ∨ ¬ StartsWithParameters args.tail
  | .defineExpander => ¬ StartsWithName args ∨ ¬ StartsWithParameters args.tail
  | .function => ¬ StartsWithParameters args
  | .branch => args.length ≠ 2 ∧ args.length ≠ 3
  | .sequence => False
  | .bindings => ¬ StartsWithBindings args
  | .quote => args.length ≠ 1
  | .quasiquote => args.length ≠ 1
  | .unquote => True
  | .attempt => ∃ clause ∈ args, IsNamelessCatch clause
  | .throw => args.length ≠ 1
  | .construct => args = []
  | .member =>
    args.length < 2 ∨ ∃ name, args[1]? = some name ∧ ¬ NamesMember name

/-- A form that is rejected as it stands: a special form that does not take its
arguments, or the use of a member of nothing. -/
inductive Value.Misshapen : Value → Prop where
  | special {name : String} {place span : Option Span} {args : List Value}
      {form : Special} (hname : Special.ofName? name = some form)
      (h : form.Misshapen args) :
      Misshapen (.list (.symbol name place :: args) span)
  | member {name member : String} {place span : Option Span}
      (hspecial : Special.ofName? name = none)
      (hname : Value.memberCall? name = some member) :
      Misshapen (.list [.symbol name place] span)

namespace Evaluator

open TinyLisp.Action (rejects_fail rejects_ofExcept)

variable {host : Host} {ev : Evaluator} {args : List Value} {scope : Scope}

/-! ## Definitions -/

theorem definedName_error (form : String) (h : ¬ StartsWithName args) :
    ∃ fault, definedName form args = .error fault ∧ fault.IsMalformed := by
  unfold definedName
  split
  · exact absurd ⟨_, _, _, rfl⟩ h
  · exact ⟨_, rfl, _, _, rfl⟩

theorem parameters_error (form : String) (h : ¬ StartsWithParameters args) :
    ∃ fault, parameters form args = .error fault ∧ fault.IsMalformed := by
  unfold parameters
  split
  · next patterns span rest =>
      cases hvalid : Pattern.validate (Value.vector patterns span).toData with
      | ok _ => exact absurd ⟨patterns, span, rest, rfl, hvalid⟩ h
      | error fault =>
          refine ⟨fault, ?_, Pattern.complains_validateWithin _ _ fault hvalid⟩
          dsimp only
          rw [hvalid]
          rfl
  · exact ⟨_, rfl, _, _, rfl⟩

theorem rejects_makeClosure {kind : ClosureKind} {name : Option String}
    (form : String) (h : ¬ StartsWithParameters args) :
    (makeClosure form kind name args scope).Rejects := by
  obtain ⟨fault, hparameters, hfault⟩ := parameters_error form h
  exact (rejects_ofExcept hparameters hfault).bind _

theorem rejects_defForm (h : args.length ≠ 2 ∨ ¬ StartsWithName args) :
    (defForm ev args scope).Rejects := by
  unfold defForm
  split
  · next first form =>
      have hname : ¬ StartsWithName [first, form] :=
        h.resolve_left (fun hlength => hlength rfl)
      obtain ⟨fault, hdefined, hfault⟩ := definedName_error "def" hname
      exact (rejects_ofExcept hdefined hfault).bind _
  · exact rejects_fail _ _

theorem rejects_defClosureForm {kind : ClosureKind} (form : String)
    (h : ¬ StartsWithName args ∨ ¬ StartsWithParameters args.tail) :
    (defClosureForm form kind args scope).Rejects := by
  by_cases hname : StartsWithName args
  · have hparameters := h.resolve_left (absurd hname)
    obtain ⟨name, span, rest, rfl⟩ := hname
    show (makeClosure form kind (some name) rest scope >>= _).Rejects
    exact (rejects_makeClosure form hparameters).bind _
  · obtain ⟨fault, hdefined, hfault⟩ := definedName_error form hname
    exact (rejects_ofExcept hdefined hfault).bind _

/-! ## Control -/

theorem rejects_ifForm (h : args.length ≠ 2 ∧ args.length ≠ 3) :
    (ifForm ev args scope).Rejects := by
  unfold ifForm
  split
  · exact absurd rfl h.1
  · exact absurd rfl h.2
  · exact rejects_fail _ _

theorem rejects_letForm (h : ¬ StartsWithBindings args) :
    (letForm ev args scope).Rejects := by
  unfold letForm
  split
  · next items span rest =>
      split
      · next heven => exact absurd ⟨items, span, rest, rfl, heven⟩ h
      · exact rejects_fail _ _
  · exact rejects_fail _ _

theorem rejects_throwForm (h : args.length ≠ 1) :
    (throwForm ev args scope).Rejects := by
  unfold throwForm
  split
  · exact absurd rfl h
  · exact rejects_fail _ _

/-- The fault of a `catch` clause that names no variable. -/
def namelessCatch : Fault :=
  .malformed "catch" "error name must be a symbol"

theorem handler?_of_nameless {form : Value} (h : IsNamelessCatch form) :
    handler? form = some (.error namelessCatch) := by
  obtain ⟨place, rest, span, rfl, hname⟩ := h
  have hcatch : (Value.symbol "catch" place).isSymbol "catch" = true := rfl
  unfold handler?
  dsimp only
  rw [if_pos hcatch]
  split
  · exact absurd ⟨_, _, _, rfl⟩ hname
  · rfl

theorem handler?_error {form : Value} {fault : Fault}
    (h : handler? form = some (.error fault)) : fault = namelessCatch := by
  unfold handler? at h
  split at h
  · split at h
    · split at h
      · cases h
      · cases h
        rfl
    · cases h
  · cases h

/-- One bad clause is found wherever it stands. -/
theorem splitHandlers_of_nameless
    (h : ∃ clause ∈ args, IsNamelessCatch clause) :
    splitHandlers args = .error namelessCatch := by
  induction args with
  | nil =>
      obtain ⟨clause, hmem, -⟩ := h
      cases hmem
  | cons form forms ih =>
      obtain ⟨clause, hmem, hclause⟩ := h
      rcases List.mem_cons.mp hmem with rfl | hmem
      · rw [splitHandlers, handler?_of_nameless hclause]
      · have hforms := ih ⟨clause, hmem, hclause⟩
        rw [splitHandlers]
        split
        · rw [hforms]
          rfl
        · next fault hfault => rw [handler?_error hfault]
        · rw [hforms]
          rfl

theorem rejects_tryForm (h : ∃ clause ∈ args, IsNamelessCatch clause) :
    (tryForm ev args scope).Rejects :=
  (rejects_ofExcept (splitHandlers_of_nameless h) ⟨_, _, rfl⟩).bind _

/-! ## Quotation -/

theorem rejects_quoteForm (h : args.length ≠ 1) : (quoteForm args).Rejects := by
  unfold quoteForm
  split
  · exact absurd rfl h
  · exact rejects_fail _ _

theorem rejects_quasiquoteForm (h : args.length ≠ 1) :
    (quasiquoteForm ev scope args).Rejects := by
  unfold quasiquoteForm
  split
  · exact absurd rfl h
  · exact rejects_fail _ _

/-! ## The host -/

theorem memberName_error {form : Value} (h : ¬ NamesMember form) :
    ∃ fault, memberName form = .error fault ∧ fault.IsMalformed := by
  unfold memberName
  split
  · exact absurd (.inl ⟨_, _, rfl⟩) h
  · exact absurd (.inr ⟨_, rfl⟩) h
  · exact ⟨_, rfl, _, _, rfl⟩

/-- The member is looked at before the target is evaluated. -/
theorem rejects_dotForm
    (h : args.length < 2 ∨ ∃ name, args[1]? = some name ∧ ¬ NamesMember name) :
    (dotForm host ev args scope).Rejects := by
  unfold dotForm
  split
  · next target member forms =>
      rcases h with hlength | ⟨name, hname, hmember⟩
      · simp only [List.length_cons] at hlength
        omega
      · cases hname
        obtain ⟨fault, herror, hfault⟩ := memberName_error hmember
        exact (rejects_ofExcept herror hfault).bind _
  · exact rejects_fail _ _

/-! ## Forms -/

theorem rejects_finish {x : Action Value} (h : x.Rejects) :
    (finish x).Rejects :=
  h.bind _

theorem rejects_stepSpecial {form : Special} (h : form.Misshapen args) :
    (stepSpecial host ev form args scope).Rejects := by
  cases form with
  | define => exact rejects_finish (rejects_defForm h)
  | defineFunction => exact rejects_finish (rejects_defClosureForm "defn" h)
  | defineExpander => exact rejects_finish (rejects_defClosureForm "defmacro" h)
  | function => exact rejects_finish (rejects_makeClosure "fn" h)
  | branch => exact rejects_ifForm h
  | sequence => exact h.elim
  | bindings => exact rejects_letForm h
  | quote => exact rejects_finish (rejects_quoteForm h)
  | quasiquote => exact rejects_finish (rejects_quasiquoteForm h)
  | unquote => exact rejects_fail _ _
  | attempt => exact rejects_tryForm h
  | throw => exact rejects_throwForm h
  | construct =>
      obtain rfl : args = [] := h
      exact rejects_finish (rejects_fail _ _)
  | member => exact rejects_finish (rejects_dotForm h)

/-- A form of the wrong shape is rejected by every evaluator, in every scope. -/
theorem rejects_stepForm {form : Value} (h : form.Misshapen) :
    (ev.stepForm host form scope).Rejects := by
  cases h with
  | @special name place span args form hname h =>
      have hoperator : operator (.symbol name place) = .special form := by
        rw [operator, hname]
      rw [stepForm, stepList, hoperator]
      exact rejects_stepSpecial h
  | @member name member place span hspecial hname =>
      have hoperator : operator (.symbol name place) = .member member := by
        rw [operator, hspecial, hname]
      rw [stepForm, stepList, hoperator]
      exact rejects_finish (rejects_fail _ _)

end Evaluator

namespace Machine

theorem step_of_rejects {host : Host} {strategy : Strategy} {n : Nat}
    {form : Value} {scope : Scope}
    (h : ((inner host strategy n).stepForm host form scope).Rejects) :
    ∃ fault : Fault, fault.IsMalformed ∧
      ∀ s, step host strategy (n + 1) form scope s =
        .failure ⟨fault, form.span⟩ s := by
  obtain ⟨fault, hfault, hfails⟩ := h
  refine ⟨fault, hfault, fun s => ?_⟩
  rw [step_succ, Action.located, hfails s]
  rfl

/-- Evaluating a form of the wrong shape fails at the form, with a fault about
its shape, and leaves the store as it was. The failure is the same in every
store, whatever is bound there. -/
theorem misshapen_fails (host : Host) (strategy : Strategy) (form : Value)
    (h : form.Misshapen) (scope : Scope) (n : Nat) :
    ∃ fault : Fault, fault.IsMalformed ∧ fault.kind = .invalid ∧
      ∀ s, eval host strategy (n + 2) form scope s =
        .failure ⟨fault, form.span⟩ s := by
  have hrejects : ((inner host strategy n).stepForm host form scope).Rejects :=
    Evaluator.rejects_stepForm h
  obtain ⟨fault, hfault, hstep⟩ := step_of_rejects hrejects
  refine ⟨fault, hfault, ?_, fun s => ?_⟩
  · obtain ⟨what, detail, rfl⟩ := hfault
    rfl
  · rw [eval_succ]
    exact Action.bind_of_failure (hstep s)

/-- A `try` whose body would define a variable and then fail, with a clause that
names a string. -/
theorem misshapen_fails_catch :
    let place : Span := ⟨"a", ⟨1, 1, 0⟩, ⟨1, 40, 39⟩⟩
    let define : Value :=
      .list [.symbol "def" none, .symbol "x" none, .nil] none
    let clause : Value :=
      .list [.symbol "catch" none, .string "e", .symbol "e" none] none
    let form : Value :=
      .list [.symbol "try" none, define, .list [.symbol "throw" none] none,
        clause] (some place)
    form.Misshapen ∧
      ∃ fault : Fault, fault.IsMalformed ∧ fault.kind = .invalid ∧
        ∀ s, eval Host.standard .deferring 9 form ⟨0, []⟩ s =
          .failure ⟨fault, some place⟩ s := by
  intro place define clause form
  have hnameless : IsNamelessCatch clause :=
    ⟨none, _, none, rfl, fun ⟨_, _, _, h⟩ => nomatch h⟩
  have hargs : Special.attempt.Misshapen
      [define, .list [.symbol "throw" none] none, clause] :=
    ⟨clause, by simp, hnameless⟩
  have hform : form.Misshapen := .special (by decide) hargs
  exact ⟨hform, misshapen_fails Host.standard .deferring form hform ⟨0, []⟩ 7⟩

end Machine

end TinyLisp
