import TinyLisp.Engine
import TinyLisp.Proofs.Builtin.Clean
import TinyLisp.Proofs.Eval.Strategy
import TinyLisp.Proofs.Pattern.Parts
import TinyLisp.Proofs.Reader.Grammar

/-!
# Evaluation gives no map literals

On a tidy store an admissible form has a tidy value, if it has one, and whether
it has one or fails it leaves a tidy store. A program is read form by form, and
each form that is read is admissible, so no map literal ever gets among the
values of a program.

There are few places where syntax turns into values, and each needs a reason of
its own. Literals are evaluated entry by entry. Quotation, arguments of
expanders and parameters of closures go through `toData`, which leaves a map as
it is; that is why maps in forms have to be clean. A template is filled down to
its depth, so it ends in `toData` too and never where the budget does. A pattern
of a `let` is taken as it was read, but only variables come out of it and
defaults, which are evaluated. The form that an expander gives is a value, and
every tidy value is admissible.

The argument goes rule by rule for an evaluator that keeps the store tidy for
the parts of a form, and a body that is handed back has to be admissible.
-/

namespace TinyLisp

open Value (tidy_leaf tidy_list tidy_vector tidy_vectorOf tidy_map tidy_closure)
open TinyLisp.Action (Keeps keeps_pure keeps_fail keeps_rethrow keeps_exhausted
  keeps_ofExcept keeps_ofExcept_bind keeps_each keeps_forM keeps_define
  keeps_enter keeps_lookup keeps_resolve)

/-- The value is tidy, or the body is a form that may be evaluated. -/
def Bounce.Tidy : Bounce → Prop
  | .done v => v.Tidy
  | .more body _ => body.Admissible

theorem Bounce.Tidy.settle {b : Bounce} (h : b.Tidy) {resume : Resume}
    (hresume : ∀ body scope, body.Admissible →
      (resume body scope).Keeps Value.Tidy) :
    (b.settle resume).Keeps Value.Tidy := by
  cases b with
  | done v => exact keeps_pure h
  | more body scope => exact hresume body scope h

theorem keeps_failShowing {α : Type} {P : α → Prop} (readable : Bool)
    (v : Value) (fault : String → Fault) :
    (failShowing readable v fault : Action α).Keeps P :=
  fun _ hs => hs

theorem keeps_enterClosure (scope : Option Scope) :
    (enterClosure scope).Keeps fun _ => True := by
  cases scope with
  | none => exact keeps_fail _
  | some scope => exact keeps_enter scope

/-! ## Patterns -/

namespace Pattern

theorem tidy_of_shape {p : Value} {m : ValueMap} (h : p.Admissible)
    (hs : shape p = .associative m) : ValueMap.Tidy m := by
  obtain ⟨span, hdata⟩ := shape_eq_associative hs
  have htidy := h.tidy_toData
  rw [hdata] at htidy
  exact tidy_map.mp htidy

theorem admissible_of_mem_parts {p q : Value} (h : p.Admissible)
    (hq : q ∈ (shape p).parts) : q.Admissible := by
  cases hs : shape p with
  | name n => rw [hs] at hq; cases hq
  | other t => rw [hs] at hq; cases hq
  | sequence ps =>
      rw [hs] at hq
      exact h.of_items (items?_of_shape hs) q hq
  | associative m =>
      rw [hs] at hq
      obtain ⟨e, he, rfl⟩ := List.mem_map.mp hq
      exact (tidy_of_shape h hs e he).1.admissible

theorem itemsOf_yields {v : Value} (h : v.Tidy) :
    Yields AllTidy (itemsOf v) := by
  unfold itemsOf
  split
  · exact yields_pure (tidy_list.mp h)
  · exact yields_pure (tidy_vector.mp h)
  · exact yields_pure nofun
  · exact yields_error _

theorem entriesOf_yields {v : Value} (h : v.Tidy) :
    Yields ValueMap.Tidy (entriesOf v) := by
  unfold entriesOf
  split
  · exact yields_pure (tidy_map.mp h)
  · exact yields_pure ValueMap.tidy_empty
  · exact yields_error _

theorem defaultsOf_yields {m : ValueMap} (h : ValueMap.Tidy m) :
    Yields (fun defaults => ∀ ds, defaults = some ds → ValueMap.Tidy ds)
      (defaultsOf m) := by
  unfold defaultsOf
  split
  · next ds span hget =>
      refine yields_pure ?_
      rintro _ ⟨⟩
      exact tidy_map.mp (h.get? hget)
  · exact yields_error _
  · exact yields_pure nofun

section

variable {eval : Evaluate} {scope : Scope} {bind : Value → Value → Action Unit}
  {get : Value → Option String → Action Value} {whole : Value}

theorem fetch_keeps
    (heval : ∀ form, form.Admissible → (eval form scope).Keeps Value.Tidy)
    {m : ValueMap} (hm : ValueMap.Tidy m) {defaults : Option ValueMap}
    (hdefaults : ∀ ds, defaults = some ds → ValueMap.Tidy ds) (key : Value)
    (name? : Option String) :
    (fetch eval scope m defaults key name?).Keeps Value.Tidy := by
  unfold fetch
  split
  · next v hlookup => exact keeps_pure (hm.lookup hlookup)
  · split
    · next name ds =>
        split
        · next expr hexpr =>
            exact heval expr ((hdefaults ds rfl).lookup hexpr).admissible
        · exact keeps_pure (tidy_leaf rfl rfl)
    · exact keeps_pure (tidy_leaf rfl rfl)

theorem bindNames_keeps (hget : ∀ key name?, (get key name?).Keeps Value.Tidy)
    (n : Naming) (vs : List Value) :
    (bindNames get scope n vs).Keeps fun _ => True := by
  induction vs with
  | nil => exact keeps_pure trivial
  | cons v vs ih =>
      rw [bindNames]
      split
      · exact keeps_fail _
      · exact (hget _ _).bind fun v hv =>
          (keeps_define scope _ hv).bind fun _ _ => ih

theorem bindEntry_keeps (hget : ∀ key name?, (get key name?).Keeps Value.Tidy)
    (hwhole : whole.Tidy) {entry : Value × Value}
    (hbind : ∀ v, v.Tidy → (bind entry.1 v).Keeps fun _ => True) :
    (bindEntry bind get scope whole entry).Keeps fun _ => True := by
  unfold bindEntry
  split
  · split
    · exact bindNames_keeps hget _ _
    · exact keeps_fail _
  · split
    · exact keeps_define scope _ hwhole
    · exact keeps_fail _
  · exact keeps_pure trivial
  · next pattern hrole =>
      obtain rfl := eq_of_role_target hrole
      exact (hget _ _).bind hbind

theorem bindItems_keeps (hwhole : whole.Tidy) {ps items : List Value}
    (hbind : ∀ p ∈ ps, ∀ v, v.Tidy → (bind p v).Keeps fun _ => True)
    (hitems : AllTidy items) :
    (bindItems bind scope whole ps items).Keeps fun _ => True := by
  induction ps using items_induct generalizing items with
  | nil =>
      rw [bindItems]
      exact keeps_pure trivial
  | whole name span ps ih =>
      rw [bindItems_whole]
      exact (keeps_define scope name hwhole).bind fun _ _ =>
        ih (fun p hp => hbind p (by simp [hp])) hitems
  | rest span p tail hends ih =>
      rw [bindItems_rest span p hends]
      refine (hbind p (by simp) _ (tidy_vectorOf.mpr hitems)).bind fun _ _ => ?_
      exact ih (fun q hq => hbind q (by simp [hq])) (List.forall_mem_nil _)
  | item p ps has hamp ih =>
      rw [bindItems_item has hamp]
      refine (hbind p (by simp) _ hitems.headD).bind fun _ _ => ?_
      exact ih (fun q hq => hbind q (by simp [hq])) hitems.tail
  | refused ps fault hrefused =>
      rw [hrefused.bindItems_eq]
      exact keeps_fail fault

theorem bind_keeps
    (heval : ∀ form, form.Admissible → (eval form scope).Keeps Value.Tidy)
    {p v : Value} (hp : p.Admissible) (hv : v.Tidy) :
    (Pattern.bind eval p v scope).Keeps fun _ => True := by
  induction p using induct generalizing v with
  | step p ih =>
      have hparts (q : Value) (hq : q ∈ (shape p).parts) (w : Value)
          (hw : w.Tidy) :=
        ih q hq (admissible_of_mem_parts hp hq) hw
      rw [bind_eq, bindStep]
      cases hs : shape p with
      | name n => exact keeps_define scope n hv
      | sequence ps =>
          rw [hs] at hparts
          exact (keeps_ofExcept (itemsOf_yields hv)).bind fun items hitems =>
            bindItems_keeps hv hparts hitems
      | associative m =>
          rw [hs] at hparts
          have hm := tidy_of_shape hp hs
          refine (keeps_ofExcept (entriesOf_yields hv)).bind
            fun entries hentries => ?_
          refine (keeps_ofExcept (defaultsOf_yields hm)).bind
            fun defaults hdefaults => ?_
          exact keeps_forM fun e he =>
            bindEntry_keeps (fetch_keeps heval hentries hdefaults) hv
              (hparts e.1 (mem_parts_of_mem_entries he))
      | other t => exact keeps_fail _

end

end Pattern

namespace Evaluator

/-- The evaluator keeps the store tidy, and what it gives for admissible forms
and tidy values is tidy. -/
structure Keeping (ev : Evaluator) : Prop where
  eval : ∀ form scope, form.Admissible → (ev.eval form scope).Keeps Value.Tidy
  step : ∀ form scope, form.Admissible → (ev.step form scope).Keeps Bounce.Tidy
  apply : ∀ f args, f.Tidy → AllTidy args → (ev.apply f args).Keeps Value.Tidy
  enter : ∀ body scope, body.Admissible →
    (ev.enter body scope).Keeps Bounce.Tidy

variable {host : Host} {ev : Evaluator} {scope : Scope}
  {forms args : List Value}

theorem finish_keeps {x : Action Value} (h : x.Keeps Value.Tidy) :
    (finish x).Keeps Bounce.Tidy :=
  h.bind fun _ hv => keeps_pure hv

section

variable (h : ev.Keeping)
include h

theorem Keeping.bind {p v : Value} (hp : p.Admissible) (hv : v.Tidy)
    (scope : Scope) : (ev.bind p v scope).Keeps fun _ => True :=
  Pattern.bind_keeps (fun form hform => h.eval form scope hform) hp hv

/-! ## Forms in a row -/

theorem Keeping.evalAll (hforms : AllAdmissible forms) :
    (ev.evalAll scope forms).Keeps AllTidy :=
  keeps_each fun form hform => h.eval form scope (hforms form hform)

theorem Keeping.evalLast (hforms : AllAdmissible forms) :
    (ev.evalLast scope forms).Keeps Value.Tidy := by
  induction forms with
  | nil => exact keeps_pure (tidy_leaf rfl rfl)
  | cons form forms ih =>
      obtain ⟨hform, hforms⟩ := List.forall_mem_cons.mp hforms
      cases forms with
      | nil => exact h.eval form scope hform
      | cons next forms =>
          exact (h.eval form scope hform).bind fun _ _ => ih hforms

theorem Keeping.stepBody (hforms : AllAdmissible forms) :
    (ev.stepBody scope forms).Keeps Bounce.Tidy := by
  induction forms with
  | nil => exact keeps_pure (tidy_leaf rfl rfl)
  | cons form forms ih =>
      obtain ⟨hform, hforms⟩ := List.forall_mem_cons.mp hforms
      cases forms with
      | nil => exact h.step form scope hform
      | cons next forms =>
          exact (h.eval form scope hform).bind fun _ _ => ih hforms

theorem Keeping.evalEntries {m : ValueMap} (hm : ValueMap.Tidy m)
    {pairs : List (Value × Value)}
    (hpairs : ∀ p ∈ pairs, p.1.Admissible ∧ p.2.Admissible) :
    (ev.evalEntries scope m pairs).Keeps ValueMap.Tidy := by
  induction pairs generalizing m with
  | nil => exact keeps_pure hm
  | cons p pairs ih =>
      obtain ⟨⟨hkey, hvalue⟩, hpairs⟩ := List.forall_mem_cons.mp hpairs
      refine (h.eval p.1 scope hkey).bind fun key hk => ?_
      exact (h.eval p.2 scope hvalue).bind fun value hv =>
        ih (hm.insert hk hv) hpairs

/-! ## Calls -/

theorem Keeping.callNative (hh : host.Keeping) (name : String)
    (code : NativeCode) (hargs : AllTidy args) :
    (callNative host ev name code args).Keeps Value.Tidy := by
  cases code with
  | builtin b => exact b.call_keeps h.apply hargs
  | custom key cell => exact hh.call key cell args hargs
  | missing => exact keeps_fail _

theorem Keeping.applyStep (hh : host.Keeping) {f : Value} (hf : f.Tidy)
    (hargs : AllTidy args) : (applyStep host ev f args).Keeps Bounce.Tidy := by
  unfold Evaluator.applyStep
  split
  · obtain ⟨hparams, hbody⟩ := tidy_closure.mp hf
    refine (keeps_enterClosure _).bind fun inner _ => ?_
    refine (h.bind hparams.admissible (tidy_vectorOf.mpr hargs) inner).bind
      fun _ _ => ?_
    exact h.enter _ inner hbody
  · exact finish_keeps (h.callNative hh _ _ hargs)
  · exact finish_keeps (keeps_ofExcept (Mapping.keywordCall_yields _ hargs))
  · exact keeps_failShowing _ _ _

theorem Keeping.expand {params body : Value} (hparams : params.Tidy)
    (hbody : body.Admissible) (inner : Option Scope)
    (hforms : AllAdmissible forms) :
    (expand ev params body inner forms).Keeps Value.Tidy := by
  refine (keeps_enterClosure inner).bind fun inner _ => ?_
  refine (h.bind hparams.admissible (tidy_vectorOf.mpr fun v hv => ?_)
    inner).bind fun _ _ => ?_
  · obtain ⟨form, hform, rfl⟩ := List.mem_map.mp hv
    exact (hforms form hform).tidy_toData
  · exact h.eval body inner hbody

theorem Keeping.stepApplication (hh : host.Keeping) {head : Value}
    (hhead : head.Admissible) (hforms : AllAdmissible forms) :
    (stepApplication host ev head forms scope).Keeps Bounce.Tidy := by
  refine (h.eval head scope hhead).bind fun f hf => ?_
  split
  · obtain ⟨hparams, hbody⟩ := tidy_closure.mp hf
    exact (h.expand hparams hbody _ hforms).bind fun form hform =>
      h.step form scope hform.admissible
  · exact (h.evalAll hforms).bind fun args hargs => h.applyStep hh hf hargs
  · exact (h.evalAll hforms).bind fun args hargs => h.applyStep hh hf hargs
  · exact (h.evalAll hforms).bind fun args hargs => h.applyStep hh hf hargs
  · exact keeps_failShowing _ _ _

/-! ## Control -/

theorem Keeping.ifForm (hargs : AllAdmissible args) :
    (ifForm ev args scope).Keeps Bounce.Tidy := by
  unfold Evaluator.ifForm
  split
  · next test yes =>
      refine (h.eval test scope (hargs test (by simp))).bind fun v _ => ?_
      split
      · exact h.step yes scope (hargs yes (by simp))
      · exact keeps_pure (tidy_leaf rfl rfl)
  · next test yes no =>
      refine (h.eval test scope (hargs test (by simp))).bind fun v _ => ?_
      split
      · exact h.step yes scope (hargs yes (by simp))
      · exact h.step no scope (hargs no (by simp))
  · exact keeps_fail _

theorem Keeping.bindPairs (hforms : AllAdmissible forms) :
    (bindPairs ev scope forms).Keeps fun _ => True := by
  fun_induction Evaluator.bindPairs ev scope forms with
  | case1 pattern form rest ih =>
      obtain ⟨hpattern, hrest⟩ := List.forall_mem_cons.mp hforms
      obtain ⟨hform, hrest⟩ := List.forall_mem_cons.mp hrest
      exact (h.eval form scope hform).bind fun v hv =>
        (h.bind hpattern hv scope).bind fun _ _ => ih hrest
  | case2 forms hshort => exact keeps_pure trivial

theorem Keeping.letForm (hargs : AllAdmissible args) :
    (letForm ev args scope).Keeps Bounce.Tidy := by
  unfold Evaluator.letForm
  split
  · obtain ⟨hbindings, hbody⟩ := List.forall_mem_cons.mp hargs
    split
    · refine (keeps_enter scope).bind fun inner _ => ?_
      exact (h.bindPairs (hbindings.of_items rfl)).bind fun _ _ =>
        h.stepBody hbody
    · exact keeps_fail _
  · exact keeps_fail _

theorem Keeping.throwForm (hargs : AllAdmissible args) :
    (throwForm ev args scope).Keeps Bounce.Tidy := by
  unfold Evaluator.throwForm
  split
  · next form =>
      exact (h.eval form scope (hargs form (by simp))).bind fun v _ =>
        keeps_failShowing _ _ _
  · exact keeps_fail _

theorem Keeping.handle (handler : Handler)
    (hforms : AllAdmissible handler.forms) (e : Failure) :
    (handle ev handler e scope).Keeps Bounce.Tidy :=
  (keeps_enter scope).bind fun inner _ =>
    (keeps_define inner handler.name (tidy_leaf rfl rfl)).bind fun _ _ =>
      h.stepBody hforms

omit h in
theorem admissible_of_handler? {form : Value} {handler : Handler}
    (hform : form.Admissible) (hh : handler? form = some (.ok handler)) :
    AllAdmissible handler.forms := by
  unfold handler? at hh
  split at hh
  · next head rest span =>
      split at hh
      · split at hh
        · cases hh
          intro f hf
          exact hform.of_items rfl f (by simp [hf])
        · cases hh
      · cases hh
  · cases hh

omit h in
theorem splitHandlers_yields (hforms : AllAdmissible forms) :
    Yields (fun r : List Value × Option Handler => AllAdmissible r.1 ∧
      ∀ handler, r.2 = some handler → AllAdmissible handler.forms)
    (splitHandlers forms) := by
  induction forms with
  | nil => exact yields_pure ⟨nofun, nofun⟩
  | cons form forms ih =>
      obtain ⟨hform, hforms⟩ := List.forall_mem_cons.mp hforms
      rw [splitHandlers]
      split
      · refine (ih hforms).bind fun ⟨body, handler⟩ ⟨hbody, hhandler⟩ => ?_
        exact yields_pure ⟨List.forall_mem_cons.mpr ⟨hform, hbody⟩, hhandler⟩
      · exact yields_error _
      · next first hfirst =>
          refine (ih hforms).bind fun ⟨body, later⟩ ⟨hbody, hlater⟩ => ?_
          refine yields_pure ⟨hbody, fun handler heq => ?_⟩
          rcases Option.or_eq_some_iff.mp heq with heq | ⟨-, heq⟩
          · exact hlater handler heq
          · obtain rfl := Option.some.inj heq
            exact admissible_of_handler? hform hfirst

theorem Keeping.tryForm (hargs : AllAdmissible args) :
    (tryForm ev args scope).Keeps Bounce.Tidy := by
  refine (keeps_ofExcept (splitHandlers_yields hargs)).bind
    fun ⟨body, handler⟩ ⟨hbody, hh⟩ => ?_
  refine (h.evalLast hbody).attempt.bind fun r hr => ?_
  split
  · exact keeps_pure (hr _ rfl)
  · exact h.handle _ (hh _ rfl) _
  · exact keeps_rethrow _

/-! ## Definitions and closures -/

theorem Keeping.defForm (hargs : AllAdmissible args) :
    (defForm ev args scope).Keeps Value.Tidy := by
  unfold Evaluator.defForm
  split
  · next form =>
      refine keeps_ofExcept_bind fun name => ?_
      refine (h.eval form scope (hargs form (by simp))).bind fun v hv => ?_
      exact (keeps_define scope name hv).bind fun _ _ => keeps_pure hv
  · exact keeps_fail _

omit h in
theorem parameters_yields (form : String) (hforms : AllAdmissible forms) :
    Yields Value.Tidy (parameters form forms) := by
  unfold parameters
  split
  · exact yields_bind fun _ =>
      yields_pure (hforms _ List.mem_cons_self).tidy_toData
  · exact yields_error _

omit h in
theorem admissible_bodyForm (hforms : AllAdmissible forms) :
    (bodyForm forms).Admissible := by
  unfold bodyForm
  split
  · exact Value.admissible_leaf rfl rfl
  · exact hforms _ List.mem_cons_self
  · refine Value.admissible_list (List.forall_mem_cons.mpr ⟨?_, hforms⟩)
    exact Value.admissible_leaf rfl rfl

omit h in
theorem makeClosure_keeps (form : String) (kind : ClosureKind)
    (name : Option String) (hforms : AllAdmissible forms) :
    (makeClosure form kind name forms scope).Keeps Value.Tidy := by
  refine (keeps_ofExcept (parameters_yields form hforms)).bind
    fun params hparams => ?_
  refine (HeapAction.keeps_of_cells fun _ => rfl).bind fun id _ => ?_
  refine keeps_pure (tidy_closure.mpr ⟨hparams, ?_⟩)
  exact admissible_bodyForm fun f hf => hforms f (List.mem_of_mem_tail hf)

omit h in
theorem defClosureForm_keeps (form : String) (kind : ClosureKind)
    (hargs : AllAdmissible args) :
    (defClosureForm form kind args scope).Keeps Value.Tidy := by
  refine keeps_ofExcept_bind fun name => ?_
  have htail : AllAdmissible args.tail :=
    fun f hf => hargs f (List.mem_of_mem_tail hf)
  refine (makeClosure_keeps form kind (some name) htail).bind fun v hv => ?_
  exact (keeps_define scope name hv).bind fun _ _ => keeps_pure hv

/-! ## Quotation -/

omit h in
theorem quoteForm_keeps (hargs : AllAdmissible args) :
    (quoteForm args).Keeps Value.Tidy := by
  unfold quoteForm
  split
  · exact keeps_pure (hargs _ List.mem_cons_self).tidy_toData
  · exact keeps_fail _

theorem Keeping.fillWithin {n : Nat} {form : Value} (hform : form.Admissible)
    (hn : form.depth ≤ n) : (ev.fillWithin scope n form).Keeps Value.Tidy := by
  induction n generalizing form with
  | zero => have := form.depth_pos; omega
  | succ n ih =>
      have hitems {xs : List Value} (hi : form.items? = some xs) :
          (Action.each (ev.fillWithin scope n) xs).Keeps AllTidy := by
        refine keeps_each fun x hx => ih (hform.of_items hi x hx) ?_
        have := Value.depth_lt_of_mem_items hi hx
        omega
      unfold Evaluator.fillWithin
      split
      · split
        · split
          · next hole _ =>
              exact h.eval hole scope (hform.of_items rfl hole (by simp))
          · exact keeps_fail _
        · exact (hitems rfl).bind fun ys hys => keeps_pure (tidy_list.mpr hys)
      · exact (hitems rfl).bind fun ys hys => keeps_pure (tidy_vector.mpr hys)
      · exact keeps_pure hform.tidy_toData

theorem Keeping.quasiquoteForm (hargs : AllAdmissible args) :
    (quasiquoteForm ev scope args).Keeps Value.Tidy := by
  unfold Evaluator.quasiquoteForm
  split
  · exact h.fillWithin (hargs _ List.mem_cons_self) (Nat.le_refl _)
  · exact keeps_fail _

/-! ## The host -/

theorem Keeping.constructor (hh : host.Keeping) {form : Value}
    (hform : form.Admissible) :
    (constructor host ev form scope).Keeps Value.Tidy := by
  unfold Evaluator.constructor
  split
  · next name span =>
      split
      · exact h.eval _ scope hform
      · refine (keeps_lookup scope name).bind fun v? hv? => ?_
        split
        · next v => exact keeps_pure (hv? v rfl)
        · exact hh.global name
  · exact h.eval _ scope hform

theorem Keeping.newForm (hh : host.Keeping) (hargs : AllAdmissible args) :
    (newForm host ev args scope).Keeps Value.Tidy := by
  unfold Evaluator.newForm
  split
  · exact keeps_fail _
  · obtain ⟨hform, hforms⟩ := List.forall_mem_cons.mp hargs
    refine (h.constructor hh hform).bind fun ctor hctor => ?_
    exact (h.evalAll hforms).bind fun values hvalues =>
      hh.construct ctor values hctor hvalues

theorem Keeping.invokeForm (hh : host.Keeping) (member : String)
    {target : Value} (htarget : target.Admissible)
    (hforms : AllAdmissible forms) :
    (invokeForm host ev member target forms scope).Keeps Value.Tidy :=
  (h.eval target scope htarget).bind fun v hv =>
    (h.evalAll hforms).bind fun values hvalues =>
      hh.invoke v member values hv hvalues

theorem Keeping.dotForm (hh : host.Keeping) (hargs : AllAdmissible args) :
    (dotForm host ev args scope).Keeps Value.Tidy := by
  unfold Evaluator.dotForm
  split
  · obtain ⟨htarget, hrest⟩ := List.forall_mem_cons.mp hargs
    refine keeps_ofExcept_bind fun name => ?_
    exact h.invokeForm hh name htarget (List.forall_mem_cons.mp hrest).2
  · exact keeps_fail _

theorem Keeping.memberForm (hh : host.Keeping) (member : String)
    (hargs : AllAdmissible args) :
    (memberForm host ev member args scope).Keeps Value.Tidy := by
  unfold Evaluator.memberForm
  split
  · obtain ⟨htarget, hforms⟩ := List.forall_mem_cons.mp hargs
    exact h.invokeForm hh member htarget hforms
  · exact keeps_fail _

/-! ## All forms -/

theorem Keeping.stepSpecial (hh : host.Keeping) (form : Special)
    (hargs : AllAdmissible args) :
    (stepSpecial host ev form args scope).Keeps Bounce.Tidy := by
  cases form with
  | define => exact finish_keeps (h.defForm hargs)
  | defineFunction => exact finish_keeps (defClosureForm_keeps _ _ hargs)
  | defineExpander => exact finish_keeps (defClosureForm_keeps _ _ hargs)
  | function => exact finish_keeps (makeClosure_keeps _ _ _ hargs)
  | branch => exact h.ifForm hargs
  | sequence => exact h.stepBody hargs
  | bindings => exact h.letForm hargs
  | quote => exact finish_keeps (quoteForm_keeps hargs)
  | quasiquote => exact finish_keeps (h.quasiquoteForm hargs)
  | unquote => exact keeps_fail _
  | attempt => exact h.tryForm hargs
  | throw => exact h.throwForm hargs
  | construct => exact finish_keeps (h.newForm hh hargs)
  | member => exact finish_keeps (h.dotForm hh hargs)

omit h in
theorem evalSymbol_keeps (hh : host.Keeping) (name : String) :
    (evalSymbol host name scope).Keeps Value.Tidy := by
  unfold evalSymbol
  split
  · exact hh.global _
  · exact keeps_resolve scope name

theorem Keeping.stepForm (hh : host.Keeping) {form : Value}
    (hform : form.Admissible) :
    (stepForm host ev form scope).Keeps Bounce.Tidy := by
  cases form with
  | symbol name span => exact finish_keeps (evalSymbol_keeps hh name)
  | vector items span =>
      exact (h.evalAll (hform.of_items rfl)).bind fun vs hvs =>
        keeps_pure (tidy_vector.mpr hvs)
  | mapForm pairs span =>
      exact (h.evalEntries ValueMap.tidy_empty
        (Value.admissible_mapForm.mp hform)).bind
        fun m hm => keeps_pure (tidy_map.mpr hm)
  | map m span =>
      have hm := tidy_map.mp (hform.tidy_of_embedded rfl)
      refine (h.evalEntries ValueMap.tidy_empty fun e he => ?_).bind fun m hm =>
        keeps_pure (tidy_map.mpr hm)
      exact ⟨(hm e he).1.admissible, (hm e he).2.admissible⟩
  | list items span =>
      cases items with
      | nil => exact keeps_pure (tidy_leaf rfl rfl)
      | cons head args =>
          obtain ⟨hhead, hargs⟩ := List.forall_mem_cons.mp (hform.of_items rfl)
          show (stepList host ev head args scope).Keeps Bounce.Tidy
          unfold stepList
          split
          · exact h.stepSpecial hh _ hargs
          · exact finish_keeps (h.memberForm hh _ hargs)
          · exact h.stepApplication hh hhead hargs
  | _ => exact keeps_pure (hform.tidy rfl rfl)

end

end Evaluator

/-! ## The evaluator -/

namespace Machine

variable {host : Host}

theorem keeping_inner (hh : host.Keeping) (strategy : Strategy) (n : Nat) :
    (inner host strategy n).Keeping := by
  have henter {n : Nat}
      (heval : ∀ form scope, form.Admissible →
        (eval host strategy n form scope).Keeps Value.Tidy)
      (body : Value) (scope : Scope) (hbody : body.Admissible) :
      (strategy.enter (eval host strategy n) body scope).Keeps Bounce.Tidy := by
    cases strategy with
    | deferring => exact keeps_pure hbody
    | direct => exact (heval body scope hbody).bind fun _ hv => keeps_pure hv
  induction n with
  | zero =>
      exact ⟨fun _ _ _ => keeps_exhausted, fun _ _ _ => keeps_exhausted,
        fun _ _ _ _ => keeps_exhausted, henter fun _ _ _ => keeps_exhausted⟩
  | succ n ih =>
      have heval (form : Value) (scope : Scope) (hform : form.Admissible) :
          (eval host strategy (n + 1) form scope).Keeps Value.Tidy := by
        rw [eval_succ]
        exact (ih.step form scope hform).bind fun b hb => hb.settle ih.eval
      refine ⟨heval, fun form scope hform => ?_, fun f args hf hargs => ?_,
        henter heval⟩
      · show (step host strategy (n + 1) form scope).Keeps Bounce.Tidy
        rw [step_succ]
        exact (ih.stepForm hh hform).located form.span
      · show (apply host strategy (n + 1) f args).Keeps Value.Tidy
        rw [apply_succ]
        exact (ih.applyStep hh hf hargs).bind fun b hb => hb.settle ih.eval

end Machine

/-! ## Programs -/

namespace Reader

theorem tidy_classify (text : String) (span : Span) :
    (classify text span).Tidy := by
  unfold classify
  split
  · exact tidy_leaf rfl rfl
  · split
    · exact tidy_leaf rfl rfl
    · split
      · exact tidy_leaf rfl rfl
      · split
        · exact tidy_leaf rfl rfl
        · split <;> exact tidy_leaf rfl rfl

mutual

theorem Derives.admissible {ts : List Token} {form : Value}
    (h : Derives ts form) : form.Admissible := by
  match h with
  | .atom _ => exact (tidy_classify _ _).admissible
  | .string _ => exact Value.admissible_leaf rfl rfl
  | .list _ h _ => exact Value.admissible_list h.admissible
  | .vector _ h _ => exact Value.admissible_vector h.admissible
  | .mapForm _ h _ => exact Value.admissible_mapForm.mpr h.admissible
  | .marked _ h =>
      have htag (name : String) (span : Option Span) :
          (Value.symbol name span).Admissible :=
        Value.admissible_leaf rfl rfl
      exact Value.admissible_list (by simp [AllAdmissible, htag, h.admissible])

theorem DerivesAll.admissible {ts : List Token} {forms : List Value}
    (h : DerivesAll ts forms) : AllAdmissible forms := by
  match h with
  | .nil => exact nofun
  | .cons h h' => exact List.forall_mem_cons.mpr ⟨h.admissible, h'.admissible⟩

theorem DerivesPairs.admissible {ts : List Token} {pairs : List (Value × Value)}
    (h : DerivesPairs ts pairs) :
    ∀ p ∈ pairs, p.1.Admissible ∧ p.2.Admissible := by
  match h with
  | .nil => exact nofun
  | .cons hk hv h =>
      exact List.forall_mem_cons.mpr ⟨⟨hk.admissible, hv.admissible⟩,
        h.admissible⟩

end

/-- The forms of a program are admissible, also those in front of an error. -/
theorem admissible_ofTokens (ts : List Token) :
    AllAdmissible (Program.ofTokens ts).forms := by
  fun_induction Program.ofTokens ts with
  | case1 ts hnext => exact List.forall_mem_nil _
  | case2 ts e rest hnext => exact List.forall_mem_nil _
  | case3 ts form rest hnext ih =>
      obtain ⟨used, -, hform⟩ := next?_eq_form_iff.mp hnext
      exact List.forall_mem_cons.mpr ⟨hform.admissible, ih⟩

end Reader

namespace Store

theorem Tidy.install {s : Store} (hs : s.Tidy) (bs : List Builtin) :
    (s.install bs).Tidy := by
  induction bs generalizing s with
  | nil => exact hs
  | cons b bs ih =>
      have hb : (s.bind root b.name
          (.native b.name (.builtin b) s.heap.nextId)).Tidy :=
        hs.bind root b.name (tidy_leaf rfl rfl)
      exact ih ⟨hb.frames, hb.heap⟩

theorem tidy_initial : initial.Tidy := by
  refine Tidy.install ⟨fun bs hbs b hb => ?_, fun v hv => ?_⟩ Builtin.all
  · obtain rfl : bs = [] := by simpa [bare] using hbs
    cases hb
  · exact absurd hv (Array.not_mem_empty v)

end Store

namespace Engine

variable {engine : Engine}

theorem evalForms_keeps (hh : engine.host.Keeping) {last : Value}
    (hlast : last.Tidy) {forms : List Value} (hforms : AllAdmissible forms) :
    (engine.evalForms last forms).Keeps Value.Tidy := by
  induction forms generalizing last with
  | nil => exact keeps_pure hlast
  | cons form forms ih =>
      obtain ⟨hform, hforms⟩ := List.forall_mem_cons.mp hforms
      have heval := (Machine.keeping_inner hh .deferring engine.budget).eval
        form Store.root hform
      exact heval.bind fun v hv => ih hv hforms

theorem load_keeps (hh : engine.host.Keeping) (source file : String) :
    (engine.load source file).Keeps Value.Tidy := by
  unfold Engine.load
  split
  · exact keeps_rethrow _
  · next tokens _ =>
      refine (evalForms_keeps hh (tidy_leaf rfl rfl)
        (Reader.admissible_ofTokens tokens)).bind ?_
      intro v hv
      split
      · exact keeps_pure hv
      · exact keeps_rethrow _

end Engine

namespace Machine

/-- On a store that holds only tidy values, an admissible form that has a value
has a tidy one: no map literal can be reached from it, not through atoms either.
Whether it has a value or fails, what the store holds is tidy again. Forms that
are read are admissible, and the store that an engine starts on is tidy, so the
same holds of whole programs. -/
theorem no_literal_becomes_value (strategy : Strategy) (n : Nat) :
    (∀ form scope (s : Store), form.Admissible → s.Tidy →
      (∀ v t, eval Host.standard strategy n form scope s = .result v t →
        t.Tidy ∧ v.Tidy ∧ ∀ w, t.Occurs w v → w.isMapForm = false) ∧
      ∀ e t, eval Host.standard strategy n form scope s = .failure e t → t.Tidy) ∧
    (∀ tokens, AllAdmissible (Program.ofTokens tokens).forms) ∧
    Store.initial.Tidy ∧ ∀ source file s, Store.Tidy s →
      (∀ v t, Engine.load ⟨Host.standard, n⟩ source file s = .result v t →
        t.Tidy ∧ v.Tidy ∧ ∀ w, t.Occurs w v → w.isMapForm = false) ∧
      ∀ e t, Engine.load ⟨Host.standard, n⟩ source file s = .failure e t →
        t.Tidy := by
  refine ⟨fun form scope s hform hs => ?_, Reader.admissible_ofTokens,
    Store.tidy_initial, fun source file s hs => ?_⟩
  · exact ((keeping_inner StandardHost.keeping strategy n).eval form scope
      hform).ends hs
  · exact (Engine.load_keeps StandardHost.keeping source file).ends hs

/-- A literal with another one in it is an argument of an expander that gives
its argument back, and is quoted as an item of a vector. Both become maps, also
where the run fails after the quoted one has been bound. -/
theorem no_literal_becomes_value_expanded :
    let literal : Value := .mapForm [(.keyword "k", .mapForm [] none)] none
    let f : Value :=
      .closure .expander (some "f") (.vectorOf [.symbol "x" none])
        (.symbol "x" none) (some Store.root) 0
    let s : Store := { frames := #[[("f", f)]] }
    let define : Value := .list [.symbol "def" none, .symbol "q" none,
      .list [.symbol "quote" none, .vectorOf [literal]] none] none
    let form (last : Value) : Value :=
      .list [.symbol "do" none, define, last] none
    let call : Value := .list [.symbol "f" none, literal] none
    (form call).Admissible ∧ (form (.symbol "y" none)).Admissible ∧ s.Tidy ∧
      (∃ v t, eval Host.standard .deferring 9 (form call) Store.root s =
        .result v t ∧
        t.Tidy ∧ v.Tidy ∧ ∀ w, t.Occurs w v → w.isMapForm = false) ∧
      ∃ e t,
        eval Host.standard .deferring 9 (form (.symbol "y" none)) Store.root s =
          .failure e t ∧ e.fault = .unbound "y" ∧ t.Tidy := by
  intro literal f s define form call
  have hsymbol (name : String) : (Value.symbol name none).Admissible :=
    Value.admissible_leaf rfl rfl
  have hliteral : literal.Admissible := by
    have hk : (Value.keyword "k").Admissible := Value.admissible_leaf rfl rfl
    simp [literal, Value.admissible_mapForm, hk]
  have hlist (forms : List Value) (hforms : AllAdmissible forms) :
      (Value.list forms none).Admissible := Value.admissible_list hforms
  have hvector : (Value.vectorOf [literal]).Admissible :=
    Value.admissible_vector (List.forall_mem_singleton.mpr hliteral)
  have hdefine : define.Admissible := by
    have hquote := hlist [.symbol "quote" none, .vectorOf [literal]]
      (by simp [AllAdmissible, hsymbol, hvector])
    exact hlist _ (by simp [AllAdmissible, hsymbol, hquote])
  have hform (last : Value) (hlast : last.Admissible) :
      (form last).Admissible :=
    hlist _ (by simp [AllAdmissible, hsymbol, hdefine, hlast])
  have hcall : (form call).Admissible :=
    hform call (hlist _ (by simp [AllAdmissible, hsymbol, hliteral]))
  have hunbound : (form (.symbol "y" none)).Admissible := hform _ (hsymbol "y")
  have hparams : (Value.vectorOf [.symbol "x" none]).Tidy :=
    tidy_vectorOf.mpr (List.forall_mem_singleton.mpr (tidy_leaf rfl rfl))
  have hf : f.Tidy := tidy_closure.mpr ⟨hparams, hsymbol "x"⟩
  have hs : s.Tidy :=
    ⟨by simp [s, hf], fun v hv => absurd hv (Array.not_mem_empty v)⟩
  obtain ⟨hvalue, -⟩ :=
    (no_literal_becomes_value .deferring 9).1 _ Store.root s hcall hs
  obtain ⟨-, hfails⟩ :=
    (no_literal_becomes_value .deferring 9).1 _ Store.root s hunbound hs
  exact ⟨hcall, hunbound, hs, ⟨_, _, rfl, hvalue _ _ rfl⟩, _, _, rfl, rfl,
    hfails _ _ rfl⟩

end Machine

end TinyLisp
