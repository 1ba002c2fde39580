import Mathlib.Logic.Relation
import TinyLisp.Engine
import TinyLisp.Proofs.Eval.Drivers

/-!
# Tail positions

Some forms end in another form: `if` in the branch that is chosen, `do` and
`let` in their last form, `try` in the last form of the handler that is run, and
the call of an expander in the form that it gives. Once the other parts have
their values, the first step of such a form is the first step of its tail. It is
not evaluated further, so if the tail is a call of a closure, the step ends with
the body of the closure and the frame of its parameters, and not more.

A driver goes on from there by a turn of its loop. So a chain of tail calls,
through whatever forms, takes one driver, however long it is, and the drivers in
it nest as far as those of its longest single step.

All of this is said of a family of evaluators, one for each budget, since it
holds with and without a limit for drivers.
-/

namespace TinyLisp

open Relation (ReflTransGen)
open TinyLisp.Action (EndsAs)

/-- A form that is about to be evaluated. -/
structure Config where
  form : Value
  scope : Scope
  store : Store

/-! ## Tails -/

namespace Evaluator

/-- The first form has come to its tail, the second: all its other parts
have been evaluated. -/
inductive TailOf (ev : Evaluator) : Config → Config → Prop where
  | ifTrue {test yes v : Value} {more : List Value} {p q : Option Span}
      {scope : Scope} {s t : Store} (hmore : more.length ≤ 1)
      (htest : ev.eval test scope s = .result v t) (hv : v.truthy = true) :
      TailOf ev ⟨.list (.symbol "if" p :: test :: yes :: more) q, scope, s⟩
        ⟨yes, scope, t⟩
  | ifFalse {test yes no v : Value} {p q : Option Span} {scope : Scope}
      {s t : Store} (htest : ev.eval test scope s = .result v t)
      (hv : v.truthy = false) :
      TailOf ev ⟨.list [.symbol "if" p, test, yes, no] q, scope, s⟩
        ⟨no, scope, t⟩
  | sequence {before vs : List Value} {last : Value} {p q : Option Span}
      {scope : Scope} {s t : Store}
      (hbefore : ev.evalAll scope before s = .result vs t) :
      TailOf ev ⟨.list (.symbol "do" p :: (before ++ [last])) q, scope, s⟩
        ⟨last, scope, t⟩
  | bindings {pairs : Items Value} {before vs : List Value} {last : Value}
      {p q r : Option Span} {scope : Scope} {s t u : Store}
      (heven : pairs.size % 2 = 0)
      (hpairs : bindPairs ev (s.enter scope).1 pairs.toList (s.enter scope).2 =
        .result () t)
      (hbefore : ev.evalAll (s.enter scope).1 before t = .result vs u) :
      TailOf ev ⟨.list (.symbol "let" p :: .vector pairs r ::
        (before ++ [last])) q, scope, s⟩
        ⟨last, (s.enter scope).1, u⟩
  | handler {args body before vs : List Value} {name : String} {last : Value}
      {e : Failure} {p q : Option Span} {scope : Scope} {s t u : Store}
      (hsplit : splitHandlers args = .ok (body, some ⟨name, before ++ [last]⟩))
      (hbody : ev.evalLast scope body s = .failure e t)
      (hbefore : ev.evalAll (t.enter scope).1 before ((t.enter scope).2.bind
        (t.enter scope).1 name (.string e.fault.message)) = .result vs u) :
      TailOf ev ⟨.list (.symbol "try" p :: args) q, scope, s⟩
        ⟨last, (t.enter scope).1, u⟩
  | expansion {head params body form : Value} {forms : List Value}
      {name : Option String} {inner : Option Scope} {id : ObjectId}
      {q : Option Span} {scope : Scope} {s t u : Store}
      (hoperator : operator head = .value)
      (hhead : ev.eval head scope s =
        .result (.closure .expander name params body inner id) t)
      (hform : expand ev params body inner forms t = .result form u) :
      TailOf ev ⟨.list (head :: forms) q, scope, s⟩ ⟨form, scope, u⟩

/-- The form is a call of a closure, and its parameters have been bound
to the arguments in a frame of their own. What is left to do is the body,
in that frame. -/
inductive Calls (ev : Evaluator) : Config → Config → Prop where
  | intro {head params body : Value} {args vs : List Value}
      {name : Option String} {outer scope : Scope} {id : ObjectId}
      {q : Option Span} {s t u w : Store} (hoperator : operator head = .value)
      (hhead : ev.eval head scope s =
        .result (.closure .function name params body (some outer) id) t)
      (hargs : ev.evalAll scope args t = .result vs u)
      (hparams : ev.bind params (.vectorOf vs) (u.enter outer).1
        (u.enter outer).2 = .result () w) :
      Calls ev ⟨.list (head :: args) q, scope, s⟩ ⟨body, (u.enter outer).1, w⟩

variable {host : Host} {ev ev' : Evaluator} {c c' : Config}

theorem stepBody_last {before vs : List Value} {last : Value} {scope : Scope}
    {s t : Store} (h : ev.evalAll scope before s = .result vs t) :
    ev.stepBody scope (before ++ [last]) s = ev.step last scope t := by
  induction before generalizing s vs with
  | nil =>
      cases h
      rfl
  | cons form before ih =>
      obtain ⟨v, s', hform, hrest⟩ := Action.bind_eq_result h
      obtain ⟨vs', t', hrest, hpure⟩ := Action.bind_eq_result hrest
      cases hpure
      have hcons : ev.stepBody scope (form :: before ++ [last]) =
          ev.eval form scope >>= fun _ =>
            ev.stepBody scope (before ++ [last]) := by
        cases before <;> rfl
      rw [hcons, Action.bind_of_result hform]
      exact ih hrest

/-- A form that has come to its tail goes on as the tail does. -/
theorem TailOf.stepForm_eq (h : TailOf ev c c') :
    stepForm host ev c.form c.scope c.store =
      ev.step c'.form c'.scope c'.store := by
  cases h with
  | @ifTrue test yes v more p q scope s t hmore htest hv =>
      have hif :
          (do if (← ev.eval test scope).truthy then ev.step yes scope else
            return .done .nil : Action Bounce) s = ev.step yes scope t := by
        rw [Action.bind_of_result htest, if_pos hv]
      have hif' (no : Value) :
          (do if (← ev.eval test scope).truthy then ev.step yes scope else
            ev.step no scope : Action Bounce) s = ev.step yes scope t := by
        rw [Action.bind_of_result htest, if_pos hv]
      match more, hmore with
      | [], _ => exact hif
      | [no], _ => exact hif' no
  | @ifFalse test yes no v p q scope s t htest hv =>
      show (do if (← ev.eval test scope).truthy then ev.step yes scope else
        ev.step no scope : Action Bounce) s = ev.step no scope t
      rw [Action.bind_of_result htest,
        if_neg (by rw [hv]; exact Bool.false_ne_true)]
  | sequence hbefore => exact stepBody_last hbefore
  | @bindings pairs before vs last p q r scope s t u heven hpairs hbefore =>
      show letForm ev (.vector pairs r :: (before ++ [last])) scope s = _
      rw [letForm, if_pos heven]
      show (bindPairs ev (s.enter scope).1 pairs.toList >>= fun _ =>
        ev.stepBody (s.enter scope).1 (before ++ [last])) (s.enter scope).2 = _
      rw [Action.bind_of_result hpairs, stepBody_last hbefore]
  | @handler args body before vs name last e p q scope s t u hsplit hbody
        hbefore =>
      have hattempt : Action.attempt (ev.evalLast scope body) s =
          .result (.error e) t := by
        rw [Action.attempt, hbody]
      show tryForm ev args scope s = _
      rw [tryForm, hsplit]
      show (Action.attempt (ev.evalLast scope body) >>= _) s = _
      rw [Action.bind_of_result hattempt]
      exact stepBody_last hbefore
  | @expansion head params body form forms name inner id q scope s t u hoperator
        hhead hform =>
      show stepList host ev head forms scope s = _
      rw [stepList, hoperator]
      show stepApplication host ev head forms scope s = _
      rw [stepApplication, Action.bind_of_result hhead]
      exact Action.bind_of_result hform

/-- A call of a closure enters the body. -/
theorem Calls.stepForm_eq (h : Calls ev c c') :
    stepForm host ev c.form c.scope c.store =
      ev.enter c'.form c'.scope c'.store := by
  cases h with
  | @intro head params body args vs name outer scope id q s t u w hoperator
        hhead hargs hparams =>
      show stepList host ev head args scope s = _
      rw [stepList, hoperator]
      show stepApplication host ev head args scope s = _
      rw [stepApplication, Action.bind_of_result hhead]
      show (ev.evalAll scope args >>= applyStep host ev _) t = _
      rw [Action.bind_of_result hargs]
      show (ev.bind params (.vectorOf vs) (u.enter outer).1 >>= fun _ =>
        ev.enter body (u.enter outer).1) (u.enter outer).2 = _
      exact Action.bind_of_result hparams

/-! ## What one evaluator does, another does too -/

theorem result_of_endsAs {α : Type} {x y : Action α} (h : EndsAs x y)
    {s t : Store} {a : α} (hx : x s = .result a t) : y s = .result a t := by
  have hxy := h s (by rw [hx]; exact nofun)
  rw [hx] at hxy
  generalize y s = o at hxy
  cases hxy
  rfl

theorem failure_of_endsAs {α : Type} {x y : Action α} (h : EndsAs x y)
    {s t : Store} {e : Failure} (hx : x s = .failure e t) :
    ∃ p, y s = .failure ⟨e.fault, p⟩ t := by
  have hxy := h s (by rw [hx]; exact nofun)
  rw [hx] at hxy
  generalize y s = o at hxy
  cases hxy with
  | failure fault p q t => exact ⟨q, rfl⟩

section

variable {resume : Resume} (h : ev.Follows resume ev' resume)
include h

theorem TailOf.mono (htail : TailOf ev c c') : TailOf ev' c c' := by
  cases htail with
  | ifTrue hmore htest hv =>
      exact .ifTrue hmore (result_of_endsAs (h.eval _ _) htest) hv
  | ifFalse htest hv => exact .ifFalse (result_of_endsAs (h.eval _ _) htest) hv
  | sequence hbefore =>
      exact .sequence (result_of_endsAs (h.evalAll _ _) hbefore)
  | bindings heven hpairs hbefore =>
      exact .bindings heven (result_of_endsAs (h.bindPairs _ _) hpairs)
        (result_of_endsAs (h.evalAll _ _) hbefore)
  | handler hsplit hbody hbefore =>
      -- The failure may have another place, but the handler is given its
      -- wording only.
      obtain ⟨p, hbody⟩ := failure_of_endsAs (h.evalLast _ _) hbody
      exact .handler (e := ⟨_, p⟩) hsplit hbody
        (result_of_endsAs (h.evalAll _ _) hbefore)
  | expansion hoperator hhead hform =>
      exact .expansion hoperator (result_of_endsAs (h.eval _ _) hhead)
        (result_of_endsAs (h.expand _ _ _ _) hform)

theorem Calls.mono (hcall : Calls ev c c') : Calls ev' c c' := by
  cases hcall with
  | intro hoperator hhead hargs hparams =>
      exact .intro hoperator (result_of_endsAs (h.eval _ _) hhead)
        (result_of_endsAs (h.evalAll _ _) hargs)
        (result_of_endsAs (h.bind _ _ _) hparams)

end

end Evaluator

/-! ## Budgets -/

/-- An evaluator for each budget: a larger budget does what a smaller one
does, a step is made by the rules from what the budget below does, and a body
is handed back. -/
structure Rising (host : Host) (E : Nat → Evaluator) : Prop where
  follows : ∀ {n m : Nat}, n ≤ m → ∀ resume, (E n).Follows resume (E m) resume
  step : ∀ n form scope, (E (n + 1)).step form scope =
    Action.located form.span ((E n).stepForm host form scope)
  enter : ∀ n body scope, (E n).enter body scope = pure (.more body scope)

namespace Config

/-- At some budget the first step of the form ends this way. -/
def Steps (E : Nat → Evaluator) (c : Config) (o : Outcome Bounce) : Prop :=
  o ≠ .exhausted ∧ ∃ n, (E n).step c.form c.scope c.store = o

/-- At some budget the first form comes to its tail, the second. -/
def Tail (E : Nat → Evaluator) (c c' : Config) : Prop :=
  ∃ n, (E n).TailOf c c'

/-- The form comes, through any number of tails, to a call of a closure
with this body. -/
def TailCall (E : Nat → Evaluator) (c body : Config) : Prop :=
  ∃ c', ReflTransGen (Tail E) c c' ∧ ∃ n, (E n).Calls c' body

/-- The first steps of both forms end alike: with the same result, or with
the same fault. -/
structure StepsAlike (E : Nat → Evaluator) (c c' : Config) : Prop where
  forth : ∀ o, c.Steps E o → ∃ o', c'.Steps E o' ∧ o.Agrees o'
  back : ∀ o', c'.Steps E o' → ∃ o, c.Steps E o ∧ o'.Agrees o

variable {E : Nat → Evaluator} {c c' c'' : Config}

theorem StepsAlike.refl (c : Config) : StepsAlike E c c :=
  ⟨fun o ho => ⟨o, ho, Outcome.agrees_self ho.1⟩, fun o ho =>
    ⟨o, ho, Outcome.agrees_self ho.1⟩⟩

theorem StepsAlike.trans (h : StepsAlike E c c') (h' : StepsAlike E c' c'') :
    StepsAlike E c c'' := by
  refine ⟨fun o ho => ?_, fun o ho => ?_⟩
  · obtain ⟨o', ho', hagree⟩ := h.forth o ho
    obtain ⟨o'', ho'', hagree'⟩ := h'.forth o' ho'
    exact ⟨o'', ho'', hagree.trans hagree'⟩
  · obtain ⟨o', ho', hagree⟩ := h'.back o ho
    obtain ⟨o'', ho'', hagree'⟩ := h.back o' ho'
    exact ⟨o'', ho'', hagree.trans hagree'⟩

end Config

namespace Rising

open Config (Steps Tail TailCall StepsAlike)

variable {host : Host} {E : Nat → Evaluator} (hE : Rising host E)
  {c c' body : Config}
include hE

theorem step_endsAs {n m : Nat} (h : n ≤ m) (form : Value) (scope : Scope) :
    EndsAs ((E n).step form scope) ((E m).step form scope) :=
  endsAs_of_settled fun resume => (hE.follows h resume).step form scope

theorem step_tail {n : Nat} (h : (E n).TailOf c c') :
    (E (n + 1)).step c.form c.scope c.store =
      Action.located c.form.span ((E n).step c'.form c'.scope) c'.store := by
  rw [hE.step, Action.located, Action.located, h.stepForm_eq]

theorem step_call {n : Nat} (h : (E n).Calls c body) :
    (E (n + 1)).step c.form c.scope c.store =
      .result (.more body.form body.scope) body.store := by
  rw [hE.step, Action.located, h.stepForm_eq, hE.enter]
  rfl

theorem stepsAlike_of_tail (h : Tail E c c') : StepsAlike E c c' := by
  obtain ⟨n, hn⟩ := h
  have htail {k : Nat} (hk : n ≤ k) :=
    hE.step_tail (hn.mono (hE.follows hk fun _ _ => pure .nil))
  constructor
  · rintro o ⟨ho, m, rfl⟩
    -- At a budget above both, the step of the form is the located step of its
    -- tail.
    have hle : m ≤ max m n + 1 := by omega
    have hmore := hE.step_endsAs hle c.form c.scope c.store ho
    rw [htail (Nat.le_max_right m n)] at hmore
    have hended : (E (max m n)).step c'.form c'.scope c'.store ≠ .exhausted := by
      intro hx
      exact hmore.ended (by rw [Action.located, hx])
    refine ⟨_, ⟨hended, _, rfl⟩, hmore.trans ?_⟩
    exact (Action.endsAs_located c.form.span _ c'.store hended).symm
  · rintro o ⟨ho, m, rfl⟩
    have hmore :=
      hE.step_endsAs (Nat.le_max_left m n) c'.form c'.scope c'.store ho
    have hlocated := Action.endsAs_located c.form.span _ c'.store hmore.ended
    rw [← htail (Nat.le_max_right m n)] at hlocated
    exact ⟨_, ⟨hlocated.ended, _, rfl⟩, hmore.trans hlocated⟩

/-- Tails nest in any way. -/
theorem stepsAlike_of_tails (h : ReflTransGen (Tail E) c c') :
    StepsAlike E c c' := by
  induction h with
  | refl => exact StepsAlike.refl c
  | tail _ htail ih => exact ih.trans (hE.stepsAlike_of_tail htail)

theorem steps_of_tailCall (h : TailCall E c body) :
    c.Steps E (.result (.more body.form body.scope) body.store) := by
  obtain ⟨c', htails, n, hcall⟩ := h
  have hsteps : c'.Steps E (.result (.more body.form body.scope) body.store) :=
    ⟨nofun, n + 1, hE.step_call hcall⟩
  obtain ⟨o, ho, hagree⟩ := (hE.stepsAlike_of_tails htails).back _ hsteps
  cases hagree
  exact ho

end Rising

/-! ## Chains of tail calls -/

/-- The outcome of a first step that finishes. -/
def Outcome.finished : Outcome Value → Outcome Bounce
  | .result v s => .result (.done v) s
  | .failure e s => .failure e s
  | .exhausted => .exhausted

namespace Drivers

open Config (TailCall)

variable {host : Host} {d : Nat}

theorem rising (host : Host) (d : Nat) : Rising host (inner host · d) where
  follows h resume := follows_of_le host h (Nat.le_refl d) resume
  step n form scope := step_succ host n d form scope
  enter _ _ _ := rfl

theorem rising_machine (host : Host) :
    Rising host (Machine.inner host .deferring) where
  follows {n m} h resume := by
    rw [← inner_eq (Nat.le_refl n), ← inner_eq (Nat.le_refl m)]
    exact follows_of_le host h h resume
  step n form scope := Machine.step_succ host .deferring n form scope
  enter _ _ _ := rfl

theorem eval_endsAs_machine (host : Host) (n d : Nat) (form : Value)
    (scope : Scope) :
    EndsAs (eval host n d form scope)
      (Machine.eval host .deferring n form scope) := by
  have hfollows := follows_of_le host (Nat.le_refl n) (Nat.le_max_right n d)
    fun _ _ => pure .nil
  rw [inner_eq (Nat.le_max_left n d)] at hfollows
  exact hfollows.eval form scope

/-- If the steps along a chain of tail calls end within a limit for
drivers, and so does the step at its end, then one driver more is enough
for the whole chain. -/
theorem eval_of_tailCalls {c c' : Config}
    (h : ReflTransGen (TailCall (inner host · d)) c c') {o : Outcome Value}
    (hlast : c'.Steps (inner host · d) o.finished) :
    ∃ n, o.Agrees (eval host n (d + 1) c.form c.scope c.store) := by
  induction h using ReflTransGen.head_induction_on with
  | refl =>
      obtain ⟨ho, n, hn⟩ := hlast
      have hstep : step host n d c'.form c'.scope c'.store = o.finished := hn
      refine ⟨n + 1, ?_⟩
      rw [eval_succ, Action.bind_apply, hstep]
      cases o with
      | result v s => exact .result v s
      | failure e s => exact .failure e.fault e.span e.span s
      | exhausted => exact absurd rfl ho
  | @head c body hcall _ ih =>
      obtain ⟨n, hn⟩ := ih
      obtain ⟨-, m, hm⟩ := (rising host d).steps_of_tailCall hcall
      have hstep : step host (max m n) d c.form c.scope c.store =
          .result (.more body.form body.scope) body.store :=
        Evaluator.result_of_endsAs
          ((rising host d).step_endsAs (Nat.le_max_left m n) c.form c.scope) hm
      refine ⟨max m n + 1, ?_⟩
      rw [eval_succ, Action.bind_of_result hstep]
      have hmore :=
        (follows_of_le host (Nat.le_max_right m n) (Nat.le_refl (d + 1))
          fun _ _ => pure .nil).eval body.form body.scope body.store hn.ended
      exact hn.trans hmore

/-- A form that has come to its tail, through any number of forms, steps as the
tail does: with the same result, or with the same fault. If the tail is a call
of a closure, the step hands back the body in the frame of its parameters, on
the store that binding them has left. The evaluator that counts drivers is the
same evaluator, and if the steps along a chain of tail calls end with `d`
drivers each, the chain ends with one driver more, however long it is. -/
theorem tail_calls_take_one_driver (host : Host) :
    let E := Machine.inner host .deferring
    (∀ c c', ReflTransGen (Config.Tail E) c c' → c.StepsAlike E c') ∧
    (∀ c body, TailCall E c body →
      c.Steps E (.result (.more body.form body.scope) body.store)) ∧
    (∀ n d, n ≤ d → inner host n d = E n) ∧
    (∀ n d form scope,
      EndsAs (eval host n d form scope)
        (Machine.eval host .deferring n form scope)) ∧
    ∀ d c c' (o : Outcome Value),
      ReflTransGen (TailCall (inner host · d)) c c' →
      c'.Steps (inner host · d) o.finished →
      ∃ n, o.Agrees (eval host n (d + 1) c.form c.scope c.store) :=
  ⟨fun _ _ h => (rising_machine host).stepsAlike_of_tails h,
    fun _ _ h => (rising_machine host).steps_of_tailCall h,
    fun _ _ h => inner_eq h, eval_endsAs_machine host,
    fun _ _ _ _ h hlast => eval_of_tailCalls h hlast⟩

/-- The body of `f` calls `f` behind a `let`, an `if` and a `do`, once for
a true argument. -/
theorem tail_calls_take_one_driver_nested :
    let again : Value := .list [.symbol "f" none, .nil] none
    let branch : Value := .list [.symbol "if" none, .symbol "y" none,
      .list [.symbol "do" none, .nil, again] none, .string "end"] none
    let body : Value := .list [.symbol "let" none,
      .vectorOf [.symbol "y" none, .symbol "x" none], branch] none
    let f : Value := .closure .function none (.vectorOf [.symbol "x" none]) body
      (some Store.root) 0
    let first : Config :=
      ⟨.list [.symbol "f" none, .bool true] none, Store.root,
        { frames := #[[("f", f)]] }⟩
    let inside (frames : Array Bindings) (here : FrameId) : Config :=
      ⟨body, ⟨here, [0]⟩, { frames := #[[("f", f)]] ++ frames }⟩
    let taken := inside #[[("x", .bool true)]] 1
    let last :=
      inside #[[("x", .bool true)], [("y", .bool true)], [("x", .nil)]] 3
    taken.StepsAlike (Machine.inner Host.standard .deferring)
        ⟨again, ⟨2, [1, 0]⟩,
          { frames := #[[("f", f)], [("x", .bool true)], [("y", .bool true)]] }⟩ ∧
      taken.Steps (Machine.inner Host.standard .deferring)
        (.result (.more body ⟨3, [0]⟩) last.store) ∧
      ∃ n u, eval Host.standard n 2 first.form first.scope first.store =
        .result (.string "end") u := by
  intro again branch body f first inside taken last
  obtain ⟨halike, hcall, -, -, hchain⟩ :=
    tail_calls_take_one_driver Host.standard
  let step (form : Value) (here : Scope) (frames : Array Bindings) : Config :=
    ⟨form, here, { frames := #[[("f", f)]] ++ frames }⟩
  let bound : Array Bindings := #[[("x", .bool true)], [("y", .bool true)]]
  have hlet :
      (inner Host.standard 9 1).TailOf taken (step branch ⟨2, [1, 0]⟩ bound) :=
    @Evaluator.TailOf.bindings _ _ [] _ _ _ _ _ _ _ _ _ rfl rfl rfl
  have hif : (inner Host.standard 9 1).TailOf (step branch ⟨2, [1, 0]⟩ bound)
      (step (.list [.symbol "do" none, .nil, again] none) ⟨2, [1, 0]⟩ bound) :=
    .ifTrue (Nat.le_refl 1) rfl rfl
  have hdo : (inner Host.standard 9 1).TailOf
      (step (.list [.symbol "do" none, .nil, again] none) ⟨2, [1, 0]⟩ bound)
      (step again ⟨2, [1, 0]⟩ bound) :=
    @Evaluator.TailOf.sequence _ [.nil] _ _ _ _ _ _ _ rfl
  have hagain :
      (inner Host.standard 9 1).Calls (step again ⟨2, [1, 0]⟩ bound) last :=
    @Evaluator.Calls.intro _ _ _ _ _ _ _ Store.root _ _ _ _ _
      (step again ⟨2, [1, 0]⟩ bound).store _ rfl rfl rfl rfl
  have hfirst : (inner Host.standard 9 1).Calls first taken :=
    @Evaluator.Calls.intro _ _ _ _ _ _ _ Store.root _ _ _ _ _ first.store _ rfl
      rfl rfl rfl
  have htails {E : Nat → Evaluator} {resume : Resume}
      (h : (inner Host.standard 9 1).Follows resume (E 9) resume) :
      ReflTransGen (Config.Tail E) taken (step again ⟨2, [1, 0]⟩ bound) :=
    .tail (.tail (.single ⟨9, hlet.mono h⟩) ⟨9, hif.mono h⟩) ⟨9, hdo.mono h⟩
  have hsame := follows_of_le Host.standard (Nat.le_refl 9) (Nat.le_refl 1)
    fun _ _ => pure .nil
  have hmachine :=
    follows_of_le Host.standard (Nat.le_refl 9) (show 1 ≤ 9 by decide)
      fun _ _ => pure .nil
  rw [inner_eq (Nat.le_refl 9)] at hmachine
  refine ⟨halike _ _ (htails hmachine),
    hcall _ _ ⟨_, htails hmachine, 9, hagain.mono hmachine⟩, ?_⟩
  have hlast : last.Steps (inner Host.standard · 1)
      (Outcome.finished (.result (.string "end")
        { frames := last.store.frames.push [("y", .nil)] })) := ⟨nofun, 9, rfl⟩
  obtain ⟨n, hn⟩ := hchain 1 first last _
    (.tail (.single ⟨_, .refl, 9, hfirst⟩) ⟨_, htails hsame, 9, hagain⟩) hlast
  refine ⟨n, { frames := last.store.frames.push [("y", .nil)] }, ?_⟩
  generalize eval Host.standard n 2 first.form first.scope first.store = o at hn
  cases hn
  rfl

end Drivers

end TinyLisp
