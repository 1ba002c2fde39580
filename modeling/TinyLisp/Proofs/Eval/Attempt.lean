import TinyLisp.Proofs.Eval.Shape

/-!
# What `try` does

The clauses of a `try` may stand anywhere among its forms; they are set aside,
and the last one counts. What is left is evaluated in order. `evalLast_eq` says
that this is the evaluation of all these forms, of which the last value is kept,
so three things can come of it: values, the failure of one form, or no end. The
first is the value of the `try`, and the second is either passed on or handled.

A handler is a `do` that stands where the `try` does, in a frame of its own. It
runs when the body is over, and so the `try` is no longer there to catch what
it fails with.
-/

namespace TinyLisp

open TinyLisp.Action (bind_apply bind_of_result bind_of_failure bind_eq_result
  bind_eq_failure)

namespace Evaluator

variable {ev : Evaluator} {scope : Scope} {forms : List Value} {s u : Store}
  {e : Failure}

/-! ## Forms in order -/

theorem evalAll_cons (form : Value) (forms : List Value) :
    ev.evalAll scope (form :: forms) =
      ev.eval form scope >>= fun v => (v :: ·) <$> ev.evalAll scope forms := rfl

/-- Evaluating forms for the value of the last is evaluating them all. -/
theorem evalLast_eq (ev : Evaluator) (scope : Scope) (forms : List Value) :
    ev.evalLast scope forms =
      (List.getLastD · .nil) <$> ev.evalAll scope forms := by
  induction forms with
  | nil => rfl
  | cons form forms ih =>
      cases forms with
      | nil =>
          rw [evalAll_cons]
          simp [evalLast, evalAll, Action.each]
      | cons next forms =>
          rw [evalAll_cons, evalLast, ih, evalAll_cons]
          simp
          exact List.cons_ne_nil next forms

theorem evalAll_append (before after : List Value) :
    ev.evalAll scope (before ++ after) =
      ev.evalAll scope before >>= fun vs =>
        (vs ++ ·) <$> ev.evalAll scope after :=
  Action.each_append _ before after

/-- All forms fail as the first one of them that does, and those behind it
are not evaluated. -/
theorem evalAll_eq_failure_iff :
    ev.evalAll scope forms s = .failure e u ↔
      ∃ before failing after vs t, forms = before ++ failing :: after ∧
        ev.evalAll scope before s = .result vs t ∧
        ev.eval failing scope t = .failure e u := by
  constructor
  · intro h
    induction forms generalizing s with
    | nil => cases h
    | cons form forms ih =>
        rw [evalAll_cons] at h
        rcases bind_eq_failure h with hform | ⟨v, s', hform, hrest⟩
        · exact ⟨[], form, forms, [], s, rfl, rfl, hform⟩
        · rw [map_eq_pure_bind] at hrest
          rcases bind_eq_failure hrest with hrest | ⟨vs, t, -, hpure⟩
          · obtain ⟨before, failing, after, vs, t, rfl, hbefore, hfailing⟩ :=
              ih hrest
            refine ⟨form :: before, failing, after, v :: vs, t, rfl,
              ?_, hfailing⟩
            rw [evalAll_cons, bind_of_result hform, map_eq_pure_bind,
              bind_of_result hbefore]
            rfl
          · cases hpure
  · rintro ⟨before, failing, after, vs, t, rfl, hbefore, hfailing⟩
    rw [evalAll_append, bind_of_result hbefore, evalAll_cons, map_eq_pure_bind]
    exact bind_of_failure (bind_of_failure hfailing)

/-! ## Clauses -/

/-- The forms of a `try` that are evaluated in any case. -/
def tryBody (args : List Value) : List Value :=
  args.filter fun form => !form.isCallOf "catch"

/-- The handler in a `catch` clause. -/
def clause? : Value → Option Handler
  | .list (head :: .symbol name _ :: forms) _ =>
    if head.isSymbol "catch" then some ⟨name, forms⟩ else none
  | _ => none

/-- The handler of a `try`, from the last of its clauses. -/
def lastHandler? (args : List Value) : Option Handler :=
  (args.filterMap clause?).getLast?

/-- A form that is no nameless clause is a clause with a handler or no
clause at all. -/
theorem handler?_eq {form : Value} (h : ¬ IsNamelessCatch form) :
    (handler? form = none ∧ clause? form = none ∧
      form.isCallOf "catch" = false) ∨
      ∃ handler, handler? form = some (.ok handler) ∧
        clause? form = some handler ∧
        form.isCallOf "catch" = true := by
  by_cases hcall : form.isCallOf "catch" = true
  · refine .inr ?_
    unfold Value.isCallOf at hcall
    split at hcall
    · next head rest span =>
        obtain ⟨place, rfl⟩ := Pattern.eq_symbol_of_isSymbol hcall
        have hname : StartsWithName rest := by
          by_cases hname : StartsWithName rest
          · exact hname
          · exact absurd ⟨place, rest, span, rfl, hname⟩ h
        obtain ⟨name, namePlace, handlerForms, rfl⟩ := hname
        refine ⟨⟨name, handlerForms⟩, ?_, ?_, hcall⟩
        · simp [handler?, hcall]
        · simp [clause?, hcall]
    · cases hcall
  · have hnone : clause? form = none := by
      unfold clause?
      split
      · exact if_neg hcall
      · rfl
    refine .inl ⟨?_, hnone, Bool.eq_false_iff.mpr hcall⟩
    unfold handler?
    split
    · exact if_neg hcall
    · rfl

variable {args : List Value}

theorem splitHandlers_eq (h : ∀ form ∈ args, ¬ IsNamelessCatch form) :
    splitHandlers args = .ok (tryBody args, lastHandler? args) := by
  induction args with
  | nil => rfl
  | cons form args ih =>
      have ih := ih fun form hform => h form (List.mem_cons_of_mem _ hform)
      rcases handler?_eq (h form List.mem_cons_self) with
        ⟨hhandler, hclause, hcall⟩ | ⟨handler, hhandler, hclause, hcall⟩
      · have hbody : tryBody (form :: args) = form :: tryBody args :=
          List.filter_cons_of_pos (by simp [hcall])
        have hlast : lastHandler? (form :: args) = lastHandler? args := by
          rw [lastHandler?, List.filterMap_cons_none hclause, lastHandler?]
        rw [splitHandlers, hhandler, ih, hbody, hlast]
        rfl
      · have hbody : tryBody (form :: args) = tryBody args :=
          List.filter_cons_of_neg (by simp [hcall])
        have hlast : lastHandler? (form :: args) =
            (lastHandler? args).or (some handler) := by
          rw [lastHandler?, List.filterMap_cons_some hclause,
            List.getLast?_cons, lastHandler?]
          cases (args.filterMap clause?).getLast? <;> rfl
        rw [splitHandlers, hhandler, ih, hbody, hlast]
        rfl

/-! ## The whole form -/

/-- A `try` with well-formed clauses, in terms of the values of its body. -/
theorem tryForm_eq (h : ∀ form ∈ args, ¬ IsNamelessCatch form) :
    ev.tryForm args scope s =
      match ev.evalAll scope (tryBody args) s with
      | .result vs t => .result (.done (vs.getLastD .nil)) t
      | .failure e u =>
        match lastHandler? args with
        | some handler => handle ev handler e scope u
        | none => .failure e u
      | .exhausted => .exhausted := by
  rw [tryForm, splitHandlers_eq h]
  show (Action.attempt (ev.evalLast scope (tryBody args)) >>= _) s = _
  rw [bind_apply, Action.attempt, evalLast_eq, map_eq_pure_bind, bind_apply]
  cases ev.evalAll scope (tryBody args) s with
  | result vs t => rfl
  | failure e u => cases lastHandler? args <;> rfl
  | exhausted => rfl

/-- Handling a failure is a `do` in a frame that binds its wording. -/
theorem handle_eq (host : Host) (handler : Handler) (e : Failure)
    (scope : Scope) (s : Store) (p q : Option Span) :
    handle ev handler e scope s =
      ev.stepForm host (.list (.symbol "do" p :: handler.forms) q)
        (s.enter scope).1 ((s.enter scope).2.bind (s.enter scope).1 handler.name
          (.string e.fault.message)) := rfl

end Evaluator

namespace Machine

open Evaluator (tryBody lastHandler? tryForm_eq handle_eq
  evalAll_eq_failure_iff)

/-- A `try` with well-formed clauses evaluates what is no clause, in order, and
gives the last value. If a form fails, those behind it are not evaluated, and
what has been done stays done. Without a clause the failure is passed on; it is
reported at the `try` if it has no place. With one, the outcome is that of the
last handler, as a `do` where the `try` stands, in a new frame that binds the
wording of the fault. -/
theorem try_law (host : Host) (strategy : Strategy) (args : List Value)
    (h : ∀ form ∈ args, ¬ IsNamelessCatch form) (p q : Option Span)
    (scope : Scope) (s : Store) (n : Nat) :
    let form : Value := .list (.symbol "try" p :: args) q
    let values := (inner host strategy n).evalAll scope
    (∀ e u, values (tryBody args) s = .failure e u ↔
      ∃ before failing after vs t, tryBody args = before ++ failing :: after ∧
        values before s = .result vs t ∧
        eval host strategy n failing scope t = .failure e u) ∧
    eval host strategy (n + 2) form scope s =
      match values (tryBody args) s with
      | .result vs t => .result (vs.getLastD .nil) t
      | .failure e u =>
        match lastHandler? args with
        | some handler =>
          eval host strategy (n + 2)
            (.list (.symbol "do" none :: handler.forms) q) (u.enter scope).1
            ((u.enter scope).2.bind (u.enter scope).1 handler.name
              (.string e.fault.message))
        | none => .failure (e.locate q) u
      | .exhausted => .exhausted := by
  intro form values
  refine ⟨fun e u => evalAll_eq_failure_iff, ?_⟩
  have hstep : (inner host strategy n).stepForm host form scope s =
      (inner host strategy n).tryForm args scope s := rfl
  rw [eval_succ, bind_apply, step_succ, Action.located, hstep, tryForm_eq h]
  show _ = match (inner host strategy n).evalAll scope (tryBody args) s with
    | .result vs t => _
    | .failure e u => _
    | .exhausted => _
  cases (inner host strategy n).evalAll scope (tryBody args) s with
  | result vs t => rfl
  | exhausted => rfl
  | failure e u =>
      dsimp only
      cases lastHandler? args with
      | none => rfl
      | some handler =>
          dsimp only
          rw [handle_eq host handler e scope u none q, eval_succ, bind_apply,
            step_succ, Action.located]
          rfl

/-- A clause among the forms of the body and another at the end, which is the
one that counts. The form in front of the failure has defined its variable, and
the form behind it has not. -/
theorem try_law_two_clauses :
    let symbol (name : String) : Value := .symbol name none
    let call (forms : List Value) : Value := .list forms none
    let args := [call [symbol "def", symbol "x", .bool true],
      call [symbol "catch", symbol "a"], call [symbol "throw", .string "boom"],
      call [symbol "def", symbol "y", .bool true],
      call [symbol "catch", symbol "e", symbol "e"]]
    (∀ form ∈ args, ¬ IsNamelessCatch form) ∧
      eval Host.standard .deferring 9 (call (symbol "try" :: args)) ⟨0, []⟩
        { frames := #[[]] } =
          .result (.string "boom")
            { frames := #[[("x", .bool true)], [("e", .string "boom")]] } := by
  intro symbol call args
  have hargs : ∀ form ∈ args, ¬ IsNamelessCatch form := by
    intro form hform hnameless
    have herror := Evaluator.handler?_of_nameless hnameless
    simp only [args, List.mem_cons, List.not_mem_nil, or_false] at hform
    rcases hform with rfl | rfl | rfl | rfl | rfl <;>
      simp [call, symbol, Evaluator.handler?, Value.isSymbol] at herror
  refine ⟨hargs, ?_⟩
  have hlaw := (try_law Host.standard .deferring args hargs none none ⟨0, []⟩
    { frames := #[[]] } 7).2
  rw [hlaw]
  rfl

/-- A form without a place fails without one, and a `try` around it that has a
place adds it. -/
theorem try_adds_place :
    let place : Span := ⟨"a", ⟨1, 1, 0⟩, ⟨1, 21, 20⟩⟩
    let failing : Value := .list [.symbol "throw" none, .string "deep"] none
    let form : Value := .list [.symbol "try" none, failing] (some place)
    let s : Store := { frames := #[[]] }
    ∃ e, eval Host.standard .deferring 7 failing ⟨0, []⟩ s = .failure e s ∧
      eval Host.standard .deferring 9 form ⟨0, []⟩ s ≠ .failure e s ∧
      eval Host.standard .deferring 9 form ⟨0, []⟩ s =
        .failure ⟨e.fault, some place⟩ s := by
  intro place failing form s
  have hform : eval Host.standard .deferring 9 form ⟨0, []⟩ s =
      .failure ⟨.thrown "deep", some place⟩ s := rfl
  refine ⟨⟨.thrown "deep", none⟩, rfl, ?_, hform⟩
  rw [hform]
  intro h
  cases h

end Machine

end TinyLisp
