import Mathlib.Data.List.Forall2
import TinyLisp.Proofs.Eval.Strategy

/-!
# What `map` calls its function with

Given one collection, `map` goes through its items; given several, it goes
through their rows. Either way the calls are those for the indices below the
length of the shortest collection, and `zipCall` makes them by index. That the
rows are what stands at these indices is a fact about lists (`rows_eq`), and one
collection is no special case of it.

How calls for one index after the other end is said by `CallsEnd`, which looks
at one call at a time: each has the store that the one before it left, and the
first that does not give a value is the last.

Nothing is assumed about how a function is called. So a call may do whatever a
function can do, call `map` again included. And if the outcome is the same
however functions are called, none was called.
-/

namespace TinyLisp

open TinyLisp.Action (bind_of_result bind_of_failure)

/-! ## Sequences -/

/-- The value is a sequence with these items. -/
inductive Value.IsSequenceOf : Value → List Value → Prop where
  | list (items : List Value) (span : Option Span) :
      IsSequenceOf (.list items span) items
  | vector (items : Items Value) (span : Option Span) :
      IsSequenceOf (.vector items span) items.toList
  | nil : IsSequenceOf .nil []

namespace Arguments

variable {name : String} {v : Value} {vs : List Value}

theorem sequence_of_isSequenceOf {items : List Value}
    (h : v.IsSequenceOf items) : sequence name v = .ok items := by
  cases h <;> rfl

theorem sequence_of_not_isSequenceOf (h : ∀ items, ¬ v.IsSequenceOf items) :
    sequence name v = .error (.wrongType name "sequence" v) := by
  cases v with
  | list items span => exact absurd (.list items span) (h _)
  | vector items span => exact absurd (.vector items span) (h _)
  | nil => exact absurd .nil (h _)
  | _ => rfl

theorem mapM_sequence {columns : List (List Value)}
    (h : List.Forall₂ Value.IsSequenceOf vs columns) :
    vs.mapM (sequence name) = .ok columns := by
  induction h with
  | nil => rfl
  | cons hv _ ih =>
      rw [List.mapM_cons, sequence_of_isSequenceOf hv, ih]
      rfl

/-- If some of the values are no sequences, one of these is complained about. -/
theorem mapM_sequence_error (h : ∃ v ∈ vs, ∀ items, ¬ v.IsSequenceOf items) :
    ∃ v ∈ vs, (∀ items, ¬ v.IsSequenceOf items) ∧
      vs.mapM (sequence name) = .error (.wrongType name "sequence" v) := by
  induction vs with
  | nil =>
      obtain ⟨v, hv, -⟩ := h
      cases hv
  | cons v vs ih =>
      by_cases hv : ∃ items, v.IsSequenceOf items
      · obtain ⟨items, hitems⟩ := hv
        have htail : ∃ v ∈ vs, ∀ items, ¬ v.IsSequenceOf items := by
          obtain ⟨w, hw, hnot⟩ := h
          rcases List.mem_cons.mp hw with rfl | hw
          · exact absurd hitems (hnot items)
          · exact ⟨w, hw, hnot⟩
        obtain ⟨w, hw, hnot, herror⟩ := ih htail
        refine ⟨w, List.mem_cons_of_mem _ hw, hnot, ?_⟩
        rw [List.mapM_cons, sequence_of_isSequenceOf hitems, herror]
        rfl
      · have hnot : ∀ items, ¬ v.IsSequenceOf items :=
          fun items hitems => hv ⟨items, hitems⟩
        refine ⟨v, List.mem_cons_self, hnot, ?_⟩
        rw [List.mapM_cons, sequence_of_not_isSequenceOf hnot]
        rfl

end Arguments

/-! ## Rows by index -/

namespace Sequence

/-- The length of the shortest of several columns. -/
def shortest (columns : List (List Value)) : Nat :=
  (columns.map List.length).min?.getD 0

/-- What the columns have at an index that is less than the length of each. -/
def rowAt (columns : List (List Value)) (i : Nat) : List Value :=
  columns.map (·.getD i .nil)

variable {columns : List (List Value)} {i : Nat}

theorem shortest_cons (column next : List Value) (columns : List (List Value)) :
    shortest (column :: next :: columns) =
      min column.length (shortest (next :: columns)) := by
  rw [shortest, shortest, List.map_cons, List.min?_cons, List.map_cons,
    List.min?_cons]
  rfl

theorem rows_cons (column next : List Value) (columns : List (List Value)) :
    rows (column :: next :: columns) =
      List.zipWith (· :: ·) column (rows (next :: columns)) := rfl

theorem rowAt_cons {column : List Value} (hi : i < column.length) :
    rowAt (column :: columns) i = column[i] :: rowAt columns i := by
  rw [rowAt, List.map_cons, List.getD_eq_getElem?_getD,
    List.getElem?_eq_getElem hi]
  rfl

theorem length_rows (columns : List (List Value)) :
    (rows columns).length = shortest columns := by
  induction columns with
  | nil => rfl
  | cons column columns ih => cases columns with
    | nil => exact List.length_map _
    | cons next columns =>
        rw [rows_cons, List.length_zipWith, ih, shortest_cons]

theorem getElem?_rows (hi : i < shortest columns) :
    (rows columns)[i]? = some (rowAt columns i) := by
  induction columns with
  | nil => exact absurd hi (Nat.not_lt_zero i)
  | cons column columns ih => cases columns with
    | nil =>
        show (column.map ([·]))[i]? = _
        rw [List.getElem?_map, List.getElem?_eq_getElem hi, rowAt_cons hi]
        rfl
    | cons next columns =>
        rw [shortest_cons] at hi
        obtain ⟨hcolumn, hcolumns⟩ := Nat.lt_min.mp hi
        rw [rows_cons, List.getElem?_zipWith, ih hcolumns,
          List.getElem?_eq_getElem hcolumn, rowAt_cons hcolumn]

theorem rows_eq (columns : List (List Value)) :
    rows columns = (List.range (shortest columns)).map (rowAt columns) := by
  refine List.ext_getElem? fun i => ?_
  rw [List.getElem?_map]
  rcases Nat.lt_or_ge i (shortest columns) with hi | hi
  · rw [getElem?_rows hi, List.getElem?_range hi]
    rfl
  · rw [List.getElem?_eq_none (by rwa [length_rows]),
      List.getElem?_eq_none (by rwa [List.length_range])]
    rfl

end Sequence

/-! ## One call after the other -/

namespace Action

variable {α β γ : Type}

theorem each_map (f : β → Action γ) (g : α → β) (xs : List α) :
    each f (xs.map g) = each (fun x => f (g x)) xs := by
  induction xs with
  | nil => rfl
  | cons x xs ih => rw [List.map_cons, each, ih, each]

theorem each_range_succ (call : Nat → Action β) (m : Nat) :
    each call (List.range (m + 1)) =
      each call (List.range m) >>= fun vs => call m >>= fun v =>
        pure (vs ++ [v]) := by
  rw [List.range_succ, each_append]
  refine bind_congr fun vs => ?_
  have hsingle : each call [m] = call m >>= fun v => pure [v] := rfl
  rw [hsingle, map_eq_pure_bind, bind_assoc]
  rfl

/-- The calls for the indices below a number have given these values, each on
the store that the one before it left, and this is the store that the last of
them has left. -/
inductive Calls (call : Nat → Action Value) (s : Store) :
    Nat → List Value → Store → Prop where
  | none : Calls call s 0 [] s
  | next {i : Nat} {vs : List Value} {t u : Store} {v : Value}
      (before : Calls call s i vs t) (h : call i t = .result v u) :
      Calls call s (i + 1) (vs ++ [v]) u

/-- How the calls for the indices below `m` end: all of them give values, or
those below some index do and the call for this index is the last. -/
inductive CallsEnd (call : Nat → Action Value) (s : Store) (m : Nat) :
    Outcome Value → Prop where
  | all {vs : List Value} {t : Store} (h : Calls call s m vs t) :
      CallsEnd call s m (.result (.vectorOf vs) t)
  | failure {i : Nat} {vs : List Value} {t u : Store} {e : Failure} (hi : i < m)
      (before : Calls call s i vs t) (h : call i t = .failure e u) :
      CallsEnd call s m (.failure e u)
  | exhausted {i : Nat} {vs : List Value} {t : Store} (hi : i < m)
      (before : Calls call s i vs t) (h : call i t = .exhausted) :
      CallsEnd call s m .exhausted

/-- Make the calls for the indices below `m`, and gather what they give
in a vector. -/
def callBelow (call : Nat → Action Value) (m : Nat) : Action Value := do
  return .vectorOf (← each call (List.range m))

variable {call : Nat → Action Value} {s t : Store} {m : Nat} {vs : List Value}
  {o : Outcome Value}

theorem Calls.each_eq (h : Calls call s m vs t) :
    each call (List.range m) s = .result vs t := by
  induction h with
  | none => rfl
  | next _ h ih =>
      rw [each_range_succ, bind_of_result ih, bind_of_result h]
      rfl

theorem CallsEnd.callBelow_eq (h : CallsEnd call s m o) :
    callBelow call m s = o := by
  cases h with
  | all h => exact bind_of_result h.each_eq
  | failure hi before h =>
      refine bind_of_failure ?_
      induction hi with
      | refl =>
          rw [each_range_succ, bind_of_result before.each_eq, bind_of_failure h]
      | step _ ih => rw [each_range_succ, bind_of_failure ih]
  | exhausted hi before h =>
      refine bind_of_exhausted ?_
      induction hi with
      | refl =>
          rw [each_range_succ, bind_of_result before.each_eq, bind_of_exhausted h]
      | step _ ih => rw [each_range_succ, bind_of_exhausted ih]

theorem exists_callsEnd (call : Nat → Action Value) (s : Store) (m : Nat) :
    ∃ o, CallsEnd call s m o := by
  induction m with
  | zero => exact ⟨_, .all .none⟩
  | succ m ih =>
      obtain ⟨o, ho⟩ := ih
      cases ho with
      | @all vs t before => cases hcall : call m t with
        | result v u => exact ⟨_, .all (.next before hcall)⟩
        | failure e u => exact ⟨_, .failure (Nat.lt_succ_self m) before hcall⟩
        | exhausted => exact ⟨_, .exhausted (Nat.lt_succ_self m) before hcall⟩
      | failure hi before h =>
          exact ⟨_, .failure (Nat.lt_succ_of_lt hi) before h⟩
      | exhausted hi before h =>
          exact ⟨_, .exhausted (Nat.lt_succ_of_lt hi) before h⟩

theorem callBelow_eq_iff : callBelow call m s = o ↔ CallsEnd call s m o := by
  constructor
  · rintro rfl
    obtain ⟨o, ho⟩ := exists_callsEnd call s m
    rwa [ho.callBelow_eq]
  · exact CallsEnd.callBelow_eq

end Action

/-! ## What `map` does -/

open TinyLisp.Action (CallsEnd callBelow callBelow_eq_iff)
open Arguments (sequence mapM_sequence mapM_sequence_error)
open Sequence (rows rowAt shortest rows_eq)

/-- Call a function for each index with what several collections have there. -/
def zipCall (apply : Apply) (f : Value) (colls : List Value) : Action Value := do
  let columns ← Action.ofExcept (colls.mapM (sequence "map"))
  callBelow (fun i => apply f (rowAt columns i)) (shortest columns)

theorem each_rows (apply : Apply) (f : Value) (columns : List (List Value)) :
    (do return .vectorOf (← Action.each (apply f ·) (rows columns)) :
      Action Value) =
      callBelow (fun i => apply f (rowAt columns i)) (shortest columns) := by
  rw [rows_eq, Action.each_map, callBelow]

/-- The items of one collection are its rows. -/
theorem mapCall_eq (apply : Apply) (f c : Value) (cs : List Value) :
    mapCall apply (f :: c :: cs) = zipCall apply f (c :: cs) := by
  cases cs with
  | nil =>
      rw [zipCall, List.mapM_cons]
      show (Action.ofExcept (sequence "map" c) >>= _) = _
      cases sequence "map" c with
      | error fault => rfl
      | ok items => exact each_rows apply f [items]
  | cons c' cs => exact bind_congr fun columns => each_rows apply f columns

theorem zipCall_of_columns {colls : List Value} {columns : List (List Value)}
    (h : List.Forall₂ Value.IsSequenceOf colls columns) (apply : Apply)
    (f : Value) :
    zipCall apply f colls =
      callBelow (fun i => apply f (rowAt columns i)) (shortest columns) := by
  rw [zipCall, mapM_sequence h]
  rfl

namespace Machine

variable {host : Host} {strategy : Strategy} {n : Nat} {args : List Value}
  {name : String} {id : ObjectId}

theorem apply_map :
    apply host strategy (n + 1) (.native name (.builtin .map) id) args =
    mapCall (apply host strategy n) args := by
  rw [apply_succ]
  exact finish_settle (mapCall (apply host strategy n) args) _

/-- A call of `map` in a program, when its head and its arguments
have been evaluated. -/
theorem eval_map {head : Value} {forms : List Value} {place : Option Span}
    {scope : Scope} {s t u : Store} (hhead : Evaluator.operator head = .value)
    (hmap : eval host strategy n head scope s =
      .result (.native name (.builtin .map) id) t)
    (hargs : (inner host strategy n).evalAll scope forms t = .result args u) :
    eval host strategy (n + 2) (.list (head :: forms) place) scope s =
      Action.located place (mapCall (apply host strategy n) args) u := by
  refine eval_of_finish ?_
  rw [Evaluator.stepForm, Evaluator.stepList, hhead]
  refine (bind_of_result hmap).trans ?_
  exact bind_of_result hargs

end Machine

/-- `map` with a function and sequences ends as calls of the function in turn
do, one for each index below the length of the shortest sequence, with what
the sequences have at this index. If all of them give values, the vector of
these is the result. What `map` does with a single collection is what the loop
over indices does. If some collection is no sequence, `map` fails in a way
that does not depend on how functions are called, so none is called. The
machine calls functions by `apply`, whether `map` is handed to a function or
stands in a program. -/
theorem map_calls_by_index (f c : Value) (cs : List Value) :
    let args := f :: c :: cs
    (∀ columns, List.Forall₂ Value.IsSequenceOf (c :: cs) columns → ∀ apply s o,
      mapCall apply args s = o ↔
        CallsEnd (fun i => apply f (rowAt columns i)) s (shortest columns) o) ∧
    (∀ apply, mapCall apply args = zipCall apply f (c :: cs)) ∧
    ((∃ v ∈ c :: cs, ∀ items, ¬ v.IsSequenceOf items) →
      ∃ v ∈ c :: cs, (∀ items, ¬ v.IsSequenceOf items) ∧ ∀ apply s,
        mapCall apply args s =
          .failure (.ofFault (.wrongType "map" "sequence" v)) s) ∧
    ∀ host strategy n name id,
      let map : Value := .native name (.builtin .map) id
      let outcome := mapCall (Machine.apply host strategy n) args
      Machine.apply host strategy (n + 1) map args = outcome ∧
        ∀ head forms place scope s t u, Evaluator.operator head = .value →
          Machine.eval host strategy n head scope s = .result map t →
          (Machine.inner host strategy n).evalAll scope forms t =
            .result args u →
          Machine.eval host strategy (n + 2)
            (.list (head :: forms) place) scope s =
              Action.located place outcome u := by
  intro args
  have hzip : ∀ apply, mapCall apply args = zipCall apply f (c :: cs) :=
    fun apply => mapCall_eq apply f c cs
  refine ⟨?_, hzip, ?_, ?_⟩
  · intro columns h apply s o
    rw [hzip, zipCall_of_columns h]
    exact callBelow_eq_iff
  · intro h
    obtain ⟨v, hv, hnot, herror⟩ := mapM_sequence_error h
    refine ⟨v, hv, hnot, fun apply s => ?_⟩
    rw [hzip, zipCall, herror]
    rfl
  · intro host strategy n name id map outcome
    refine ⟨Machine.apply_map,
      fun head forms place scope s t u hhead hmap hargs => ?_⟩
    exact Machine.eval_map hhead hmap hargs

/-- The function prints its first argument, and throws it if the second one is
`nil`. It is called with the first items and fails with the second ones, so that
the third ones are not come to. A text is no sequence. -/
theorem map_calls_by_index_stopped :
    let symbol (name : String) : Value := .symbol name none
    let call (forms : List Value) : Value := .list forms none
    let root : Scope := ⟨0, []⟩
    let body := call [symbol "do", call [symbol "print", symbol "p"],
      call [symbol "if", symbol "q", symbol "p",
        call [symbol "throw", symbol "p"]]]
    let f : Value := .closure .function none
      (.vectorOf [symbol "p", symbol "q"]) body (some root) 0
    let texts : Value := .vectorOf [.string "a", .string "b", .string "c"]
    let marks : Value := .list [.bool true, .nil, .bool true, .bool true] none
    let s : Store :=
      { frames := #[[("f", f), ("map", .native "map" (.builtin .map) 1),
        ("print", .native "print" (.builtin (.primitive .print)) 2)]] }
    let form :=
      call [symbol "map", symbol "f", texts, call [symbol "quote", marks]]
    (∃ t, Machine.eval Host.standard .deferring 12 form root s =
      .failure ⟨.thrown "b", none⟩ t ∧
        t.heap.output = "ab") ∧
      ∀ apply s, mapCall apply [f, texts, .string "d"] s =
        .failure (.ofFault (.wrongType "map" "sequence" (.string "d"))) s := by
  intro symbol call root body f texts marks s form
  have htexts : texts.IsSequenceOf _ := .vector _ none
  constructor
  · obtain ⟨hends, -, -, hmachine⟩ := map_calls_by_index f texts [marks]
    have hcolumns : List.Forall₂ Value.IsSequenceOf [texts, marks] _ :=
      .cons htexts (.cons (.list _ none) .nil)
    have hform :=
      (hmachine Host.standard .deferring 10 "map" 1).2 (symbol "map")
        [symbol "f", texts, call [symbol "quote", marks]] none root s s s
        rfl rfl rfl
    let t : Store :=
      ⟨s.frames.push [("q", .bool true), ("p", .string "a")], { output := "a" }⟩
    let u : Store :=
      ⟨t.frames.push [("q", .nil), ("p", .string "b")], { output := "ab" }⟩
    have hfirst : Machine.apply Host.standard .deferring 10 f
        [.string "a", .bool true] s =
          .result (.string "a") t := rfl
    have hsecond :
        Machine.apply Host.standard .deferring 10 f [.string "b", .nil] t =
          .failure ⟨.thrown "b", none⟩ u := rfl
    have hcalls := (hends _ hcolumns _ s _).mpr
      (.failure (by decide) (.next .none hfirst) hsecond)
    have hstops : Machine.eval Host.standard .deferring 12 form root s =
        .failure ⟨.thrown "b", none⟩ u := by
      refine hform.trans ?_
      rw [Action.located, hcalls]
      rfl
    exact ⟨u, hstops, rfl⟩
  · obtain ⟨-, -, hnot, -⟩ := map_calls_by_index f texts [.string "d"]
    have hstring : ∀ items, ¬ (Value.string "d").IsSequenceOf items := by
      intro items h
      cases h
    obtain ⟨v, hv, hv', hfails⟩ :=
      hnot ⟨_, List.mem_cons_of_mem _ (List.mem_singleton_self _), hstring⟩
    rcases List.mem_pair.mp hv with rfl | rfl
    · exact absurd htexts (hv' _)
    · exact hfails

end TinyLisp
