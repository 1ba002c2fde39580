import TinyLisp.Builtin.Arguments
import TinyLisp.Number.Parts

/-!
# Arithmetic and comparison

Numbers are floats, but dividing by zero is an error. Comparisons hold for a
chain of arguments if they hold for each two neighbours.
-/

namespace TinyLisp.Arithmetic

open Arguments

/-- The sum. Without arguments it is the zero that changes no number it
is added to. -/
def sumOf (args : List Value) : Except Fault Value := do
  return .number ((← numbers "+" args).foldl (· + ·) (-0.0))

/-- The difference of the first number and the others, or the negative of
a single one. -/
def differenceOf (args : List Value) : Except Fault Value := do
  match ← numbers "-" args with
  | [] => throw (.arity "-" "at least 1" 0)
  | [x] => return .number (-x)
  | x :: rest => return .number (rest.foldl (· - ·) x)

def productOf (args : List Value) : Except Fault Value := do
  return .number ((← numbers "*" args).foldl (· * ·) 1)

/-- A number divided by several, one after the other. -/
def divideBy (x : Float) : List Float → Except Fault Float
  | [] => .ok x
  | y :: ys => if y == 0 then .error .divisionByZero else divideBy (x / y) ys

/-- The quotient of the first number and the others, or the reciprocal of
a single one. -/
def quotientOf (args : List Value) : Except Fault Value := do
  match ← numbers "/" args with
  | [] => throw (.arity "/" "at least 1" 0)
  | [x] => return .number (← divideBy 1 [x])
  | x :: rest => return .number (← divideBy x rest)

/-- The remainder, which has the sign of the first number. -/
def remainderOf (args : List Value) : Except Fault Value := do
  let (x, y) ← two "%" args
  let x ← number "%" x
  let y ← number "%" y
  if y == 0 then throw .divisionByZero
  return .number (Number.remainder x y)

/-- Whether `rel` holds for each two neighbours. -/
def chained {α : Type} (rel : α → α → Bool) : List α → Bool
  | x :: y :: rest => rel x y && chained rel (y :: rest)
  | _ => true

/-- Whether all arguments are equal, going from neighbour to neighbour. -/
def allSame (name : String) (args : List Value) : Except Fault Bool :=
  if args.isEmpty then .error (.arity name "at least 1" 0)
  else .ok (chained Value.beq args)

/-- Whether the arguments, all numbers, stand in a chain of `rel`. -/
def compareOf (name : String) (rel : Float → Float → Bool) (args : List Value) :
    Except Fault Value :=
  if args.isEmpty then .error (.arity name "at least 1" 0)
  else do
    return .bool (chained rel (← numbers name args))

end TinyLisp.Arithmetic
