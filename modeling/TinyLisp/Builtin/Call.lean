import TinyLisp.Builtin.Primitive

/-!
# Running built-in functions

Three functions call others: `map`, `apply` and `swap!`. How a call is made is
for the evaluator to say, so it is a parameter here.
-/

namespace TinyLisp

/-- How a function calls the functions it is given. -/
abbrev Apply := Value → List Value → Action Value

open Arguments Sequence

/-- `(map f coll & colls)`: the vector of what `f` gives for the first items,
the second items and so on, up to the end of the shortest collection. -/
def mapCall (apply : Apply) (args : List Value) : Action Value :=
  match args with
  | [f, coll] => do
    let items ← Action.ofExcept (sequence "map" coll)
    return .vectorOf (← Action.each (apply f ·) (items.map ([·])))
  | f :: coll :: colls => do
    let columns ← Action.ofExcept ((coll :: colls).mapM (sequence "map"))
    return .vectorOf (← Action.each (apply f ·) (rows columns))
  | _ => Action.fail (.arity "map" "at least 2" args.length)

/-- `(apply f x y & [more])`: call `f` with the leading arguments and the items
of the last one. -/
def applyCall (apply : Apply) (args : List Value) : Action Value :=
  match args with
  | f :: x :: more => do
    let (leading, last) := splitLast x more
    apply f (leading ++ (← Action.ofExcept (sequence "apply" last)))
  | _ => Action.fail (.arity "apply" "at least 2" args.length)

/-- `(swap! atom f & args)`: set an atom to what `f` gives for its content
and the arguments. -/
def swapCall (apply : Apply) (args : List Value) : Action Value :=
  match args with
  | a :: f :: more => do
    let cell ← Action.ofExcept (cellOf "swap!" a)
    let held ← HeapAction.readCell cell
    let v ← apply f (held :: more)
    HeapAction.writeCell cell v
    return v
  | _ => Action.fail (.arity "swap!" "at least 2" args.length)

def Builtin.call (apply : Apply) (b : Builtin) (args : List Value) :
    Action Value :=
  match b with
  | .primitive p => HeapAction.lift (p.call args)
  | .map => mapCall apply args
  | .apply => applyCall apply args
  | .swap => swapCall apply args

end TinyLisp
