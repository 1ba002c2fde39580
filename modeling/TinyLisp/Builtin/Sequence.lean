import TinyLisp.Builtin.Arguments

/-!
# Sequences

Lists and vectors are both sequences of items, and most functions take either.
`nil` is an empty sequence.
-/

namespace TinyLisp.Sequence

open Arguments

/-- The first item, or `nil` if there is none. -/
def firstOf (args : List Value) : Except Fault Value := do
  let v ← one "first" args
  return ((v.items?.getD []).headD .nil)

/-- The vector of all items but the first. -/
def restOf (args : List Value) : Except Fault Value := do
  let v ← one "rest" args
  return .vectorOf (v.items?.getD []).tail

/-- How many items, entries or characters there are. -/
def lengthOf (v : Value) : Except Fault Nat :=
  match v with
  | .list items _ => .ok items.length
  | .vector items _ => .ok items.size
  | .map m _ => .ok m.size
  | .string s => .ok s.length
  | .nil => .ok 0
  | other => .error (.wrongType "count" "collection" other)

def countOf (args : List Value) : Except Fault Value := do
  return .number (Float.ofNat (← lengthOf (← one "count" args)))

/-- Whether there are no items. Only collections, texts and `nil`
can be empty. -/
def emptyOf (args : List Value) : Except Fault Value := do
  match ← one "empty?" args with
  | .list items _ => return .bool items.isEmpty
  | .vector items _ => return .bool (items.size == 0)
  | .map m _ => return .bool m.isEmpty
  | .string s => return .bool s.isEmpty
  | .nil => return .bool true
  | _ => return .bool false

def consOf (args : List Value) : Except Fault Value := do
  let (x, coll) ← two "cons" args
  return .list (x :: (← sequence "cons" coll)) none

/-- The item at an index, else the third argument. Without one a missing item
is an error. -/
def nthOf (args : List Value) : Except Fault Value := do
  let (coll, index, notFound) ← match args with
    | [coll, index] => pure (coll, index, none)
    | [coll, index, notFound] => pure (coll, index, some notFound)
    | _ => throw (.arity "nth" "2 or 3" args.length)
  let items ← indexed "nth" coll
  let index ← number "nth" index
  match (Number.toNat? index).bind items.get?, notFound with
  | some item, _ => return item
  | none, some v => return v
  | none, none => throw (.outOfBounds (Number.text index) items.size)

/-- Add entries to a map, each a sequence of a key and a value. -/
def addEntries (m : ValueMap) : List Value → Except Fault ValueMap
  | [] => .ok m
  | x :: xs =>
    match x.items? with
    | some [k, v] => addEntries (m.insert k v) xs
    | _ => .error .notAnEntry

/-- Add items to the end of a vector or the front of a list, or entries
to a map. -/
def conjOf (args : List Value) : Except Fault Value :=
  match args with
  | [] => .error (.arity "conj" "at least 1" 0)
  | .vector items _ :: xs => .ok (.vector (items.append xs) none)
  | .list items _ :: xs => .ok (.list (xs.reverse ++ items) none)
  | .nil :: xs => .ok (.list xs.reverse none)
  | .map m _ :: xs => (addEntries m xs).map (.map · none)
  | other :: _ => .error (.wrongType "conj" "collection" other)

/-- All of `x` and what follows but the last, and the last. -/
def splitLast (x : Value) : List Value → List Value × Value
  | [] => ([], x)
  | y :: rest =>
    let r := splitLast y rest
    (x :: r.1, r.2)

/-- The rows of several columns: the first items, then the second ones, up to
the shortest column. -/
def rows : List (List Value) → List (List Value)
  | [] => []
  | [column] => column.map ([·])
  | column :: columns => List.zipWith (· :: ·) column (rows columns)

end TinyLisp.Sequence
