import TinyLisp.Builtin.Arguments

/-!
# Maps

Every change gives a new map. `nil` is an empty map. Looking something up also
works on vectors, by index.
-/

namespace TinyLisp.Mapping

open Arguments

/-- Set keys and values that stand in turn. -/
def addPairs (name : String) (m : ValueMap) : List Value → Except Fault ValueMap
  | [] => .ok m
  | k :: v :: rest => addPairs name (m.insert k v) rest
  | [_] => .error (.oddArguments name)

def hashMapOf (args : List Value) : Except Fault Value := do
  return .map (← addPairs "hash-map" {} args) none

/-- The item of a vector that a key is the index of. -/
def itemAt? (items : Items Value) (key : Value) : Option Value :=
  match key with
  | .number x => (Number.toNat? x).bind items.get?
  | _ => none

/-- What a collection holds under a key. -/
def find? (coll key : Value) : Option Value :=
  match coll with
  | .map m _ => ValueMap.lookup m key
  | .vector items _ => itemAt? items key
  | _ => none

/-- The value under a key, else the third argument, else `nil`. -/
def getOf (args : List Value) : Except Fault Value :=
  match args with
  | [coll, key] => .ok ((find? coll key).getD .nil)
  | [coll, key, notFound] => .ok ((find? coll key).getD notFound)
  | _ => .error (.arity "get" "2 or 3" args.length)

def assocOf (args : List Value) : Except Fault Value :=
  match args with
  | coll :: k :: v :: rest => do
    return .map (← addPairs "assoc" (← mapping "assoc" coll) (k :: v :: rest))
      none
  | _ => .error (.arity "assoc" "at least 3" args.length)

def dissocOf (args : List Value) : Except Fault Value :=
  match args with
  | coll :: ks => do
    return .map (ks.foldl HashTrie.erase (← mapping "dissoc" coll)) none
  | [] => .error (.arity "dissoc" "at least 1" 0)

def keysOf (args : List Value) : Except Fault Value := do
  return .vectorOf (← mapping "keys" (← one "keys" args)).keys

/-- The vector of the values, in the order of the keys. -/
def valsOf (args : List Value) : Except Fault Value := do
  return .vectorOf (← mapping "vals" (← one "vals" args)).values

/-- Whether a map has a key, or a vector an index. -/
def containsOf (args : List Value) : Except Fault Value := do
  let (coll, key) ← two "contains?" args
  match coll with
  | .map _ _ => return .bool (find? coll key).isSome
  | .vector _ _ => return .bool (find? coll key).isSome
  | .nil => return .bool false
  | other => throw (.wrongType "contains?" "map or vector" other)

/-- What calling a keyword gives: its value in a map, else the
default, else `nil`. -/
def keywordCall (name : String) (args : List Value) : Except Fault Value :=
  let lookup (target default : Value) : Value :=
    match target with
    | .map m _ => (ValueMap.lookup m (.keyword name)).getD default
    | _ => default
  match args with
  | [target] => .ok (lookup target .nil)
  | [target, default] => .ok (lookup target default)
  | _ => .error (.arity (":" ++ name) "1 or 2" args.length)

end TinyLisp.Mapping
