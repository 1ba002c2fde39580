import TinyLisp.Value.Basic

/-!
# Depth

How deeply a value is nested. Functions that look into a value run on a budget
of this size: each step into it costs one, so the budget is always enough, and
what they answer does not depend on how much of it is left.
-/

namespace TinyLisp.Value

open HashTrie (Node)

mutual

/-- One more than the depth of the deepest part. The parts are the
items of a list or vector, the keys and values of a map, and the
parameters of a closure. -/
def depth : Value → Nat
  | list xs _ => depthAll xs + 1
  | vector xs _ => depthItems xs + 1
  | map m _ => depthTrie m + 1
  | mapForm ps _ => depthPairs ps + 1
  | closure _ _ params _ _ _ => depth params + 1
  | nil => 1
  | bool _ => 1
  | number _ => 1
  | string _ => 1
  | symbol _ _ => 1
  | keyword _ => 1
  | atom _ => 1
  | native _ _ _ => 1
  | host _ _ _ => 1

/-- The depth of the deepest of several values. -/
def depthAll : List Value → Nat
  | [] => 0
  | x :: xs => max (depth x) (depthAll xs)

/-- The depth of the deepest item of a vector. -/
def depthItems : Items Value → Nat
  | ⟨front, added⟩ => max (depthAll front) (depthAll added)

/-- The depth of the deepest key or value. -/
def depthPairs : List (Value × Value) → Nat
  | [] => 0
  | (k, v) :: ps => max (max (depth k) (depth v)) (depthPairs ps)

/-- The depth of the deepest key or value of a map. -/
def depthTrie : HashTrie Value Value → Nat
  | ⟨root, _⟩ => depthRoot root

/-- The depth of the deepest key or value below the root. -/
def depthRoot : Option (Node Value Value) → Nat
  | none => 0
  | some node => depthNode node

/-- The depth of the deepest key or value in a node. -/
def depthNode : Node Value Value → Nat
  | .leaf _ k v => max (depth k) (depth v)
  | .collision _ es => depthPairs es
  | .branch _ cs => depthNodes cs

/-- The depth of the deepest key or value in several nodes. -/
def depthNodes : List (Node Value Value) → Nat
  | [] => 0
  | c :: cs => max (depthNode c) (depthNodes cs)

end

end TinyLisp.Value
