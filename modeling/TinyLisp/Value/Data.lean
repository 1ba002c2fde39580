import TinyLisp.Value.Hash

/-!
# Forms as data

Taking a form as data builds every map literal in it into a map. Literals are
found inside lists, vectors and other literals; a map is data already and is
left as it is.
-/

namespace TinyLisp

/-- The maps of the language. -/
abbrev ValueMap := HashTrie Value Value

namespace Value

mutual

def toData : Value → Value
  | list xs s => list (toDataAll xs) s
  | vector xs s => vector (toDataItems xs) s
  | mapForm ps s => map (HashTrie.ofList (toDataPairs ps)) s
  | nil => nil
  | bool b => bool b
  | number x => number x
  | string t => string t
  | symbol n s => symbol n s
  | keyword n => keyword n
  | map m s => map m s
  | atom c => atom c
  | closure k n p b sc i => closure k n p b sc i
  | native n c i => native n c i
  | host t st i => host t st i

def toDataAll : List Value → List Value
  | [] => []
  | x :: xs => toData x :: toDataAll xs

/-- The items of a vector as data. -/
def toDataItems : Items Value → Items Value
  | ⟨front, added⟩ => ⟨toDataAll front, toDataAll added⟩

/-- The pairs of a map literal as data. -/
def toDataPairs : List (Value × Value) → List (Value × Value)
  | [] => []
  | (k, v) :: ps => (toData k, toData v) :: toDataPairs ps

end

theorem toDataAll_eq_map (xs : List Value) : toDataAll xs = xs.map toData := by
  induction xs with
  | nil => rfl
  | cons x xs ih => rw [toDataAll, ih, List.map_cons]

theorem toList_toDataItems (xs : Items Value) :
    (toDataItems xs).toList = xs.toList.map toData := by
  cases xs with
  | mk front added => simp [toDataItems, Items.toList_eq, toDataAll_eq_map]

theorem toDataPairs_eq_map (ps : List (Value × Value)) :
    toDataPairs ps = ps.map fun p => (toData p.1, toData p.2) := by
  induction ps with
  | nil => rfl
  | cons p ps ih => rw [toDataPairs, ih, List.map_cons]

end Value

namespace ValueMap

/-- The value of `key`: along its hash, and if that finds nothing, the first
entry with an equal key. -/
def lookup (m : ValueMap) (key : Value) : Option Value :=
  (m.get? key).or (AssocList.find? Value.beq key m.entries)

end ValueMap

end TinyLisp
