import TinyLisp.Value.Depth

/-!
# Equality

Values are equal by content: a list equals a vector with the same items, and two
maps are equal if they hold equal values under equal keys. A map literal equals
the map it stands for, so a later pair for a key hides an earlier one. Numbers
are compared as floats, hence not-a-number differs from itself. Atoms, functions
and host objects are equal only to themselves.
-/

namespace TinyLisp.Value

/-- The entries of a map, or of the map that a literal stands for. Keys are
compared by `same`. -/
def entriesBy? (same : Value → Value → Bool) :
    Value → Option (List (Value × Value))
  | map m _ => some m.entries
  | mapForm ps _ => some (AssocList.ofPairs same ps)
  | _ => none

/-- Equality of values that have no parts. -/
def sameLeaf : Value → Value → Bool
  | nil, nil => true
  | bool a, bool b => a == b
  | number x, number y => x == y
  | string s, string t => s == t
  | symbol s _, symbol t _ => s == t
  | keyword s, keyword t => s == t
  | atom i, atom j => i == j
  | closure k _ _ _ _ i, closure k' _ _ _ _ j => k == k' && i == j
  | native _ _ i, native _ _ j => i == j
  | host _ _ i, host _ _ j => i == j
  | _, _ => false

/-- Whether the maps with these entries are equal: they have equally many, and
each entry of the first is found in the second. -/
def sameEntries (same : Value → Value → Bool) (es fs : List (Value × Value)) :
    Bool :=
  es.length == fs.length && es.all fun e =>
    match AssocList.find? same e.1 fs with
    | some v => same v e.2
    | none => false

/-- Equality down to a depth. -/
def beqWithin : (depth : Nat) → Value → Value → Bool
  | 0, _, _ => false
  | n + 1, a, b =>
    match a.items?, b.items? with
    | some xs, some ys => xs.isEqv ys (beqWithin n)
    | none, none =>
      match a.entriesBy? (beqWithin n), b.entriesBy? (beqWithin n) with
      | some es, some fs => sameEntries (beqWithin n) es fs
      | none, none => sameLeaf a b
      | _, _ => false
    | _, _ => false

protected def beq (a b : Value) : Bool :=
  beqWithin (max a.depth b.depth) a b

instance : BEq Value := ⟨Value.beq⟩

end TinyLisp.Value
