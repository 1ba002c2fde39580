import TinyLisp.Number.Text
import TinyLisp.Value.Equality

/-!
# Hashing

A 32-bit hash that equal values share. Lists and vectors hash alike, map entries
are mixed in a way that does not depend on their order, and a map literal hashes
as the map it stands for. Values with an identity hash to it.
-/

namespace TinyLisp.Value

/-- Keywords are kept apart from symbols and strings of the same name. -/
def keywordSalt : UInt32 := 0x9e3779b9

/-- The hash of a sequence, from the hashes of its items. -/
def hashItems (hash : Value → UInt32) (xs : List Value) : UInt32 :=
  xs.foldl (fun h x => h * 31 + hash x) 1

/-- The hash of a map, from the hashes of its keys and values. -/
def hashEntries (hash : Value → UInt32) (es : List (Value × Value)) : UInt32 :=
  es.foldl (fun h e => h ^^^ (hash e.1 ^^^ hash e.2)) 0

/-- The hash of a value without parts. -/
def hashLeaf : Value → UInt32
  | nil => 0
  | bool true => 1231
  | bool false => 1237
  | number x => Number.hash x
  | string s => Text.hash s
  | symbol name _ => Text.hash name
  | keyword name => Text.hash name + keywordSalt
  | atom cell => .ofNat cell
  | closure _ _ _ _ _ id => .ofNat id
  | native _ _ id => .ofNat id
  | host _ _ id => .ofNat id
  | list _ _ => 0
  | vector _ _ => 0
  | map _ _ => 0
  | mapForm _ _ => 0

/-- The hash of a value down to a depth. -/
def hashWithin : (depth : Nat) → Value → UInt32
  | 0, _ => 0
  | n + 1, v =>
    match v.items? with
    | some xs => hashItems (hashWithin n) xs
    | none =>
      match v.entriesBy? Value.beq with
      | some es => hashEntries (hashWithin n) es
      | none => hashLeaf v

protected def hash (v : Value) : UInt32 :=
  hashWithin v.depth v

instance : TrieHash Value := ⟨Value.hash⟩

end TinyLisp.Value
