import TinyLisp.HashTrie.Basic

/-!
# Versions of a map

Maps are immutable, so every edit makes a new version and leaves the earlier
ones as they are. A history lists all versions, the empty map first. Each
version carries the stamp of its root: an edit that changes nothing hands the
root on, every other edit makes a new one.
-/

namespace TinyLisp.HashTrie

/-- A map and the stamp of its root. -/
structure Version (K V : Type) where
  map : HashTrie K V
  stamp : Nat

namespace Version

variable {K V : Type}

/-- Whether two versions share their root, as two empty maps always do. -/
def sharesRoot (a b : Version K V) : Bool :=
  match a.map.root, b.map.root with
  | none, none => true
  | some _, some _ => a.stamp == b.stamp
  | _, _ => false

end Version

/-- A way to make a new version, from an earlier one or from nothing. -/
inductive Edit (K V : Type) where
  | insert (version : Nat) (key : K) (value : V)
  | erase (version : Nat) (key : K)
  | collect (entries : List (K × V))

/-- All versions of a map, the oldest first. -/
structure History (K V : Type) where
  versions : Array (Version K V)

namespace History

variable {K V : Type} [BEq K] [TrieHash K]

def start : History K V := ⟨#[⟨empty, 0⟩]⟩

/-- A version by its number. A number that was not given out is the empty
map. -/
def version (h : History K V) (n : Nat) : Version K V :=
  (h.versions[n]?).getD ⟨empty, 0⟩

/-- The version that an edit makes. A new root is stamped with the number
of the version. -/
def edited (h : History K V) : Edit K V → Version K V
  | .insert n key value => ⟨(h.version n).map.insert key value, h.versions.size⟩
  | .erase n key =>
    match (h.version n).map.erase? key with
    | some m => ⟨m, h.versions.size⟩
    | none => h.version n
  | .collect es => ⟨ofList es, h.versions.size⟩

def apply (h : History K V) (e : Edit K V) : History K V :=
  ⟨h.versions.push (h.edited e)⟩

def run (h : History K V) (es : List (Edit K V)) : History K V :=
  es.foldl apply h

end History

end TinyLisp.HashTrie
