import TinyLisp.HashTrie.AssocList

/-!
# Hash tries

An immutable map. The 32-bit hash of a key is read as seven digits in base 32,
the lowest first, and each digit chooses a slot on the way from the root to the
entry. A branch keeps only the slots that are in use: a bitmap says which, and
the child for a slot stands behind as many others as there are used slots below
it. The way ends at a leaf, or at a collision of several entries whose hashes
are the same in all digits.

Entries are listed by walking the trie with the slots in ascending order and
collisions in the order in which their keys came. Replacing an entry stores the
new key too. Removing one leaves a branch with a single child in place, so two
tries with the same entries need not be alike.
-/

namespace TinyLisp

/-- Keys with a 32-bit hash. -/
class TrieHash (K : Type) where
  trieHash : K → UInt32

export TrieHash (trieHash)

namespace HashTrie

/-- The digit of the hash that chooses the slot at a level of the trie. -/
def slot (hash : UInt32) (level : Nat) : Nat :=
  hash.toNat >>> (5 * level) % 32

/-- How many of the lowest `n` slots are in use. -/
def rank (bitmap : BitVec 32) : (n : Nat) → Nat
  | 0 => 0
  | n + 1 => rank bitmap n + (bitmap.getLsbD n).toNat

/-- A part of a trie that holds at least one entry. -/
inductive Node (K V : Type) where
  /-- One entry, and the hash of its key. -/
  | leaf (hash : UInt32) (key : K) (value : V)
  /-- Several entries whose keys all have this hash. -/
  | collision (hash : UInt32) (entries : List (K × V))
  /-- The slots in use and, in ascending order, what they hold. -/
  | branch (bitmap : BitVec 32) (children : List (Node K V))

/-- What is left when a key is removed from a node. -/
inductive Removal (K V : Type) where
  /-- The key was not there. -/
  | absent
  /-- The key was the only one. -/
  | emptied
  | left (node : Node K V)

namespace Node

variable {K V : Type}

/-- The branch at `level` that holds two nodes with different hashes. It goes
down, `depth` levels at most, to the first level where the hashes differ. -/
def fork (a : Node K V) (hashA : UInt32) (b : Node K V) (hashB : UInt32) :
    (depth level : Nat) → Node K V
  | 0, _ => .branch 0 []
  | depth + 1, level =>
    let slotA := slot hashA level
    let slotB := slot hashB level
    if slotA = slotB then
      .branch (.twoPow 32 slotA) [fork a hashA b hashB depth (level + 1)]
    else
      .branch (.twoPow 32 slotA ||| .twoPow 32 slotB)
        (if slotA < slotB then [a, b] else [b, a])

/-- A 32-bit hash has this many digits in base 32. -/
def levels : Nat := 7

mutual

/-- The node with the value of `key` set, and whether it has gained an entry. -/
def insert [BEq K] (hash : UInt32) (key : K) (value : V) :
    Node K V → (level : Nat) → Node K V × Bool
  | .leaf h k v, level =>
    if h ≠ hash then
      (fork (.leaf h k v) h (.leaf hash key value) hash (levels - level) level,
        true)
    else if k == key then (.leaf hash key value, false)
    else (.collision hash [(k, v), (key, value)], true)
  | .collision h es, level =>
    if h ≠ hash then
      (fork (.collision h es) h (.leaf hash key value) hash
        (levels - level) level, true)
    else
      (.collision hash (AssocList.insert (· == ·) key value es),
        !AssocList.contains (· == ·) key es)
  | .branch bitmap cs, level =>
    let s := slot hash level
    if bitmap.getLsbD s then
      let r := insertAt hash key value cs (rank bitmap s) (level + 1)
      (.branch bitmap r.1, r.2)
    else
      (.branch (bitmap ||| .twoPow 32 s)
        (cs.insertIdx (rank bitmap s) (.leaf hash key value)), true)

def insertAt [BEq K] (hash : UInt32) (key : K) (value : V) :
    List (Node K V) → (index level : Nat) → List (Node K V) × Bool
  | [], _, _ => ([], false)
  | c :: cs, 0, level =>
    let r := insert hash key value c level
    (r.1 :: cs, r.2)
  | c :: cs, index + 1, level =>
    let r := insertAt hash key value cs index level
    (c :: r.1, r.2)

end

mutual

def get? [BEq K] (hash : UInt32) (key : K) : Node K V → (level : Nat) → Option V
  | .leaf h k v, _ => if h == hash && k == key then some v else none
  | .collision h es, _ =>
    if h == hash then AssocList.find? (· == ·) key es else none
  | .branch bitmap cs, level =>
    let s := slot hash level
    if bitmap.getLsbD s then getAt? hash key cs (rank bitmap s) (level + 1)
    else none

def getAt? [BEq K] (hash : UInt32) (key : K) :
    List (Node K V) → (index level : Nat) → Option V
  | [], _, _ => none
  | c :: _, 0, level => get? hash key c level
  | _ :: cs, index + 1, level => getAt? hash key cs index level

end

mutual

def erase [BEq K] (hash : UInt32) (key : K) :
    Node K V → (level : Nat) → Removal K V
  | .leaf h k _, _ => if h == hash && k == key then .emptied else .absent
  | .collision h es, _ =>
    if h == hash && AssocList.contains (· == ·) key es then
      match AssocList.erase (· == ·) key es with
      | [] => .emptied
      | [(k, v)] => .left (.leaf hash k v)
      | rest => .left (.collision hash rest)
    else .absent
  | .branch bitmap cs, level =>
    let s := slot hash level
    if bitmap.getLsbD s then
      match eraseAt hash key cs (rank bitmap s) (level + 1) with
      | (.absent, _) => .absent
      | (.emptied, []) => .emptied
      | (.emptied, rest) => .left (.branch (bitmap &&& ~~~ .twoPow 32 s) rest)
      | (.left _, rest) => .left (.branch bitmap rest)
    else .absent

/-- What is left of the child at an index, and the children after the
removal. -/
def eraseAt [BEq K] (hash : UInt32) (key : K) :
    List (Node K V) → (index level : Nat) → Removal K V × List (Node K V)
  | [], _, _ => (.absent, [])
  | c :: cs, 0, level =>
    match erase hash key c level with
    | .absent => (.absent, c :: cs)
    | .emptied => (.emptied, cs)
    | .left c' => (.left c', c' :: cs)
  | c :: cs, index + 1, level =>
    let r := eraseAt hash key cs index level
    (r.1, c :: r.2)

end

mutual

/-- The entries in the order of the walk. -/
def entries : Node K V → List (K × V)
  | .leaf _ k v => [(k, v)]
  | .collision _ es => es
  | .branch _ cs => entriesAll cs

/-- The entries of several nodes, one after the other. -/
def entriesAll : List (Node K V) → List (K × V)
  | [] => []
  | c :: cs => entries c ++ entriesAll cs

end

mutual

/-- How many nodes stand on the longest way down. -/
def height : Node K V → Nat
  | .leaf _ _ _ => 1
  | .collision _ _ => 1
  | .branch _ cs => heightAll cs + 1

/-- The height of the tallest of several nodes. -/
def heightAll : List (Node K V) → Nat
  | [] => 0
  | c :: cs => max (height c) (heightAll cs)

end

mutual

/-- Whether the way of `hash` ends at a collision with that hash. -/
def collides (hash : UInt32) : Node K V → (level : Nat) → Bool
  | .leaf _ _ _, _ => false
  | .collision h _, _ => h == hash
  | .branch bitmap cs, level =>
    let s := slot hash level
    bitmap.getLsbD s && collidesAt hash cs (rank bitmap s) (level + 1)

/-- Whether the way of `hash` through the child at an index ends at a
collision. -/
def collidesAt (hash : UInt32) : List (Node K V) → (index level : Nat) → Bool
  | [], _, _ => false
  | c :: _, 0, level => collides hash c level
  | _ :: cs, index + 1, level => collidesAt hash cs index level

end

end Node

end HashTrie

/-- A map from `K` to `V`: its trie, if it has an entry, and how many
entries it has. -/
structure HashTrie (K V : Type) where
  root : Option (HashTrie.Node K V)
  size : Nat

namespace HashTrie

variable {K V : Type}

def empty : HashTrie K V := ⟨none, 0⟩

instance : EmptyCollection (HashTrie K V) := ⟨empty⟩

instance : Inhabited (HashTrie K V) := ⟨empty⟩

def isEmpty (m : HashTrie K V) : Bool := m.size == 0

/-- The entries in the order of the walk. -/
def entries (m : HashTrie K V) : List (K × V) :=
  match m.root with
  | none => []
  | some node => node.entries

def keys (m : HashTrie K V) : List K := m.entries.map (·.1)

def values (m : HashTrie K V) : List V := m.entries.map (·.2)

/-- How many nodes stand on the longest way down. -/
def depth (m : HashTrie K V) : Nat :=
  match m.root with
  | none => 0
  | some node => node.height

variable [BEq K] [TrieHash K]

/-- The map with the value of `key` set. -/
def insert (m : HashTrie K V) (key : K) (value : V) : HashTrie K V :=
  let hash := trieHash key
  match m.root with
  | none => ⟨some (.leaf hash key value), 1⟩
  | some node =>
    let r := node.insert hash key value 0
    ⟨some r.1, if r.2 then m.size + 1 else m.size⟩

/-- The map without `key`, or nothing if it has no such entry. -/
def erase? (m : HashTrie K V) (key : K) : Option (HashTrie K V) :=
  match m.root with
  | none => none
  | some node =>
    match node.erase (trieHash key) key 0 with
    | .absent => none
    | .emptied => some empty
    | .left rest => some ⟨some rest, m.size - 1⟩

def erase (m : HashTrie K V) (key : K) : HashTrie K V :=
  (m.erase? key).getD m

def get? (m : HashTrie K V) (key : K) : Option V :=
  match m.root with
  | none => none
  | some node => node.get? (trieHash key) key 0

def contains (m : HashTrie K V) (key : K) : Bool :=
  (m.get? key).isSome

/-- The map with the given entries, the later of two for one key winning. -/
def ofList (es : List (K × V)) : HashTrie K V :=
  es.foldl (fun m e => m.insert e.1 e.2) empty

/-- Whether the entry for `key` stands among others whose keys have
the same hash. -/
def isCollision (m : HashTrie K V) (key : K) : Bool :=
  match m.root with
  | none => false
  | some node => node.collides (trieHash key) 0

/-- Two maps are equal if they have equally many entries and each value of the
first is, under its key, a value of the second. -/
def beq [BEq V] (m n : HashTrie K V) : Bool :=
  m.size == n.size && m.entries.all fun e => n.get? e.1 == some e.2

instance [BEq V] : BEq (HashTrie K V) := ⟨beq⟩

end HashTrie

end TinyLisp
