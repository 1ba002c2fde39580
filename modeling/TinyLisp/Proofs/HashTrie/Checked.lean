import TinyLisp.Proofs.HashTrie.Refinement

/-!
# Operations that check every step

Going down a trie, nothing is checked: not that there is a child at an index,
not that the hash has digits left, not that two nodes that are to be forked part
at all. Here are the operations once more with all of that checked. They give
nothing as soon as

* a hash is shifted by more than 30 bits,
* a child or an entry is taken, replaced, added or removed at an index that the
  list does not have,
* two nodes are forked whose hashes agree in all bits that are left, or
* the size of a map without entries is to go down by one.

On a map that keeps its invariant no check fails: each of these operations gives
what the unchecked one gives. The inductions are those of the unchecked
operations, so a check is met with the same facts about the way at hand.
-/

namespace TinyLisp

/-! ## Positions in association lists -/

namespace AssocList

variable {K V : Type} {same : K → K → Bool}

/-- Where the first entry for `k` stands. -/
def position? (same : K → K → Bool) (k : K) (es : List (K × V)) : Option Nat :=
  es.findIdx? fun e => same e.1 k

theorem contains_eq_false_of_position? {k : K} {es : List (K × V)}
    (h : position? same k es = none) : contains same k es = false := by
  rw [contains_eq_false_iff]
  simpa [position?] using h

theorem of_position? {k : K} {es : List (K × V)} {i : Nat}
    (h : position? same k es = some i) :
    i < es.length ∧ contains same k es = true ∧
      (∀ v, insert same k v es = es.set i (k, v)) ∧
      erase same k es = es.eraseIdx i := by
  induction es generalizing i with
  | nil => simp [position?] at h
  | cons e es ih =>
      rw [position?, List.findIdx?_cons] at h
      by_cases hs : same e.1 k = true
      · rw [if_pos hs] at h
        obtain rfl := Option.some.inj h
        simp [contains_cons, insert, erase, hs]
      · rw [if_neg hs] at h
        obtain ⟨j, hj, rfl⟩ := Option.map_eq_some_iff.mp h
        obtain ⟨hlt, hcontains, hinsert, herase⟩ := ih hj
        simp [contains_cons, insert, erase, hs, hlt, hcontains, hinsert, herase]

end AssocList

namespace HashTrie.Checked

variable {K V α : Type}

/-! ## The checks -/

/-- The digit that is lowest after a shift. -/
def digit (hash : UInt32) (shift : Nat) : Option Nat :=
  if shift ≤ 30 then some (hash.toNat >>> shift % 32) else none

def replaceAt (xs : List α) (i : Nat) (x : α) : Option (List α) :=
  if i < xs.length then some (xs.set i x) else none

def addAt (xs : List α) (i : Nat) (x : α) : Option (List α) :=
  if i ≤ xs.length then some (xs.insertIdx i x) else none

def removeAt (xs : List α) (i : Nat) : Option (List α) :=
  if i < xs.length then some (xs.eraseIdx i) else none

/-- Of two items the one that does not stand at `i`. -/
def otherOf (xs : List α) (i : Nat) : Option α :=
  if i ≤ 1 then xs[1 - i]? else none

/-- A number made smaller by one. -/
def pred (n : Nat) : Option Nat :=
  if 0 < n then some (n - 1) else none

/-! ## Nodes -/

def fork (a : Node K V) (hashA : UInt32) (b : Node K V) (hashB : UInt32)
    (shift : Nat) : Option (Node K V) :=
  if _hpart : hashA.toNat >>> shift = hashB.toNat >>> shift then none
  else do
    let slotA ← digit hashA shift
    let slotB ← digit hashB shift
    if slotA = slotB then
      let child ← fork a hashA b hashB (shift + 5)
      return .branch (.twoPow 32 slotA) [child]
    else
      return .branch (.twoPow 32 slotA ||| .twoPow 32 slotB)
        (if slotA < slotB then [a, b] else [b, a])
termination_by 32 - shift
decreasing_by
  -- Nothing is left of a hash of 32 bits after a shift by as many.
  have hlt : shift < 32 := by
    refine Nat.lt_of_not_le fun hle => _hpart ?_
    have := hashA.toNat_lt
    have := hashB.toNat_lt
    have hpow := Nat.pow_le_pow_right (n := 2) (by omega) hle
    rw [Nat.shiftRight_eq_zero _ _ (by omega),
      Nat.shiftRight_eq_zero _ _ (by omega)]
  omega

mutual

def insertNode [BEq K] (hash : UInt32) (key : K) (value : V) :
    Node K V → (shift : Nat) → Option (Node K V × Bool)
  | .leaf h k v, shift =>
    if h ≠ hash then do
      let node ← fork (.leaf h k v) h (.leaf hash key value) hash shift
      return (node, true)
    else if k == key then return (.leaf hash key value, false)
    else return (.collision hash [(k, v), (key, value)], true)
  | .collision h es, shift =>
    if h ≠ hash then do
      let node ← fork (.collision h es) h (.leaf hash key value) hash shift
      return (node, true)
    else
      match AssocList.position? (· == ·) key es with
      | some i => do
        let es ← replaceAt es i (key, value)
        return (.collision hash es, false)
      | none => return (.collision hash (es ++ [(key, value)]), true)
  | .branch bitmap cs, shift => do
    let s ← digit hash shift
    if bitmap.getLsbD s then
      let r ← insertNodeAt hash key value cs (rank bitmap s) (shift + 5)
      return (.branch bitmap r.1, r.2)
    else
      let cs ← addAt cs (rank bitmap s) (.leaf hash key value)
      return (.branch (bitmap ||| .twoPow 32 s) cs, true)

def insertNodeAt [BEq K] (hash : UInt32) (key : K) (value : V) :
    List (Node K V) → (index shift : Nat) → Option (List (Node K V) × Bool)
  | [], _, _ => none
  | c :: cs, 0, shift => do
    let r ← insertNode hash key value c shift
    return (r.1 :: cs, r.2)
  | c :: cs, index + 1, shift => do
    let r ← insertNodeAt hash key value cs index shift
    return (c :: r.1, r.2)

end

mutual

def eraseNode [BEq K] (hash : UInt32) (key : K) :
    Node K V → (shift : Nat) → Option (Removal K V)
  | .leaf h k _, _ => return if h == hash && k == key then .emptied else .absent
  | .collision h es, _ =>
    if h ≠ hash then return .absent
    else
      match AssocList.position? (· == ·) key es with
      | none => return .absent
      | some i =>
        if es.length = 2 then do
          let e ← otherOf es i
          return .left (.leaf hash e.1 e.2)
        else do
          let es ← removeAt es i
          return .left (.collision hash es)
  | .branch bitmap cs, shift => do
    let s ← digit hash shift
    if bitmap.getLsbD s then
      match ← eraseNodeAt hash key cs (rank bitmap s) (shift + 5) with
      | (.absent, _) => return .absent
      | (.emptied, []) => return .emptied
      | (.emptied, rest) =>
        return .left (.branch (bitmap &&& ~~~ .twoPow 32 s) rest)
      | (.left _, rest) => return .left (.branch bitmap rest)
    else return .absent

def eraseNodeAt [BEq K] (hash : UInt32) (key : K) :
    List (Node K V) → (index shift : Nat) →
      Option (Removal K V × List (Node K V))
  | [], _, _ => none
  | c :: cs, 0, shift => do
    match ← eraseNode hash key c shift with
    | .absent => return (.absent, c :: cs)
    | .emptied => return (.emptied, cs)
    | .left c' => return (.left c', c' :: cs)
  | c :: cs, index + 1, shift => do
    let r ← eraseNodeAt hash key cs index shift
    return (r.1, c :: r.2)

end

mutual

/-- The leaf or collision that the way of a hash leads to, if it does not
end at an unused slot. Looking a key up and asking whether it collides both
go this way. -/
def reach (hash : UInt32) :
    Node K V → (shift : Nat) → Option (Option (Node K V))
  | .leaf h k v, _ => return some (.leaf h k v)
  | .collision h es, _ => return some (.collision h es)
  | .branch bitmap cs, shift => do
    let s ← digit hash shift
    if bitmap.getLsbD s then reachAt hash cs (rank bitmap s) (shift + 5)
    else return none

def reachAt (hash : UInt32) :
    List (Node K V) → (index shift : Nat) → Option (Option (Node K V))
  | [], _, _ => none
  | c :: _, 0, shift => reach hash c shift
  | _ :: cs, index + 1, shift => reachAt hash cs index shift

end

/-- The value of a key where the way of its hash has led. -/
def found [BEq K] [TrieHash K] (key : K) : Option (Node K V) → Option V
  | some (.leaf h k v) => if h == trieHash key && k == key then some v else none
  | some (.collision h es) =>
    if h == trieHash key then AssocList.find? (· == ·) key es else none
  | _ => none

/-- Whether the way of a hash has led to a collision with that hash. -/
def collides (hash : UInt32) : Option (Node K V) → Bool
  | some (.collision h _) => h == hash
  | _ => false

/-! ## Maps -/

section Maps

variable [BEq K] [TrieHash K]

def insert (m : HashTrie K V) (key : K) (value : V) : Option (HashTrie K V) :=
  match m.root with
  | none => return ⟨some (.leaf (trieHash key) key value), 1⟩
  | some node => do
    let r ← insertNode (trieHash key) key value node 0
    return ⟨some r.1, if r.2 then m.size + 1 else m.size⟩

def erase (m : HashTrie K V) (key : K) : Option (HashTrie K V) :=
  match m.root with
  | none => return m
  | some node => do
    match ← eraseNode (trieHash key) key node 0 with
    | .absent => return m
    | .emptied => return empty
    | .left rest => return ⟨some rest, ← pred m.size⟩

def get? (m : HashTrie K V) (key : K) : Option (Option V) :=
  match m.root with
  | none => return none
  | some node => return found key (← reach (trieHash key) node 0)

def isCollision (m : HashTrie K V) (key : K) : Option Bool :=
  match m.root with
  | none => return false
  | some node => return collides (trieHash key) (← reach (trieHash key) node 0)

def ofList (es : List (K × V)) : Option (HashTrie K V) :=
  es.foldlM (fun m e => insert m e.1 e.2) empty

end Maps

end HashTrie.Checked

end TinyLisp
