import TinyLisp.HashTrie.Basic

/-!
# Walking a map step by step

A cursor is a walk through a trie that has got somewhere. It keeps the nodes it
has still to visit as a stack, and next to it what is left of a collision it is
in the middle of. Coming to a branch, it puts the children on the stack, the one
in the lowest slot on top.
-/

namespace TinyLisp.HashTrie

/-- A walk that has got somewhere. -/
structure Cursor (K V : Type) where
  /-- What is left of the collision that the walk is in. -/
  pending : List (K × V)
  /-- The nodes still to be visited, the next one first. -/
  nodes : List (Node K V)

namespace Cursor

variable {K V : Type}

theorem sizeOf_append (xs ys : List (Node K V)) :
    sizeOf (xs ++ ys) + 1 = sizeOf xs + sizeOf ys := by
  induction xs with
  | nil => rw [List.nil_append, List.nil.sizeOf_spec, Nat.add_comm]
  | cons x xs ih =>
      rw [List.cons_append, List.cons.sizeOf_spec, List.cons.sizeOf_spec]
      omega

/-- The next entry and the walk behind it, or nothing at the end. -/
def next? : Cursor K V → Option ((K × V) × Cursor K V)
  | ⟨e :: es, nodes⟩ => some (e, ⟨es, nodes⟩)
  | ⟨[], []⟩ => none
  | ⟨[], .leaf _ k v :: nodes⟩ => some ((k, v), ⟨[], nodes⟩)
  | ⟨[], .collision _ es :: nodes⟩ => next? ⟨es, nodes⟩
  | ⟨[], .branch _ cs :: nodes⟩ => next? ⟨[], cs ++ nodes⟩
termination_by c => sizeOf c.nodes
decreasing_by
  · simp only [List.cons.sizeOf_spec]
    omega
  · have := sizeOf_append cs nodes
    simp only [List.cons.sizeOf_spec, Node.branch.sizeOf_spec]
    omega

/-- The walk gives these entries one after the other and then ends. -/
inductive Yields : Cursor K V → List (K × V) → Prop where
  | stop {c : Cursor K V} : c.next? = none → Yields c []
  | step {c c' : Cursor K V} {e : K × V} {es : List (K × V)} :
      c.next? = some (e, c') → Yields c' es → Yields c (e :: es)

end Cursor

/-- The walk from the start. -/
def cursor {K V : Type} (m : HashTrie K V) : Cursor K V :=
  ⟨[], m.root.toList⟩

end TinyLisp.HashTrie
