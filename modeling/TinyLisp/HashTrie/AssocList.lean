/-!
# Association lists

A finite map as a list of entries. Two keys are the same if `same` says so; it
is asked with the stored key first. A new key goes to the end, a key that is
already there keeps its place but is replaced together with its value.

This is the plain picture of a map. The hash trie keeps its colliding entries
this way, and it is measured against it.
-/

namespace TinyLisp.AssocList

variable {K V : Type} (same : K → K → Bool)

/-- The value of the first entry for `k`. -/
def find? (k : K) : List (K × V) → Option V
  | [] => none
  | e :: es => if same e.1 k then some e.2 else find? k es

def contains (k : K) (es : List (K × V)) : Bool :=
  es.any fun e => same e.1 k

def insert (k : K) (v : V) : List (K × V) → List (K × V)
  | [] => [(k, v)]
  | e :: es => if same e.1 k then (k, v) :: es else e :: insert k v es

def erase (k : K) : List (K × V) → List (K × V)
  | [] => []
  | e :: es => if same e.1 k then es else e :: erase k es

/-- The map with the given entries, the later of two for one key winning. -/
def ofPairs (ps : List (K × V)) : List (K × V) :=
  ps.foldl (fun es p => insert same p.1 p.2 es) []

theorem contains_eq_isSome_find? (k : K) (es : List (K × V)) :
    contains same k es = (find? same k es).isSome := by
  induction es with
  | nil => rfl
  | cons e es ih =>
      rw [find?]
      split
      · simp_all [contains]
      · simp_all [contains]

theorem length_insert (k : K) (v : V) (es : List (K × V)) :
    (insert same k v es).length = if contains same k es then es.length
    else es.length + 1 := by
  induction es with
  | nil => rfl
  | cons e es ih =>
      have hc : contains same k (e :: es) =
          (same e.1 k || contains same k es) := rfl
      rw [insert, hc]
      cases same e.1 k
      · rw [if_neg (by simp), List.length_cons, ih, Bool.false_or,
          List.length_cons]
        split <;> rfl
      · rfl

end TinyLisp.AssocList
