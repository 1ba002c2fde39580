/-!
# The items of a vector

A vector grows at its end, and the vectors it grew from stay in use. So its
items are kept in two lists: those it started with, and behind them, the last
one first, those that were added. Adding an item then takes one step and shares
all the others.

How items are divided between the two lists is not to be seen: whatever is asked
of a vector is asked of `toList`.
-/

namespace TinyLisp

/-- The items of a vector: those at the front, then those added, which
stand in reverse. -/
structure Items (α : Type) where
  front : List α
  added : List α
deriving Repr

namespace Items

variable {α : Type}

/-- The items in order. -/
def toList (xs : Items α) : List α :=
  match xs.added with
  | [] => xs.front
  | added => xs.front ++ added.reverse

def ofList (xs : List α) : Items α := ⟨xs, []⟩

/-- One more item at the end. -/
def push (xs : Items α) (x : α) : Items α := ⟨xs.front, x :: xs.added⟩

/-- Several more items at the end. -/
def append (xs : Items α) (ys : List α) : Items α := ys.foldl push xs

def size (xs : Items α) : Nat := xs.front.length + xs.added.length

def get? (xs : Items α) (i : Nat) : Option α :=
  if i < xs.front.length then xs.front[i]?
  else if i < xs.size then xs.added[xs.size - 1 - i]?
  else none

theorem toList_eq (xs : Items α) :
    xs.toList = xs.front ++ xs.added.reverse := by
  unfold toList
  split
  · next h => simp [h]
  · rfl

@[simp]
theorem toList_ofList (xs : List α) : (ofList xs).toList = xs := rfl

@[simp]
theorem toList_push (xs : Items α) (x : α) :
    (xs.push x).toList = xs.toList ++ [x] := by
  simp [toList_eq, push]

@[simp]
theorem toList_append (xs : Items α) (ys : List α) :
    (xs.append ys).toList = xs.toList ++ ys := by
  induction ys generalizing xs with
  | nil => simp [append]
  | cons y ys ih =>
      have h : xs.append (y :: ys) = (xs.push y).append ys := rfl
      rw [h, ih, toList_push, List.append_assoc, List.singleton_append]

@[simp]
theorem length_toList (xs : Items α) : xs.toList.length = xs.size := by
  simp [toList_eq, size]

@[simp]
theorem getElem?_toList (xs : Items α) (i : Nat) :
    xs.toList[i]? = xs.get? i := by
  rw [toList_eq, get?, List.getElem?_append]
  split
  · rfl
  · split
    · have h : i - xs.front.length < xs.added.length := by
        simp only [size] at *; omega
      rw [List.getElem?_reverse h]
      congr 1
      simp only [size]
      omega
    · have h : xs.added.reverse.length ≤ i - xs.front.length := by
        simp only [size, List.length_reverse] at *
        omega
      rw [List.getElem?_eq_none h]

end Items

end TinyLisp
