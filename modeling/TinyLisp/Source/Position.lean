/-!
# Positions in a source text

A position says where a character stands: its line and column, both counted
from one, and its index, counted from zero. All three count characters, and
only a line feed starts a new line. A span names a source and two positions in
it; it covers the characters from the first position up to, not including, the
second.

Positions are never stored along the way. They are computed from the
characters read so far by `Position.after`, so a position is exact because it
is made from the text it stands behind.
-/

namespace TinyLisp

/-- A point between two characters of a source text. -/
structure Position where
  line : Nat
  col : Nat
  index : Nat
deriving DecidableEq, Repr, Inhabited

namespace Position

/-- The start of every source text. -/
def origin : Position := ⟨1, 1, 0⟩

/-- The position behind `c`, when `c` stands at `p`. -/
def advance (p : Position) (c : Char) : Position :=
  if c = '\n' then ⟨p.line + 1, 1, p.index + 1⟩
  else ⟨p.line, p.col + 1, p.index + 1⟩

/-- The position behind all of `cs`, when they start at `p`. -/
def after (p : Position) (cs : List Char) : Position :=
  cs.foldl advance p

@[simp]
theorem after_nil (p : Position) : p.after [] = p := rfl

@[simp]
theorem after_cons (p : Position) (c : Char) (cs : List Char) :
    p.after (c :: cs) = (p.advance c).after cs := rfl

theorem after_append (p : Position) (cs ds : List Char) :
    p.after (cs ++ ds) = (p.after cs).after ds :=
  List.foldl_append

theorem advance_index (p : Position) (c : Char) :
    (p.advance c).index = p.index + 1 := by
  unfold advance
  split <;> rfl

/-- Each character moves the index by one, whatever the character is. -/
theorem after_index (p : Position) (cs : List Char) :
    (p.after cs).index = p.index + cs.length := by
  induction cs generalizing p with
  | nil => rfl
  | cons c cs ih =>
      rw [after_cons, ih, advance_index, List.length_cons]
      omega

end Position

/-- The part of the source called `file` from `start` up to `stop`. -/
structure Span where
  file : String
  start : Position
  stop : Position
deriving DecidableEq, Repr, Inhabited

namespace Span

/-- The span from the start of `a` to the end of `b`, in the source of `a`. -/
def through (a b : Span) : Span := ⟨a.file, a.start, b.stop⟩

def line (s : Span) : Nat := s.start.line

def col (s : Span) : Nat := s.start.col

/-- A span is shown by its source and the place where it starts. -/
def text (s : Span) : String :=
  s.file ++ ":" ++ Nat.repr s.line ++ ":" ++ Nat.repr s.col

end Span

end TinyLisp
