/-!
# White space

White space is the Unicode property of that name: twenty-five characters. Lean's
own `Char.isWhitespace` knows four of them.
-/

namespace TinyLisp.Text

/-- The ranges of the Unicode property `White_Space`, both ends included. -/
def whiteRanges : List (Nat × Nat) :=
  [(0x9, 0xD), (0x20, 0x20), (0x85, 0x85), (0xA0, 0xA0), (0x1680, 0x1680),
    (0x2000, 0x200A),
   (0x2028, 0x2029), (0x202F, 0x202F), (0x205F, 0x205F), (0x3000, 0x3000)]

/-- Whether `n` lies in one of the ranges. -/
def inRanges (ranges : List (Nat × Nat)) (n : Nat) : Bool :=
  ranges.any fun r => r.1 ≤ n && n ≤ r.2

/-- Whether `c` has the Unicode property `White_Space`. -/
def isWhite (c : Char) : Bool :=
  inRanges whiteRanges c.toNat

/-- The text without white space at either end. -/
def trim (s : String) : String :=
  String.ofList ((s.toList.dropWhile isWhite).reverse.dropWhile isWhite).reverse

/-- Whether `part` occurs somewhere in `cs`. -/
def occursIn (part : List Char) : List Char → Bool
  | [] => part.isEmpty
  | c :: cs => part.isPrefixOf (c :: cs) || occursIn part cs

example : ([' ', '\t', '\r', '\n'].all isWhite) = true := by decide

example : ((whiteRanges.map fun r => r.2 + 1 - r.1).sum) = 25 := by decide

end TinyLisp.Text
