/-!
# Sixteen-bit units

A character is one sixteen-bit unit if its code is below `2 ^ 16`, and a pair
of surrogate units otherwise. Text is hashed over these units.
-/

namespace TinyLisp.Text

/-- The sixteen-bit units of one character, as numbers below `2 ^ 16`. -/
def units (c : Char) : List UInt32 :=
  if c.val < 0x10000 then [c.val]
  else
    let offset : UInt32 := c.val - 0x10000
    [offset / 0x400 + 0xD800, offset % 0x400 + 0xDC00]

/-- The polynomial hash of a text: each unit is added to 31 times the
hash so far. -/
def hash (s : String) : UInt32 :=
  (s.toList.flatMap units).foldl (fun h u => h * 31 + u) 0

end TinyLisp.Text
