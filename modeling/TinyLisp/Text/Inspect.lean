import TinyLisp.Text.Blank
import TinyLisp.Text.HiddenTable

/-!
# Text for inspection

A text in quotes in which everything can be seen. The quote, the backslash and
four control characters are escaped by a letter or digit; every other character
that has no shape of its own is written by its code. This is for people who look
into a program; programs are written in the quotes of `Text.Quoted`, and no rule
of the language makes use of this.
-/

namespace TinyLisp.Text

/-- Whether a character has no shape of its own. -/
def isHidden (c : Char) : Bool :=
  inRanges hiddenRanges c.toNat

/-- A character by its code, in hexadecimal digits. -/
def codeText (c : Char) : String :=
  "\\u\x7b" ++ String.ofList (Nat.toDigits 16 c.toNat) ++ "\x7d"

/-- A character as it stands in an inspected text. -/
def inspectChar (c : Char) : String :=
  if c = '\x00' then "\\0"
  else if c = '\t' then "\\t"
  else if c = '\r' then "\\r"
  else if c = '\n' then "\\n"
  else if c = '"' then "\\\""
  else if c = '\\' then "\\\\"
  else if isHidden c then codeText c
  else String.singleton c

/-- A text in quotes in which everything can be seen. -/
def inspect (s : String) : String :=
  "\"" ++ String.join (s.toList.map inspectChar) ++ "\""

end TinyLisp.Text
