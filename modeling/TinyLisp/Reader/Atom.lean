import TinyLisp.Number.Text
import TinyLisp.Value.Basic

/-!
# What an atom is

An atom is a keyword if a colon with something behind it leads it, else a number
if it is written like one, else `true`, `false` or `nil`, and else a symbol.
Since a number starts with a digit or a point, `inf` and `nan` are symbols; so
is a number that is too large to be finite.
-/

namespace TinyLisp.Reader

/-- Whether `cs` starts like a number: a digit or a point behind at
most one sign. -/
def startsLikeNumber (cs : List Char) : Bool :=
  match (Number.splitSign cs).2 with
  | [] => false
  | c :: _ => c.isDigit || c == '.'

/-- The finite number that an atom is, if it is one. -/
def atomNumber? (text : String) : Option Float :=
  if startsLikeNumber text.toList then (Number.readDecimal text.toList).filter
    Float.isFinite
  else none

/-- The form that an atom stands for. Only a symbol takes the span. -/
def classify (text : String) (span : Span) : Value :=
  match Value.afterLead? ":" text with
  | some name => .keyword name
  | none =>
    match atomNumber? text with
    | some x => .number x
    | none =>
      if text = "true" then .bool true
      else if text = "false" then .bool false
      else if text = "nil" then .nil
      else .symbol text (some span)

end TinyLisp.Reader
