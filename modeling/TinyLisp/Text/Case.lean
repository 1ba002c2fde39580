import TinyLisp.Text.Blank
import TinyLisp.Text.CaseTable

/-!
# Upper and lower case

The full Unicode mappings: one character may become several, as the sharp s
does. Lower case has one rule that looks around: a capital sigma at the end of a
word becomes the final sigma. It stands at the end of a word if, skipping
characters that case ignores, a letter with case comes before it and none comes
after it.
-/

namespace TinyLisp.Text

/-- The image of a character under a table of runs and a table of special
cases. -/
def mapCase (special : List (Nat × List Nat)) (runs : List CaseRun) (c : Char) :
    List Char :=
  match special.find? (·.1 == c.toNat) with
  | some (_, image) => image.map Char.ofNat
  | none =>
    match runs.findSome? (·.apply c.toNat) with
    | some n => [Char.ofNat n]
    | none => [c]

/-- Whether the first character that is not ignored has case. -/
def meetsCased (cs : List Char) : Bool :=
  match cs.dropWhile fun c => inRanges ignorableRanges c.toNat with
  | [] => false
  | c :: _ => inRanges casedRanges c.toNat

/-- Lower case of `cs`, when `before` are the characters in front of
them, nearest first. -/
def lowerAfter (before : List Char) : List Char → List Char
  | [] => []
  | c :: cs =>
    let image :=
      if c = 'Σ' then [if meetsCased before && !meetsCased cs then 'ς' else 'σ']
      else mapCase lowerSpecial lowerRuns c
    image ++ lowerAfter (c :: before) cs

def toUpper (s : String) : String :=
  String.ofList (s.toList.flatMap (mapCase upperSpecial upperRuns))

def toLower (s : String) : String :=
  String.ofList (lowerAfter [] s.toList)

end TinyLisp.Text
