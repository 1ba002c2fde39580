import TinyLisp.Number.Text
import TinyLisp.Text.Quoted
import TinyLisp.Value.Depth

/-!
# Values as text

The readable text of literal data can be read back. The display text differs
only in that strings stand without their quotes. Functions, atoms and host
objects have no literal form and are shown between `#<` and `>`.

The text of an atom shows what its cell holds, so the text of a value depends on
the cells. An atom may hold atoms; the text follows them as often as there are
cells, which is enough unless an atom contains itself.
-/

namespace TinyLisp.Value

def spaced (parts : List String) : String :=
  " ".intercalate parts

def bracketed (opener body closer : String) : String :=
  opener ++ body ++ closer

/-- The key and value texts of a map, one after the other. -/
def alternating (text : Value → String) (es : List (Value × Value)) :
    List String :=
  es.flatMap fun e => [text e.1, text e.2]

/-- The text of a value down to a depth. `cellText` gives the text of what
a cell holds. -/
def renderWithin (cellText : Bool → CellId → String) :
    (depth : Nat) → (readable : Bool) → Value → String
  | 0, _, _ => ""
  | n + 1, readable, v =>
    let part := renderWithin cellText n readable
    match v with
    | nil => "nil"
    | bool b => if b then "true" else "false"
    | number x => Number.text x
    | string s => if readable then Text.Quoted.encode s else s
    | symbol name _ => name
    | keyword name => ":" ++ name
    | list xs _ => bracketed "(" (spaced (xs.map part)) ")"
    | vector xs _ => bracketed "[" (spaced (xs.toList.map part)) "]"
    | map m _ => bracketed "\x7b" (spaced (alternating part m.entries)) "\x7d"
    | mapForm ps _ => bracketed "\x7b" (spaced (alternating part ps)) "\x7d"
    | atom cell => bracketed "#<atom " (cellText readable cell) ">"
    | closure .function _ params _ _ _ =>
      bracketed "#<fn " (renderWithin cellText n true params) ">"
    | closure .expander _ params _ _ _ =>
      bracketed "#<macro " (renderWithin cellText n true params) ">"
    | native name _ _ => bracketed "#<native " name ">"
    | host typeName _ _ => bracketed "#<host " typeName ">"

/-- The text of a value, following atoms a number of times. -/
def renderFollowing (cells : Array Value) :
    (follow : Nat) → (readable : Bool) → Value → String
  | 0, readable, v => renderWithin (fun _ _ => "") v.depth readable v
  | n + 1, readable, v =>
    let cellText := fun readable cell =>
      match cells[cell]? with
      | some held => renderFollowing cells n readable held
      | none => ""
    renderWithin cellText v.depth readable v

/-- The text of a value, given what the cells hold. -/
def render (cells : Array Value) (readable : Bool) (v : Value) : String :=
  renderFollowing cells cells.size readable v

end TinyLisp.Value
