import TinyLisp.Failure
import TinyLisp.Value.Data

/-!
# Binding patterns

A pattern says how a value is taken apart into variables. A symbol binds the
whole value. A vector binds by position: `[a b]`, with `& rest` for the items
that are left and `:as all` for the value itself. A map binds by key: `{x :k}`
binds `x` to the value of `:k`, and its keys `:keys`, `:strs`, `:syms`, `:as`
and `:or` have a meaning of their own.

This module says which patterns there are and what is wrong with the others.
-/

namespace TinyLisp.Pattern

/-- The shape of a pattern. A map literal is a pattern as the map
it stands for. -/
inductive Shape where
  | name (n : String)
  | sequence (patterns : List Value)
  | associative (entries : ValueMap)
  /-- No pattern: a value of this type. -/
  | other (typeName : String)

/-- The shape of a form that stands where a pattern should. -/
def shape : Value → Shape
  | .symbol name _ => .name name
  | .vector patterns _ => .sequence patterns.toList
  | .map entries _ => .associative entries
  | .mapForm pairs _ => .associative (HashTrie.ofList (Value.toDataPairs pairs))
  | v => .other v.typeName

/-- Where the variables listed under a key of a map pattern are looked up. -/
inductive Naming where
  | keywords
  | strings
  | symbols
deriving DecidableEq, Repr

namespace Naming

/-- The key that lists variables of this kind. -/
def keyName : Naming → String
  | keywords => "keys"
  | strings => "strs"
  | symbols => "syms"

/-- The key in the value that a variable takes its value from. -/
def source : Naming → String → Value
  | keywords, name => .keyword name
  | strings, name => .string name
  | symbols, name => .symbol name none

end Naming

/-- What an entry of a map pattern does, by its key. -/
inductive Role where
  | names (n : Naming)
  /-- Binds the whole value. -/
  | whole
  /-- Holds the defaults. -/
  | defaults
  /-- Binds a pattern to the value of a key. -/
  | target (pattern : Value)

def role : Value → Role
  | .keyword "keys" => .names .keywords
  | .keyword "strs" => .names .strings
  | .keyword "syms" => .names .symbols
  | .keyword "as" => .whole
  | .keyword "or" => .defaults
  | pattern => .target pattern

def malformed (detail : String) : Fault :=
  .malformed "destructure" detail

/-- Something that is no pattern at all. -/
def notAPattern (typeName : String) : Fault :=
  malformed ("binding pattern must be a symbol, vector or map, got " ++ typeName)

/-- Nothing follows `&`. -/
def missingRest : Fault :=
  malformed "& must be followed by a binding pattern"

/-- Something other than `:as` follows the rest pattern. -/
def trailing : Fault :=
  malformed "only :as may follow the rest binding"

/-- No symbol stands at `:as`. -/
def badWhole : Fault :=
  malformed ":as must be followed by a symbol"

/-- No map stands at `:or`. -/
def badDefaults : Fault :=
  malformed ":or must be a map"

/-- No vector of symbols stands under a key that lists variables. -/
def badNames (n : Naming) : Fault :=
  malformed (":" ++ n.keyName ++ " must be a vector of symbols")

/-- Whether `tail` may follow a rest pattern: nothing, or `:as` and a symbol. -/
def endsAfterRest : List Value → Bool
  | [] => true
  | [marker, .symbol _ _] => marker.isKeyword "as"
  | _ => false

def names? : Value → Option (List String)
  | .vector names _ => names.toList.mapM Value.symbolName?
  | _ => none

/-! ## Checking -/

/-- Check the items of a vector pattern. `check` checks the
patterns among them. -/
def checkItems (check : Value → Except Fault Unit) :
    List Value → Except Fault Unit
  | [] => .ok ()
  | p :: ps =>
    if p.isKeyword "as" then
      match ps with
      | .symbol _ _ :: ps => checkItems check ps
      | _ => .error badWhole
    else if p.isSymbol "&" then
      match ps with
      | [] => .error missingRest
      | rest :: tail =>
        if endsAfterRest tail then do
          check rest
          checkItems check tail
        else .error trailing
    else do
      check p
      checkItems check ps

def checkEntry (check : Value → Except Fault Unit) (entry : Value × Value) :
    Except Fault Unit :=
  match role entry.1 with
  | .names n => if (names? entry.2).isSome then .ok () else .error (badNames n)
  | .whole => if entry.2.symbolName?.isSome then .ok () else .error badWhole
  | .defaults =>
    match entry.2 with
    | .map _ _ => .ok ()
    | _ => .error badDefaults
  | .target pattern => check pattern

def validateWithin : (depth : Nat) → Value → Except Fault Unit
  | 0, p => .error (notAPattern p.typeName)
  | n + 1, p =>
    match shape p with
    | .name _ => .ok ()
    | .sequence ps => checkItems (validateWithin n) ps
    | .associative m => m.entries.forM (checkEntry (validateWithin n))
    | .other typeName => .error (notAPattern typeName)

def validate (p : Value) : Except Fault Unit :=
  validateWithin p.depth p

end TinyLisp.Pattern
