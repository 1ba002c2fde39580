import TinyLisp.Pattern.Basic
import TinyLisp.Store.Action

/-!
# Binding a pattern

Taking a value apart binds the variables of a pattern in the frame of a
scope, one after the other. Positions behind the end of a sequence, and keys
that a map does not have, bind to `nil`; `nil` itself is taken apart as an
empty sequence or an empty map. A default under `:or` is evaluated only when
its key is missing.

A failure leaves the variables bound so far.
-/

namespace TinyLisp.Pattern

/-- How a default is evaluated. -/
abbrev Evaluate := Value → Scope → Action Value

/-- The items of a value that is taken apart by position. -/
def itemsOf : Value → Except Fault (List Value)
  | .list items _ => .ok items
  | .vector items _ => .ok items.toList
  | .nil => .ok []
  | v => .error (.mismatch v.typeName .sequence)

/-- The entries of a value that is taken apart by key. -/
def entriesOf : Value → Except Fault ValueMap
  | .map m _ => .ok m
  | .nil => .ok {}
  | v => .error (.mismatch v.typeName .map)

/-- Bind the items of a vector pattern. `whole` is the value, `items`
those of its items that no pattern has taken yet, and `bind` binds a
pattern among them. -/
def bindItems (bind : Value → Value → Action Unit) (scope : Scope)
    (whole : Value) : (patterns items : List Value) → Action Unit
  | [], _ => pure ()
  | p :: ps, items =>
    if p.isSymbol "&" then
      match ps with
      | [] => Action.fail missingRest
      | rest :: tail =>
        if endsAfterRest tail then do
          bind rest (.vectorOf items)
          bindItems bind scope whole tail []
        else Action.fail trailing
    else if p.isKeyword "as" then
      match ps with
      | .symbol name _ :: ps => do
        Action.define scope name whole
        bindItems bind scope whole ps items
      | _ => Action.fail badWhole
    else do
      bind p (items.headD .nil)
      bindItems bind scope whole ps items.tail

def defaultsOf (pattern : ValueMap) : Except Fault (Option ValueMap) :=
  match pattern.get? (.keyword "or") with
  | some (.map defaults _) => .ok (some defaults)
  | some _ => .error badDefaults
  | none => .ok none

/-- The value under a key, else the default of the variable, else `nil`. -/
def fetch (eval : Evaluate) (scope : Scope) (m : ValueMap)
    (defaults : Option ValueMap) (key : Value) (name? : Option String) :
    Action Value :=
  match ValueMap.lookup m key with
  | some v => pure v
  | none =>
    match name?, defaults with
    | some name, some ds =>
      match ValueMap.lookup ds (.symbol name none) with
      | some expr => eval expr scope
      | none => pure .nil
    | _, _ => pure .nil

def bindNames (get : Value → Option String → Action Value) (scope : Scope)
    (n : Naming) : List Value → Action Unit
  | [] => pure ()
  | v :: vs =>
    match v.symbolName? with
    | none => Action.fail (badNames n)
    | some name => do
      Action.define scope name (← get (n.source name) (some name))
      bindNames get scope n vs

def bindEntry (bind : Value → Value → Action Unit)
    (get : Value → Option String → Action Value) (scope : Scope) (whole : Value)
    (entry : Value × Value) : Action Unit :=
  match role entry.1 with
  | .names n =>
    match entry.2 with
    | .vector names _ => bindNames get scope n names.toList
    | _ => Action.fail (badNames n)
  | .whole =>
    match entry.2.symbolName? with
    | some name => Action.define scope name whole
    | none => Action.fail badWhole
  | .defaults => pure ()
  | .target pattern => do
    bind pattern (← get entry.2 pattern.symbolName?)

def bindWithin (eval : Evaluate) (scope : Scope) :
    (depth : Nat) → Value → Value → Action Unit
  | 0, p, _ => Action.fail (notAPattern p.typeName)
  | n + 1, p, v =>
    let bind := bindWithin eval scope n
    match shape p with
    | .name name => Action.define scope name v
    | .sequence ps => do
      bindItems bind scope v ps (← Action.ofExcept (itemsOf v))
    | .associative pattern => do
      let m ← Action.ofExcept (entriesOf v)
      let defaults ← Action.ofExcept (defaultsOf pattern)
      pattern.entries.forM (bindEntry bind (fetch eval scope m defaults) scope v)
    | .other typeName => Action.fail (notAPattern typeName)

/-- Bind the variables of a pattern to the parts of a value. -/
def bind (eval : Evaluate) (p v : Value) (scope : Scope) : Action Unit :=
  bindWithin eval scope p.depth p v

end TinyLisp.Pattern
