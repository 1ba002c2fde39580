/-!
# The names of the built-in functions

Every root environment starts with the same set of functions. Most call no
other function; these are the primitives. Three call functions that they are
given. One primitive, `parseFloat`, is not bound to a name but handed out by the
standard host.
-/

namespace TinyLisp

/-- A function of the language that calls no other. -/
inductive Primitive where
  | add | sub | mul | div | rem
  | same | notSame | lt | gt | le | ge | not
  | str | prStr | print | println
  | list | vector | first | rest | count | isEmpty | cons | nth | conj
  | hashMap | get | assoc | dissoc | keys | vals | contains
  | atom | isAtom | deref | reset
  | identity | type
  | parseFloat
deriving DecidableEq, Repr

inductive Builtin where
  | primitive (p : Primitive)
  | map
  | apply
  | swap
deriving DecidableEq, Repr

namespace Primitive

/-- The name under which a primitive is bound and printed. -/
def name : Primitive → String
  | add => "+" | sub => "-" | mul => "*" | div => "/" | rem => "%"
  | same =>
    "=" | notSame => "not=" | lt => "<" | gt => ">" | le => "<=" | ge => ">="
  | not => "not"
  | str => "str" | prStr => "pr-str" | print => "print" | println => "println"
  | list => "list" | vector => "vector" | first => "first" | rest =>
      "rest" | count => "count"
  | isEmpty => "empty?" | cons => "cons" | nth => "nth" | conj => "conj"
  | hashMap => "hash-map" | get => "get" | assoc => "assoc" | dissoc => "dissoc"
  | keys => "keys" | vals => "vals" | contains => "contains?"
  | atom => "atom" | isAtom => "atom?" | deref => "deref" | reset => "reset!"
  | identity => "identity" | type => "type"
  | parseFloat => "parseFloat"

/-- The primitives bound in every root environment. -/
def all : List Primitive :=
  [add, sub, mul, div, rem, same, notSame, lt, gt, le, ge, not, str, prStr,
    print, println,
   list, vector, first, rest, count, isEmpty, cons, nth, conj,
   hashMap, get, assoc, dissoc, keys, vals, contains,
   atom, isAtom, deref, reset, identity, type]

end Primitive

namespace Builtin

def name : Builtin → String
  | primitive p => p.name
  | map => "map"
  | apply => "apply"
  | swap => "swap!"

def all : List Builtin :=
  Primitive.all.map primitive ++ [map, apply, swap]

end Builtin

end TinyLisp
