import TinyLisp.Source.Position

/-!
# Tokens

A source text falls into brackets, reader marks, strings and atoms. A mark is a
single character that wraps the form behind it: `'x` is short for `(quote x)`.
Any other run of characters is an atom; whether it is a number, a keyword or a
symbol is decided when forms are read.
-/

namespace TinyLisp

inductive Bracket where
  | round
  | square
  | curly
deriving DecidableEq, Repr

namespace Bracket

def opener : Bracket → Char
  | round => '('
  | square => '['
  | curly => '{'

def closer : Bracket → Char
  | round => ')'
  | square => ']'
  | curly => '}'

end Bracket

inductive Mark where
  | quote
  | quasiquote
  | unquote
  | deref
deriving DecidableEq, Repr

namespace Mark

/-- The character that stands for the mark. -/
def char : Mark → Char
  | quote => '\x27'
  | quasiquote => '\x60'
  | unquote => '~'
  | deref => '@'

/-- The symbol at the head of the list that the mark makes. -/
def tag : Mark → String
  | quote => "quote"
  | quasiquote => "quasiquote"
  | unquote => "unquote"
  | deref => "deref"

end Mark

inductive TokenKind where
  | opening (b : Bracket)
  | closing (b : Bracket)
  | mark (m : Mark)
  /-- A string literal with the text that it stands for. -/
  | string (content : String)
  | atom
deriving DecidableEq, Repr

/-- A token: what it is, its characters in the source, and where they stand. -/
structure Token where
  kind : TokenKind
  text : String
  span : Span
deriving DecidableEq, Repr

/-- The token that a single character makes, unless it starts a string
or an atom. -/
def TokenKind.ofChar? (c : Char) : Option TokenKind :=
  if c = '(' then some (.opening .round)
  else if c = ')' then some (.closing .round)
  else if c = '[' then some (.opening .square)
  else if c = ']' then some (.closing .square)
  else if c = '{' then some (.opening .curly)
  else if c = '}' then some (.closing .curly)
  else if c = '\x27' then some (.mark .quote)
  else if c = '\x60' then some (.mark .quasiquote)
  else if c = '~' then some (.mark .unquote)
  else if c = '@' then some (.mark .deref)
  else none

end TinyLisp
