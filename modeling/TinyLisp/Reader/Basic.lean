import TinyLisp.Reader.Atom
import TinyLisp.Token.Lexer

/-!
# From tokens to forms

Forms are read one at a time from the front of a list of tokens. The reader
keeps the brackets and marks that are still open, the innermost first. A token
opens another one, closes the innermost, or is a form by itself; a finished form
goes to the innermost open bracket, and a mark that waits for it wraps it at
once.

Each step takes one token, so reading ends, and when the tokens run out
something is open: that is what the error reports.
-/

namespace TinyLisp

namespace Reader

/-- Why tokens are not a form. -/
inductive Fault where
  /-- A closing bracket that closes nothing here. -/
  | unexpected (text : String)
  | unclosed (b : Bracket)
  /-- A map literal ends behind a key. -/
  | missingValue
  /-- Nothing follows a mark. -/
  | missingForm (text : String)
deriving DecidableEq, Repr

namespace Fault

def message : Fault → String
  | unexpected text => "Unexpected '" ++ text ++ "'"
  | unclosed .round => "Unbalanced list: missing ')'"
  | unclosed .square => "Unbalanced vector: missing ']'"
  | unclosed .curly => "Unbalanced map: missing '\x7d'"
  | missingValue => "Unbalanced map: every key needs a value"
  | missingForm text => "Expected a form after '" ++ text ++ "'"

end Fault

end Reader

/-- A fault among the tokens, and the token it is reported at. -/
structure ReadError where
  fault : Reader.Fault
  span : Span
deriving DecidableEq, Repr

/-- The fault and where it is. -/
def ReadError.text (e : ReadError) : String :=
  e.fault.message ++ " at " ++ e.span.text

namespace Reader

/-- A bracket or mark whose end has not been read. Items stand in reverse. -/
inductive Pending where
  | list (opener : Token) (items : List Value)
  | vector (opener : Token) (items : List Value)
  /-- The pairs so far, and a key whose value is still to come. -/
  | map (opener : Token) (pairs : List (Value × Value)) (key : Option Value)
  | mark (m : Mark) (token : Token)

namespace Pending

/-- The error when the tokens end here. -/
def unfinished : Pending → ReadError
  | list opener _ => ⟨.unclosed .round, opener.span⟩
  | vector opener _ => ⟨.unclosed .square, opener.span⟩
  | map opener _ none => ⟨.unclosed .curly, opener.span⟩
  | map opener _ (some _) => ⟨.missingValue, opener.span⟩
  | mark _ token => ⟨.missingForm token.text, token.span⟩

def ofOpener (b : Bracket) (token : Token) : Pending :=
  match b with
  | .round => list token []
  | .square => vector token []
  | .curly => map token [] none

end Pending

/-- The form that a mark makes of the form behind it. -/
def marked (m : Mark) (token : Token) (form : Value) : Value :=
  .list [.symbol m.tag (some token.span), form] (some token.span)

/-- What reading a token leads to. -/
inductive Progress where
  /-- The form is complete. -/
  | done (form : Value)
  /-- Something is open, the innermost first. -/
  | more (top : Pending) (stack : List Pending)
  | stuck (error : ReadError)

/-- Hand a finished form to the innermost open bracket. -/
def deliver (form : Value) : List Pending → Progress
  | [] => .done form
  | .mark m token :: stack => deliver (marked m token form) stack
  | .list opener items :: stack => .more (.list opener (form :: items)) stack
  | .vector opener items :: stack =>
    .more (.vector opener (form :: items)) stack
  | .map opener pairs none :: stack =>
    .more (.map opener pairs (some form)) stack
  | .map opener pairs (some key) :: stack =>
    .more (.map opener ((key, form) :: pairs) none) stack

/-- The span from an opening to a closing bracket. -/
def between (opener closer : Token) : Option Span :=
  some (opener.span.through closer.span)

def close (b : Bracket) (token : Token) (stack : List Pending) : Progress :=
  match b, stack with
  | .round, .list opener items :: stack =>
    deliver (.list items.reverse (between opener token)) stack
  | .square, .vector opener items :: stack =>
    deliver (.vector (.ofList items.reverse) (between opener token)) stack
  | .curly, .map opener pairs none :: stack =>
    deliver (.mapForm pairs.reverse (between opener token)) stack
  | .curly, .map opener _ (some _) :: _ => .stuck ⟨.missingValue, opener.span⟩
  | _, _ => .stuck ⟨.unexpected token.text, token.span⟩

def feed (stack : List Pending) (token : Token) : Progress :=
  match token.kind with
  | .opening b => .more (.ofOpener b token) stack
  | .closing b => close b token stack
  | .mark m => .more (.mark m token) stack
  | .string content => deliver (.string content) stack
  | .atom => deliver (classify token.text token.span) stack

/-- What reading a form from a list of tokens gives. Both a form and an error
come with the tokens that are left. -/
inductive Result where
  | form (value : Value) (rest : List Token)
  | error (e : ReadError) (rest : List Token)

/-- The tokens left after an error at `token`. A closing bracket that ends a
literal too early is not used up. -/
def leftAfter (e : ReadError) (token : Token) (rest : List Token) :
    List Token :=
  match e.fault with
  | .missingValue => token :: rest
  | _ => rest

/-- Read a form that continues with `token`. -/
def readWith (stack : List Pending) (token : Token) (tokens : List Token) :
    Result :=
  match feed stack token, tokens with
  | .done form, rest => .form form rest
  | .stuck e, rest => .error e (leftAfter e token rest)
  | .more top _, [] => .error top.unfinished []
  | .more top stack, token :: rest => readWith (top :: stack) token rest
termination_by structural tokens

/-- Read the next form, if there are tokens. -/
def next? : List Token → Option Result
  | [] => none
  | token :: rest => some (readWith [] token rest)

end Reader

end TinyLisp
