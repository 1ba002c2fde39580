import TinyLisp.Token.Basic
import TinyLisp.Text.Blank
import TinyLisp.Text.Quoted

/-!
# From characters to tokens

Between tokens stand blanks, commas among them, and comments, which run from a
semicolon to the end of the line. A token is a bracket, a mark, a string or the
longest run of characters that are neither blank nor a bracket or mark. So a
quote or a semicolon inside a run belongs to the atom; only at the start of a
token do they open a string or a comment.

Each step returns the characters it read, and those together with the rest are
the characters it was given. That makes the scanner end, and it makes the
positions exact.
-/

namespace TinyLisp

namespace Lexer

/-- White space and commas separate tokens. -/
def isBlank (c : Char) : Bool :=
  Text.isWhite c || c == ','

/-- Brackets and marks are tokens by themselves and end an atom. -/
def isDelimiter (c : Char) : Bool :=
  (TokenKind.ofChar? c).isSome

/-- The characters that continue an atom. -/
def inAtom (c : Char) : Bool :=
  !isBlank c && !isDelimiter c

mutual

/-- The blanks and comments in front of `cs`, and the rest. -/
def gap : List Char → List Char × List Char
  | [] => ([], [])
  | c :: cs =>
    if isBlank c then
      let r := gap cs
      (c :: r.1, r.2)
    else if c = ';' then
      let r := comment cs
      (c :: r.1, r.2)
    else ([], c :: cs)

/-- The rest of a comment and the gap behind it. The line feed that ends a
comment is a blank. -/
def comment : List Char → List Char × List Char
  | [] => ([], [])
  | c :: cs =>
    if c = '\n' then
      let r := gap cs
      (c :: r.1, r.2)
    else
      let r := comment cs
      (c :: r.1, r.2)

end

mutual

theorem gap_append (cs : List Char) : (gap cs).1 ++ (gap cs).2 = cs := by
  match cs with
  | [] => rfl
  | c :: cs =>
      rw [gap]
      split
      · simpa using gap_append cs
      · split
        · simpa using comment_append cs
        · rfl

theorem comment_append (cs : List Char) :
    (comment cs).1 ++ (comment cs).2 = cs := by
  match cs with
  | [] => rfl
  | c :: cs =>
      rw [comment]
      split
      · simpa using gap_append cs
      · simpa using comment_append cs

end

/-- A token before it has a place: what it is, its characters, and the rest. -/
structure Lexeme where
  kind : TokenKind
  text : List Char
  rest : List Char
deriving DecidableEq, Repr

/-- The token that starts with `c`, which is no blank and starts no comment. -/
def lexeme (c : Char) (cs : List Char) : Except Text.Quoted.Flaw Lexeme :=
  match TokenKind.ofChar? c with
  | some kind => .ok ⟨kind, [c], cs⟩
  | none =>
    if c = '"' then
      (Text.Quoted.decode cs).map fun body =>
        ⟨.string (String.ofList body.content), c :: body.raw, body.rest⟩
    else .ok ⟨.atom, c :: cs.takeWhile inAtom, cs.dropWhile inAtom⟩

theorem lexeme_append {c : Char} {cs : List Char} {l : Lexeme}
    (h : lexeme c cs = .ok l) : l.text ++ l.rest = c :: cs := by
  unfold lexeme at h
  split at h
  · cases h; rfl
  · split at h
    · cases hb : Text.Quoted.decode cs with
      | error e => rw [hb] at h; cases h
      | ok body =>
          rw [hb] at h
          cases h
          simp [Text.Quoted.decode_append hb]
    · cases h
      simp [List.takeWhile_append_dropWhile]

theorem lexeme_text_ne_nil {c : Char} {cs : List Char} {l : Lexeme}
    (h : lexeme c cs = .ok l) : l.text ≠ [] := by
  unfold lexeme at h
  split at h
  · cases h; simp
  · split at h
    · cases hb : Text.Quoted.decode cs with
      | error e => rw [hb] at h; cases h
      | ok body => rw [hb] at h; cases h; simp
    · cases h; simp

/-- What remains behind a token is shorter than what it was read from. -/
theorem length_rest_lt {cs ds : List Char} {c : Char} {l : Lexeme}
    (hg : (gap cs).2 = c :: ds) (h : lexeme c ds = .ok l) :
    l.rest.length < cs.length := by
  have hgap := congrArg List.length (gap_append cs)
  have hlex := congrArg List.length (lexeme_append h)
  have htext := List.length_pos_iff.mpr (lexeme_text_ne_nil h)
  simp only [hg, List.length_append, List.length_cons] at hgap hlex
  omega

/-- Why a text does not fall into tokens. -/
inductive Fault where
  | unterminatedString
  | invalidEscape (letter : Char)
deriving DecidableEq, Repr

def Fault.message : Fault → String
  | unterminatedString => "Unterminated string"
  | invalidEscape letter =>
    "Invalid escape sequence: \\" ++ String.singleton letter

end Lexer

/-- A fault in the text and the characters it concerns. -/
structure LexError where
  fault : Lexer.Fault
  span : Span
deriving DecidableEq, Repr

namespace LexError

/-- The fault and where it is. -/
def text (e : LexError) : String :=
  e.fault.message ++ " at " ++ e.span.text

/-- A string flaw, seen from the start of the string. An open string is reported
from its quote, a bad escape from its backslash to the letter. -/
def ofFlaw (file : String) (start : Position) : Text.Quoted.Flaw → LexError
  | .unterminated seen =>
    ⟨.unterminatedString, ⟨file, start, start.after ('"' :: seen)⟩⟩
  | .badEscape seen letter =>
    let backslash := start.after ('"' :: seen)
    ⟨.invalidEscape letter, ⟨file, backslash, backslash.after ['\\', letter]⟩⟩

end LexError

namespace Lexer

/-- The tokens of `cs`, which start at position `p` of `file`. -/
def tokensFrom (file : String) (p : Position) (cs : List Char) :
    Except LexError (List Token) :=
  match _hg : (gap cs).2 with
  | [] => .ok []
  | c :: ds =>
    let start := p.after (gap cs).1
    match _hl : lexeme c ds with
    | .error flaw => .error (.ofFlaw file start flaw)
    | .ok l =>
      let stop := start.after l.text
      (tokensFrom file stop l.rest).map fun ts =>
        ⟨l.kind, String.ofList l.text, ⟨file, start, stop⟩⟩ :: ts
termination_by cs.length
decreasing_by exact length_rest_lt _hg _hl

end Lexer

/-- The tokens of `source`, which is called `file` in their spans. -/
def tokenize (source file : String) : Except LexError (List Token) :=
  Lexer.tokensFrom file .origin source.toList

end TinyLisp
