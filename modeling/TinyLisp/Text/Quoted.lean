/-!
# Quoted text

A string is written between double quotes. Four characters need a backslash
there: the quote, the backslash itself, the line feed and the tab. Reading
refuses any other escape, a raw line feed, and a text that ends before its
closing quote.
-/

namespace TinyLisp.Text.Quoted

/-- The letter that follows the backslash when `c` is written, if
`c` needs one. -/
def escapeOf (c : Char) : Option Char :=
  if c = '"' then some '"'
  else if c = '\\' then some '\\'
  else if c = '\n' then some 'n'
  else if c = '\t' then some 't'
  else none

/-- The character that a backslash before `c` stands for. -/
def unescape (c : Char) : Option Char :=
  if c = '"' then some '"'
  else if c = '\\' then some '\\'
  else if c = 'n' then some '\n'
  else if c = 't' then some '\t'
  else none

/-- The characters of a string as they stand between the quotes. -/
def escape : List Char → List Char
  | [] => []
  | c :: cs =>
    match escapeOf c with
    | some e => '\\' :: e :: escape cs
    | none => c :: escape cs

/-- A string in its quotes. -/
def encode (s : String) : String :=
  String.ofList ('"' :: (escape s.toList ++ ['"']))

/-- Why the text behind an opening quote is no string. Each case holds the
characters read before the fault. -/
inductive Flaw where
  /-- The line or the text ended first. -/
  | unterminated (seen : List Char)
  /-- A backslash stands before `letter`, which is no escape. -/
  | badEscape (seen : List Char) (letter : Char)
deriving DecidableEq, Repr

namespace Flaw

/-- The same fault with `cs` read before it. -/
def behind (cs : List Char) : Flaw → Flaw
  | unterminated seen => unterminated (cs ++ seen)
  | badEscape seen letter => badEscape (cs ++ seen) letter

end Flaw

/-- What stands behind an opening quote: the content, the characters read up to
and with the closing quote, and the rest. -/
structure Body where
  content : List Char
  raw : List Char
  rest : List Char
deriving DecidableEq, Repr

/-- `Body.cons c raw b` is `b` with the character `c`, written as
`raw`, in front. -/
def Body.cons (c : Char) (raw : List Char) (b : Body) : Body :=
  ⟨c :: b.content, raw ++ b.raw, b.rest⟩

/-- Read a string whose opening quote has been read. -/
def decode : List Char → Except Flaw Body
  | [] => .error (.unterminated [])
  | '"' :: cs => .ok ⟨[], ['"'], cs⟩
  | ['\\'] => .error (.unterminated ['\\'])
  | '\\' :: c :: cs =>
    match unescape c with
    | some d =>
      ((decode cs).map (Body.cons d ['\\', c])).mapError (.behind ['\\', c])
    | none => if c = '\n' then .error (.unterminated ['\\'])
        else .error (.badEscape [] c)
  | c :: cs =>
    if c = '\n' then .error (.unterminated [])
    else ((decode cs).map (Body.cons c [c])).mapError (.behind [c])

/-- Nothing is lost: what was read and the rest make up the text. -/
theorem decode_append {cs : List Char} {b : Body} (h : decode cs = .ok b) :
    b.raw ++ b.rest = cs := by
  fun_induction decode cs generalizing b with
  | case1 => cases h
  | case2 cs => cases h; rfl
  | case3 => cases h
  | case4 c cs d hd ih =>
      cases hcs : decode cs with
      | error e => rw [hcs] at h; cases h
      | ok b' =>
          rw [hcs] at h
          cases h
          simp [Body.cons, ih hcs]
  | case5 => cases h
  | case6 => cases h
  | case7 => cases h
  | case8 c cs _ _ _ _ ih =>
      cases hcs : decode cs with
      | error e => rw [hcs] at h; cases h
      | ok b' =>
          rw [hcs] at h
          cases h
          simp [Body.cons, ih hcs]

end TinyLisp.Text.Quoted
