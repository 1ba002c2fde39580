import TinyLisp.Number.Parts
import TinyLisp.Number.Shortest

/-!
# Numbers as text

A whole number of at most fifteen digits is written as an integer, and so both
zeros are `0`. Any other finite number has the fewest digits that read back,
always in positional notation: neither a very large nor a very small number has
an exponent. The special numbers have names.

A number is read in decimal: an optional sign, digits with at most one point
among or beside them, and an optional exponent. The text `inf`, `infinity` or
`nan`, in any case, is read only where a caller asks for it.
-/

namespace TinyLisp.Number

open Float.Model.UnpackedFloat (Sign)

/-! ## Writing -/

/-- A decimal in positional notation. -/
def Decimal.text (d : Decimal) : String :=
  let digits := Nat.repr d.digits
  match d.exponent with
  | .ofNat n => digits ++ String.ofList (List.replicate n '0')
  | .negSucc n =>
    let places := n + 1
    let padded :=
      List.replicate (places + 1 - digits.length) '0' ++ digits.toList
    let cut := padded.length - places
    String.ofList (padded.take cut) ++ "." ++ String.ofList (padded.drop cut)

/-- What stands in front of a number of the given sign. -/
def signText : Sign → String
  | .negative => "-"
  | .positive => ""

/-- The plain text of a number, which distinguishes the two zeros. -/
def display (x : Float) : String :=
  match parts x with
  | .notANumber => "NaN"
  | .infinity s => signText s ++ "inf"
  | .zero s => signText s ++ "0"
  | .finite s m e _ => signText s ++ (shortest m e).text

/-- Below this bound, `10 ^ 15`, whole numbers are written as integers. -/
def integerBound : Nat := 1000000000000000

/-- The integer that a number is written as, if it is. -/
def integer? (x : Float) : Option Int :=
  (toInt? x).filter fun n => n.natAbs < integerBound

def text (x : Float) : String :=
  match parts x with
  | .notANumber => "##NaN"
  | .infinity .positive => "##Inf"
  | .infinity .negative => "##-Inf"
  | .zero _ | .finite .. =>
    match integer? x with
    | some n => n.repr
    | none => display x

/-- Below this bound, `2 ^ 53`, a float holds every whole number exactly. -/
def exactBound : Nat := 0x20000000000000

/-- Whole numbers that a float holds exactly hash to their low 32 bits, all
others to the hash of their text. -/
def hash (x : Float) : UInt32 :=
  match toInt? x with
  | some n => if n.natAbs < exactBound then .ofBitVec (.ofInt 32 n)
      else Text.hash (text x)
  | none => Text.hash (text x)

/-! ## Reading -/

def ofDigits (cs : List Char) : Nat :=
  cs.foldl (fun n c => n * 10 + (c.toNat - '0'.toNat)) 0

/-- Split a sign from the front: whether it was a minus, and what follows. -/
def splitSign : List Char → Bool × List Char
  | '-' :: cs => (true, cs)
  | '+' :: cs => (false, cs)
  | cs => (false, cs)

/-- The exponent at the end of a number. No text is the exponent zero. -/
def readExponent : List Char → Option Int
  | [] => some 0
  | c :: cs =>
    if c = 'e' ∨ c = 'E' then
      let (negative, digits) := splitSign cs
      if digits.isEmpty || !digits.all Char.isDigit then none
      else some (if negative then -(ofDigits digits : Int) else ofDigits digits)
    else none

/-- The digits behind the point, if there is one, and what follows. -/
def splitFraction : List Char → List Char × List Char
  | '.' :: cs => (cs.takeWhile Char.isDigit, cs.dropWhile Char.isDigit)
  | cs => ([], cs)

/-- The float nearest to `n * 10 ^ e`. -/
def ofDecimal (n : Nat) (e : Int) : Float :=
  Float.ofScientific n (e < 0) e.natAbs

/-- Read an unsigned decimal number: at least one digit, at most one point,
an optional exponent. -/
def readUnsigned (cs : List Char) : Option Float :=
  let whole := cs.takeWhile Char.isDigit
  let (fraction, rest) := splitFraction (cs.dropWhile Char.isDigit)
  if whole.isEmpty && fraction.isEmpty then none
  else (readExponent rest).map fun e =>
    ofDecimal (ofDigits (whole ++ fraction)) (e - fraction.length)

def readDecimal (cs : List Char) : Option Float :=
  let (negative, rest) := splitSign cs
  (readUnsigned rest).map fun x => if negative then -x else x

/-- The special numbers, by their names in lower case. -/
def ofName (name : String) : Option Float :=
  if name = "nan" then some nan
  else if name = "inf" ∨ name = "infinity" then some infinity
  else none

/-- Read a signed number, which may be one of the special numbers. -/
def read (s : String) : Option Float :=
  let (negative, rest) := splitSign s.toList
  match ofName (String.ofList (rest.map Char.toLower)) with
  | some x => some (if negative then -x else x)
  | none => readDecimal s.toList

end TinyLisp.Number
