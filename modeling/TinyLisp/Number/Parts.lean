import TinyLisp.Text.Units

/-!
# The parts of a number

Every number of the language is a binary64 float. Arithmetic on floats is the
machine's; what is defined here looks inside one. `parts` gives the sign, the
mantissa and the exponent, and from them come the whole number that a float
is, if it is one, and the remainder of a division, which is always exact.
-/

namespace TinyLisp.Number

open Float.Model (UnpackedFloat Format)
open Float.Model.UnpackedFloat (Sign)

/-- The sign, mantissa and exponent of a finite float, or which special
float it is. -/
def parts (x : Float) : UnpackedFloat :=
  x.toModel.unpack

/-- The float nearest to `m * 2 ^ e` under the given sign, which
zero keeps too. -/
def ofParts (s : Sign) (m : Nat) (e : Int) : Float :=
  .ofModel (.pack (.normalize .binary64 (s.apply m) e s))

def nan : Float := 0.0 / 0.0

def infinity : Float := 1.0 / 0.0

/-- The integer that `x` is, if it is one. Both zeros are. -/
def toInt? (x : Float) : Option Int :=
  match parts x with
  | .zero _ => some 0
  | .finite s m e _ =>
    let unit := 1 <<< (-e).toNat
    if m % unit = 0 then some (s.apply ((m / unit) <<< e.toNat : Nat)) else none
  | .infinity _ | .notANumber => none

/-- The natural number that `x` is, if it is one. -/
def toNat? (x : Float) : Option Nat :=
  match toInt? x with
  | some (.ofNat n) => some n
  | _ => none

/-- The remainder of `x` by `y`. It has the sign of `x`, is smaller than `y`,
and is exact. -/
def remainder (x y : Float) : Float :=
  match parts x, parts y with
  | .notANumber, _ | _, .notANumber | .infinity _, _ | _, .zero _ => nan
  | .zero _, _ | _, .infinity _ => x
  | .finite s m e _, .finite _ m' e' _ =>
    let low := min e e'
    ofParts s (m <<< (e - low).toNat % m' <<< (e' - low).toNat) low

end TinyLisp.Number
