/-!
# The fewest digits that read back

A binary number `m * 2 ^ e` stands for every real that rounds to it. Among the
decimals in that interval the shortest is the one on the coarsest grid: the
multiple of the largest power of ten. On a grid only the two neighbours of the
number itself have to be tried, since if any multiple lies in the interval one
of these two does; of two hits the nearer one is taken, and the upper one if
they are equally near.

Everything is exact arithmetic on naturals, with the interval scaled by four so
that its ends are whole.
-/

namespace TinyLisp.Number

/-- The decimal number `digits * 10 ^ exponent`. -/
structure Decimal where
  digits : Nat
  exponent : Int
deriving DecidableEq, Repr

/-- The reals that round to a binary number: those from `low * 2 ^
exponent` to `high * 2 ^ exponent` around `mid * 2 ^ exponent`. The ends
belong to it if `closed`. -/
structure Basin where
  low : Nat
  mid : Nat
  high : Nat
  exponent : Int
  closed : Bool
deriving DecidableEq, Repr

/-- The power `10 ^ k`, or one if `k` is negative. -/
def tenTo (k : Int) : Nat := Nat.pow 10 k.toNat

/-- The least mantissa of full length, `2 ^ 52`. -/
def leastFull : Nat := 0x10000000000000

namespace Basin

/-- The reals that round to `m * 2 ^ e`. Half a unit lies on each side, but
below the least mantissa of full length the numbers stand twice as close. Ties
go to even mantissas. -/
def ofMantissa (m : Nat) (e : Int) : Basin :=
  ⟨if m = leastFull then 4 * m - 1
    else 4 * m - 2, 4 * m, 4 * m + 2, e - 2, m % 2 = 0⟩

/-- The multiple of `10 ^ k` in the basin that is nearest to the middle, counted
in `10 ^ k`. -/
def nearest (b : Basin) (k : Int) : Option Nat :=
  let up := tenTo (-k) <<< b.exponent.toNat
  let down := tenTo k <<< (-b.exponent).toNat
  let mid := b.mid * up
  let n := mid / down
  let below := b.low * up < n * down || (b.closed && b.low * up == n * down)
  let above :=
    (n + 1) * down < b.high * up || (b.closed && (n + 1) * down == b.high * up)
  if below && (!above || 2 * (mid % down) < down) then some n
  else if above then some (n + 1)
  else none

/-- The hit on the coarsest grid from `10 ^ k` downward, within `fuel` grids. -/
def search (b : Basin) : (fuel : Nat) → (k : Int) → Decimal
  | 0, k => ⟨b.mid <<< b.exponent.toNat / tenTo k <<< (-b.exponent).toNat, k⟩
  | fuel + 1, k =>
    match b.nearest k with
    | some n => ⟨n, k⟩
    | none => b.search fuel (k - 1)

/-- A power of ten above every number of the basin. -/
def ceiling (b : Basin) : Int :=
  (b.exponent + b.high.log2 + 1) * 30103 / 100000 + 1

end Basin

/-- The shortest decimal that reads back as `m * 2 ^ e`, and the nearest of
these. Seventeen digits are always enough, and the search starts at most two
places above the first. -/
def shortest (m : Nat) (e : Int) : Decimal :=
  let b := Basin.ofMantissa m e
  b.search 24 b.ceiling

end TinyLisp.Number
