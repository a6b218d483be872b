import GeoLang.Number.Binary64

namespace GeoLang.Binary64

/-- The reals that round to a number, in units of `10 ^ (-places)`: from `low` to `high` around
    `value`, with the ends or without. -/
structure Interval where
  low : Nat
  value : Nat
  high : Nat
  places : Nat
  closed : Bool
deriving DecidableEq, Repr

namespace Interval

/-- The ends belong to the interval if they round to the number as well. -/
def contains (i : Interval) (n : Nat) : Bool :=
  if i.closed then i.low ≤ n && n ≤ i.high else i.low < n && n < i.high

/-- The point nearest to the value on the grid whose unit is `unit`, among the two next to the
    value that the interval contains; upwards on a tie. -/
def nearest? (i : Interval) (unit : Nat) : Option Nat :=
  let below := i.value / unit * unit
  let above := below + unit
  match i.contains below, i.contains above with
  | true, true => some (if i.value - below < above - i.value then below else above)
  | true, false => some below
  | false, true => some above
  | false, false => none

/-- The point of the coarsest decimal grid that has one in the interval. The finest grid has the
    value itself. -/
def shortest (i : Interval) : Nat :=
  let width := (Nat.toDigits 10 i.value).length
  ((List.range width).findSome? fun k => i.nearest? (Nat.pow 10 (width - 1 - k))).getD i.value

end Interval

/-- The reals that round to the absolute value of `x`. The gap below a power of two is half the gap
    above it; the ends belong to an even significand. -/
def interval (x : Binary64) : Interval :=
  let quarter := x.exponent - 2
  let unit := Nat.pow 5 (-quarter).toNat <<< quarter.toNat
  let narrow := x.significand = fullSignificand ∧ leastExponent < x.exponent
  { low := (4 * x.significand - if narrow then 1 else 2) * unit
    value := 4 * x.significand * unit
    high := (4 * x.significand + 2) * unit
    places := (-quarter).toNat
    closed := x.significand % 2 = 0 }

/-- A positive decimal: its digits without zeros at the end, and how many of them stand before the
    point (negative if zeros stand between the point and the first digit). -/
structure Decimal where
  digits : List Char
  point : Int
deriving DecidableEq, Repr

/-- The number `n` with the point moved `places` digits to the left; zeros at its end are
    dropped. -/
def Decimal.ofScaled (n places : Nat) : Decimal :=
  let digits := Nat.toDigits 10 n
  { digits := (digits.reverse.dropWhile (· == '0')).reverse
    point := (digits.length : Int) - places }

/-- The fewest decimal digits that read back as the same number, and of those the nearest to it,
    upwards on a tie. -/
def shortestDecimal (x : Binary64) : Decimal :=
  .ofScaled x.interval.shortest x.interval.places

/-- With all digits written out and at least one behind the point. -/
def Decimal.positional (d : Decimal) : List Char :=
  if d.point ≤ 0 then
    '0' :: '.' :: List.replicate (-d.point).toNat '0' ++ d.digits
  else
    let before := d.point.toNat
    if before < d.digits.length then
      d.digits.take before ++ '.' :: d.digits.drop before
    else
      d.digits ++ List.replicate (before - d.digits.length) '0' ++ ['.', '0']

/-- With one digit before the point and a power of ten. -/
def Decimal.scientific (d : Decimal) : List Char :=
  let tail := d.digits.drop 1
  d.digits.take 1 ++ (if tail = [] then [] else '.' :: tail) ++ 'e' :: (toString (d.point - 1)).toList

/-- Zero and numbers from `10 ^ -4` up to `10 ^ 16` are written out, the others with a power of
    ten. -/
def text (x : Binary64) : String :=
  let d := x.shortestDecimal
  let body :=
    if x.significand = 0 then ['0', '.', '0']
    else if -4 < d.point ∧ d.point ≤ 16 then d.positional
    else d.scientific
  String.ofList (if x.negative then '-' :: body else body)

end GeoLang.Binary64
