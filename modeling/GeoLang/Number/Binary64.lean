namespace GeoLang

/-- A finite binary floating-point number of 64 bits, over exact integers: a sign and `significand *
    2 ^ exponent`. The significand has at most 53 bits, and a significand below `2 ^ 52` goes with
    the least exponent, so each value and each signed zero has one form. -/
structure Binary64 where
  negative : Bool
  significand : Nat
  exponent : Int
deriving DecidableEq, Repr

namespace Binary64

/-- The bits of a significand. -/
def precision : Nat := 53

/-- Significands are below this. -/
def significandLimit : Nat := 1 <<< precision

/-- The least significand that has all its bits. -/
def fullSignificand : Nat := 1 <<< (precision - 1)

def leastExponent : Int := -1074

def greatestExponent : Int := 971

/-- The natural number nearest to `n / d`; halfway between two, the even one. -/
def roundDiv (n d : Nat) : Nat :=
  let floor := n / d
  let twice := 2 * (n % d)
  if twice < d ∨ (twice = d ∧ floor % 2 = 0) then floor else floor + 1

/-- The least exponent `e` for which `n / d` is below `significandLimit * 2 ^ e`, or the least
    exponent that numbers have. -/
def exponentFor (n d : Nat) : Int :=
  let b : Int := (n.log2 : Int) - (d.log2 : Int)
  let e := if n <<< (-b).toNat < d <<< b.toNat then b - precision else b - precision + 1
  if e < leastExponent then leastExponent else e

/-- The number nearest to `n / d` with the given sign, or none if that is beyond the greatest
    finite number. -/
def ofRatio? (negative : Bool) (n d : Nat) : Option Binary64 :=
  let e := exponentFor n d
  let m := roundDiv (n <<< (-e).toNat) (d <<< e.toNat)
  let x : Binary64 :=
    if m = significandLimit then ⟨negative, fullSignificand, e + 1⟩ else ⟨negative, m, e⟩
  if x.significand = 0 then some ⟨negative, 0, leastExponent⟩
  else if x.exponent ≤ greatestExponent then some x
  else none

/-- The number nearest to the decimal `digits / 10 ^ places`. -/
def ofDecimal? (negative : Bool) (digits places : Nat) : Option Binary64 :=
  ofRatio? negative digits (Nat.pow 10 places)

end Binary64

end GeoLang
