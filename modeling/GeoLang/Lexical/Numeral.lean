import GeoLang.Lexical.Scan

namespace GeoLang.Lexical

/-- The parts of a number as it is written. -/
structure Numeral where
  sign : Option Char
  run : List Char
  tail : List Char
deriving DecidableEq, Repr

/-- What is wrong with a number. -/
inductive NumberFault where
  | severalPoints
  | letters
  | outOfRange
deriving DecidableEq, Repr

/-- The fault as it is reported for the number written `text`. -/
def NumberFault.describe (text : String) : NumberFault → String
  | severalPoints => "Invalid number '" ++ text ++ "'. Multiple decimal points detected."
  | letters => "Invalid number '" ++ text ++ "'. Numbers cannot contain alphabetic characters."
  | outOfRange => "Invalid number '" ++ text ++ "'. Value is out of range."

def isSignChar (c : Char) : Bool := c == '+' || c == '-'

/-- The digits and points of a number stand in one run. -/
def isRunChar (c : Char) : Bool := c.isDigit || c == '.'

/-- The value of a run of decimal digits. -/
def digitsValue (ds : List Char) : Nat := ds.foldl (fun n d => 10 * n + (d.toNat - '0'.toNat)) 0

/-- Integers have 64 bits, one of them for the sign. -/
def leastInteger : Int := -9223372036854775808

def greatestInteger : Int := 9223372036854775807

namespace Numeral

/-- The run and the word directly behind it belong to the number, even if that makes it faulty. -/
def ofUnsigned (sign : Option Char) (cs : List Char) : Numeral where
  sign := sign
  run := cs.takeWhile isRunChar
  tail := (cs.dropWhile isRunChar).takeWhile isWordChar

/-- The number that the text `c :: cs` begins with. -/
def read (c : Char) (cs : List Char) : Numeral :=
  if isSignChar c then ofUnsigned (some c) cs else ofUnsigned none (c :: cs)

/-- The number as it is written. -/
def chars (n : Numeral) : List Char := n.sign.toList ++ n.run ++ n.tail

def negative (n : Numeral) : Bool := n.sign == some '-'

/-- The integer with the digits of the run, which must fit in 64 bits with its sign. -/
def integer? (n : Numeral) : Option Int :=
  let v : Int := if n.negative then -(digitsValue n.run : Int) else digitsValue n.run
  if leastInteger ≤ v ∧ v ≤ greatestInteger then some v else none

/-- The real number with one point in its run, rounded to binary floating point. -/
def real? (n : Numeral) : Option Binary64 :=
  let whole := n.run.takeWhile (· != '.')
  let places := n.run.drop (whole.length + 1)
  Binary64.ofDecimal? n.negative (digitsValue (whole ++ places)) places.length

/-- A number with a point is real, any other is an integer. -/
def value (n : Numeral) : Except NumberFault Literal :=
  let points := n.run.count '.'
  if 1 < points then .error .severalPoints
  else if n.tail ≠ [] then .error .letters
  else if points = 0 then
    match n.integer? with
    | some v => .ok (.integer v)
    | none => .error .outOfRange
  else
    match n.real? with
    | some v => .ok (.real v)
    | none => .error .outOfRange

end Numeral

/-- The number that the text `c :: cs` begins with. -/
def Scan.number (c : Char) (cs : List Char) : Scan :=
  let n := Numeral.read c cs
  let text := String.ofList n.chars
  { extra := n.chars.length - 1
    content := match n.value with
      | .ok v => .token (.literal v) text
      | .error e => .fault (.invalidNumber (e.describe text)) }

end GeoLang.Lexical
