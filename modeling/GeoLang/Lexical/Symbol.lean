import GeoLang.Lexical.Scan

namespace GeoLang.Lexical

/-- Characters that a symbol may begin with. The last two begin none, so they are unknown symbols
    rather than illegal characters. -/
def symbolChars : List Char :=
  ['+', '-', '*', '/', '%', '|', '&', '=', '<', '>', '!', '^', '~', ':', ';', ',', '(', ')', '[', ']',
    '\x7b', '\x7d', '@', '$', '\\', '\x60', '?']

/-- A symbol may begin with the character. -/
def startsSymbol (c : Char) : Bool := symbolChars.contains c

/-- The number of characters that the symbol `taken` grows by. -/
def growth (taken : List Char) : List Char → Nat
  | [] => 0
  | c :: cs =>
    if Operator.isCompound (String.ofList (taken ++ [c])) then growth (taken ++ [c]) cs + 1 else 0

/-- A sign with no value in front of it is unary; all other operators have the class of their
    own. -/
def operatorClass (afterValue : Bool) (op : Operator) : Operator.Class :=
  if op.isSign && !afterValue then .unary else op.cls

/-- The symbol that the text `c :: cs` begins with. -/
def Scan.symbol (afterValue : Bool) (c : Char) (cs : List Char) : Scan :=
  let n := growth [c] cs
  let text := String.ofList (c :: cs.take n)
  { extra := n
    content := match Operator.ofSpelling? text, Punctuation.ofSpelling? text with
      | some op, _ => .token (.operator (operatorClass afterValue op) op) text
      | none, some p => .token (.punctuation p) text
      | none, none => .fault (.unknownSymbol text) }

end GeoLang.Lexical
