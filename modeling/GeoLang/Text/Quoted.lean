import GeoLang.Text.DefaultIgnorable
import GeoLang.Text.GraphemeExtend
import GeoLang.Text.Printable

namespace GeoLang.Text

/-- The two halfwidth sound marks attach in meaning only: each fills a place of its own. -/
def isHalfwidthSoundMark (c : Char) : Bool := c == '\uff9e' || c == '\uff9f'

/-- Written by its number: the character is unprintable, leaves no mark, or is drawn onto the one in
    front of it. -/
def needsNumber (c : Char) : Bool :=
  !isPrintable c || isDefaultIgnorable c || (isGraphemeExtend c && !isHalfwidthSoundMark c)

/-- One character inside the quote `quote`. -/
def escape (quote c : Char) : List Char :=
  if c == quote then ['\\', quote]
  else match c with
    | '\\' => ['\\', '\\']
    | '\x00' => ['\\', '0']
    | '\t' => ['\\', 't']
    | '\r' => ['\\', 'r']
    | '\n' => ['\\', 'n']
    | c =>
      if needsNumber c then
        ['\\', 'u', '\x7b'] ++ Nat.toDigits 16 c.toNat ++ ['\x7d']
      else [c]

/-- The characters in quotes. A character that cannot be seen by itself is written by its number,
    and the quote, the backslash and the controls with a letter of their own with a backslash. -/
def quotedWith (quote : Char) (cs : List Char) : String :=
  String.ofList (quote :: cs.flatMap (escape quote) ++ [quote])

/-- A string in double quotes; a single quote stands as it is. -/
def quoted (s : String) : String := quotedWith '"' s.toList

/-- A character in single quotes; a double quote stands as it is. -/
def quotedChar (c : Char) : String := quotedWith '\'' [c]

end GeoLang.Text
