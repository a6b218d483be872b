import GeoLang.Lexical.Scan

namespace GeoLang.Lexical

/-- The character that `c` stands for behind a backslash. -/
def unescape (c : Char) : Char :=
  match c with
  | 'n' => '\n'
  | 't' => '\t'
  | c => c

/-- The value of the string whose text behind the opening quote is given, and the number of
    characters up to and with the closing quote; none if no quote closes it. -/
def readString? : List Char → Option (List Char × Nat)
  | [] => none
  | ['\\'] => none
  | '"' :: _ => some ([], 1)
  | '\\' :: c :: cs => (readString? cs).map fun (v, n) => (unescape c :: v, n + 2)
  | c :: cs => (readString? cs).map fun (v, n) => (c :: v, n + 1)

/-- The string whose opening quote stands in front of `cs`. One that is not closed takes all of
    `cs`. -/
def Scan.string (cs : List Char) : Scan :=
  match readString? cs with
  | some (v, n) => ⟨n, .token (.literal (.string (String.ofList v))) (String.ofList v)⟩
  | none => ⟨cs.length, .fault .unclosedString⟩

/-- What is wrong with a character literal. -/
inductive CharacterFault where
  | empty
  | lineEnd
  | loneBackslash
  | overlong (content : List Char)
  | unclosed (value : Char)
deriving DecidableEq, Repr

/-- What is wrong with the characters behind the quote, as messages word it. -/
def CharacterFault.describe : CharacterFault → String
  | empty => "Character literal is empty. A character literal must contain exactly one character."
  | lineEnd => "Unclosed character literal."
  | loneBackslash => "Unclosed character literal starting with '\\'."
  | overlong content => "Character literal '" ++ String.ofList content
      ++ "' is invalid. A character literal must contain exactly one character."
  | unclosed value => "Unclosed character literal starting with '" ++ String.singleton value ++ "'."

/-- A character literal with a fault. -/
def Scan.faultyCharacter (extra : Nat) (f : CharacterFault) : Scan :=
  ⟨extra, .fault (.unclosedCharacter f.describe)⟩

/-- A character literal after its value, for which `taken` characters stand behind the opening
    quote; `cs` follow. If another quote follows on the same line, the literal goes up to that quote
    and is too long; otherwise it ends at once. -/
def Scan.closeCharacter (value : Char) (taken : Nat) (cs : List Char) : Scan :=
  match cs with
  | '\'' :: _ => ⟨taken + 1, .token (.literal (.character value)) (String.singleton value)⟩
  | _ =>
    if '\'' ∈ cs.takeWhile (· != '\n') then
      let more := cs.takeWhile (· != '\'')
      Scan.faultyCharacter (taken + more.length + 1) (.overlong (value :: more))
    else Scan.faultyCharacter taken (.unclosed value)

/-- The character literal whose opening quote stands in front of the text. -/
def Scan.character : List Char → Scan
  | [] => Scan.faultyCharacter 0 .empty
  | '\'' :: _ => Scan.faultyCharacter 1 .empty
  | '\n' :: _ => Scan.faultyCharacter 0 .lineEnd
  | ['\\'] => Scan.faultyCharacter 1 .loneBackslash
  | '\\' :: c :: cs => Scan.closeCharacter (unescape c) 2 cs
  | c :: cs => Scan.closeCharacter c 1 cs

end GeoLang.Lexical
