import GeoLang.Lexical.Scan

namespace GeoLang

/-- What a word is by itself. -/
def TokenKind.ofWord (s : String) : TokenKind :=
  match DataType.ofSpelling? s, Truth.ofSpelling? s, Keyword.ofSpelling? s,
    ReservedWord.ofSpelling? s with
  | some t, _, _, _ => .dataType t
  | none, some b, _, _ => .literal (.boolean b)
  | none, none, some k, _ => .keyword k
  | none, none, none, some w => .reserved w
  | none, none, none, none => .identifier s

/-- What a word is directly in front of a point, where it can only be a name. -/
def TokenKind.ofOwner (s : String) : TokenKind :=
  match ReservedWord.ofSpelling? s with
  | some w => .reserved w
  | none => .identifier s

namespace Lexical

/-- The word that the text `c :: cs` begins with. -/
def Scan.word (c : Char) (cs : List Char) : Scan :=
  let tail := cs.takeWhile isWordChar
  let text := String.ofList (c :: tail)
  let owner := (cs.dropWhile isWordChar).head? = some '.'
  ⟨tail.length, .token (if owner then .ofOwner text else .ofWord text) text⟩

end Lexical

end GeoLang
