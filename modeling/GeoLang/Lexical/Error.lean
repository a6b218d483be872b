import GeoLang.Source.File

namespace GeoLang

/-- What can be wrong with a piece of text. A faulty number or character literal says in its detail
    what exactly is the matter. -/
inductive LexFault where
  | illegalCharacter (c : Char)
  | unclosedString
  | unclosedCharacter (detail : String)
  | invalidNumber (detail : String)
  | unknownSymbol (text : String)
  | unclosedComment
deriving DecidableEq, Repr

namespace LexFault

/-- The fault as reports name it. -/
def name : LexFault → String
  | illegalCharacter _ => "Illegal Character"
  | unclosedString => "Unclosed String Literal"
  | unclosedCharacter _ => "Unclosed Character Literal"
  | invalidNumber _ => "Invalid Number"
  | unknownSymbol _ => "Unknown Symbol"
  | unclosedComment => "Unclosed Comment"

/-- The fault in one sentence. -/
def message : LexFault → String
  | illegalCharacter c => "'" ++ String.singleton c ++ "' is not allowed."
  | unclosedString => "String literal was not closed."
  | unclosedCharacter detail => detail
  | invalidNumber detail => detail
  | unknownSymbol text => "Unknown symbol '" ++ text ++ "'"
  | unclosedComment => "Comment was not closed."

/-- The stable code by which tools refer to the fault. -/
def code : LexFault → String
  | illegalCharacter _ => "tanglaw::lex::illegal_character"
  | unclosedString => "tanglaw::lex::unclosed_string"
  | unclosedCharacter _ => "tanglaw::lex::unclosed_character_literal"
  | invalidNumber _ => "tanglaw::lex::invalid_number"
  | unknownSymbol _ => "tanglaw::lex::unknown_symbol"
  | unclosedComment => "tanglaw::lex::unclosed_comment"

end LexFault

/-- What is wrong with a piece of the source text, and where it stands. -/
structure LexError where
  fault : LexFault
  span : Span
deriving DecidableEq, Repr

end GeoLang
