import GeoLang.Lexical.Error
import GeoLang.Token.Basic

namespace GeoLang.Lexical

/-- What a piece of text is. -/
inductive Content where
  | blank
  | comment (body : String)
  | token (kind : TokenKind) (lexeme : String)
  | fault (fault : LexFault)
deriving DecidableEq, Repr

/-- The piece consists of the character at hand and the `extra` characters behind it. -/
structure Scan where
  extra : Nat
  content : Content
deriving DecidableEq, Repr

/-- Words begin with a letter or an underscore. Letters are those of ASCII. -/
def isWordStart (c : Char) : Bool := c.isAlpha || c == '_'

/-- Words go on with letters, digits and underscores. -/
def isWordChar (c : Char) : Bool := c.isAlphanum || c == '_'

end GeoLang.Lexical
