import GeoLang.Number.Shortest
import GeoLang.Source.Span
import GeoLang.Text.Quoted
import GeoLang.Vocabulary.DataType
import GeoLang.Vocabulary.Keyword
import GeoLang.Vocabulary.Operator
import GeoLang.Vocabulary.Punctuation
import GeoLang.Vocabulary.ReservedWord
import GeoLang.Vocabulary.Truth

namespace GeoLang

/-- A value written out in the source. -/
inductive Literal where
  | integer (value : Int)
  | real (value : Binary64)
  | string (value : String)
  | character (value : Char)
  | boolean (value : Bool)
deriving DecidableEq, Repr

namespace Literal

def kind : Literal → LiteralKind
  | integer _ => .integer
  | real _ => .real
  | string _ => .string
  | character _ => .character
  | boolean _ => .boolean

/-- The value as listings and tree outlines show it. -/
def text : Literal → String
  | integer v => toString v
  | real v => v.text
  | string v => Text.quoted v
  | character v => Text.quotedChar v
  | boolean v => Truth.spelling v

end Literal

/-- What a token is. An operator carries a class of its own, because a sign is read as unary unless
    a value stands in front of it. -/
inductive TokenKind where
  | literal (value : Literal)
  | identifier (name : String)
  | keyword (word : Keyword)
  | reserved (word : ReservedWord)
  | dataType (type : DataType)
  | operator (cls : Operator.Class) (op : Operator)
  | punctuation (mark : Punctuation)
  | comment (body : String)
  | eof
deriving DecidableEq, Repr

/-- A token. The lexeme is the source text, except that it is the value of a string or character
    literal and the body of a comment. -/
structure Token where
  kind : TokenKind
  lexeme : String
  span : Span
deriving DecidableEq, Repr

/-- The classes that token tables show. -/
inductive TokenCategory where
  | literal (kind : LiteralKind)
  | identifier
  | keyword
  | reservedWord
  | dataType
  | operator (cls : Operator.Class)
  | lParenthesis
  | rParenthesis
  | lCurly
  | rCurly
  | lBracket
  | rBracket
  | semicolon
  | separatingSymbol
  | accessorSymbol
  | specialSymbol
  | comment
  | eof
deriving DecidableEq, Repr

namespace TokenCategory

/-- Parentheses, braces and brackets have classes of their own; all other marks share theirs. -/
def ofPunctuation : Punctuation → TokenCategory
  | .lParen => lParenthesis
  | .rParen => rParenthesis
  | .lCurly => lCurly
  | .rCurly => rCurly
  | .lBracket => lBracket
  | .rBracket => rBracket
  | .semicolon => semicolon
  | .comma => separatingSymbol
  | .dot => accessorSymbol
  | .colon => specialSymbol
  | .at => specialSymbol
  | .dollar => specialSymbol
  | .backslash => specialSymbol

/-- The class as token tables and messages about tokens name it. -/
def name : TokenCategory → String
  | literal k => k.name
  | identifier => "IDENTIFIER"
  | keyword => "KEYWORD"
  | reservedWord => "RESERVED_WORD"
  | dataType => "DATA_TYPE"
  | operator .assignment => "ASSIGNMENT"
  | operator .arithmetic => "ARITHMETIC"
  | operator .relational => "RELATIONAL"
  | operator .logical => "LOGICAL"
  | operator .bitwise => "BITWISE"
  | operator .unary => "UNARY"
  | lParenthesis => "L_PARENTHESIS"
  | rParenthesis => "R_PARENTHESIS"
  | lCurly => "L_CURLY"
  | rCurly => "R_CURLY"
  | lBracket => "L_BRACKET"
  | rBracket => "R_BRACKET"
  | semicolon => "SEMICOLON"
  | separatingSymbol => "SEPARATING_SYMBOL"
  | accessorSymbol => "ACCESSOR_SYMBOL"
  | specialSymbol => "SPECIAL_SYMBOL"
  | comment => "COMMENT"
  | eof => "EOF"

/-- A sign right behind such a token joins two operands; behind any other token it belongs to the
    operand that follows. -/
def producesValue : TokenCategory → Bool
  | literal _ => true
  | identifier => true
  | reservedWord => true
  | rParenthesis => true
  | rBracket => true
  | _ => false

end TokenCategory

namespace TokenKind

/-- The class of a token of this kind. -/
def category : TokenKind → TokenCategory
  | literal v => .literal v.kind
  | identifier _ => .identifier
  | keyword _ => .keyword
  | reserved _ => .reservedWord
  | dataType _ => .dataType
  | operator cls _ => .operator cls
  | punctuation p => .ofPunctuation p
  | comment _ => .comment
  | eof => .eof

def isComment : TokenKind → Bool
  | comment _ => true
  | _ => false

def isEof : TokenKind → Bool
  | eof => true
  | _ => false

/-- The value, if the kind is that of a literal. -/
def literal? : TokenKind → Option Literal
  | literal v => some v
  | _ => none

/-- The operator of the token, whatever its class. -/
def operator? : TokenKind → Option Operator
  | operator _ op => some op
  | _ => none

/-- The operator of a token of the assignment class. -/
def assignment? : TokenKind → Option Operator
  | operator .assignment op => some op
  | _ => none

/-- The type, if the kind is that of a data type. -/
def dataType? : TokenKind → Option DataType
  | dataType t => some t
  | _ => none

/-- The word, if the kind is that of a reserved word. -/
def reserved? : TokenKind → Option ReservedWord
  | reserved w => some w
  | _ => none

def isKeyword (k : TokenKind) (word : Keyword) : Bool := k == keyword word

def isPunctuation (k : TokenKind) (mark : Punctuation) : Bool := k == punctuation mark

/-- May be a segment of a dotted path: an identifier, a keyword or a reserved word. -/
def isName : TokenKind → Bool
  | identifier _ => true
  | keyword _ => true
  | reserved _ => true
  | _ => false

/-- Statements begin with a data type, an identifier or one of the statement keywords. Only after an
    error is a token judged by this. -/
def startsStatement : TokenKind → Bool
  | dataType _ => true
  | identifier _ => true
  | keyword k => k.startsStatement
  | _ => false

/-- The kind and its content, as token tables show them. -/
def text : TokenKind → String
  | literal v@(.integer _) => "Integer(" ++ v.text ++ ")"
  | literal v@(.real _) => "RealNumber(" ++ v.text ++ ")"
  | literal v@(.string _) => "StringLiteral(" ++ v.text ++ ")"
  | literal v@(.character _) => "CharacterLiteral(" ++ v.text ++ ")"
  | literal v@(.boolean _) => "Boolean(" ++ v.text ++ ")"
  | identifier name => "Identifier(" ++ Text.quoted name ++ ")"
  | keyword k => "Keyword(" ++ k.label ++ ")"
  | reserved w => "ReservedWord(" ++ w.label ++ ")"
  | dataType t => "DataType(" ++ t.label ++ ")"
  | operator cls op => "Operator(" ++ cls.label ++ ", " ++ op.label ++ ")"
  | punctuation p => "Punctuation(" ++ p.label ++ ")"
  | comment body => "Comment(" ++ Text.quoted body ++ ")"
  | eof => "Eof"

end TokenKind

namespace Token

def category (t : Token) : TokenCategory := t.kind.category

/-- The end of the text at `p`. -/
def eofAt (p : Position) : Token := ⟨.eof, "", .empty p⟩

/-- The token as error messages name it. -/
def describe (t : Token) : String :=
  if t.kind.isEof then "EOF" else t.category.name ++ " '" ++ t.lexeme ++ "'"

end Token

end GeoLang
