import GeoLang.Lexical.Comment
import GeoLang.Lexical.Numeral
import GeoLang.Lexical.Quotation
import GeoLang.Lexical.Symbol
import GeoLang.Lexical.Word

namespace GeoLang.Lexical

/-- What stands in front of the text at hand. -/
inductive Lead where
  /-- No value: a sign belongs to the operand that follows. -/
  | operand
  /-- A value: a sign joins it with the operand that follows. -/
  | value
  /-- A name directly in front of a point, which leads to one of its members. -/
  | owner
deriving DecidableEq, Repr

/-- How a segment is to be read, judged by its first characters. -/
inductive Shape where
  | blank
  | writtenBlank
  | comment
  | string
  | character
  | number
  | word
  | point
  | symbol
  | illegal
deriving DecidableEq, Repr

def isBlankChar (c : Char) : Bool :=
  c == ' ' || c == '\t' || c == '\n' || c == '\x0b' || c == '\r'

/-- Behind a backslash these letters spell out a blank. -/
def isBlankLetter (c : Char) : Bool := c == 't' || c == 'n' || c == 'v'

/-- The first character there is one of those asked for. -/
def startsWith (p : Char → Bool) (cs : List Char) : Bool := cs.head?.any p

/-- How the text `c :: cs` begins. -/
def shape (lead : Lead) (c : Char) (cs : List Char) : Shape :=
  if isBlankChar c then .blank
  else if c == '\\' && startsWith isBlankLetter cs then .writtenBlank
  else if c == '#' then .comment
  else if c == '"' then .string
  else if c == '\'' then .character
  else if c.isDigit then .number
  else if c == '.' then
    if lead != .owner && startsWith Char.isDigit cs then .number else .point
  else if isSignChar c && lead == .operand && startsWith Char.isDigit cs then .number
  else if isWordStart c then .word
  else if startsSymbol c then .symbol
  else .illegal

/-- The first segment of the text `c :: cs`. -/
def scan (lead : Lead) (c : Char) (cs : List Char) : Scan :=
  match shape lead c cs with
  | .blank => ⟨0, .blank⟩
  | .writtenBlank => ⟨1, .blank⟩
  | .comment => Scan.comment cs
  | .string => Scan.string cs
  | .character => Scan.character cs
  | .number => Scan.number c cs
  | .word => Scan.word c cs
  | .point => ⟨0, .token (.punctuation .dot) "."⟩
  | .symbol => Scan.symbol (lead == .value) c cs
  | .illegal => ⟨0, .fault (.illegalCharacter c)⟩

/-- What stands in front of `rest` after a token of the kind given. -/
def Lead.afterToken (kind : TokenKind) (rest : List Char) : Lead :=
  if kind.category.producesValue then
    match kind with
    | .identifier _ | .reserved _ => if rest.head? = some '.' then owner else value
    | _ => value
  else operand

/-- Only tokens count: blanks, comments and faulty pieces leave the lead as it is. -/
def Lead.next (lead : Lead) (content : Content) (rest : List Char) : Lead :=
  match content with
  | .token kind _ => afterToken kind rest
  | _ => lead

/-- A piece of a source text: a token, a fault, a comment or a blank. A text falls into segments one
    behind the other and without a gap. -/
structure Segment where
  chars : List Char
  content : Content
deriving DecidableEq, Repr

/-- The segments of a text that stands behind `lead`. -/
def segments (lead : Lead) : List Char → List Segment
  | [] => []
  | c :: cs =>
    let s := scan lead c cs
    let rest := cs.drop s.extra
    ⟨c :: cs.take s.extra, s.content⟩ :: segments (lead.next s.content rest) rest
termination_by cs => cs.length
decreasing_by simp only [List.length_drop, List.length_cons]; omega

/-- Segments leave nothing out and add nothing. -/
theorem flatMap_chars_segments (lead : Lead) (cs : List Char) :
    (segments lead cs).flatMap Segment.chars = cs := by
  fun_induction segments lead cs with
  | case1 => rfl
  | case2 lead c cs s rest ih =>
    simp only [List.flatMap_cons, ih, List.cons_append, rest, List.take_append_drop]

end GeoLang.Lexical
