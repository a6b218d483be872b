import GeoLang.Diagnostic
import GeoLang.Grammar.Program
import GeoLang.Lexical.Tokens

namespace GeoLang

/-- How a text is to be analysed. -/
structure AnalysisConfig where
  /-- Comments are kept among the tokens. -/
  keepComments : Bool := false
  /-- A text with lexical errors is still read for its tree. -/
  parseOnLexErrors : Bool := true
deriving DecidableEq, Repr

/-- A source text from its characters to its tree, with everything found on the way. -/
structure Analysis where
  tokens : List Token
  lexErrors : List LexError
  program : Option Program
  parseErrors : List ParseError

namespace Analysis

/-- The tree that the lexed text is read as, unless lexical errors forbid it. -/
def parseLexed (config : AnalysisConfig) (lexed : Lexed) : Parsed :=
  if lexed.errors.isEmpty || config.parseOnLexErrors then .ofTokens lexed.tokens
  else ⟨none, []⟩

/-- The lexer runs first; the parser reads its tokens, unless the configuration stops it at lexical
    errors. -/
def ofSource (config : AnalysisConfig) (source : String) : Analysis :=
  let lexed := Lexed.ofSource config.keepComments source
  let parsed := parseLexed config lexed
  { tokens := lexed.tokens
    lexErrors := lexed.errors
    program := parsed.program
    parseErrors := parsed.errors }

/-- Something is wrong with the text. -/
def hasErrors (a : Analysis) : Bool := !a.lexErrors.isEmpty || !a.parseErrors.isEmpty

/-- All errors, the lexical ones first. -/
def diagnostics (a : Analysis) : List Diagnostic :=
  a.lexErrors.map .lexical ++ a.parseErrors.map .grammatical

/-- The program, if nothing is wrong with it. -/
def errorFreeProgram? (a : Analysis) : Option Program := if a.hasErrors then none else a.program

end Analysis

end GeoLang
