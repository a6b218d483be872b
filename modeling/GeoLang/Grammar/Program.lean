import GeoLang.Grammar.Statement

namespace GeoLang

/-- What a list of tokens gives: a program, which is partial if there are errors, and the errors.
    Only an empty list gives no program. -/
structure Parsed where
  program : Option Program
  errors : List ParseError

namespace Grammar

/-- For `many`: the text goes on. -/
def insideProgram (t : Token) : Option Unit := if t.kind.isEof then none else some ()

/-- Statements up to the end of the text; one that fails is left out. -/
def program : Rule Program := do
  let statements ← many insideProgram fun _ => recovering (statement maxNesting)
  pure ⟨statements.reduceOption⟩

/-- The tokens that rules read: those before the first end of the text, without the comments. -/
def code (tokens : List Token) : List Token :=
  (tokens.takeWhile (!·.kind.isEof)).filter (!·.kind.isComment)

/-- The end of the text of a list whose last token is `last`. -/
def endOfText (tokens : List Token) (last : Token) : Token :=
  (tokens.find? (·.kind.isEof)).getD (.eofAt last.span.stop)

/-- In front of the first token of a list whose last token is `last`. -/
def Cursor.ofTokens (tokens : List Token) (last : Token) : Cursor :=
  ⟨none, code tokens, endOfText tokens last⟩

end Grammar

/-- Reads a list of tokens. -/
def Parsed.ofTokens (tokens : List Token) : Parsed :=
  match tokens.getLast? with
  | none => ⟨none, [.noTokens]⟩
  | some last =>
    let x := Grammar.program (Grammar.Cursor.ofTokens tokens last)
    ⟨x.result.toOption, x.errors⟩

end GeoLang
