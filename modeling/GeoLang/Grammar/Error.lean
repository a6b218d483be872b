import GeoLang.Token.Basic

namespace GeoLang

/-- What a rule looks for at the current token. -/
inductive Expectation where
  | keyword (word : Keyword)
  | arguments
  | header (word : Keyword)
  | outputHeader
  | terminator
  | afterInitializer
  | afterCondition
  | placeholderEnd
  | blockStart
  | blockEnd
  | template
  | identifier
  | member
  | expression
  | assignmentOperator
  | update
  | unit
deriving DecidableEq, Repr

/-- What was expected, as messages word it. -/
def Expectation.text : Expectation → String
  | keyword word => "'" ++ word.spelling ++ "'"
  | arguments => "'('"
  | header word => "'(' after '" ++ word.spelling ++ "'"
  | outputHeader => "'(' after the output keyword"
  | terminator => "';'"
  | afterInitializer => "';' after the loop initializer"
  | afterCondition => "';' after the loop condition"
  | placeholderEnd => "'\x7d' after the placeholder"
  | blockStart => "'\x7b'"
  | blockEnd => "'\x7d' to close the block"
  | template => "a string literal"
  | identifier => "an identifier"
  | member => "a member name after '.'"
  | expression => "an expression"
  | assignmentOperator => "an assignment operator"
  | update => "'++', '--' or an assignment operator"
  | unit => "a unit after 'sq'"

/-- An error in a sequence of tokens. A literal of the wrong kind and a wrong number of arguments
    leave the statement intact; the others make its rule fail. -/
inductive ParseError where
  | unexpectedToken (expected found : String) (span : Span)
  | missingClosingParenthesis (span : Span)
  | typeMismatch (declared : DataType) (found : LiteralKind) (span : Span)
  | noTokens
  | argumentCount (form : ReservedWord) (expected : String) (found : Nat) (span : Span)
  | nestingTooDeep (limit : Nat) (span : Span)
deriving DecidableEq, Repr

namespace ParseError

/-- The error as reports name it. -/
def name : ParseError → String
  | unexpectedToken _ _ _ => "Unexpected Token"
  | missingClosingParenthesis _ => "Missing Closing Parenthesis"
  | typeMismatch _ _ _ => "Type Mismatch"
  | noTokens => "No Tokens"
  | argumentCount _ _ _ _ => "Argument Count"
  | nestingTooDeep _ _ => "Nesting Too Deep"

/-- The error in one sentence. -/
def message : ParseError → String
  | unexpectedToken expected found _ => "Expected " ++ expected ++ ", found " ++ found
  | missingClosingParenthesis _ => "Expected closing parenthesis."
  | typeMismatch declared found _ =>
    "Cannot initialise a '" ++ declared.spelling ++ "' variable with a " ++ found.name ++ " literal."
  | noTokens => "No tokens to parse."
  | argumentCount form expected found _ =>
    "'" ++ form.spelling ++ "' expects " ++ expected ++ " argument(s), found " ++ toString found ++ "."
  | nestingTooDeep limit _ => "Nesting exceeds the maximum depth of " ++ toString limit ++ "."

/-- Where the error is; only an empty sequence of tokens has no place for one. -/
def span? : ParseError → Option Span
  | unexpectedToken _ _ s => some s
  | missingClosingParenthesis s => some s
  | typeMismatch _ _ s => some s
  | noTokens => none
  | argumentCount _ _ _ s => some s
  | nestingTooDeep _ s => some s

/-- The stable code by which tools refer to the error. -/
def code : ParseError → String
  | unexpectedToken _ _ _ => "tanglaw::parse::unexpected_token"
  | missingClosingParenthesis _ => "tanglaw::parse::missing_closing_parenthesis"
  | typeMismatch _ _ _ => "tanglaw::parse::type_mismatch"
  | noTokens => "tanglaw::parse::no_tokens"
  | argumentCount _ _ _ _ => "tanglaw::parse::argument_count"
  | nestingTooDeep _ _ => "tanglaw::parse::nesting_too_deep"

/-- Advice on how to mend the error. -/
def help? : ParseError → Option String
  | typeMismatch declared _ _ =>
    some ("change the declared type or use a literal that fits '" ++ declared.spelling ++ "'")
  | missingClosingParenthesis _ => some "add the missing ')'"
  | _ => none

/-- The error made the rule of a statement fail. -/
def isSyntactic : ParseError → Bool
  | unexpectedToken _ _ _ => true
  | missingClosingParenthesis _ => true
  | nestingTooDeep _ _ => true
  | _ => false

end ParseError

end GeoLang
