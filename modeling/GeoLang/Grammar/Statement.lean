import GeoLang.Grammar.Declaration
import GeoLang.Grammar.Recovery

namespace GeoLang.Grammar

/-- A path, an assignment operator and an expression. -/
def assignment (expression : Rule Expr) : Rule Simple := do
  let target ← path
  let t ← peek
  match t.kind.assignment? with
  | some op =>
    advance
    let value ← expression
    pure (.assignment target op value (target.span.merge value.span))
  | none => unexpected .assignmentOperator

/-- An assignment, a call or another expression, without the semicolon behind it. -/
def simple (expression : Rule Expr) : Rule Simple := do
  if ← atAssignment then assignment expression
  else
    let e ← expression
    pure (.ofExpr e)

/-- `++` or `--` at the token. -/
def stepAt (t : Token) : Option Operator := t.kind.operator?.filter Operator.isStep

/-- A step behind a path. -/
def postStep : Rule Simple := do
  let t ← peek
  let operand ← path
  let u ← peek
  match stepAt u with
  | some op =>
    advance
    let span ← spanSince t.span
    pure (.expression (.post op operand span))
  | none => unexpected .update

/-- What the header of a `for` loop does after each round: a step or an assignment. -/
def update (expression : Rule Expr) : Rule Simple := do
  let t ← peek
  match stepAt t with
  | some op =>
    advance
    let operand ← path
    let span ← spanSince t.span
    pure (.expression (.unary op (.path operand) span))
  | none => if ← atAssignment then assignment expression else postStep

/-- What the header of a `for` loop begins with. -/
def forInit (expression : Rule Expr) : Rule ForInit := do
  let t ← peek
  match t.kind with
  | .dataType type =>
    let d ← declaration expression false type
    pure (.declaration d)
  | _ =>
    let s ← simple expression
    pure (.simple s)

/-- `while`, a condition in parentheses and a block. -/
def whileLoop (expression : Rule Expr) (block : Rule Block) : Rule Statement := do
  let start ← keyword .whileKw
  let _ ← mark .lParen (.header .whileKw)
  let condition ← expression
  let _ ← closeParenthesis
  let body ← block
  let span ← spanSince start
  pure (.whileLoop condition body span)

/-- `for`, its three parts in parentheses and a block. Any expression will do for the first part. -/
def forLoop (expression : Rule Expr) (block : Rule Block) : Rule Statement := do
  let start ← keyword .forKw
  let _ ← mark .lParen (.header .forKw)
  let init ← forInit expression
  let _ ← mark .semicolon .afterInitializer
  let condition ← expression
  let _ ← mark .semicolon .afterCondition
  let change ← update expression
  let _ ← closeParenthesis
  let body ← block
  let span ← spanSince start
  pure (.forLoop init condition change body span)

/-- `repeat`, a count, `times` and a block. -/
def repeatLoop (expression : Rule Expr) (block : Rule Block) : Rule Statement := do
  let start ← keyword .repeatKw
  let count ← expression
  let _ ← keyword .timesKw
  let body ← block
  let span ← spanSince start
  pure (.repeatLoop count body span)

/-- The text of an output statement. -/
def template : Rule String := do
  let t ← peek
  match t.kind with
  | .literal (.string s) =>
    advance
    pure s
  | _ => unexpected .template

/-- A path in braces. -/
def placeholder : Rule Path := do
  advance
  let p ← path
  let _ ← mark .rCurly .placeholderEnd
  pure p

/-- A text and the paths in braces that fill it in, in parentheses. -/
def output (newline : Bool) : Rule Statement := do
  let t ← peek
  advance
  let _ ← mark .lParen .outputHeader
  let text ← template
  let placeholders ← many (markAt .lCurly) fun _ => placeholder
  let _ ← closeParenthesis
  let _ ← mark .semicolon .terminator
  let span ← spanSince t.span
  pure (.output newline text placeholders span)

/-- The input statement, which has nothing in its parentheses. -/
def input : Rule Statement := do
  let start ← keyword .inputKw
  let _ ← mark .lParen (.header .inputKw)
  let _ ← closeParenthesis
  let _ ← mark .semicolon .terminator
  let span ← spanSince start
  pure (.input span)

/-- An assignment or an expression with a semicolon behind it. -/
def terminatedSimple (expression : Rule Expr) : Rule Statement := do
  let s ← simple expression
  let _ ← mark .semicolon .terminator
  pure (.simple s)

/-- The first token decides which kind of statement is read. -/
def statementRule (expression : Rule Expr) (conditional : Rule Conditional) (block : Rule Block) :
    Rule Statement := do
  let t ← peek
  match t.kind with
  | .dataType type =>
    let d ← declaration expression true type
    pure (.declaration d)
  | .keyword .ifKw =>
    let c ← conditional
    pure (.conditional c)
  | .keyword .whileKw => whileLoop expression block
  | .keyword .forKw => forLoop expression block
  | .keyword .repeatKw => repeatLoop expression block
  | .keyword .printKw => output false
  | .keyword .printlnKw => output true
  | .keyword .inputKw => input
  | _ => terminatedSimple expression

/-- What follows the block of a conditional. -/
def otherwiseRule (conditional : Rule Conditional) (block : Rule Block) : Rule Otherwise := do
  let t ← peek
  if t.kind.isKeyword .elseKw then
    advance
    let u ← peek
    if u.kind.isKeyword .ifKw then
      let c ← conditional
      pure (.conditional c)
    else
      let b ← block
      pure (.block b)
  else pure .nothing

/-- `if`, a condition in parentheses and a block, with whatever follows `else`. -/
def conditionalRule (expression : Rule Expr) (conditional : Rule Conditional) (block : Rule Block) :
    Rule Conditional := do
  let start ← keyword .ifKw
  let _ ← mark .lParen (.header .ifKw)
  let condition ← expression
  let _ ← closeParenthesis
  let body ← block
  let clause ← spanSince start
  let otherwise ← otherwiseRule conditional block
  let span ← spanSince start
  pure (.mk condition body clause otherwise span)

/-- For `many`: the current token neither ends a block nor the text. -/
def insideBlock (t : Token) : Option Unit :=
  if t.kind.isPunctuation .rCurly || t.kind.isEof then none else some ()

/-- Attempts at statements in braces; those that failed leave no statement behind. -/
def blockRule (statement : Rule Statement) : Rule Block := do
  let start ← mark .lCurly .blockStart
  let statements ← many insideBlock fun _ => recovering statement
  let _ ← mark .rCurly .blockEnd
  let span ← spanSince start
  pure (.mk statements.reduceOption span)

mutual

/-- A statement. Like expressions, statements, conditionals and blocks use up levels of nesting. -/
def statement : (budget : Nat) → Rule Statement
  | 0 => tooDeep
  | n + 1 => statementRule (expression n) (conditional n) (block n)

/-- A conditional from its `if` on. -/
def conditional : (budget : Nat) → Rule Conditional
  | 0 => tooDeep
  | n + 1 => conditionalRule (expression n) (conditional n) (block n)

/-- Statements in braces; one that fails is left out. -/
def block : (budget : Nat) → Rule Block
  | 0 => tooDeep
  | n + 1 => blockRule (statement n)

end

end GeoLang.Grammar
