import GeoLang.Grammar.Path

namespace GeoLang

/-- The levels of nesting that a statement may use. -/
def maxNesting : Nat := 128

/-- The strength that an operator asks of its right operand: more than its own if it joins to the
    left. -/
def Operator.rightStrength (op : Operator) (strength : Nat) : Nat :=
  match op.associativity with
  | .left => strength + 1
  | .right => strength

/-- One more operand joined to an expression. -/
def Expr.join (lhs : Expr) (link : Operator × Expr) : Expr :=
  .binary lhs link.1 link.2 (lhs.span.merge link.2.span)

namespace Grammar

/-- For a rule that is entered with no level of nesting left. -/
def tooDeep {α : Type} : Rule α := do
  let t ← peek
  fail (.nestingTooDeep maxNesting t.span)

/-- The operator at the token with its strength, if it joins operands at least as tightly as
    `least`. -/
def jointAt (least : Nat) (t : Token) : Option (Operator × Nat) :=
  match t.kind.operator? with
  | some op =>
    match op.strength? with
    | some strength => if least ≤ strength then some (op, strength) else none
    | none => none
  | none => none

/-- An operator and the operand on its right. -/
def link (operand : Nat → Rule Expr) (joint : Operator × Nat) : Rule (Operator × Expr) := do
  advance
  let rhs ← operand (joint.1.rightStrength joint.2)
  pure (joint.1, rhs)

/-- Operands joined by operators of strength `least` or more, from the left. -/
def binaryRule (factor : Rule Expr) (operand : Nat → Rule Expr) (least : Nat) : Rule Expr := do
  let lhs ← factor
  let links ← many (jointAt least) (link operand)
  pure (links.foldl Expr.join lhs)

/-- Another argument behind a comma. -/
def argument (expression : Rule Expr) : Rule Expr := do
  advance
  expression

/-- Expressions in parentheses, with commas between them. -/
def arguments (expression : Rule Expr) : Rule (List Expr) := do
  let _ ← mark .lParen .arguments
  let t ← peek
  if t.kind.isPunctuation .rParen then
    let _ ← closeParenthesis
    pure []
  else
    let first ← expression
    let others ← many (markAt .comma) fun _ => argument expression
    let _ ← closeParenthesis
    pure (first :: others)

/-- Notes a number of arguments that the word does not take. -/
def checkArity (word : ReservedWord) (args : List Expr) (span : Span) : Rule Unit :=
  if word.arity.admits args.length then pure ()
  else note (.argumentCount word word.arity.text args.length span)

/-- A reserved word applied to arguments. -/
def reservedCall (expression : Rule Expr) (word : ReservedWord) (start : Span) : Rule Expr := do
  advance
  let args ← arguments expression
  let span ← spanSince start
  checkArity word args span
  pure (.reserved word args span)

/-- A path, a call of it, or a step behind it. -/
def pathExpression (expression : Rule Expr) : Rule Expr := do
  let p ← path
  let t ← peek
  match t.kind with
  | .punctuation .lParen =>
    let args ← arguments expression
    let span ← spanSince p.span
    pure (.call p args span)
  | .operator _ op =>
    if op.isStep then
      advance
      let span ← spanSince p.span
      pure (.post op p span)
    else pure (.path p)
  | _ => pure (.path p)

/-- An operand of an operator. -/
def factorRule (factor expression : Rule Expr) : Rule Expr := do
  let t ← peek
  match t.kind with
  | .operator _ op =>
    if op.leads then
      advance
      let operand ← factor
      let span ← spanSince t.span
      pure (.unary op operand span)
    else unexpected .expression
  | .literal v =>
    advance
    pure (.literal v t.span)
  | .punctuation .lParen =>
    advance
    let inner ← expression
    let _ ← closeParenthesis
    let span ← spanSince t.span
    pure (.grouped inner span)
  | .reserved word =>
    let u ← peekSecond
    if u.kind.isPunctuation .lParen then reservedCall expression word t.span
    else pathExpression expression
  | .identifier _ => pathExpression expression
  | .keyword _ => pathExpression expression
  | _ => unexpected .expression

mutual

/-- Operands joined by operators of the strength given or more. -/
def binary : (budget : Nat) → (least : Nat) → Rule Expr
  | 0, _ => tooDeep
  | n + 1, least => binaryRule (factor n) (binary n) least

/-- A single operand. Each rule that is entered uses up one level of the nesting allowed, and none
    may be entered when it is used up. -/
def factor : (budget : Nat) → Rule Expr
  | 0 => tooDeep
  | n + 1 => factorRule (factor n) (binary n 1)

end

/-- An expression is a row of operands that may be joined with any strength. -/
def expression (budget : Nat) : Rule Expr := binary budget 1

end Grammar

end GeoLang
