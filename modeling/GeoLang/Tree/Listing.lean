import GeoLang.Tree.NodeKind

namespace GeoLang

/-- What a row says about its node besides its name. -/
inductive RowDetail where
  | nothing
  | text (s : String)
  | texts (ss : List String)
  | pair (a b : String)
  | marked (s : String) (mark : Bool)
  | output (newline : Bool) (template : String)
deriving DecidableEq, Repr

/-- One node. Parts of a statement that are no statement or expression have no kind. -/
structure Row where
  depth : Nat
  name : String
  kind : Option NodeKind
  detail : RowDetail
  span : Span
deriving DecidableEq, Repr

/-- A path is one row, with all of its names. -/
def Path.row (depth : Nat) (p : Path) : Row :=
  if p.members = [] then ⟨depth, "Identifier", some p.kind, .text p.head, p.span⟩
  else ⟨depth, "MemberAccess", some p.kind, .texts p.segments, p.span⟩

mutual

/-- The row of an expression, and below it those of its operands or arguments, one deeper. -/
def Expr.rows (depth : Nat) : Expr → List Row
  | .literal v s => [⟨depth, "Literal", some .literal, .pair v.kind.name v.text, s⟩]
  | .path p => [p.row depth]
  | .binary lhs op rhs s =>
    ⟨depth, if op.cls = .logical then "Logical" else "Binary", some op.nodeKind,
      .text op.spelling, s⟩ :: lhs.rows (depth + 1) ++ rhs.rows (depth + 1)
  | .unary op operand s =>
    ⟨depth, "Unary", some .unaryOp, .marked op.spelling false, s⟩ :: operand.rows (depth + 1)
  | .post op operand s =>
    [⟨depth, "Unary", some .unaryOp, .marked op.spelling true, s⟩, operand.row (depth + 1)]
  | .call callee args s =>
    ⟨depth, "Call", some .functionCall, .nothing, s⟩ :: callee.row (depth + 1)
      :: Expr.rowsOf (depth + 1) args
  | .grouped inner s =>
    ⟨depth, "Grouped", some inner.kind, .nothing, s⟩ :: inner.rows (depth + 1)
  | .reserved word args s =>
    ⟨depth, "Reserved", some (.reserved word.form), .pair word.form.label word.spelling, s⟩
      :: Expr.rowsOf (depth + 1) args

/-- The rows of expressions that stand beside one another. -/
def Expr.rowsOf (depth : Nat) : List Expr → List Row
  | [] => []
  | e :: es => e.rows depth ++ Expr.rowsOf depth es

end

def UnitSpecifier.row (depth : Nat) (u : UnitSpecifier) : Row :=
  ⟨depth, "UnitSpecifier", none, .marked u.unit.spelling u.squared, u.span⟩

/-- The row of a name that is declared, with its unit and its first value below it. -/
def Declarator.rows (depth : Nat) (d : Declarator) : List Row :=
  ⟨depth, "Declarator", none, .text d.name, d.span⟩ :: (d.unit.map (·.row (depth + 1))).toList
    ++ (d.initializer.map (·.rows (depth + 1))).getD []

/-- The row of a declaration, with those of its declarators below it. -/
def Declaration.rows (depth : Nat) (d : Declaration) : List Row :=
  ⟨depth, "VariableDeclaration", some .variableDeclaration, .text d.type.spelling, d.span⟩
    :: d.declarators.flatMap (·.rows (depth + 1))

/-- An assignment and a call have rows of their own; an expression has the rows it has anywhere. -/
def Simple.rows (depth : Nat) : Simple → List Row
  | assignment target op value s =>
    ⟨depth, "Assignment", some .assignment, .text op.spelling, s⟩ :: target.row (depth + 1)
      :: value.rows (depth + 1)
  | call callee args s =>
    ⟨depth, "CallStatement", some .functionCall, .nothing, s⟩ :: callee.row (depth + 1)
      :: Expr.rowsOf (depth + 1) args
  | expression e =>
    ⟨depth, "ExpressionStatement", some e.kind, .nothing, e.span⟩ :: e.rows (depth + 1)

def ForInit.rows (depth : Nat) : ForInit → List Row
  | declaration d => d.rows depth
  | simple s => s.rows depth

mutual

/-- The row of a statement, and below it those of its parts in the order of the text. -/
def Statement.rows (depth : Nat) : Statement → List Row
  | .declaration d => d.rows depth
  | .simple s => s.rows depth
  | .conditional c =>
    ⟨depth, "Conditional", some .conditionalStatement, .nothing, c.span⟩ :: c.rows (depth + 1)
  | .whileLoop condition body s =>
    ⟨depth, "While", some .whileLoop, .nothing, s⟩ :: condition.rows (depth + 1)
      ++ body.rows (depth + 1)
  | .forLoop init condition update body s =>
    ⟨depth, "For", some .forLoop, .nothing, s⟩ :: init.rows (depth + 1)
      ++ condition.rows (depth + 1) ++ update.rows (depth + 1) ++ body.rows (depth + 1)
  | .repeatLoop count body s =>
    ⟨depth, "Repeat", some .repeatLoop, .nothing, s⟩ :: count.rows (depth + 1)
      ++ body.rows (depth + 1)
  | .output newline template placeholders s =>
    ⟨depth, "Output", some .outputStatement, .output newline template, s⟩
      :: placeholders.map (·.row (depth + 1))
  | .input s => [⟨depth, "Input", some .inputStatement, .nothing, s⟩]

/-- The rows of statements that stand beside one another. -/
def Statement.rowsOf (depth : Nat) : List Statement → List Row
  | [] => []
  | s :: ss => s.rows depth ++ Statement.rowsOf depth ss

/-- The row of a block, with those of its statements below it. -/
def Block.rows (depth : Nat) : Block → List Row
  | .mk statements s =>
    ⟨depth, "Block", none, .nothing, s⟩ :: Statement.rowsOf (depth + 1) statements

/-- The rows of the clauses of a conditional, the first of them at `depth`. -/
def Conditional.rows (depth : Nat) : Conditional → List Row
  | .mk condition block clause otherwise _ =>
    ⟨depth, "IfClause", none, .nothing, clause⟩ :: condition.rows (depth + 1)
      ++ block.rows (depth + 1) ++ otherwise.rows depth

/-- A conditional behind `else` has a row of its own, in the place of a block. -/
def Otherwise.rows (depth : Nat) : Otherwise → List Row
  | .nothing => []
  | .block b => b.rows depth
  | .conditional c => ⟨depth, "ElseIf", none, .nothing, c.span⟩ :: c.rows (depth + 1)

end

/-- The listing of a program: a node before its parts. Unlike an outline it shows parentheses and
    spans. -/
def Program.rows (p : Program) : List Row := Statement.rowsOf 0 p.statements

end GeoLang
