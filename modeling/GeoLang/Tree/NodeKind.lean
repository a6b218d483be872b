import GeoLang.Tree.Statement

namespace GeoLang

/-- The kinds of node that an outline names. -/
inductive NodeKind where
  | program
  | variableDeclaration
  | declarator
  | assignment
  | conditionalStatement
  | ifClause
  | block
  | whileLoop
  | forLoop
  | repeatLoop
  | outputStatement
  | inputStatement
  | functionCall
  | binaryOp
  | logicalOp
  | unaryOp
  | literal
  | identifier
  | memberAccess
  | unitSpecifier
  | reserved (form : ReservedWord.Form)
deriving DecidableEq, Repr

/-- The kind as the outline names it. -/
def NodeKind.name : NodeKind → String
  | program => "Program"
  | variableDeclaration => "VariableDeclaration"
  | declarator => "Declarator"
  | assignment => "Assignment"
  | conditionalStatement => "ConditionalStatement"
  | ifClause => "IfClause"
  | block => "Block"
  | whileLoop => "WhileLoop"
  | forLoop => "ForLoop"
  | repeatLoop => "RepeatLoop"
  | outputStatement => "OutputStatement"
  | inputStatement => "InputStatement"
  | functionCall => "FunctionCall"
  | binaryOp => "BinaryOp"
  | logicalOp => "LogicalOp"
  | unaryOp => "UnaryOp"
  | literal => "Literal"
  | identifier => "Identifier"
  | memberAccess => "MemberAccess"
  | unitSpecifier => "UnitSpecifier"
  | reserved .geometricCalculation => "GeometricCalculation"
  | reserved .shape => "Shape"
  | reserved .measurement => "Measurement"
  | reserved .unit => "Unit"
  | reserved .fetch => "FetchOperation"
  | reserved .setPrecision => "SetPrecision"
  | reserved .cubic => "CubicOperation"

/-- A path of one name is an identifier, and a longer one a member access. -/
def Path.kind (p : Path) : NodeKind := if p.members = [] then .identifier else .memberAccess

/-- The operator that joins two truth values makes a logical node. -/
def Operator.nodeKind (op : Operator) : NodeKind :=
  if op.cls = .logical then .logicalOp else .binaryOp

/-- The kind of an expression; parentheses have that of what they enclose. -/
def Expr.kind : Expr → NodeKind
  | literal _ _ => .literal
  | path p => p.kind
  | binary _ op _ _ => op.nodeKind
  | unary _ _ _ => .unaryOp
  | post _ _ _ => .unaryOp
  | call _ _ _ => .functionCall
  | grouped inner _ => inner.kind
  | reserved word _ _ => .reserved word.form

/-- A statement that is only an expression has the kind of the expression. -/
def Simple.kind : Simple → NodeKind
  | assignment _ _ _ _ => .assignment
  | call _ _ _ => .functionCall
  | expression e => e.kind

/-- The kind of the node that stands for the statement in an outline. -/
def Statement.kind : Statement → NodeKind
  | declaration _ => .variableDeclaration
  | simple s => s.kind
  | conditional _ => .conditionalStatement
  | whileLoop _ _ _ => .whileLoop
  | forLoop _ _ _ _ _ => .forLoop
  | repeatLoop _ _ _ => .repeatLoop
  | output _ _ _ _ => .outputStatement
  | input _ => .inputStatement

end GeoLang
