import GeoLang.Tree.NodeKind

namespace GeoLang

/-- A line of an outline with the lines below it. -/
inductive Outline where
  | node (kind : NodeKind) (value : Option String) (children : List Outline)
deriving Repr

namespace Outline

/-- A node without children. -/
def leaf (kind : NodeKind) (value : Option String) : Outline := node kind value []

/-- One line: the indentation of its level, the branch, and the node. -/
def line (level : Nat) (last : Bool) (kind : NodeKind) (value : Option String) : String :=
  String.join (List.replicate level "    ") ++ (if last then "└── " else "├── ") ++ kind.name
    ++ (match value with
      | some v => ": " ++ v
      | none => "") ++ "\n"

mutual

/-- The lines of an outline; `last` says that nothing follows on its level. -/
def lines (level : Nat) (last : Bool) : Outline → List String
  | node kind value children => line level last kind value :: linesBelow (level + 1) children

/-- The lines of the children, the last of which is drawn with a corner. -/
def linesBelow (level : Nat) : List Outline → List String
  | [] => []
  | o :: os => lines level os.isEmpty o ++ linesBelow level os

end

/-- The outline as it is printed, one node a line. -/
def text (o : Outline) : String := String.join (o.lines 0 true)

end Outline

/-- A path is a leaf with its names in one text. -/
def Path.outline (p : Path) : Outline := .leaf p.kind (some p.text)

mutual

/-- The outline of an expression. Parentheses leave no trace in it. -/
def Expr.outline : Expr → Outline
  | .literal v _ => .leaf .literal (some v.text)
  | .path p => p.outline
  | .binary lhs op rhs _ => .node op.nodeKind (some op.spelling) [lhs.outline, rhs.outline]
  | .unary op operand _ => .node .unaryOp (some op.spelling) [operand.outline]
  | .post op operand _ => .node .unaryOp (some (op.spelling ++ " (postfix)")) [operand.outline]
  | .call callee args _ => .node .functionCall (some callee.text) (Expr.outlines args)
  | .grouped inner _ => inner.outline
  | .reserved word args _ =>
    .node (.reserved word.form) (some word.spelling) (Expr.outlines args)

def Expr.outlines : List Expr → List Outline
  | [] => []
  | e :: es => e.outline :: Expr.outlines es

end

/-- The unit as it is written behind a name, with `sq` in front if it is squared. -/
def UnitSpecifier.text (u : UnitSpecifier) : String :=
  if u.squared then "sq " ++ u.unit.spelling else u.unit.spelling

/-- The unit and the first value stand below the name that is declared. -/
def Declarator.outline (d : Declarator) : Outline :=
  .node .declarator (some d.name)
    ((d.unit.map fun u => Outline.leaf .unitSpecifier (some u.text)).toList
      ++ (d.initializer.map Expr.outline).toList)

def Declaration.outline (d : Declaration) : Outline :=
  .node .variableDeclaration (some d.type.spelling) (d.declarators.map Declarator.outline)

/-- A call is shown as one whether it is a statement or an expression. -/
def Simple.outline : Simple → Outline
  | assignment target op value _ =>
    .node .assignment (some op.spelling) [target.outline, value.outline]
  | call callee args _ => .node .functionCall (some callee.text) (Expr.outlines args)
  | expression e => e.outline

def ForInit.outline : ForInit → Outline
  | declaration d => d.outline
  | simple s => s.outline

/-- The word that begins an output statement. -/
def outputKeyword (newline : Bool) : Keyword := if newline then .printlnKw else .printKw

mutual

/-- The outline of a statement, with its parts in the order of the text. -/
def Statement.outline : Statement → Outline
  | .declaration d => d.outline
  | .simple s => s.outline
  | .conditional c => c.outline
  | .whileLoop condition body _ => .node .whileLoop none [condition.outline, body.outline]
  | .forLoop init condition update body _ =>
    .node .forLoop none [init.outline, condition.outline, update.outline, body.outline]
  | .repeatLoop count body _ => .node .repeatLoop none [count.outline, body.outline]
  | .output newline template placeholders _ =>
    .node .outputStatement
      (some ((outputKeyword newline).spelling ++ " " ++ Text.quoted template))
      (placeholders.map Path.outline)
  | .input _ => .leaf .inputStatement none

def Statement.outlines : List Statement → List Outline
  | [] => []
  | s :: ss => s.outline :: Statement.outlines ss

def Block.outline : Block → Outline
  | .mk statements _ => .node .block none (Statement.outlines statements)

/-- The condition and the block share a node; what follows `else` stands beside it. -/
def Conditional.outline : Conditional → Outline
  | .mk condition block _ otherwise _ =>
    .node .conditionalStatement none
      (.node .ifClause none [condition.outline, block.outline] :: otherwise.outlines)

/-- The outline of what is done otherwise, if anything is. -/
def Otherwise.outlines : Otherwise → List Outline
  | .nothing => []
  | .block b => [b.outline]
  | .conditional c => [c.outline]

end

/-- A program as an indented tree, with its statements one below the other. -/
def Program.outline (p : Program) : Outline :=
  .node .program none (Statement.outlines p.statements)

end GeoLang
