import GeoLang.Tree.Expr

namespace GeoLang

/-- The unit in a declaration such as `int a sq cm`. -/
structure UnitSpecifier where
  unit : ReservedWord
  squared : Bool
  span : Span
deriving DecidableEq, Repr

/-- A name that is declared, with its unit and its first value if it has them. -/
structure Declarator where
  name : String
  unit : Option UnitSpecifier
  initializer : Option Expr
  span : Span
deriving Repr

/-- One data type for one or more variables. -/
structure Declaration where
  type : DataType
  first : Declarator
  others : List Declarator
  span : Span
deriving Repr

/-- All names that are declared, in the order of the text. -/
def Declaration.declarators (d : Declaration) : List Declarator := d.first :: d.others

/-- A statement without parts that are statements. -/
inductive Simple where
  | assignment (target : Path) (op : Operator) (value : Expr) (span : Span)
  | call (callee : Path) (args : List Expr) (span : Span)
  | expression (e : Expr)
deriving Repr

namespace Simple

/-- Where the statement stands; an expression stands where it does anywhere. -/
def span : Simple → Span
  | assignment _ _ _ s => s
  | call _ _ s => s
  | expression e => e.span

/-- An expression as a statement; one that is just a call counts as a call statement. -/
def ofExpr : Expr → Simple
  | .call callee args s => .call callee args s
  | e => .expression e

end Simple

/-- What stands first in the header of a `for` loop. -/
inductive ForInit where
  | declaration (d : Declaration)
  | simple (s : Simple)
deriving Repr

def ForInit.span : ForInit → Span
  | declaration d => d.span
  | simple s => s.span

mutual

/-- A statement, with the span that it was read from. -/
inductive Statement where
  | declaration (d : Declaration)
  | simple (s : Simple)
  | conditional (c : Conditional)
  | whileLoop (condition : Expr) (body : Block) (span : Span)
  | forLoop (init : ForInit) (condition : Expr) (update : Simple) (body : Block) (span : Span)
  | repeatLoop (count : Expr) (body : Block) (span : Span)
  | output (newline : Bool) (template : String) (placeholders : List Path) (span : Span)
  | input (span : Span)

/-- Statements in braces. -/
inductive Block where
  | mk (statements : List Statement) (span : Span)

/-- A condition with the block to run if it holds, and what to do otherwise. `clause` is the span of
    the condition and its block, `span` that of the whole. -/
inductive Conditional where
  | mk (condition : Expr) (block : Block) (clause : Span) (otherwise : Otherwise) (span : Span)

/-- What stands behind the block of a conditional: nothing, or `else` with a block or with another
    conditional. -/
inductive Otherwise where
  | nothing
  | block (b : Block)
  | conditional (c : Conditional)

end

deriving instance Repr for Statement, Block, Conditional, Otherwise

namespace Block

instance : Inhabited Block := ⟨⟨[], .empty .start⟩⟩

/-- The statements of a block, in the order of the text. -/
def statements : Block → List Statement
  | mk ss _ => ss

def span : Block → Span
  | mk _ s => s

end Block

/-- The whole conditional, with what stands behind its block. -/
def Conditional.span : Conditional → Span
  | mk _ _ _ _ s => s

namespace Statement

instance : Inhabited Statement := ⟨.input (.empty .start)⟩

def span : Statement → Span
  | declaration d => d.span
  | simple s => s.span
  | conditional c => c.span
  | whileLoop _ _ s => s
  | forLoop _ _ _ _ s => s
  | repeatLoop _ _ s => s
  | output _ _ _ s => s
  | input s => s

end Statement

/-- A program: its statements, in the order of the text. -/
structure Program where
  statements : List Statement
deriving Repr

end GeoLang
