import GeoLang.Tree.Statement

namespace GeoLang

/-- The span that every node has once its own is taken away. -/
def Span.none : Span := .empty .start

def Path.bare (p : Path) : Path := { p with span := .none }

mutual

/-- The expression without its spans. Two trees are the same up to spans if these agree. -/
def Expr.bare : Expr → Expr
  | .literal v _ => .literal v .none
  | .path p => .path p.bare
  | .binary lhs op rhs _ => .binary lhs.bare op rhs.bare .none
  | .unary op operand _ => .unary op operand.bare .none
  | .post op operand _ => .post op operand.bare .none
  | .call callee args _ => .call callee.bare (Expr.bareList args) .none
  | .grouped inner _ => .grouped inner.bare .none
  | .reserved word args _ => .reserved word (Expr.bareList args) .none

def Expr.bareList : List Expr → List Expr
  | [] => []
  | e :: es => e.bare :: Expr.bareList es

end

theorem Expr.bareList_eq_map (es : List Expr) : Expr.bareList es = es.map Expr.bare := by
  induction es with
  | nil => rfl
  | cons e es ih => rw [bareList, ih, List.map_cons]

def UnitSpecifier.bare (u : UnitSpecifier) : UnitSpecifier := { u with span := .none }

/-- A declarator without its spans. -/
def Declarator.bare (x : Declarator) : Declarator where
  name := x.name
  unit := x.unit.map UnitSpecifier.bare
  initializer := x.initializer.map Expr.bare
  span := .none

def Declaration.bare (x : Declaration) : Declaration where
  type := x.type
  first := x.first.bare
  others := x.others.map Declarator.bare
  span := .none

def Simple.bare : Simple → Simple
  | assignment target op value _ => .assignment target.bare op value.bare .none
  | call callee args _ => .call callee.bare (args.map Expr.bare) .none
  | expression e => .expression e.bare

/-- A call stays a call, and any other expression stays one. -/
theorem Simple.bare_ofExpr (e : Expr) : (Simple.ofExpr e).bare = .ofExpr e.bare := by
  cases e <;> simp [ofExpr, bare, Expr.bare, Expr.bareList_eq_map]

def ForInit.bare : ForInit → ForInit
  | declaration d => .declaration d.bare
  | simple s => .simple s.bare

mutual

/-- The statement without its spans. -/
def Statement.bare : Statement → Statement
  | .declaration d => .declaration d.bare
  | .simple s => .simple s.bare
  | .conditional c => .conditional c.bare
  | .whileLoop condition body _ => .whileLoop condition.bare body.bare .none
  | .forLoop init condition update body _ =>
    .forLoop init.bare condition.bare update.bare body.bare .none
  | .repeatLoop count body _ => .repeatLoop count.bare body.bare .none
  | .output newline template placeholders _ =>
    .output newline template (placeholders.map Path.bare) .none
  | .input _ => .input .none

def Statement.bareList : List Statement → List Statement
  | [] => []
  | s :: ss => s.bare :: Statement.bareList ss

def Block.bare : Block → Block
  | .mk statements _ => .mk (Statement.bareList statements) .none

def Conditional.bare : Conditional → Conditional
  | .mk condition block _ otherwise _ => .mk condition.bare block.bare .none otherwise.bare .none

def Otherwise.bare : Otherwise → Otherwise
  | .nothing => .nothing
  | .block b => .block b.bare
  | .conditional c => .conditional c.bare

end

theorem Statement.bareList_eq_map (ss : List Statement) :
    Statement.bareList ss = ss.map Statement.bare := by
  induction ss with
  | nil => rfl
  | cons s ss ih => rw [bareList, ih, List.map_cons]

/-- The program without its spans. -/
def Program.bare (p : Program) : Program := ⟨p.statements.map Statement.bare⟩

end GeoLang
