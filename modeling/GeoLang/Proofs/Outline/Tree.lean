import GeoLang.Proofs.Outline.Heading

namespace GeoLang

mutual

/-- The expression without its spans and parentheses. -/
def Expr.erased : Expr → Expr
  | .literal v _ => .literal v .none
  | .path p => .path p.bare
  | .binary lhs op rhs _ => .binary lhs.erased op rhs.erased .none
  | .unary op operand _ => .unary op operand.erased .none
  | .post op operand _ => .post op operand.bare .none
  | .call callee args _ => .call callee.bare (Expr.erasedList args) .none
  | .grouped inner _ => inner.erased
  | .reserved word args _ => .reserved word (Expr.erasedList args) .none

def Expr.erasedList : List Expr → List Expr
  | [] => []
  | e :: es => e.erased :: Expr.erasedList es

end

/-- The declarator without spans and groups. -/
def Declarator.erased (x : Declarator) : Declarator where
  name := x.name
  unit := x.unit.map UnitSpecifier.bare
  initializer := x.initializer.map Expr.erased
  span := .none

/-- The declaration without spans and groups. -/
def Declaration.erased (x : Declaration) : Declaration where
  type := x.type
  first := x.first.erased
  others := x.others.map Declarator.erased
  span := .none

/-- Without its parentheses an expression may be just a call, and counts as a call statement
    then. -/
def Simple.erased : Simple → Simple
  | assignment target op value _ => .assignment target.bare op value.erased .none
  | call callee args _ => .call callee.bare (Expr.erasedList args) .none
  | expression e => .ofExpr e.erased

def ForInit.erased : ForInit → ForInit
  | declaration d => .declaration d.erased
  | simple s => .simple s.erased

mutual

/-- The statement without spans, and without groups in its expressions. -/
def Statement.erased : Statement → Statement
  | .declaration d => .declaration d.erased
  | .simple s => .simple s.erased
  | .conditional c => .conditional c.erased
  | .whileLoop condition body _ => .whileLoop condition.erased body.erased .none
  | .forLoop init condition update body _ =>
    .forLoop init.erased condition.erased update.erased body.erased .none
  | .repeatLoop count body _ => .repeatLoop count.erased body.erased .none
  | .output newline template placeholders _ =>
    .output newline template (placeholders.map Path.bare) .none
  | .input _ => .input .none

def Statement.erasedList : List Statement → List Statement
  | [] => []
  | s :: ss => s.erased :: Statement.erasedList ss

def Block.erased : Block → Block
  | .mk statements _ => .mk (Statement.erasedList statements) .none

def Conditional.erased : Conditional → Conditional
  | .mk condition block _ otherwise _ =>
    .mk condition.erased block.erased .none otherwise.erased .none

def Otherwise.erased : Otherwise → Otherwise
  | .nothing => .nothing
  | .block b => .block b.erased
  | .conditional c => .conditional c.erased

end

/-- The program without spans and groups. -/
def Program.erased (p : Program) : Program := ⟨Statement.erasedList p.statements⟩

section

variable (R : Binary64 → Prop)

mutual

/-- The names in the expression are words, and its reals satisfy the property. -/
def Expr.Legible : Expr → Prop
  | .literal v _ => v.RealsIn R
  | .path p => p.Named
  | .binary lhs _ rhs _ => lhs.Legible ∧ rhs.Legible
  | .unary _ operand _ => operand.Legible
  | .post _ operand _ => operand.Named
  | .call callee args _ => callee.Named ∧ Expr.AllLegible args
  | .grouped inner _ => inner.Legible
  | .reserved _ args _ => Expr.AllLegible args

/-- All expressions of a list are legible. -/
def Expr.AllLegible : List Expr → Prop
  | [] => True
  | e :: es => e.Legible ∧ Expr.AllLegible es

end

/-- The name is a word, and the initializer is legible. -/
structure Declarator.Legible (x : Declarator) : Prop where
  name : IsWord x.name
  initializer : ∀ e ∈ x.initializer, e.Legible R

/-- Every declarator is legible. -/
def Declaration.Legible (x : Declaration) : Prop := ∀ y ∈ x.declarators, y.Legible R

/-- All parts of an assignment or a call are legible. -/
def Simple.Legible : Simple → Prop
  | assignment target _ value _ => target.Named ∧ value.Legible R
  | call callee args _ => callee.Named ∧ Expr.AllLegible R args
  | expression e => e.Legible R

def ForInit.Legible : ForInit → Prop
  | declaration d => d.Legible R
  | simple s => s.Legible R

mutual

/-- All parts of the statement are legible. -/
def Statement.Legible : Statement → Prop
  | .declaration d => d.Legible R
  | .simple s => s.Legible R
  | .conditional c => c.Legible
  | .whileLoop condition body _ => condition.Legible R ∧ body.Legible
  | .forLoop init condition update body _ =>
    init.Legible R ∧ condition.Legible R ∧ update.Legible R ∧ body.Legible
  | .repeatLoop count body _ => count.Legible R ∧ body.Legible
  | .output _ _ placeholders _ => ∀ p ∈ placeholders, p.Named
  | .input _ => True

def Statement.AllLegible : List Statement → Prop
  | [] => True
  | s :: ss => s.Legible ∧ Statement.AllLegible ss

def Block.Legible : Block → Prop
  | .mk statements _ => Statement.AllLegible statements

def Conditional.Legible : Conditional → Prop
  | .mk condition block _ otherwise _ => condition.Legible R ∧ block.Legible ∧ otherwise.Legible

def Otherwise.Legible : Otherwise → Prop
  | .nothing => True
  | .block b => b.Legible
  | .conditional c => c.Legible

end

/-- Every statement of the program is legible. -/
def Program.Legible (p : Program) : Prop := Statement.AllLegible R p.statements

end

section

variable {R : Binary64 → Prop}

theorem Expr.allLegible_iff {es : List Expr} : Expr.AllLegible R es ↔ ∀ e ∈ es, e.Legible R := by
  induction es with
  | nil => simp [AllLegible]
  | cons e es ih => rw [AllLegible, ih, List.forall_mem_cons]

theorem Statement.allLegible_iff {ss : List Statement} :
    Statement.AllLegible R ss ↔ ∀ s ∈ ss, s.Legible R := by
  induction ss with
  | nil => simp [AllLegible]
  | cons s ss ih => rw [AllLegible, ih, List.forall_mem_cons]

/-- A legible expression is legible as a statement. -/
theorem Simple.legible_ofExpr {e : Expr} (he : e.Legible R) : (Simple.ofExpr e).Legible R := by
  cases e with
  | call callee args span => exact he
  | _ => exact he

end

end GeoLang
