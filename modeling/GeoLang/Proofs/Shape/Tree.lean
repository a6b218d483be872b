import GeoLang.Proofs.Vocabulary.Operator
import GeoLang.Tree.NodeKind

namespace GeoLang

/-- A path is shown as an identifier, or as a member access with two segments or more. -/
def Path.Shaped (p : Path) : Prop :=
  p.kind = .identifier ∨ p.kind = .memberAccess ∧ 2 ≤ p.segments.length

theorem Path.shaped (p : Path) : p.Shaped := by
  obtain ⟨head, members, span⟩ := p
  cases members with
  | nil => exact .inl rfl
  | cons m ms => exact .inr ⟨rfl, by simp [segments]⟩

/-- The operator of an expression that joins two operands, if it does and has no parentheses around
    it. -/
def Expr.joint? : Expr → Option Operator
  | binary _ op _ _ => some op
  | _ => none

/-- If the expression joins two operands without parentheses, then with strength `least` or more. -/
def Expr.JoinsFrom (least : Nat) (e : Expr) : Prop :=
  ∀ op ∈ e.joint?, ∃ strength, op.strength? = some strength ∧ least ≤ strength

/-- An operator with its two operands. Without parentheses the right one joins more tightly than the
    operator and the left one as tightly or more; for the exponent, which alone joins to the right,
    it is the other way around. -/
structure Operator.Joins (op : Operator) (lhs rhs : Expr) : Prop where
  strength : ∃ strength, op.strength? = some strength ∧
    rhs.JoinsFrom (if op = .exponent then strength else strength + 1) ∧
    lhs.JoinsFrom (if op = .exponent then strength + 1 else strength)
  logical : op.nodeKind = .logicalOp ↔ op = .logicalAnd ∨ op = .logicalOr

mutual

/-- Operators bind their operands as tightly as their strength demands, and the operands are
    well-formed. -/
def Expr.Shaped : Expr → Prop
  | .literal _ _ => True
  | .path p => p.Shaped
  | .binary lhs op rhs _ => op.Joins lhs rhs ∧ lhs.Shaped ∧ rhs.Shaped
  | .unary op operand _ => op.leads = true ∧ operand.joint? = none ∧ operand.Shaped
  | .post op operand _ => (op = .increment ∨ op = .decrement) ∧ operand.Shaped
  | .call callee args _ => callee.Shaped ∧ Expr.AllShaped args
  | .grouped inner _ => inner.Shaped
  | .reserved word args span =>
    (Expr.reserved word args span).kind = .reserved word.form ∧ Expr.AllShaped args

def Expr.AllShaped : List Expr → Prop
  | [] => True
  | e :: es => e.Shaped ∧ Expr.AllShaped es

end

theorem Expr.allShaped_iff {es : List Expr} : Expr.AllShaped es ↔ ∀ e ∈ es, e.Shaped := by
  induction es with
  | nil => simp [AllShaped]
  | cons e es ih => rw [AllShaped, ih, List.forall_mem_cons]

/-- The unit is a unit, and the initializer is well-formed. -/
structure Declarator.Shaped (x : Declarator) : Prop where
  unit : ∀ u ∈ x.unit, u.unit.isUnit = true
  initializer : ∀ e ∈ x.initializer, e.Shaped

/-- A declaration has names, each of them well-formed. -/
structure Declaration.Shaped (x : Declaration) : Prop where
  nonempty : x.declarators ≠ []
  declarators : ∀ y ∈ x.declarators, y.Shaped

/-- Assignments have an operator of assignment; all parts are well-formed. -/
def Simple.Shaped : Simple → Prop
  | assignment target op value _ => target.Shaped ∧ op.cls = .assignment ∧ value.Shaped
  | call callee args _ => callee.Shaped ∧ ∀ e ∈ args, e.Shaped
  | expression e => e.Shaped

/-- A well-formed expression is well-formed as a statement. -/
theorem Simple.shaped_ofExpr {e : Expr} (hshaped : e.Shaped) : (Simple.ofExpr e).Shaped := by
  cases e with
  | call callee args span =>
    rw [Expr.Shaped] at hshaped
    exact ⟨hshaped.1, Expr.allShaped_iff.1 hshaped.2⟩
  | _ => exact hshaped

def ForInit.Shaped : ForInit → Prop
  | declaration d => d.Shaped
  | simple s => s.Shaped

mutual

/-- A statement all of whose parts are well-formed, at any depth. -/
def Statement.Shaped : Statement → Prop
  | .declaration d => d.Shaped
  | .simple s => s.Shaped
  | .conditional c => c.Shaped
  | .whileLoop condition body _ => condition.Shaped ∧ body.Shaped
  | .forLoop init condition update body _ =>
    init.Shaped ∧ condition.Shaped ∧ update.Shaped ∧ body.Shaped
  | .repeatLoop count body _ => count.Shaped ∧ body.Shaped
  | .output _ _ placeholders _ => ∀ p ∈ placeholders, p.Shaped
  | .input _ => True

def Statement.AllShaped : List Statement → Prop
  | [] => True
  | s :: ss => s.Shaped ∧ Statement.AllShaped ss

def Block.Shaped : Block → Prop
  | .mk statements _ => Statement.AllShaped statements

def Conditional.Shaped : Conditional → Prop
  | .mk condition block _ otherwise _ => condition.Shaped ∧ block.Shaped ∧ otherwise.Shaped

def Otherwise.Shaped : Otherwise → Prop
  | .nothing => True
  | .block b => b.Shaped
  | .conditional c => c.Shaped

end

theorem Statement.allShaped_iff {ss : List Statement} :
    Statement.AllShaped ss ↔ ∀ s ∈ ss, s.Shaped := by
  induction ss with
  | nil => simp [AllShaped]
  | cons s ss ih => rw [AllShaped, ih, List.forall_mem_cons]

/-- Every statement of the program is well-formed. -/
def Program.Shaped (p : Program) : Prop := ∀ s ∈ p.statements, s.Shaped

end GeoLang
