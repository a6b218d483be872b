import GeoLang.Proofs.Sentence.Bare
import GeoLang.Proofs.Shape.Tree

namespace GeoLang

mutual

/-- The number of nodes on the longest way down. -/
def Expr.height : Expr → Nat
  | .literal _ _ => 1
  | .path _ => 1
  | .binary lhs _ rhs _ => max lhs.height rhs.height + 1
  | .unary _ operand _ => operand.height + 1
  | .post _ _ _ => 2
  | .call _ args _ => max 1 (Expr.listHeight args) + 1
  | .grouped inner _ => inner.height + 1
  | .reserved _ args _ => Expr.listHeight args + 1

/-- The greatest height in a list, 0 if it is empty. -/
def Expr.listHeight : List Expr → Nat
  | [] => 0
  | e :: es => max e.height (Expr.listHeight es)

end

mutual

/-- The height, but the left operand of an operator is on the same level as the operator if it joins
    operands itself and has no parentheses around it. -/
def Expr.levels : Expr → Nat
  | .literal _ _ => 1
  | .path _ => 1
  | .binary lhs _ rhs _ => max (if lhs.joint?.isSome then lhs.levels else lhs.levels + 1) (rhs.levels + 1)
  | .unary _ operand _ => operand.levels + 1
  | .post _ _ _ => 2
  | .call _ args _ => max 1 (Expr.listLevels args) + 1
  | .grouped inner _ => inner.levels + 1
  | .reserved _ args _ => Expr.listLevels args + 1

/-- The greatest number of levels in a list, 0 if it is empty. -/
def Expr.listLevels : List Expr → Nat
  | [] => 0
  | e :: es => max e.levels (Expr.listLevels es)

end

/-- A bound on a list is one on all its members. -/
theorem Expr.listLevels_le_iff {es : List Expr} {n : Nat} :
    Expr.listLevels es ≤ n ↔ ∀ e ∈ es, e.levels ≤ n := by
  induction es with
  | nil => simp [listLevels]
  | cons e es ih => rw [listLevels, Nat.max_le, ih, List.forall_mem_cons]

mutual

/-- Heights do not depend on spans. -/
theorem Expr.height_bare (e : Expr) : e.bare.height = e.height := by
  cases e with
  | literal v s => rfl
  | path p => rfl
  | binary lhs op rhs s => rw [bare, height, height, lhs.height_bare, rhs.height_bare]
  | unary op operand s => rw [bare, height, height, operand.height_bare]
  | post op operand s => rfl
  | call callee args s => rw [bare, height, height, Expr.listHeight_bareList args]
  | grouped inner s => rw [bare, height, height, inner.height_bare]
  | reserved word args s => rw [bare, height, height, Expr.listHeight_bareList args]

theorem Expr.listHeight_bareList (es : List Expr) :
    Expr.listHeight (Expr.bareList es) = Expr.listHeight es := by
  cases es with
  | nil => rfl
  | cons e es => rw [bareList, listHeight, listHeight, e.height_bare, Expr.listHeight_bareList es]

end

/-- A row of operands none of which is higher than `n`: either it is one of them, or they are joined
    on the level above. -/
def Expr.RowWithin (n : Nat) (e : Expr) : Prop :=
  e.levels ≤ n ∨ e.joint?.isSome = true ∧ e.levels ≤ n + 1

/-- However many operands are joined from the left, they stay on one level. -/
theorem Expr.RowWithin.foldl_join {n : Nat} {lhs : Expr} {links : List (Operator × Expr)}
    (hlhs : lhs.RowWithin n) (hlinks : ∀ l ∈ links, l.2.levels ≤ n) :
    (links.foldl Expr.join lhs).RowWithin n := by
  induction links generalizing lhs with
  | nil => exact hlhs
  | cons l ls ih =>
    obtain ⟨hrhs, hrest⟩ := List.forall_mem_cons.1 hlinks
    refine ih (.inr ⟨rfl, ?_⟩) hrest
    rw [Expr.join, levels]
    obtain hoperand | ⟨hjoins, hrow⟩ := hlhs
    · split <;> omega
    · rw [if_pos hjoins]
      omega

def Declaration.expressions (x : Declaration) : List Expr :=
  x.declarators.filterMap Declarator.initializer

/-- The outermost expressions of an assignment or a call. -/
def Simple.expressions : Simple → List Expr
  | assignment target _ value _ => [.path target, value]
  | call callee args span => [.call callee args span]
  | expression e => [e]

def ForInit.expressions : ForInit → List Expr
  | declaration d => d.expressions
  | simple s => s.expressions

mutual

/-- The outermost expressions in the statement, at any depth of blocks. -/
def Statement.expressions : Statement → List Expr
  | .declaration d => d.expressions
  | .simple s => s.expressions
  | .conditional c => c.expressions
  | .whileLoop condition body _ => condition :: body.expressions
  | .forLoop init condition update body _ =>
    init.expressions ++ condition :: (update.expressions ++ body.expressions)
  | .repeatLoop count body _ => count :: body.expressions
  | .output _ _ placeholders _ => placeholders.map .path
  | .input _ => []

def Statement.listExpressions : List Statement → List Expr
  | [] => []
  | s :: ss => s.expressions ++ Statement.listExpressions ss

def Block.expressions : Block → List Expr
  | .mk statements _ => Statement.listExpressions statements

def Conditional.expressions : Conditional → List Expr
  | .mk condition block _ otherwise _ => condition :: (block.expressions ++ otherwise.expressions)

def Otherwise.expressions : Otherwise → List Expr
  | .nothing => []
  | .block b => b.expressions
  | .conditional c => c.expressions

end

theorem Statement.mem_listExpressions {ss : List Statement} {e : Expr} :
    e ∈ Statement.listExpressions ss ↔ ∃ s ∈ ss, e ∈ s.expressions := by
  induction ss with
  | nil => simp [listExpressions]
  | cons s ss ih => simp [listExpressions, ih]

/-- The outermost expressions in the program. -/
def Program.expressions (p : Program) : List Expr := Statement.listExpressions p.statements

theorem Simple.expressions_ofExpr (e : Expr) : (Simple.ofExpr e).expressions = [e] := by
  cases e <;> rfl

end GeoLang
