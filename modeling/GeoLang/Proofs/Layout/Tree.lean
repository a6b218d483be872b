import GeoLang.Proofs.Layout.Forest

namespace GeoLang

/-- The rows of every node are those of its parts, one level down; here and in all that follows. -/
theorem Path.lies (depth : Nat) (p : Path) : Lies depth p.Over [p.row depth] := by
  have hnone : Lies (depth + 1) (InTurn [Written p.terminals]) [] := Lies.nil.token
  unfold row
  split
  · exact hnone.construct
  · exact hnone.construct

mutual

/-- The recursion is that of the listing, with its lists of arguments. -/
theorem Expr.lies (depth : Nat) : (e : Expr) → Lies depth e.Over (e.rows depth)
  | .literal _ _ => Lies.nil.token.construct
  | .path p => p.lies depth
  | .binary lhs _ rhs _ => ((lhs.lies (depth + 1)).cons (rhs.lies (depth + 1)).last.token).construct
  | .unary _ operand _ => (operand.lies (depth + 1)).last.token.construct
  | .post _ operand _ => ((operand.lies (depth + 1)).closed Lies.nil.token).construct
  | .call callee args _ =>
    ((callee.lies (depth + 1)).cons (Expr.arguments_lie (depth + 1) args).last).construct
  | .grouped inner _ => ((inner.lies (depth + 1)).closed Lies.nil.token).token.construct
  | .reserved _ args _ => (Expr.arguments_lie (depth + 1) args).last.token.construct

theorem Expr.arguments_lie (depth : Nat) :
    (args : List Expr) → Lies depth (Expr.ArgumentsOver args) (Expr.rowsOf depth args)
  | [] => Lies.nil.token.token
  | e :: es => ((e.lies depth).cons ((Expr.others_lie depth es).closed Lies.nil.token)).token

theorem Expr.others_lie (depth : Nat) :
    (es : List Expr) → Lies depth (Expr.OthersOver es) (Expr.rowsOf depth es)
  | [] => Lies.nil
  | e :: es => (e.lies depth).last.token.cons (Expr.others_lie depth es).last

end

theorem UnitSpecifier.lies (depth : Nat) (u : UnitSpecifier) : Lies depth u.Over [u.row depth] :=
  Lies.nil.token.construct

theorem Declarator.lies (depth : Nat) (x : Declarator) : Lies depth x.Over (x.rows depth) := by
  obtain ⟨name, unit, initializer, s⟩ := x
  have hunit : Lies (depth + 1) (unit.elim (InTurn []) UnitSpecifier.Over)
      (unit.map (·.row (depth + 1))).toList := by
    cases unit with
    | none => exact Lies.nil
    | some u => exact u.lies (depth + 1)
  have hinitializer : Lies (depth + 1)
      (initializer.elim (InTurn []) fun e => InTurn [Written [.operator .assign], e.Over])
      ((initializer.map (·.rows (depth + 1))).getD []) := by
    cases initializer with
    | none => exact Lies.nil
    | some e => exact (e.lies (depth + 1)).last.token
  exact (hunit.cons hinitializer.last).token.construct

theorem Declaration.lies (depth : Nat) (terminated : Bool) (x : Declaration) :
    Lies depth (x.Over terminated) (x.rows depth) := by
  have hnext : ∀ y : Declarator,
      Lies (depth + 1) (InTurn [Written [.mark .comma], y.Over]) (y.rows (depth + 1)) :=
    fun y => (y.lies (depth + 1)).last.token
  have hothers := Lies.flatMap hnext x.others
  exact ((x.first.lies (depth + 1)).cons (hothers.closed Lies.nil.token)).token.construct

theorem Simple.lies (depth : Nat) : (s : Simple) → Lies depth s.Over (s.rows depth)
  | assignment target _ value _ =>
    ((target.lies (depth + 1)).cons (value.lies (depth + 1)).last.token).construct
  | call callee args _ =>
    ((callee.lies (depth + 1)).cons (Expr.arguments_lie (depth + 1) args).last).construct
  | expression e => (e.lies (depth + 1)).node fun _ hover => hover.bounds

theorem ForInit.lies (depth : Nat) : (i : ForInit) → Lies depth i.Over (i.rows depth)
  | declaration d => d.lies depth false
  | simple s => s.lies depth

private theorem Path.placeholder_lies (depth : Nat) (p : Path) :
    Lies depth p.PlaceholderOver [p.row depth] :=
  ((p.lies depth).closed Lies.nil.token).token

/-- The statements of a list are listed one behind the other; tokens that were skipped have no
    rows. -/
theorem Lies.cons_statement {depth : Nat} {s : Statement} {ss : List Statement}
    (hstatement : Lies depth s.Over (s.rows depth))
    (hrest : Lies depth (Statement.ListOver ss) (Statement.rowsOf depth ss)) :
    Lies depth (Statement.ListOver (s :: ss)) (Statement.rowsOf depth (s :: ss)) := by
  rintro ts hordered ⟨skipped, own, behind, rest, rfl, hown, -, hlist⟩
  have hskipped : Forest skipped depth [] := .nil
  have hbehind : Forest behind depth [] := .nil
  have hownForest := hstatement own hordered.right.left hown
  have hrestForest := hrest rest hordered.right.right.right hlist
  have htail := hownForest.append (hbehind.append hrestForest hordered.right.right) hordered.right
  exact hskipped.append htail hordered

mutual

/-- A statement has the rows of its parts below its own. -/
theorem Statement.lies (depth : Nat) : (s : Statement) → Lies depth s.Over (s.rows depth)
  | .declaration d => d.lies depth true
  | .simple s => s.lies depth
  | .conditional c => (c.lies (depth + 1)).node fun _ hover => hover.bounds
  | .whileLoop condition body _ =>
    ((condition.lies (depth + 1)).cons (body.lies (depth + 1)).last.token).token.token.construct
  | .forLoop init condition update body _ => by
    simp only [Statement.rows, List.cons_append, List.append_assoc]
    refine Lies.construct (.token (.token (.cons (init.lies (depth + 1)) (.token ?_))))
    refine .cons (condition.lies (depth + 1)) (.token ?_)
    exact .cons (update.lies (depth + 1)) (body.lies (depth + 1)).last.token
  | .repeatLoop count body _ =>
    ((count.lies (depth + 1)).cons (body.lies (depth + 1)).last.token).token.construct
  | .output _ _ placeholders _ => by
    have hplaceholders := Lies.flatMap (Path.placeholder_lies (depth + 1)) placeholders
    rw [← List.map_eq_flatMap] at hplaceholders
    exact (hplaceholders.closed Lies.nil.token.token).token.token.token.construct
  | .input _ => Lies.nil.token.token.token.token.construct

/-- Statements in turn have their rows in turn. -/
theorem Statement.list_lies (depth : Nat) :
    (ss : List Statement) → Lies depth (Statement.ListOver ss) (Statement.rowsOf depth ss)
  | [] => fun _ _ _ => .nil
  | s :: ss => Lies.cons_statement (s.lies depth) (Statement.list_lies depth ss)

theorem Block.lies (depth : Nat) : (b : Block) → Lies depth b.Over (b.rows depth)
  | .mk statements _ => ((Statement.list_lies (depth + 1) statements).closed Lies.nil.token).token.construct

/-- A conditional is listed by its clause and what is done otherwise; its own row stands
    elsewhere. -/
theorem Conditional.lies (depth : Nat) : (c : Conditional) → Lies depth c.Over (c.rows depth)
  | .mk condition block clause otherwise _ => by
    intro ts hordered hover
    refine Lies.cons (.construct (.token (.token ?_))) (otherwise.lies depth).last ts hordered hover.2
    exact (condition.lies (depth + 1)).cons (block.lies (depth + 1)).last.token

theorem Otherwise.lies (depth : Nat) : (o : Otherwise) → Lies depth o.Over (o.rows depth)
  | .nothing => Lies.nil
  | .block b => (b.lies depth).last.token
  | .conditional c => ((c.lies (depth + 1)).node fun _ hover => hover.bounds).last.token

end

end GeoLang
