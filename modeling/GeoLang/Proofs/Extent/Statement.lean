import GeoLang.Proofs.Extent.Expression

namespace GeoLang.Grammar.Rule.Places

variable {good : Span → Prop} (hmerge : MergesWell good)

include hmerge

theorem unitSpecifier :
    Grammar.unitSpecifier.Places good fun unit => ∀ u ∈ unit, u.Placed good := by
  have hunit : ∀ {unit : ReservedWord} {squared : Bool} {s : Span}, good s →
      ∀ u ∈ some (UnitSpecifier.mk unit squared s), u.Placed good := by
    rintro unit squared s hs u ⟨⟩
    exact hs
  refine .bind .peek fun t ht => .ite (fun _ => ?_) fun _ => ?_
  · refine .bind .advance fun _ _ => .bind .peek fun u _ => ?_
    split
    · exact .bind .advance fun _ _ => .bind (.spanSince hmerge ht) fun s hs => .pure (hunit hs)
    · exact .unexpected _
  · split
    · exact .bind .advance fun _ _ => .bind (.spanSince hmerge ht) fun s hs => .pure (hunit hs)
    · exact .pure (by simp)

omit hmerge in
/-- A literal of the wrong kind is reported where the literal stands. -/
theorem checkInitializer (type : DataType) {e : Expr} (he : e.Placed good) :
    (Grammar.checkInitializer type e).Places good fun _ => True := by
  unfold Grammar.checkInitializer
  split
  · refine .ite (fun _ => .pure trivial) fun _ => .note ?_
    rintro s ⟨⟩
    exact he.span
  · exact .pure trivial

section

variable {expression : Rule Expr} (hexpression : expression.Places good (Expr.Placed good))

omit hmerge in
include hexpression in
theorem initializer (type : DataType) :
    (Grammar.initializer expression type).Places good fun init => ∀ e ∈ init, e.Placed good := by
  refine .bind .peek fun t _ => .ite (fun _ => ?_) fun _ => .pure (by simp)
  refine .bind .advance fun _ _ => .bind hexpression fun e he => ?_
  refine .bind (.checkInitializer type he) fun _ _ => .pure ?_
  rintro e' ⟨⟩
  exact he

include hexpression

theorem declarator (type : DataType) :
    (Grammar.declarator expression type).Places good (Declarator.Placed good) := by
  refine .bind .peek fun t ht => ?_
  split
  · refine .bind .advance fun _ _ => .bind (.unitSpecifier hmerge) fun unit hunit => ?_
    refine .bind (.initializer hexpression type) fun init hinit => ?_
    exact .bind (.spanSince hmerge ht) fun s hs => .pure (Declarator.placed hs hunit hinit)
  · exact .unexpected _

/-- Its span reaches from the data type to the last token of the declaration. -/
theorem declaration (terminated : Bool) (type : DataType) :
    (Grammar.declaration expression terminated type).Places good (Declaration.Placed good) := by
  have hdeclarator := declarator hmerge hexpression type
  refine .bind .peek fun t ht => .bind .advance fun _ _ => .bind hdeclarator fun first hfirst => ?_
  refine .bind (.many fun _ => .bind .advance fun _ _ => hdeclarator) fun others hothers => ?_
  refine .bind (.bind .peek fun _ _ => .ite (fun _ => .advance) fun _ => .pure trivial) fun _ _ => ?_
  exact .bind (.spanSince hmerge ht) fun s hs => .pure (Declaration.placed hs hfirst hothers)

theorem assignment : (Grammar.assignment expression).Places good (Simple.Placed good) := by
  refine .bind (.path hmerge) fun target htarget => .bind .peek fun t _ => ?_
  split
  · refine .bind .advance fun _ _ => .bind hexpression fun value hvalue => .pure ?_
    exact Simple.placed_assignment _ (hmerge _ _ htarget hvalue.span) htarget hvalue
  · exact .unexpected _

theorem simple : (Grammar.simple expression).Places good (Simple.Placed good) := by
  refine .bind .atAssignment fun _ _ => .ite (fun _ => .assignment hmerge hexpression) fun _ => ?_
  exact .bind hexpression fun e he => .pure (Simple.placed_ofExpr he)

omit hexpression in
theorem postStep : Grammar.postStep.Places good (Simple.Placed good) := by
  refine .bind .peek fun t ht => .bind (.path hmerge) fun operand hoperand => .bind .peek fun u _ => ?_
  split
  · refine .bind .advance fun _ _ => .bind (.spanSince hmerge ht) fun s hs => .pure ?_
    exact Simple.placed_expression (Expr.placed_post _ hs hoperand)
  · exact .unexpected _

theorem update : (Grammar.update expression).Places good (Simple.Placed good) := by
  refine .bind .peek fun t ht => ?_
  split
  · refine .bind .advance fun _ _ => .bind (.path hmerge) fun operand hoperand => ?_
    refine .bind (.spanSince hmerge ht) fun s hs => .pure ?_
    exact Simple.placed_expression (Expr.placed_unary _ hs (Expr.placed_path hoperand))
  · refine .bind .atAssignment fun _ _ => .ite (fun _ => ?_) fun _ => ?_
    · exact .assignment hmerge hexpression
    · exact .postStep hmerge

/-- Placed in either form. -/
theorem forInit : (Grammar.forInit expression).Places good (ForInit.Placed good) := by
  refine .bind .peek fun t _ => ?_
  split
  · exact .bind (.declaration hmerge hexpression _ _) fun d hd => .pure hd
  · exact .bind (.simple hmerge hexpression) fun s hs => .pure hs

theorem terminatedSimple :
    (Grammar.terminatedSimple expression).Places good (Statement.Placed good) :=
  .bind (.simple hmerge hexpression) fun _ hs => .bind (.mark _ _) fun _ _ => .pure hs

end

theorem output (newline : Bool) : (Grammar.output newline).Places good (Statement.Placed good) := by
  have htemplate : Grammar.template.Places good fun _ => True := by
    refine .bind .peek fun t _ => ?_
    split
    · exact .bind .advance fun _ _ => .pure trivial
    · exact .unexpected _
  have hplaceholder : Grammar.placeholder.Places good (Path.Placed good) :=
    .bind .advance fun _ _ => .bind (.path hmerge) fun p hp => .bind (.mark _ _) fun _ _ => .pure hp
  refine .bind .peek fun t ht => .bind .advance fun _ _ => .bind (.mark _ _) fun _ _ => ?_
  refine .bind htemplate fun text _ => .bind (.many fun _ => hplaceholder) fun paths hpaths => ?_
  refine .bind .closeParenthesis fun _ _ => .bind (.mark _ _) fun _ _ => ?_
  exact .bind (.spanSince hmerge ht) fun s hs => .pure (Statement.placed_output _ _ hs hpaths)

theorem input : Grammar.input.Places good (Statement.Placed good) := by
  refine .bind (.keyword _) fun start hstart => .bind (.mark _ _) fun _ _ => ?_
  refine .bind .closeParenthesis fun _ _ => .bind (.mark _ _) fun _ _ => ?_
  exact .bind (.spanSince hmerge hstart) fun s hs => .pure (Statement.placed_input hs)

section

variable {expression : Rule Expr} (hexpression : expression.Places good (Expr.Placed good))
  {block : Rule Block} (hblock : block.Places good (Block.Placed good))
  {conditional : Rule Conditional} (hconditional : conditional.Places good (Conditional.Placed good))

include hexpression hblock

theorem whileLoop : (Grammar.whileLoop expression block).Places good (Statement.Placed good) := by
  refine .bind (.keyword _) fun start hstart => .bind (.mark _ _) fun _ _ => ?_
  refine .bind hexpression fun condition hcondition => .bind .closeParenthesis fun _ _ => ?_
  refine .bind hblock fun body hbody => .bind (.spanSince hmerge hstart) fun s hs => .pure ?_
  exact Statement.placed_whileLoop hs hcondition hbody

theorem forLoop : (Grammar.forLoop expression block).Places good (Statement.Placed good) := by
  refine .bind (.keyword _) fun start hstart => .bind (.mark _ _) fun _ _ => ?_
  refine .bind (.forInit hmerge hexpression) fun init hinit => .bind (.mark _ _) fun _ _ => ?_
  refine .bind hexpression fun condition hcondition => .bind (.mark _ _) fun _ _ => ?_
  refine .bind (.update hmerge hexpression) fun change hchange => .bind .closeParenthesis fun _ _ => ?_
  refine .bind hblock fun body hbody => .bind (.spanSince hmerge hstart) fun s hs => .pure ?_
  exact Statement.placed_forLoop hs hinit hcondition hchange hbody

theorem repeatLoop : (Grammar.repeatLoop expression block).Places good (Statement.Placed good) := by
  refine .bind (.keyword _) fun start hstart => .bind hexpression fun count hcount => ?_
  refine .bind (.keyword _) fun _ _ => .bind hblock fun body hbody => ?_
  refine .bind (.spanSince hmerge hstart) fun s hs => .pure ?_
  exact Statement.placed_repeatLoop hs hcount hbody

include hconditional

theorem statementRule :
    (Grammar.statementRule expression conditional block).Places good (Statement.Placed good) := by
  refine .bind .peek fun t _ => ?_
  split
  · exact .bind (.declaration hmerge hexpression _ _) fun d hd => .pure hd
  · exact .bind hconditional fun c hc => .pure (Statement.placed_conditional hc)
  · exact .whileLoop hmerge hexpression hblock
  · exact .forLoop hmerge hexpression hblock
  · exact .repeatLoop hmerge hexpression hblock
  · exact .output hmerge _
  · exact .output hmerge _
  · exact .input hmerge
  · exact .terminatedSimple hmerge hexpression

omit hmerge hexpression in
theorem otherwiseRule :
    (Grammar.otherwiseRule conditional block).Places good (Otherwise.Placed good) := by
  refine .bind .peek fun t _ => .ite (fun _ => ?_) fun _ => .pure Otherwise.placed_nothing
  refine .bind .advance fun _ _ => .bind .peek fun u _ => .ite (fun _ => ?_) fun _ => ?_
  · exact .bind hconditional fun c hc => .pure (Otherwise.placed_conditional hc)
  · exact .bind hblock fun b hb => .pure hb

theorem conditionalRule :
    (Grammar.conditionalRule expression conditional block).Places good (Conditional.Placed good) := by
  refine .bind (.keyword _) fun start hstart => .bind (.mark _ _) fun _ _ => ?_
  refine .bind hexpression fun condition hcondition => .bind .closeParenthesis fun _ _ => ?_
  refine .bind hblock fun body hbody => .bind (.spanSince hmerge hstart) fun clause hclause => ?_
  refine .bind (.otherwiseRule hblock hconditional) fun otherwise hotherwise => ?_
  refine .bind (.spanSince hmerge hstart) fun s hs => .pure ?_
  exact Conditional.placed hs hclause hcondition hbody hotherwise

end

omit hmerge in
/-- However often a statement is attempted, those that are read are placed. -/
theorem attempts {next? : Token → Option Unit} {statement : Rule Statement}
    (hstatement : statement.Places good (Statement.Placed good)) :
    (Grammar.many next? fun _ => Grammar.recovering statement).Places good
      fun statements => ∀ s ∈ statements.reduceOption, s.Placed good := by
  refine (many fun _ => .recovering hstatement).mono fun statements hstatements s hs => ?_
  obtain ⟨x, hx, hread⟩ := List.mem_filterMap.1 hs
  exact hstatements x hx s hread

theorem blockRule {statement : Rule Statement}
    (hstatement : statement.Places good (Statement.Placed good)) :
    (Grammar.blockRule statement).Places good (Block.Placed good) := by
  refine .bind (.mark _ _) fun start hstart => .bind (.attempts hstatement) fun _ hstatements => ?_
  refine .bind (.mark _ _) fun _ _ => .bind (.spanSince hmerge hstart) fun s hs => .pure ?_
  exact Block.placed hs hstatements

/-- By induction on the levels that are left. -/
theorem statement_and_parts (n : Nat) :
    (Grammar.statement n).Places good (Statement.Placed good) ∧
      (Grammar.conditional n).Places good (Conditional.Placed good) ∧
        (Grammar.block n).Places good (Block.Placed good) := by
  induction n with
  | zero => exact ⟨.tooDeep, .tooDeep, .tooDeep⟩
  | succ n ih =>
    obtain ⟨hstatement, hconditional, hblock⟩ := ih
    have hexpression := expression hmerge n
    refine ⟨?_, ?_, .blockRule hmerge hstatement⟩
    · exact .statementRule hmerge hexpression hblock hconditional
    · exact .conditionalRule hmerge hexpression hblock hconditional

/-- All spans of a program are good. -/
theorem program : Grammar.program.Places good (Program.Placed good) := by
  have hstatement := (statement_and_parts hmerge maxNesting).1
  refine .bind (.attempts hstatement) fun _ hstatements => .pure ?_
  exact Statement.placed_rowsOf hstatements 0

end GeoLang.Grammar.Rule.Places
