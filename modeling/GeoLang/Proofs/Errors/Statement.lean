import GeoLang.Proofs.Errors.Expression

namespace GeoLang

/-- Whatever is just a literal has no faults of its own. -/
theorem Expr.faults_of_literal? {e : Expr} {v : Literal} (hliteral : e.literal? = some v) :
    e.faults = [] := by
  cases e with
  | literal => rfl
  | _ => cases hliteral

namespace Grammar.Rule.KeepsOrder

theorem unitSpecifier : Grammar.unitSpecifier.KeepsOrder := by
  refine .bind .peek fun t => .ite (.bind .advance fun _ => .bind .peek fun u => ?_) ?_
  · split
    · exact .bind .advance fun _ => .bind (.spanSince _) fun _ => .pure _
    · exact .unexpected _
  · split
    · exact .bind .advance fun _ => .bind (.spanSince _) fun _ => .pure _
    · exact .pure _

section

variable {expression : Rule Expr} (hexpression : expression.KeepsOrder)

section

variable (hnotes : expression.Notes Expr.faults) (hlays : expression.Lays Expr.Over)

include hexpression hnotes hlays

/-- An initializer that does not fit is a literal, in which nothing else was found. -/
theorem initializer (type : DataType) : (Grammar.initializer expression type).KeepsOrder := by
  intro c hc
  by_cases hassign : c.peek.kind.operator? = some .assign
  · have hfits : (Terminal.operator .assign).Fits c.peek := hassign
    have hadvance := Cursor.reads_advance (Cursor.rest_ne_nil_of_peek hc.eof hfits.kind_ne_eof)
    have hc' := hc.of_reads hadvance
    have hvalue : Reply.OrderedFrom _ c := (hexpression c.advance hc').of_reads hc hadvance
    obtain ⟨e, d, es, hreturns⟩ | ⟨e, d, es, hfails⟩ := returns_or_fails expression c.advance
    · have hwhole : (Grammar.initializer expression type).Returns c _ d _ :=
        returns_initializer_iff.2 (.some hassign hreturns)
      rw [hreturns] at hvalue
      rw [OrderedAt, hwhole, initializerFaults]
      split
      · next v hliteral =>
        split
        · rw [List.append_nil]
          exact hvalue.with_result _
        · obtain ⟨used, hused, hover⟩ := hlays _ _ _ _ hreturns hc'.toInOrder
          have hamong := hover.bounds.among.append_left [c.peek]
          obtain rfl := hnotes _ _ _ _ hreturns
          refine hvalue.note _ ?_ ?_
          · exact ⟨e.span, rfl, hc.between (hadvance.trans hused) hamong⟩
          · rw [Expr.faults_of_literal? hliteral]
            exact List.forall_mem_nil _
      · rw [List.append_nil]
        exact hvalue.with_result _
    · have hwhole : (Grammar.initializer expression type).Fails c e d es := by
        refine fails_bind_iff.2 (.inr ⟨c.peek, c, [], es, rfl, ?_, rfl⟩)
        rw [if_pos hassign]
        refine fails_bind_iff.2 (.inr ⟨(), c.advance, [], es, rfl, ?_, rfl⟩)
        exact fails_bind_iff.2 (.inl hfails)
      rw [hfails] at hvalue
      rw [OrderedAt, hwhole]
      exact hvalue.with_result _
  · rw [OrderedAt, returns_initializer_iff.2 (.none hassign)]
    exact .of_quiet ⟨[], .refl c⟩ rfl

/-- A wrong type is noted at the initializer, behind the errors inside of it. -/
theorem declarator (type : DataType) : (Grammar.declarator expression type).KeepsOrder := by
  refine .bind .peek fun t => ?_
  split
  · exact .bind .advance fun _ => .bind .unitSpecifier fun _ =>
      .bind (.initializer hexpression hnotes hlays type) fun _ => .bind (.spanSince _) fun _ => .pure _
  · exact .unexpected _

theorem declaration (terminated : Bool) (type : DataType) :
    (Grammar.declaration expression terminated type).KeepsOrder := by
  have hdeclarator := declarator hexpression hnotes hlays type
  refine .bind .peek fun _ => .bind .advance fun _ => .bind hdeclarator fun _ => ?_
  refine .bind (.many fun _ => .bind .advance fun _ => hdeclarator) fun _ => ?_
  exact .bind (.bind .peek fun _ => .ite .advance (.pure _)) fun _ =>
    .bind (.spanSince _) fun _ => .pure _

end

include hexpression

theorem assignment : (Grammar.assignment expression).KeepsOrder := by
  refine .bind .path fun _ => .bind .peek fun t => ?_
  split
  · exact .bind .advance fun _ => .bind hexpression fun _ => .pure _
  · exact .unexpected _

theorem simple : (Grammar.simple expression).KeepsOrder :=
  .bind .atAssignment fun _ => .ite (.assignment hexpression) (.bind hexpression fun _ => .pure _)

theorem terminatedSimple : (Grammar.terminatedSimple expression).KeepsOrder :=
  .bind (.simple hexpression) fun _ => .bind (.mark _ _) fun _ => .pure _

omit hexpression in
theorem postStep : Grammar.postStep.KeepsOrder := by
  refine .bind .peek fun _ => .bind .path fun _ => .bind .peek fun u => ?_
  split
  · exact .bind .advance fun _ => .bind (.spanSince _) fun _ => .pure _
  · exact .unexpected _

theorem update : (Grammar.update expression).KeepsOrder := by
  refine .bind .peek fun t => ?_
  split
  · exact .bind .advance fun _ => .bind .path fun _ => .bind (.spanSince _) fun _ => .pure _
  · exact .bind .atAssignment fun _ => .ite (.assignment hexpression) .postStep

end

theorem output (newline : Bool) : (Grammar.output newline).KeepsOrder := by
  have htemplate : Grammar.template.KeepsOrder := by
    refine .bind .peek fun t => ?_
    split
    · exact .bind .advance fun _ => .pure _
    · exact .unexpected _
  have hplaceholder : Grammar.placeholder.KeepsOrder :=
    .bind .advance fun _ => .bind .path fun _ => .bind (.mark _ _) fun _ => .pure _
  refine .bind .peek fun _ => .bind .advance fun _ => .bind (.mark _ _) fun _ => ?_
  refine .bind htemplate fun _ => .bind (.many fun _ => hplaceholder) fun _ => ?_
  exact .bind .closeParenthesis fun _ => .bind (.mark _ _) fun _ =>
    .bind (.spanSince _) fun _ => .pure _

theorem input : Grammar.input.KeepsOrder :=
  .bind (.keyword _) fun _ => .bind (.mark _ _) fun _ => .bind .closeParenthesis fun _ =>
    .bind (.mark _ _) fun _ => .bind (.spanSince _) fun _ => .pure _

section

variable {expression : Rule Expr} (hexpression : expression.KeepsOrder)
  {block : Rule Block} (hblock : block.KeepsOrder)
  {conditional : Rule Conditional} (hconditional : conditional.KeepsOrder)

section

variable (hnotes : expression.Notes Expr.faults) (hlays : expression.Lays Expr.Over)

include hexpression hnotes hlays

/-- Both forms of the start of a header keep the order. -/
theorem forInit : (Grammar.forInit expression).KeepsOrder := by
  refine .bind .peek fun t => ?_
  split
  · exact .bind (.declaration hexpression hnotes hlays _ _) fun _ => .pure _
  · exact .bind (.simple hexpression) fun _ => .pure _

include hblock

theorem forLoop : (Grammar.forLoop expression block).KeepsOrder := by
  refine .bind (.keyword _) fun _ => .bind (.mark _ _) fun _ => ?_
  refine .bind (.forInit hexpression hnotes hlays) fun _ => .bind (.mark _ _) fun _ => ?_
  refine .bind hexpression fun _ => .bind (.mark _ _) fun _ => ?_
  refine .bind (.update hexpression) fun _ => .bind .closeParenthesis fun _ => ?_
  exact .bind hblock fun _ => .bind (.spanSince _) fun _ => .pure _

end

include hexpression hblock

theorem whileLoop : (Grammar.whileLoop expression block).KeepsOrder :=
  .bind (.keyword _) fun _ => .bind (.mark _ _) fun _ => .bind hexpression fun _ =>
    .bind .closeParenthesis fun _ => .bind hblock fun _ => .bind (.spanSince _) fun _ => .pure _

theorem repeatLoop : (Grammar.repeatLoop expression block).KeepsOrder :=
  .bind (.keyword _) fun _ => .bind hexpression fun _ => .bind (.keyword _) fun _ =>
    .bind hblock fun _ => .bind (.spanSince _) fun _ => .pure _

include hconditional

/-- Where expressions note their faults and stand over their tokens, statements note errors in
    order. -/
theorem statementRule (hnotes : expression.Notes Expr.faults) (hlays : expression.Lays Expr.Over) :
    (Grammar.statementRule expression conditional block).KeepsOrder := by
  refine .bind .peek fun t => ?_
  split
  · exact .bind (.declaration hexpression hnotes hlays _ _) fun _ => .pure _
  · exact .bind hconditional fun _ => .pure _
  · exact .whileLoop hexpression hblock
  · exact .forLoop hexpression hblock hnotes hlays
  · exact .repeatLoop hexpression hblock
  · exact .output _
  · exact .output _
  · exact .input
  · exact .terminatedSimple hexpression

theorem conditionalRule : (Grammar.conditionalRule expression conditional block).KeepsOrder := by
  have hotherwise : (Grammar.otherwiseRule conditional block).KeepsOrder := by
    refine .bind .peek fun _ => .ite (.bind .advance fun _ => .bind .peek fun _ => ?_) (.pure _)
    exact .ite (.bind hconditional fun _ => .pure _) (.bind hblock fun _ => .pure _)
  refine .bind (.keyword _) fun _ => .bind (.mark _ _) fun _ => .bind hexpression fun _ => ?_
  refine .bind .closeParenthesis fun _ => .bind hblock fun _ => .bind (.spanSince _) fun _ => ?_
  exact .bind hotherwise fun _ => .bind (.spanSince _) fun _ => .pure _

end

/-- An attempt that fails reports where it stopped, and the next one begins further on. -/
theorem blockRule {statement : Rule Statement} (hcomposed : Composed statement)
    (hstatement : statement.KeepsOrder) : (Grammar.blockRule statement).KeepsOrder :=
  .bind (.mark _ _) fun _ => .bind (.many fun _ => .recovering hcomposed hstatement) fun _ =>
    .bind (.mark _ _) fun _ => .bind (.spanSince _) fun _ => .pure _

/-- By induction on the levels that are left. -/
theorem statement_and_parts (n : Nat) :
    (Grammar.statement n).KeepsOrder ∧ (Grammar.conditional n).KeepsOrder ∧
      (Grammar.block n).KeepsOrder := by
  induction n with
  | zero => exact ⟨.tooDeep, .tooDeep, .tooDeep⟩
  | succ n ih =>
    obtain ⟨hstatement, hconditional, hblock⟩ := ih
    have hexpression := expression n
    refine ⟨?_, .conditionalRule hexpression hblock hconditional, .blockRule (.statement n) hstatement⟩
    exact .statementRule hexpression hblock hconditional (expression_notes n) (expression_lays n)

/-- The errors of a program are in order, those of reserved words apart. -/
theorem program : Grammar.program.KeepsOrder := by
  have hstatement := (statement_and_parts maxNesting).1
  exact .bind (.many fun _ => .recovering (.statement maxNesting) hstatement) fun _ => .pure _

end Grammar.Rule.KeepsOrder

end GeoLang
