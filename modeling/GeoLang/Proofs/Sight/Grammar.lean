import GeoLang.Proofs.Sight.Rule

namespace GeoLang.Grammar

private theorem checkArity_overlooks (word : ReservedWord) (args : List Expr) (span : Span) :
    (checkArity word args span).Overlooks := by
  unfold checkArity
  exact .ite (.pure ()) (.note rfl)

private theorem checkInitializer_overlooks (type : DataType) (e : Expr) :
    (checkInitializer type e).Overlooks := by
  unfold checkInitializer
  split
  · exact .ite (.pure ()) (.note rfl)
  · exact .pure ()

/-- Marks are told by their kind, and the class of a sign is no part of it. -/
theorem markAt_reclassed (p : Punctuation) (t t' : Token) (h : t.Reclassed t') :
    markAt p t' = markAt p t := by
  rw [markAt, markAt, h.isPunctuation]

/-- So are steps. -/
theorem stepAt_reclassed {t t' : Token} (h : t.Reclassed t') : stepAt t' = stepAt t := by
  rw [stepAt, stepAt, h.operator?]

private theorem jointAt_reclassed (least : Nat) (t t' : Token) (h : t.Reclassed t') :
    jointAt least t' = jointAt least t := by
  rw [jointAt, jointAt, h.operator?]

namespace Rule.Overlooks

theorem keyword (word : Keyword) : (Grammar.keyword word).Overlooks :=
  .peek_bind (fun t t' h => by rw [h.isKeyword, h.span]) fun _ =>
    .ite (.bind .advance fun _ => .pure _) (.unexpected (by simp))

theorem mark (p : Punctuation) {x : Expectation} (hx : x ≠ .assignmentOperator) :
    (Grammar.mark p x).Overlooks :=
  .peek_bind (fun t t' h => by rw [h.isPunctuation, h.span]) fun _ =>
    .ite (.bind .advance fun _ => .pure _) (.unexpected hx)

theorem closeParenthesis : Grammar.closeParenthesis.Overlooks := by
  refine .peek_bind (fun t t' h => by rw [h.isPunctuation, h.span]) fun t => ?_
  refine .ite (.bind .advance fun _ => .pure _) fun c c' hc => ?_
  exact .error ⟨.same _, nofun⟩ hc .nil

/-- A name is no sign; only the token that is found in its place may be one. -/
theorem name {x : Expectation} (hx : x ≠ .assignmentOperator) : (Grammar.name x).Overlooks :=
  .peek_bind (fun t t' h => by rw [h.isName, h.lexeme]) fun _ =>
    .ite (.bind .advance fun _ => .pure _) (.unexpected hx)

/-- A path overlooks the class, as do the rules built from it below. -/
theorem path : Grammar.path.Overlooks := by
  refine .peek_bind (fun t t' h => by rw [h.span]) fun t => .bind (.name (by simp)) fun _ => ?_
  have hmember : member.Overlooks := .bind .advance fun _ => .name (by simp)
  refine .bind (.many (markAt_reclassed .dot) fun _ => hmember) fun _ => ?_
  exact .bind (.spanSince _) fun _ => .pure _

section

variable {expression factor : Rule Expr} (hexpression : expression.Overlooks)

include hexpression

theorem arguments : (Grammar.arguments expression).Overlooks := by
  refine .bind (.mark _ (by simp)) fun _ => ?_
  refine .peek_bind (fun t t' h => by rw [h.isPunctuation]) fun _ => ?_
  refine .ite (.bind .closeParenthesis fun _ => .pure _) (.bind hexpression fun _ => ?_)
  have hmore : (argument expression).Overlooks := .bind .advance fun _ => hexpression
  refine .bind (.many (markAt_reclassed .comma) fun _ => hmore) fun _ => ?_
  exact .bind .closeParenthesis fun _ => .pure _

theorem reservedCall (word : ReservedWord) (start : Span) :
    (Grammar.reservedCall expression word start).Overlooks :=
  .bind .advance fun _ => .bind (.arguments hexpression) fun _ => .bind (.spanSince _) fun _ =>
    .bind (checkArity_overlooks _ _ _) fun _ => .pure _

theorem pathExpression : (Grammar.pathExpression expression).Overlooks := by
  refine .bind .path fun p => .peek_bind (fun t t' h => by cases h <;> rfl) fun t => ?_
  split
  · exact .bind (.arguments hexpression) fun _ => .bind (.spanSince _) fun _ => .pure _
  · exact .ite (.bind .advance fun _ => .bind (.spanSince _) fun _ => .pure _) (.pure _)
  · exact .pure _

theorem factorRule (hfactor : factor.Overlooks) :
    (Grammar.factorRule factor expression).Overlooks := by
  refine .peek_bind (fun t t' h => by cases h <;> rfl) fun t => ?_
  split
  · refine .ite (.bind .advance fun _ => .bind hfactor fun _ => ?_) (.unexpected (by simp))
    exact .bind (.spanSince _) fun _ => .pure _
  · exact .bind .advance fun _ => .pure _
  · refine .bind .advance fun _ => .bind hexpression fun _ => .bind .closeParenthesis fun _ => ?_
    exact .bind (.spanSince _) fun _ => .pure _
  · refine .peekSecond_bind (fun u u' h => by rw [h.isPunctuation]) fun u => ?_
    exact .ite (.reservedCall hexpression _ _) (.pathExpression hexpression)
  · exact .pathExpression hexpression
  · exact .pathExpression hexpression
  · exact .unexpected (by simp)

end

theorem binaryRule {factor : Rule Expr} {operand : Nat → Rule Expr} (hfactor : factor.Overlooks)
    (hoperand : ∀ least, (operand least).Overlooks) (least : Nat) :
    (Grammar.binaryRule factor operand least).Overlooks := by
  refine .bind hfactor fun _ => .bind (.many (jointAt_reclassed least) fun _ => ?_) fun _ => .pure _
  exact .bind .advance fun _ => .bind (hoperand _) fun _ => .pure _

/-- By induction on the levels; operators are told by their spelling alone. -/
theorem binary_and_factor (n : Nat) :
    (∀ least, (Grammar.binary n least).Overlooks) ∧ (Grammar.factor n).Overlooks := by
  induction n with
  | zero => exact ⟨fun _ => .tooDeep, .tooDeep⟩
  | succ n ih =>
    obtain ⟨hbinary, hfactor⟩ := ih
    exact ⟨.binaryRule hfactor hbinary, .factorRule (hbinary 1) hfactor⟩

theorem expression (n : Nat) : (Grammar.expression n).Overlooks := (binary_and_factor n).1 1

theorem unitSpecifier : Grammar.unitSpecifier.Overlooks := by
  have hunit : ∀ t t', t.Reclassed t' → unitAt t' = unitAt t := by
    intro t t' h
    rw [unitAt, unitAt, h.reserved?]
  refine .peek_bind (fun t t' h => by rw [h.reserved?, h.span, hunit t t' h]) fun t => .ite ?_ ?_
  · refine .bind .advance fun _ => .peek_bind (fun u u' h => by rw [hunit u u' h]) fun u => ?_
    split
    · exact .bind .advance fun _ => .bind (.spanSince _) fun _ => .pure _
    · exact .unexpected (by simp)
  · split
    · exact .bind .advance fun _ => .bind (.spanSince _) fun _ => .pure _
    · exact .pure _

section

variable {expression : Rule Expr} (hexpression : expression.Overlooks)

include hexpression

theorem initializer (type : DataType) : (Grammar.initializer expression type).Overlooks := by
  refine .peek_bind (fun t t' h => by rw [h.operator?]) fun _ => .ite ?_ (.pure _)
  refine .bind .advance fun _ => .bind hexpression fun e => ?_
  exact .bind (checkInitializer_overlooks type e) fun _ => .pure _

theorem declarator (type : DataType) : (Grammar.declarator expression type).Overlooks := by
  refine .peek_bind (fun t t' h => by cases h <;> rfl) fun t => ?_
  split
  · refine .bind .advance fun _ => .bind .unitSpecifier fun _ => ?_
    exact .bind (.initializer hexpression type) fun _ => .bind (.spanSince _) fun _ => .pure _
  · exact .unexpected (by simp)

/-- What is declared does not depend on the class of a sign, whether or not a semicolon is
    demanded. -/
theorem declaration (terminated : Bool) (type : DataType) :
    (Grammar.declaration expression terminated type).Overlooks := by
  refine .peek_bind (fun t t' h => by rw [h.span]) fun t => .bind .advance fun _ => ?_
  refine .bind (.declarator hexpression type) fun _ => ?_
  refine .bind (.many (markAt_reclassed .comma) fun _ => ?_) fun _ => ?_
  · exact .bind .advance fun _ => .declarator hexpression type
  · refine .bind ?_ fun _ => .bind (.spanSince _) fun _ => .pure _
    exact .peek_bind (fun t t' h => by rw [h.isPunctuation]) fun _ => .ite .advance (.pure _)

theorem simple : (Grammar.simple expression).Overlooks :=
  .assignment .path hexpression (.bind hexpression fun _ => .pure _)

end

theorem postStep : Grammar.postStep.Overlooks := by
  refine .peek_bind (fun t t' h => by rw [h.span]) fun t => .bind .path fun _ => ?_
  refine .peek_bind (fun u u' h => by rw [stepAt_reclassed h]) fun u => ?_
  split
  · exact .bind .advance fun _ => .bind (.spanSince _) fun _ => .pure _
  · exact .unexpected (by simp)

theorem template : Grammar.template.Overlooks := by
  refine .peek_bind (fun t t' h => by cases h <;> rfl) fun t => ?_
  split
  · exact .bind .advance fun _ => .pure _
  · exact .unexpected (by simp)

theorem output (newline : Bool) : (Grammar.output newline).Overlooks := by
  refine .peek_bind (fun t t' h => by rw [h.span]) fun t => .bind .advance fun _ => ?_
  refine .bind (.mark _ (by simp)) fun _ => .bind .template fun _ => ?_
  refine .bind (.many (markAt_reclassed .lCurly) fun _ => ?_) fun _ => ?_
  · exact .bind .advance fun _ => .bind .path fun _ => .bind (.mark _ (by simp)) fun _ => .pure _
  · refine .bind .closeParenthesis fun _ => .bind (.mark _ (by simp)) fun _ => ?_
    exact .bind (.spanSince _) fun _ => .pure _

theorem input : Grammar.input.Overlooks :=
  .bind (.keyword _) fun _ => .bind (.mark _ (by simp)) fun _ => .bind .closeParenthesis fun _ =>
    .bind (.mark _ (by simp)) fun _ => .bind (.spanSince _) fun _ => .pure _

section

variable {expression : Rule Expr} {conditional : Rule Conditional} {block : Rule Block}
  (hexpression : expression.Overlooks)

include hexpression

theorem update : (Grammar.update expression).Overlooks := by
  refine .peek_bind (fun t t' h => by rw [stepAt_reclassed h, h.span]) fun t => ?_
  split
  · exact .bind .advance fun _ => .bind .path fun _ => .bind (.spanSince _) fun _ => .pure _
  · exact .assignment .path hexpression .postStep

theorem forInit : (Grammar.forInit expression).Overlooks := by
  refine .peek_bind (fun t t' h => by cases h <;> rfl) fun t => ?_
  split
  · exact .bind (.declaration hexpression _ _) fun _ => .pure _
  · exact .bind (.simple hexpression) fun _ => .pure _

variable (hblock : block.Overlooks)

include hblock

theorem whileLoop : (Grammar.whileLoop expression block).Overlooks :=
  .bind (.keyword _) fun _ => .bind (.mark _ (by simp)) fun _ => .bind hexpression fun _ =>
    .bind .closeParenthesis fun _ => .bind hblock fun _ => .bind (.spanSince _) fun _ => .pure _

theorem forLoop : (Grammar.forLoop expression block).Overlooks := by
  refine .bind (.keyword _) fun _ => .bind (.mark _ (by simp)) fun _ => ?_
  refine .bind (.forInit hexpression) fun _ => .bind (.mark _ (by simp)) fun _ => ?_
  refine .bind hexpression fun _ => .bind (.mark _ (by simp)) fun _ => ?_
  refine .bind (.update hexpression) fun _ => ?_
  exact .bind .closeParenthesis fun _ => .bind hblock fun _ => .bind (.spanSince _) fun _ => .pure _

theorem repeatLoop : (Grammar.repeatLoop expression block).Overlooks :=
  .bind (.keyword _) fun _ => .bind hexpression fun _ => .bind (.keyword _) fun _ =>
    .bind hblock fun _ => .bind (.spanSince _) fun _ => .pure _

variable (hconditional : conditional.Overlooks)

include hconditional

theorem statementRule : (Grammar.statementRule expression conditional block).Overlooks := by
  refine .peek_bind (fun t t' h => by cases h <;> rfl) fun t => ?_
  split
  · exact .bind (.declaration hexpression _ _) fun _ => .pure _
  · exact .bind hconditional fun _ => .pure _
  · exact .whileLoop hexpression hblock
  · exact .forLoop hexpression hblock
  · exact .repeatLoop hexpression hblock
  · exact .output _
  · exact .output _
  · exact .input
  · exact .bind (.simple hexpression) fun _ => .bind (.mark _ (by simp)) fun _ => .pure _

omit hexpression in
theorem otherwiseRule : (Grammar.otherwiseRule conditional block).Overlooks := by
  refine .peek_bind (fun t t' h => by rw [h.isKeyword]) fun t => .ite ?_ (.pure _)
  refine .bind .advance fun _ => .peek_bind (fun u u' h => by rw [h.isKeyword]) fun u => ?_
  exact .ite (.bind hconditional fun _ => .pure _) (.bind hblock fun _ => .pure _)

theorem conditionalRule : (Grammar.conditionalRule expression conditional block).Overlooks := by
  refine .bind (.keyword _) fun _ => .bind (.mark _ (by simp)) fun _ => ?_
  refine .bind hexpression fun _ => .bind .closeParenthesis fun _ => ?_
  refine .bind hblock fun _ => .bind (.spanSince _) fun _ => ?_
  exact .bind (.otherwiseRule hblock hconditional) fun _ => .bind (.spanSince _) fun _ => .pure _

end

/-- Attempts recover alike, since boundaries are no matter of classes. -/
theorem blockRule {statement : Rule Statement} (hstatement : statement.Overlooks) :
    (Grammar.blockRule statement).Overlooks := by
  have hinside : ∀ t t', t.Reclassed t' → insideBlock t' = insideBlock t := by
    intro t t' h
    rw [insideBlock, insideBlock, h.isPunctuation, h.isEof]
  refine .bind (.mark _ (by simp)) fun _ => ?_
  refine .bind (.many hinside fun _ => .recovering hstatement) fun _ => ?_
  exact .bind (.mark _ (by simp)) fun _ => .bind (.spanSince _) fun _ => .pure _

/-- By induction on the levels that are left. -/
theorem statement_and_parts (n : Nat) :
    (Grammar.statement n).Overlooks ∧ (Grammar.conditional n).Overlooks ∧
      (Grammar.block n).Overlooks := by
  induction n with
  | zero => exact ⟨.tooDeep, .tooDeep, .tooDeep⟩
  | succ n ih =>
    obtain ⟨hstatement, hconditional, hblock⟩ := ih
    exact ⟨.statementRule (.expression n) hblock hconditional,
      .conditionalRule (.expression n) hblock hconditional, .blockRule hstatement⟩

/-- Programs overlook the class of signs. -/
theorem program : Grammar.program.Overlooks := by
  have hinside : ∀ t t', t.Reclassed t' → insideProgram t' = insideProgram t := by
    intro t t' h
    rw [insideProgram, insideProgram, h.isEof]
  have hstatement := (statement_and_parts maxNesting).1
  exact .bind (.many hinside fun _ => .recovering hstatement) fun _ => .pure _

end Rule.Overlooks

end GeoLang.Grammar
