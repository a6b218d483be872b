import GeoLang.Proofs.Shape.Expression

namespace GeoLang.Grammar

private theorem isUnit_of_unitReturns {c d : Cursor} {u : Option UnitSpecifier}
    {es : List ParseError}
    (hunit : UnitReturns c u d es) : ∀ v ∈ u, v.unit.isUnit = true := by
  cases hunit with
  | squared _ hunit | plain _ hunit =>
    obtain ⟨_, hisUnit⟩ := unitAt_eq_some_iff.1 hunit
    rintro v ⟨⟩
    exact hisUnit
  | none => simp

section

variable {expression : Rule Expr} (hexpression : expression.Yields fun e _ => e.Shaped)

include hexpression

private theorem declarator_yields (type : DataType) :
    (declarator expression type).Yields fun x _ => x.Shaped := by
  refine ⟨.declarator hexpression.composed type, ?_⟩
  intro c x d es hsound hreturns
  obtain ⟨name, unit, c', init, _, hunit, hinit, rfl⟩ := returns_declarator_iff.1 hreturns
  obtain ⟨used, hreads⟩ :=
    Composed.unitSpecifier.exists_reads_of_returns (returns_unitSpecifier_iff.2 hunit)
  refine ⟨isUnit_of_unitReturns hunit, ?_⟩
  cases hinit with
  | some _ hvalue =>
    have hsound' := (hsound.advance.of_reads hreads).advance
    rintro e ⟨⟩
    exact hexpression.holds _ _ _ _ hsound' hvalue
  | none => simp

/-- A declaration has at least one name, and each of them is well-formed. -/
theorem declaration_yields (terminated : Bool) (type : DataType) :
    (declaration expression terminated type).Yields fun x _ => x.Shaped := by
  refine ⟨.declaration hexpression.composed terminated type, ?_⟩
  intro c x d es hsound hreturns
  obtain ⟨first, c₁, _, others, c₂, _, hfirst, hothers, rfl, _, rfl⟩ :=
    returns_declaration_iff.1 hreturns
  have hdeclarator := declarator_yields hexpression type
  have hnext : (nextDeclarator expression type).Yields fun x _ => x.Shaped := by
    refine ⟨.bind .advance fun _ => hdeclarator.composed, ?_⟩
    intro c x d es hsound hreturns
    exact hdeclarator.holds _ _ _ _ hsound.advance (returns_nextDeclarator_iff.1 hreturns)
  have hshaped := hdeclarator.holds _ _ _ _ hsound.advance hfirst
  obtain ⟨_, hrest⟩ := hothers.yields (fun _ => hnext) (hdeclarator.sound hsound.advance hfirst)
  exact ⟨by simp [Declaration.declarators], List.forall_mem_cons.2 ⟨hshaped, hrest⟩⟩

/-- This is where the classes of the tokens matter: what is read as an assignment operator is
    one. -/
theorem assignment_yields : (assignment expression).Yields fun s _ => s.Shaped := by
  refine ⟨.assignment hexpression.composed, ?_⟩
  intro c s d es hsound hreturns
  obtain ⟨target, c', _, op, value, _, htarget, hop, hvalue, rfl, _⟩ :=
    returns_assignment_iff.1 hreturns
  have hsound' := path_yields.sound hsound htarget
  have hclass := hsound'.peek _ _ (TokenKind.assignment?_eq_some_iff.1 hop)
  have hassigns : op.cls = .assignment := by
    obtain hclass | ⟨hclass, _⟩ := hclass
    · exact hclass.symm
    · cases hclass
  exact ⟨target.shaped, hassigns, hexpression.holds _ _ _ _ hsound'.advance hvalue⟩

/-- What stands in front of a semicolon is well-formed. -/
theorem simple_yields : (simple expression).Yields fun s _ => s.Shaped := by
  refine ⟨.simple hexpression.composed, ?_⟩
  intro c s d es hsound hreturns
  cases returns_simple_iff.1 hreturns with
  | assignment _ hassignment => exact (assignment_yields hexpression).holds _ _ _ _ hsound hassignment
  | expression _ hreturns =>
    exact Simple.shaped_ofExpr (hexpression.holds _ _ _ _ hsound hreturns)

/-- The part of a header that makes the step is well-formed. -/
theorem update_yields : (update expression).Yields fun s _ => s.Shaped := by
  refine ⟨.update hexpression.composed, ?_⟩
  intro c s d es hsound hreturns
  cases returns_update_iff.1 hreturns with
  | before hstep =>
    have hleads : Operator.leads _ = true := leads_of_isStep (stepAt_eq_some_iff.1 hstep).2
    exact ⟨hleads, rfl, Path.shaped _⟩
  | assignment _ _ hassignment =>
    exact (assignment_yields hexpression).holds _ _ _ _ hsound hassignment
  | behind _ _ _ hstep =>
    have hop := eq_increment_or_eq_decrement (stepAt_eq_some_iff.1 hstep).2
    exact ⟨hop, Path.shaped _⟩

/-- The part of a header that initializes is well-formed. -/
theorem forInit_yields : (forInit expression).Yields fun i _ => i.Shaped := by
  refine ⟨.forInit hexpression.composed, ?_⟩
  intro c i d es hsound hreturns
  cases returns_forInit_iff.1 hreturns with
  | declaration _ hdeclaration =>
    exact (declaration_yields hexpression _ _).holds _ _ _ _ hsound hdeclaration
  | simple _ hsimple => exact (simple_yields hexpression).holds _ _ _ _ hsound hsimple

private theorem terminatedSimple_yields :
    (terminatedSimple expression).Yields fun s _ => s.Shaped := by
  refine ⟨.bind (.simple hexpression.composed) fun _ => .bind (.mark _ _) fun _ => .pure _, ?_⟩
  intro c s d es hsound hreturns
  obtain ⟨x, c', hsimple, _, _, rfl⟩ := returns_terminatedSimple_iff.1 hreturns
  exact (simple_yields hexpression).holds _ _ _ _ hsound hsimple

end

private theorem output_yields (newline : Bool) : (output newline).Yields fun s _ => s.Shaped := by
  refine ⟨.output newline, ?_⟩
  intro c s d es _ hreturns
  obtain ⟨_, text, placeholders, c', _, _, _, _, _, rfl⟩ := returns_output_iff.1 hreturns
  exact fun p _ => p.shaped

private theorem input_yields : input.Yields fun s _ => s.Shaped := by
  refine ⟨.input, ?_⟩
  intro c s d es _ hreturns
  obtain ⟨_, _, _, _, _, rfl, _⟩ := returns_input_iff.1 hreturns
  exact trivial

section

variable {expression : Rule Expr} {conditional : Rule Conditional} {block : Rule Block}
  (hexpression : expression.Yields fun e _ => e.Shaped)
  (hconditional : conditional.Yields fun x _ => x.Shaped)
  (hblock : block.Yields fun b _ => b.Shaped)

include hexpression hblock

private theorem whileLoop_yields : (whileLoop expression block).Yields fun s _ => s.Shaped := by
  refine ⟨.whileLoop hexpression.composed hblock.composed, ?_⟩
  intro c s d es hsound hreturns
  obtain ⟨_, _, condition, c', _, body, _, hcondition, _, hbody, rfl, _⟩ :=
    returns_whileLoop_iff.1 hreturns
  have hstart := hsound.advance.advance
  have hsound' := hexpression.sound hstart hcondition
  exact ⟨hexpression.holds _ _ _ _ hstart hcondition, hblock.holds _ _ _ _ hsound'.advance hbody⟩

private theorem forLoop_yields : (forLoop expression block).Yields fun s _ => s.Shaped := by
  refine ⟨.forLoop hexpression.composed hblock.composed, ?_⟩
  intro c s d es hsound hreturns
  obtain ⟨_, _, init, c₁, _, condition, c₂, _, change, c₃, _, body, _, hinit, _, hcondition, _,
    hchange, _, hbody, rfl, _⟩ := returns_forLoop_iff.1 hreturns
  have hsound₁ := (forInit_yields hexpression).sound hsound.advance.advance hinit
  have hsound₂ := hexpression.sound hsound₁.advance hcondition
  have hsound₃ := (update_yields hexpression).sound hsound₂.advance hchange
  refine ⟨?_, ?_, ?_, ?_⟩
  · exact (forInit_yields hexpression).holds _ _ _ _ hsound.advance.advance hinit
  · exact hexpression.holds _ _ _ _ hsound₁.advance hcondition
  · exact (update_yields hexpression).holds _ _ _ _ hsound₂.advance hchange
  · exact hblock.holds _ _ _ _ hsound₃.advance hbody

private theorem repeatLoop_yields : (repeatLoop expression block).Yields fun s _ => s.Shaped := by
  refine ⟨.repeatLoop hexpression.composed hblock.composed, ?_⟩
  intro c s d es hsound hreturns
  obtain ⟨_, count, c', _, body, _, hcount, _, hbody, rfl, _⟩ := returns_repeatLoop_iff.1 hreturns
  have hsound' := hexpression.sound hsound.advance hcount
  exact ⟨hexpression.holds _ _ _ _ hsound.advance hcount, hblock.holds _ _ _ _ hsound'.advance hbody⟩

include hconditional

private theorem statementRule_yields :
    (statementRule expression conditional block).Yields fun s _ => s.Shaped := by
  refine ⟨.statementRule hexpression.composed hconditional.composed hblock.composed, ?_⟩
  intro c s d es hsound hreturns
  cases returns_statementRule_iff.1 hreturns with
  | declaration _ hdeclaration =>
    exact (declaration_yields hexpression _ _).holds _ _ _ _ hsound hdeclaration
  | conditional _ hreturns => exact hconditional.holds _ _ _ _ hsound hreturns
  | whileLoop _ hloop => exact (whileLoop_yields hexpression hblock).holds _ _ _ _ hsound hloop
  | forLoop _ hloop => exact (forLoop_yields hexpression hblock).holds _ _ _ _ hsound hloop
  | repeatLoop _ hloop => exact (repeatLoop_yields hexpression hblock).holds _ _ _ _ hsound hloop
  | output _ houtput => exact (output_yields _).holds _ _ _ _ hsound houtput
  | input _ hinput => exact input_yields.holds _ _ _ _ hsound hinput
  | simple _ hsimple => exact (terminatedSimple_yields hexpression).holds _ _ _ _ hsound hsimple

private theorem conditionalRule_yields :
    (conditionalRule expression conditional block).Yields fun x _ => x.Shaped := by
  refine ⟨.conditionalRule hexpression.composed hconditional.composed hblock.composed, ?_⟩
  intro c x d es hsound hreturns
  obtain ⟨_, _, condition, c₁, _, body, c₂, _, otherwise, _, hcondition, _, hbody, hotherwise, rfl, _⟩ :=
    returns_conditionalRule_iff.1 hreturns
  have hstart := hsound.advance.advance
  have hsound₁ := hexpression.sound hstart hcondition
  have hsound₂ := hblock.sound hsound₁.advance hbody
  refine ⟨hexpression.holds _ _ _ _ hstart hcondition, hblock.holds _ _ _ _ hsound₁.advance hbody, ?_⟩
  cases hotherwise with
  | nothing => exact trivial
  | conditional _ _ hreturns => exact hconditional.holds _ _ _ _ hsound₂.advance hreturns
  | block _ _ hreturns => exact hblock.holds _ _ _ _ hsound₂.advance hreturns

end

/-- An attempt at a statement gives one of the right shape or none at all. -/
theorem recovering_yields {statement : Rule Statement}
    (hstatement : statement.Yields fun s _ => s.Shaped) :
    (recovering statement).Yields fun s _ => ∀ x ∈ s, x.Shaped := by
  refine ⟨.recovering hstatement.composed, ?_⟩
  intro c s d es hsound hreturns
  cases returns_recovering_iff.1 hreturns with
  | read hread =>
    have hshaped := hstatement.holds _ _ _ _ hsound hread
    rintro x ⟨⟩
    exact hshaped
  | skipped => simp

/-- Whatever statements are attempted again and again, those that are read have the right shape. -/
theorem shaped_of_repeats {next? : Token → Option Unit} {statement : Rule Statement}
    (hstatement : statement.Yields fun s _ => s.Shaped) {c d : Cursor}
    {attempts : List (Option Statement)} {es : List ParseError}
    (hrepeats : Repeats next? (fun _ => recovering statement) c attempts d es) (hsound : c.Sound) :
    ∀ s ∈ attempts.reduceOption, s.Shaped := by
  obtain ⟨_, hshaped⟩ := hrepeats.yields (fun _ => recovering_yields hstatement) hsound
  intro s hs
  obtain ⟨x, hx, hs⟩ := List.mem_filterMap.1 hs
  exact hshaped x hx s hs

private theorem blockRule_yields {statement : Rule Statement}
    (hstatement : statement.Yields fun s _ => s.Shaped) :
    (blockRule statement).Yields fun b _ => b.Shaped := by
  refine ⟨.blockRule hstatement.composed, ?_⟩
  intro c b d es hsound hreturns
  obtain ⟨_, attempts, c', hattempts, _, _, rfl⟩ := returns_blockRule_iff.1 hreturns
  exact Statement.allShaped_iff.2 (shaped_of_repeats hstatement hattempts hsound.advance)

private theorem statement_and_parts_yield (n : Nat) :
    (statement n).Yields (fun s _ => s.Shaped) ∧ (conditional n).Yields (fun x _ => x.Shaped) ∧
      (block n).Yields fun b _ => b.Shaped := by
  induction n with
  | zero => exact ⟨tooDeep_yields, tooDeep_yields, tooDeep_yields⟩
  | succ n ih =>
    obtain ⟨hstatement, hconditional, hblock⟩ := ih
    exact ⟨statementRule_yields (expression_yields n) hconditional hblock,
      conditionalRule_yields (expression_yields n) hconditional hblock, blockRule_yields hstatement⟩

/-- Everything that recovery leaves of a program is well-formed. -/
theorem program_yields : program.Yields fun p _ => p.Shaped := by
  refine ⟨.program, ?_⟩
  intro c p d es hsound hreturns
  obtain ⟨attempts, hattempts, rfl⟩ := returns_program_iff.1 hreturns
  exact shaped_of_repeats (statement_and_parts_yield maxNesting).1 hattempts hsound

end GeoLang.Grammar
