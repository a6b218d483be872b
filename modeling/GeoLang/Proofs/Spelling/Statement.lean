import GeoLang.Proofs.Reading.Composed
import GeoLang.Proofs.Spelling.Expression

namespace GeoLang.Grammar

section

variable {expression : Rule Expr} (hexpression : expression.Spells Expr.terminals)

/-- A unit is read from one token, or from two if it is squared. -/
theorem unitReturns_spells {c d : Cursor} {u : Option UnitSpecifier} {es : List ParseError}
    (hunit : UnitReturns c u d es) : c.Spells (u.elim [] UnitSpecifier.terminals) d := by
  cases hunit with
  | squared hsq hunit =>
    obtain ⟨hword, _⟩ := unitAt_eq_some_iff.1 hunit
    exact .cons hsq (.token hword)
  | plain _ hunit =>
    obtain ⟨hword, _⟩ := unitAt_eq_some_iff.1 hunit
    exact .token hword
  | none => exact .refl c

include hexpression

private theorem initializerReturns_spells {type : DataType} {c d : Cursor} {init : Option Expr}
    {es : List ParseError} (hinit : InitializerReturns expression type c init d es)
    (hclean : Clean es) : c.Spells (init.elim [] fun e => .operator .assign :: e.terminals) d := by
  cases hinit with
  | some hassign hreturns =>
    obtain ⟨hcleanExpression, _⟩ := Clean.append_iff.1 hclean
    exact .cons hassign (hexpression _ _ _ _ hreturns hcleanExpression)
  | none => exact .refl c

theorem declarator_spells (type : DataType) :
    (declarator expression type).Spells Declarator.terminals := by
  intro c x d es hreturns hclean
  obtain ⟨name, unit, c', init, hname, hunit, hinit, rfl⟩ := returns_declarator_iff.1 hreturns
  exact .cons hname ((unitReturns_spells hunit).trans
    (initializerReturns_spells hexpression hinit hclean))

/-- Up to the semicolon, which belongs to the declaration only if it is a statement. -/
theorem declaration_spells {terminated : Bool} {type : DataType} {c d : Cursor} {x : Declaration}
    {es : List ParseError} (htype : c.peek.kind = .dataType type)
    (hreturns : (declaration expression terminated type).Returns c x d es) (hclean : Clean es) :
    ∃ c', c.Spells x.terminals c' ∧ d = c'.skipTerminator terminated := by
  obtain ⟨first, c₁, es₁, others, c₂, es₂, hfirst, hothers, rfl, rfl, rfl⟩ :=
    returns_declaration_iff.1 hreturns
  obtain ⟨hcleanFirst, hcleanOthers⟩ := Clean.append_iff.1 hclean
  have hfirst := declarator_spells hexpression type _ _ _ _ hfirst hcleanFirst
  refine ⟨c₂, .cons htype (hfirst.trans (hothers.spells ?_ hcleanOthers)), rfl⟩
  intro _ c x d es hcomma hnext hclean
  exact .cons (markAt_eq_some_iff.1 hcomma)
    (declarator_spells hexpression type _ _ _ _ (returns_nextDeclarator_iff.1 hnext) hclean)

theorem assignment_spells : (assignment expression).Spells Simple.terminals := by
  intro c s d es hreturns hclean
  obtain ⟨target, c', es₁, op, value, es₂, htarget, hop, hvalue, rfl, rfl⟩ :=
    returns_assignment_iff.1 hreturns
  obtain ⟨hcleanTarget, hcleanValue⟩ := Clean.append_iff.1 hclean
  have hfits : (Terminal.operator op).Fits c'.peek := TokenKind.operator?_of_assignment? hop
  exact (path_spells _ _ _ _ htarget hcleanTarget).trans
    (.cons hfits (hexpression _ _ _ _ hvalue hcleanValue))

theorem simple_spells : (simple expression).Spells Simple.terminals := by
  intro c s d es hreturns hclean
  cases returns_simple_iff.1 hreturns with
  | assignment _ hassignment => exact assignment_spells hexpression _ _ _ _ hassignment hclean
  | expression _ hreturns =>
    rw [Simple.terminals_ofExpr]
    exact hexpression _ _ _ _ hreturns hclean

private theorem update_spells : (update expression).Spells Simple.terminals := by
  intro c s d es hreturns hclean
  cases returns_update_iff.1 hreturns with
  | before hstep hoperand =>
    obtain ⟨hop, _⟩ := stepAt_eq_some_iff.1 hstep
    exact .cons hop (path_spells _ _ _ _ hoperand hclean)
  | assignment _ _ hassignment => exact assignment_spells hexpression _ _ _ _ hassignment hclean
  | behind _ _ hoperand hstep =>
    obtain ⟨hop, _⟩ := stepAt_eq_some_iff.1 hstep
    exact .concat (path_spells _ _ _ _ hoperand hclean) hop

private theorem forInit_spells : (forInit expression).Spells ForInit.terminals := by
  intro c init d es hreturns hclean
  cases returns_forInit_iff.1 hreturns with
  | declaration htype hdeclaration =>
    obtain ⟨c', hspells, rfl⟩ := declaration_spells hexpression htype hdeclaration hclean
    exact hspells
  | simple _ hsimple => exact simple_spells hexpression _ _ _ _ hsimple hclean

private theorem terminatedSimple_spells :
    (terminatedSimple expression).Spells Statement.terminals := by
  intro c s d es hreturns hclean
  obtain ⟨x, c', hsimple, hend, rfl, rfl⟩ := returns_terminatedSimple_iff.1 hreturns
  exact (simple_spells hexpression _ _ _ _ hsimple hclean).concat hend

end

/-- The semicolon of a declaration may be there or not. -/
theorem Cursor.spells_skipTerminator (c : Cursor) : c.Spells [.terminator] (c.skipTerminator true) := by
  by_cases hsemicolon : c.peek.kind = .punctuation .semicolon
  · have hfits : Terminal.terminator.Fits c.peek := hsemicolon
    simpa [skipTerminator, TokenKind.isPunctuation, hsemicolon] using Spells.token hfits
  · have homitted : c.Spells [.terminator] c := fun _ => ⟨[], .refl c, .omitted .nil⟩
    simpa [skipTerminator, TokenKind.isPunctuation, hsemicolon] using homitted

private theorem placeholder_spells {c d : Cursor} {p : Path} {es : List ParseError}
    (hopen : c.peek.kind = .punctuation .lCurly) (hreturns : placeholder.Returns c p d es)
    (hclean : Clean es) : c.Spells p.placeholderTerminals d := by
  obtain ⟨c', hpath, hclose, rfl⟩ := returns_placeholder_iff.1 hreturns
  exact .concat (.cons hopen (path_spells _ _ _ _ hpath hclean)) hclose

private theorem output_spells {newline : Bool} {c d : Cursor} {s : Statement} {es : List ParseError}
    (hword : c.peek.kind = .keyword (outputKeyword newline))
    (hreturns : (output newline).Returns c s d es) (hclean : Clean es) :
    c.Spells s.terminals d := by
  obtain ⟨hopen, text, placeholders, c', htext, hplaceholders, hclose, hend, rfl, rfl⟩ :=
    returns_output_iff.1 hreturns
  have hspells : (c.advance.advance.advance).Spells
      (placeholders.flatMap Path.placeholderTerminals) c' :=
    hplaceholders.spells
      (fun _ _ _ _ _ hcurly => placeholder_spells (markAt_eq_some_iff.1 hcurly)) hclean
  have hends : c'.Spells [.mark .rParen, .mark .semicolon] c'.advance.advance :=
    .cons hclose (.token hend)
  exact .cons hword (.cons hopen (.cons htext (hspells.trans hends)))

private theorem input_spells : input.Spells Statement.terminals := by
  intro c s d es hreturns _
  obtain ⟨hword, hopen, hclose, hend, rfl, rfl, rfl⟩ := returns_input_iff.1 hreturns
  exact .cons hword (.cons hopen (.cons hclose (.token hend)))

section

variable {expression : Rule Expr} {conditional : Rule Conditional} {block : Rule Block}
  (hexpression : expression.Spells Expr.terminals)
  (hconditional : conditional.Spells Conditional.terminals)
  (hblock : block.Spells Block.terminals)

include hexpression hblock

private theorem whileLoop_spells : (whileLoop expression block).Spells Statement.terminals := by
  intro c s d es hreturns hclean
  obtain ⟨hword, hopen, condition, c', es₁, body, es₂, hcondition, hclose, hbody, rfl, rfl⟩ :=
    returns_whileLoop_iff.1 hreturns
  obtain ⟨hcleanCondition, hcleanBody⟩ := Clean.append_iff.1 hclean
  have hcondition := hexpression _ _ _ _ hcondition hcleanCondition
  have hbody := hblock _ _ _ _ hbody hcleanBody
  exact .trans (.cons hword (.cons hopen hcondition)) (.cons hclose hbody)

private theorem forLoop_spells : (forLoop expression block).Spells Statement.terminals := by
  intro c s d es hreturns hclean
  obtain ⟨hword, hopen, init, c₁, es₁, condition, c₂, es₂, change, c₃, es₃, body, es₄, hinit,
    hinitEnd, hcondition, hconditionEnd, hchange, hclose, hbody, rfl, rfl⟩ :=
    returns_forLoop_iff.1 hreturns
  simp only [Clean.append_iff] at hclean
  obtain ⟨hcleanInit, hcleanCondition, hcleanChange, hcleanBody⟩ := hclean
  have hinit := forInit_spells hexpression _ _ _ _ hinit hcleanInit
  have hcondition := hexpression _ _ _ _ hcondition hcleanCondition
  have hchange := update_spells hexpression _ _ _ _ hchange hcleanChange
  have hbody := hblock _ _ _ _ hbody hcleanBody
  refine .trans (.trans (.trans ?_ (.cons hinitEnd hcondition)) (.cons hconditionEnd hchange))
    (.cons hclose hbody)
  exact .cons hword (.cons hopen hinit)

private theorem repeatLoop_spells : (repeatLoop expression block).Spells Statement.terminals := by
  intro c s d es hreturns hclean
  obtain ⟨hword, count, c', es₁, body, es₂, hcount, htimes, hbody, rfl, rfl⟩ :=
    returns_repeatLoop_iff.1 hreturns
  obtain ⟨hcleanCount, hcleanBody⟩ := Clean.append_iff.1 hclean
  have hcount := hexpression _ _ _ _ hcount hcleanCount
  have hbody := hblock _ _ _ _ hbody hcleanBody
  exact .trans (.cons hword hcount) (.cons htimes hbody)

include hconditional

private theorem statementRule_spells :
    (statementRule expression conditional block).Spells Statement.terminals := by
  intro c s d es hreturns hclean
  cases returns_statementRule_iff.1 hreturns with
  | declaration htype hdeclaration =>
    obtain ⟨c', hspells, rfl⟩ := declaration_spells hexpression htype hdeclaration hclean
    exact hspells.trans c'.spells_skipTerminator
  | conditional _ hreturns => exact hconditional _ _ _ _ hreturns hclean
  | whileLoop _ hloop => exact whileLoop_spells hexpression hblock _ _ _ _ hloop hclean
  | forLoop _ hloop => exact forLoop_spells hexpression hblock _ _ _ _ hloop hclean
  | repeatLoop _ hloop => exact repeatLoop_spells hexpression hblock _ _ _ _ hloop hclean
  | output hword houtput => exact output_spells hword houtput hclean
  | input _ hinput => exact input_spells _ _ _ _ hinput hclean
  | simple _ hsimple => exact terminatedSimple_spells hexpression _ _ _ _ hsimple hclean

private theorem conditionalRule_spells :
    (conditionalRule expression conditional block).Spells Conditional.terminals := by
  intro c x d es hreturns hclean
  obtain ⟨hword, hopen, condition, c₁, es₁, body, c₂, es₂, otherwise, es₃, hcondition, hclose, hbody,
    hotherwise, rfl, rfl⟩ := returns_conditionalRule_iff.1 hreturns
  simp only [Clean.append_iff] at hclean
  obtain ⟨hcleanCondition, hcleanBody, hcleanOtherwise⟩ := hclean
  have hcondition := hexpression _ _ _ _ hcondition hcleanCondition
  have hbody := hblock _ _ _ _ hbody hcleanBody
  have hotherwise : c₂.Spells otherwise.terminals d := by
    cases hotherwise with
    | nothing => exact .refl _
    | conditional helse _ hreturns =>
      exact .cons helse (hconditional _ _ _ _ hreturns hcleanOtherwise)
    | block helse _ hreturns => exact .cons helse (hblock _ _ _ _ hreturns hcleanOtherwise)
  exact .trans (.trans (.cons hword (.cons hopen hcondition)) (.cons hclose hbody)) hotherwise

end

/-- An attempt at a statement that notes no error that makes a rule fail gives a statement. -/
theorem exists_read_of_clean {statement : Rule Statement} (hcomposed : Composed statement)
    {c d : Cursor} {s : Option Statement} {es : List ParseError}
    (hreturns : (recovering statement).Returns c s d es) (hclean : Clean es) :
    ∃ x, s = some x ∧ statement.Returns c x d es := by
  cases returns_recovering_iff.1 hreturns with
  | @read x _ _ hread => exact ⟨x, rfl, hread⟩
  | skipped hfails =>
    obtain ⟨_, herror⟩ := Clean.append_iff.1 hclean
    have hsyntactic := (hcomposed.error_at_peek hfails).1
    rw [herror _ List.mem_cons_self] at hsyntactic
    cases hsyntactic

/-- An attempt that succeeds skips nothing. -/
theorem recovering_spells {statement : Rule Statement} (hcomposed : Composed statement)
    (hstatement : statement.Spells Statement.terminals) :
    (recovering statement).Spells fun s => s.elim [] Statement.terminals := by
  intro c s d es hreturns hclean
  obtain ⟨x, rfl, hread⟩ := exists_read_of_clean hcomposed hreturns hclean
  exact hstatement _ _ _ _ hread hclean

/-- Attempts that failed have no terminals. -/
theorem flatMap_terminals_reduceOption (statements : List (Option Statement)) :
    statements.reduceOption.flatMap Statement.terminals =
      statements.flatMap fun s => s.elim [] Statement.terminals := by
  induction statements with
  | nil => rfl
  | cons s ss ih =>
    rw [List.flatMap_cons, ← ih]
    cases s <;> rfl

private theorem blockRule_spells {statement : Rule Statement} (hcomposed : Composed statement)
    (hstatement : statement.Spells Statement.terminals) :
    (blockRule statement).Spells Block.terminals := by
  intro c b d es hreturns hclean
  obtain ⟨hopen, statements, c', hstatements, hclose, rfl, rfl⟩ := returns_blockRule_iff.1 hreturns
  have hspells := hstatements.spells
    (fun _ _ _ _ _ _ => recovering_spells hcomposed hstatement _ _ _ _) hclean
  rw [← flatMap_terminals_reduceOption, ← Statement.listTerminals_eq_flatMap] at hspells
  exact .concat (.cons hopen hspells) hclose

/-- Statements, conditionals and blocks are read from the tokens that write them out. -/
theorem statement_and_parts_spell (n : Nat) :
    (statement n).Spells Statement.terminals ∧ (conditional n).Spells Conditional.terminals ∧
      (block n).Spells Block.terminals := by
  induction n with
  | zero => exact ⟨tooDeep_spells, tooDeep_spells, tooDeep_spells⟩
  | succ n ih =>
    obtain ⟨hstatement, hconditional, hblock⟩ := ih
    exact ⟨statementRule_spells (expression_spells n) hconditional hblock,
      conditionalRule_spells (expression_spells n) hconditional hblock,
      blockRule_spells (.statement n) hstatement⟩

end GeoLang.Grammar
