import Mathlib.Data.List.ReduceOption
import GeoLang.Proofs.Layout.Expression
import GeoLang.Proofs.Reading.Composed
import GeoLang.Proofs.Spelling.Statement

namespace GeoLang.Grammar

variable {α β : Type}

section

variable {expression : Rule Expr} (hexpression : expression.Lays Expr.Over)

private theorem unitReturns_lays {c d : Cursor} {u : Option UnitSpecifier} {es : List ParseError}
    (hunit : UnitReturns c u d es) : c.Lays (u.elim (InTurn []) UnitSpecifier.Over) d := by
  have hspells := unitReturns_spells hunit
  cases hunit with
  | none => exact .nil c
  | squared | plain =>
    refine (Cursor.Lays.of_spells hspells).last.fromPeek ?_
    rintro _ (_ | _)
    exact List.cons_ne_nil _ _

include hexpression

private theorem initializerReturns_lays {type : DataType} {c d : Cursor} {init : Option Expr}
    {es : List ParseError} (hinit : InitializerReturns expression type c init d es) :
    c.Lays (init.elim (InTurn []) fun e => InTurn [Written [.operator .assign], e.Over]) d := by
  cases hinit with
  | some hassign hreturns => exact .token hassign (hexpression _ _ _ _ hreturns).last
  | none => exact .nil c

private theorem declarator_lays (type : DataType) :
    (declarator expression type).Lays Declarator.Over := by
  intro c x d es hreturns
  obtain ⟨name, unit, c', init, hname, hunit, hinit, rfl⟩ := returns_declarator_iff.1 hreturns
  exact .opened hname ((unitReturns_lays hunit).cons (initializerReturns_lays hexpression hinit).last)

omit hexpression in
private theorem Cursor.lays_skipTerminator (c : Cursor) (terminated : Bool) :
    c.Lays (Written (if terminated then [.terminator] else [])) (c.skipTerminator terminated) := by
  cases terminated with
  | false => exact .of_spells (.refl c)
  | true => exact .of_spells c.spells_skipTerminator

/-- A declaration stands over its tokens, with its semicolon where it has one of its own. -/
theorem declaration_lays {terminated : Bool} {type : DataType} {c d : Cursor} {x : Declaration}
    {es : List ParseError} (htype : c.peek.kind = .dataType type)
    (hreturns : (declaration expression terminated type).Returns c x d es) :
    c.Lays (x.Over terminated) d := by
  obtain ⟨first, c₁, es₁, others, c₂, es₂, hfirst, hothers, rfl, rfl, rfl⟩ :=
    returns_declaration_iff.1 hreturns
  have hdeclarator := declarator_lays hexpression type
  have hothers : c₁.Lays (InTurn (others.map fun y => InTurn [Written [.mark .comma], y.Over])) c₂ := by
    refine hothers.lays ?_
    intro _ c x d es hcomma hnext
    have hx := hdeclarator _ _ _ _ (returns_nextDeclarator_iff.1 hnext)
    exact .token (markAt_eq_some_iff.1 hcomma) hx.last
  have hend := (c₂.lays_skipTerminator terminated).last
  exact .opened htype (.cons (hdeclarator _ _ _ _ hfirst) (.cons hothers hend))

/-- Assignments stand over their tokens. -/
theorem assignment_lays : (assignment expression).Lays Simple.Over := by
  intro c s d es hreturns
  obtain ⟨target, c', es₁, op, value, es₂, htarget, hop, hvalue, rfl, rfl⟩ :=
    returns_assignment_iff.1 hreturns
  have hfits : (Terminal.operator op).Fits c'.peek := TokenKind.operator?_of_assignment? hop
  have hvalue := hexpression _ _ _ _ hvalue
  exact (path_lays _ _ _ _ htarget).joined (fun _ hover => hover.1) hfits hvalue
    fun _ hover => hover.bounds

/-- So do calls. -/
theorem simple_lays : (simple expression).Lays Simple.Over := by
  intro c s d es hreturns
  cases returns_simple_iff.1 hreturns with
  | assignment _ hassignment => exact assignment_lays hexpression _ _ _ _ hassignment
  | expression _ hreturns =>
    exact (hexpression _ _ _ _ hreturns).mono fun _ hover => Simple.over_ofExpr hover

private theorem update_lays : (update expression).Lays Simple.Over := by
  intro c s d es hreturns
  cases returns_update_iff.1 hreturns with
  | before hstep hoperand =>
    obtain ⟨hop, _⟩ := stepAt_eq_some_iff.1 hstep
    exact .opened hop (path_lays _ _ _ _ hoperand).last
  | assignment _ _ hassignment => exact assignment_lays hexpression _ _ _ _ hassignment
  | @behind op operand c' es _ _ hoperand hstep =>
    obtain ⟨hop, _⟩ := stepAt_eq_some_iff.1 hstep
    have hstep := Cursor.Lays.token (x := .operator op) hop (.nil c'.advance)
    exact ((path_lays _ _ _ _ hoperand).cons hstep).fromPeek fun _ hover => hover.1.ne_nil

private theorem forInit_lays : (forInit expression).Lays ForInit.Over := by
  intro c init d es hreturns
  cases returns_forInit_iff.1 hreturns with
  | declaration htype hdeclaration => exact declaration_lays hexpression htype hdeclaration
  | simple _ hsimple => exact simple_lays hexpression _ _ _ _ hsimple

end

private theorem placeholder_lays {c d : Cursor} {p : Path} {es : List ParseError}
    (hopen : c.peek.kind = .punctuation .lCurly) (hreturns : placeholder.Returns c p d es) :
    c.Lays p.PlaceholderOver d := by
  obtain ⟨c', hpath, hclose, rfl⟩ := returns_placeholder_iff.1 hreturns
  exact .token hopen (.cons (path_lays _ _ _ _ hpath) (.token hclose (.nil _)))

/-- The tokens between `c` and `d` are those of the statement, and the semicolon behind it if it
    leaves one. -/
def Cursor.LaysStatement (c : Cursor) (s : Statement) (d : Cursor) : Prop :=
  c.InOrder → ∃ own behind, c.Reads (own ++ behind) d ∧ s.Over own ∧ s.Leaves own behind d.rest

/-- For statements the tokens that a rule consumes are told apart. -/
def Rule.LaysStatements (r : Rule Statement) : Prop :=
  ∀ c s d es, r.Returns c s d es → c.LaysStatement s d

/-- A statement of which nothing stands behind its span. -/
theorem Cursor.Lays.statement {c d : Cursor} {s : Statement} (hover : c.Lays s.Over d)
    (hleaves : ∀ own rest, s.Leaves own [] rest) : c.LaysStatement s d := by
  intro hc
  obtain ⟨own, hown, hover⟩ := hover hc
  exact ⟨own, [], by rwa [List.append_nil], hover, hleaves own d.rest⟩

private theorem output_laysStatement {newline : Bool} {c d : Cursor} {s : Statement}
    {es : List ParseError}
    (hword : c.peek.kind = .keyword (outputKeyword newline))
    (hreturns : (output newline).Returns c s d es) : c.LaysStatement s d := by
  obtain ⟨hopen, text, placeholders, c', htext, hplaceholders, hclose, hend, rfl, rfl⟩ :=
    returns_output_iff.1 hreturns
  have hplaceholders := hplaceholders.lays fun _ _ _ _ _ hcurly hplaceholder =>
    placeholder_lays (markAt_eq_some_iff.1 hcurly) hplaceholder
  refine Cursor.Lays.statement (.opened hword ?_) fun _ _ => rfl
  refine .token hopen (.token htext (.cons hplaceholders ?_))
  exact .token hclose (.token hend (.nil _))

private theorem input_laysStatements : input.LaysStatements := by
  intro c s d es hreturns
  obtain ⟨hword, hopen, hclose, hend, rfl, rfl, rfl⟩ := returns_input_iff.1 hreturns
  refine Cursor.Lays.statement (.opened hword ?_) fun _ _ => rfl
  exact .token hopen (.token hclose (.token hend (.nil _)))

section

variable {expression : Rule Expr} (hexpression : expression.Lays Expr.Over)
  {block : Rule Block} (hblock : block.Lays Block.Over)

include hexpression hblock

private theorem whileLoop_laysStatements : (whileLoop expression block).LaysStatements := by
  intro c s d es hreturns
  obtain ⟨hword, hopen, condition, c', es₁, body, es₂, hcondition, hclose, hbody, rfl, rfl⟩ :=
    returns_whileLoop_iff.1 hreturns
  have hbody := (hblock _ _ _ _ hbody).last
  refine Cursor.Lays.statement (.opened hword ?_) fun _ _ => rfl
  exact .token hopen (.cons (hexpression _ _ _ _ hcondition) (.token hclose hbody))

private theorem forLoop_laysStatements : (forLoop expression block).LaysStatements := by
  intro c s d es hreturns
  obtain ⟨hword, hopen, init, c₁, es₁, condition, c₂, es₂, change, c₃, es₃, body, es₄, hinit,
    hinitEnd, hcondition, hconditionEnd, hchange, hclose, hbody, rfl, rfl⟩ :=
    returns_forLoop_iff.1 hreturns
  have hinit := forInit_lays hexpression _ _ _ _ hinit
  have hcondition := hexpression _ _ _ _ hcondition
  have hchange := update_lays hexpression _ _ _ _ hchange
  have hbody := (hblock _ _ _ _ hbody).last
  refine Cursor.Lays.statement (.opened hword ?_) fun _ _ => rfl
  refine .token hopen (hinit.cons (.token hinitEnd ?_))
  exact hcondition.cons (.token hconditionEnd (hchange.cons (.token hclose hbody)))

private theorem repeatLoop_laysStatements : (repeatLoop expression block).LaysStatements := by
  intro c s d es hreturns
  obtain ⟨hword, count, c', es₁, body, es₂, hcount, htimes, hbody, rfl, rfl⟩ :=
    returns_repeatLoop_iff.1 hreturns
  have hbody := (hblock _ _ _ _ hbody).last
  refine Cursor.Lays.statement (.opened hword ?_) fun _ _ => rfl
  exact .cons (hexpression _ _ _ _ hcount) (.token htimes hbody)

end

private theorem Cursor.eof_skipTerminator (c : Cursor) (terminated : Bool) :
    (c.skipTerminator terminated).eof = c.eof := by
  obtain ⟨_, hadvance⟩ := c.exists_reads_advance
  unfold skipTerminator
  split
  · exact hadvance.eof
  · rfl

/-- If a declaration leaves a semicolon behind it has taken one already. -/
theorem Cursor.closes_skipTerminator {c : Cursor} (heof : c.eof.kind = .eof)
    (hleft : ∃ t ∈ (c.skipTerminator true).rest.head?, t.kind = .punctuation .semicolon) :
    ∃ t ∈ (c.skipTerminator true).previous, t.kind = .punctuation .semicolon := by
  by_cases hsemicolon : c.peek.kind = .punctuation .semicolon
  · have hne := rest_ne_nil_of_peek heof (by simp [hsemicolon])
    have hskip : c.skipTerminator true = c.advance := by
      simp [skipTerminator, TokenKind.isPunctuation, hsemicolon]
    refine ⟨c.peek, ?_, hsemicolon⟩
    rw [hskip, (reads_advance hne).previous]
    rfl
  · have hskip : c.skipTerminator true = c := by
      simp [skipTerminator, TokenKind.isPunctuation, hsemicolon]
    obtain ⟨t, ht, hkind⟩ := hleft
    rw [hskip] at ht
    have hpeek : c.peek = t := by rw [peek, List.headD_eq_head?_getD, ht, Option.getD_some]
    exact absurd (hpeek ▸ hkind) hsemicolon

private theorem declaration_laysStatement {expression : Rule Expr}
    (hexpression : expression.Lays Expr.Over)
    {type : DataType} {c d : Cursor} {x : Declaration} {es : List ParseError}
    (htype : c.peek.kind = .dataType type)
    (hreturns : (declaration expression true type).Returns c x d es) :
    c.LaysStatement (.declaration x) d := by
  intro hc
  obtain ⟨own, hown, hover⟩ := declaration_lays hexpression htype hreturns hc
  refine ⟨own, [], by rwa [List.append_nil], hover, rfl, ?_⟩
  intro hleft
  obtain ⟨_, _, _, _, c₂, _, _, _, rfl, _, _⟩ := returns_declaration_iff.1 hreturns
  have heof : c₂.eof.kind = .eof := by rw [← c₂.eof_skipTerminator true, hown.eof, hc.eof]
  have hlast := List.getLast?_eq_some_getLast hover.1.ne_nil
  have hclosed := Cursor.closes_skipTerminator heof hleft
  rwa [hown.previous, hlast, Option.some_or, ← hlast] at hclosed

section

variable {expression : Rule Expr} {conditional : Rule Conditional} {block : Rule Block}
  (hexpression : expression.Lays Expr.Over) (hconditional : conditional.Lays Conditional.Over)
  (hblock : block.Lays Block.Over)

include hexpression

private theorem terminatedSimple_laysStatements : (terminatedSimple expression).LaysStatements := by
  intro c s d es hreturns hc
  obtain ⟨x, c', hsimple, hend, rfl, rfl⟩ := returns_terminatedSimple_iff.1 hreturns
  obtain ⟨own, hown, hover⟩ := simple_lays hexpression _ _ _ _ hsimple hc
  have hne := Cursor.rest_ne_nil_of_peek (hc.of_reads hown).eof (by simp [hend])
  exact ⟨own, [c'.peek], hown.trans (Cursor.reads_advance hne), hover, .token hend .nil⟩

include hconditional hblock

private theorem statementRule_laysStatements :
    (statementRule expression conditional block).LaysStatements := by
  intro c s d es hreturns
  cases returns_statementRule_iff.1 hreturns with
  | declaration htype hdeclaration => exact declaration_laysStatement hexpression htype hdeclaration
  | conditional _ hreturns => exact (hconditional _ _ _ _ hreturns).statement fun _ _ => rfl
  | whileLoop _ hloop => exact whileLoop_laysStatements hexpression hblock _ _ _ _ hloop
  | forLoop _ hloop => exact forLoop_laysStatements hexpression hblock _ _ _ _ hloop
  | repeatLoop _ hloop => exact repeatLoop_laysStatements hexpression hblock _ _ _ _ hloop
  | output hword houtput => exact output_laysStatement hword houtput
  | input _ hinput => exact input_laysStatements _ _ _ _ hinput
  | simple _ hsimple => exact terminatedSimple_laysStatements hexpression _ _ _ _ hsimple

omit hexpression in
private theorem otherwiseReturns_lays {c d : Cursor} {x : Otherwise} {es : List ParseError}
    (hotherwise : OtherwiseReturns conditional block c x d es) : c.Lays x.Over d := by
  cases hotherwise with
  | nothing => exact .nil c
  | conditional helse _ hreturns => exact .token helse (hconditional _ _ _ _ hreturns).last
  | block helse _ hreturns => exact .token helse (hblock _ _ _ _ hreturns).last

private theorem conditionalRule_lays :
    (conditionalRule expression conditional block).Lays Conditional.Over := by
  intro c x d es hreturns
  obtain ⟨hword, hopen, condition, c₁, es₁, body, c₂, es₂, otherwise, es₃, hcondition, hclose, hbody,
    hotherwise, rfl, rfl⟩ := returns_conditionalRule_iff.1 hreturns
  have hbody := (hblock _ _ _ _ hbody).last
  have hotherwise := (otherwiseReturns_lays hconditional hblock hotherwise).last
  refine .fromPeek (.cons (.opened hword (.token hopen ?_)) hotherwise) fun _ hover => hover.1.ne_nil
  exact .cons (hexpression _ _ _ _ hcondition) (.token hclose hbody)

end

/-- What is read from an attempt on: the statement, if one was read, in front of those that
    follow. -/
theorem Cursor.Lays.cons_attempt {statement : Rule Statement} {c c' d : Cursor}
    {attempt : Option Statement} {attempts : List (Option Statement)} {es : List ParseError}
    (hrest : c'.Lays (Statement.ListOver attempts.reduceOption) d) (hcomposed : Composed statement)
    (hstatement : statement.LaysStatements)
    (hreturns : (recovering statement).Returns c attempt c' es) :
    c.Lays (Statement.ListOver (attempt :: attempts).reduceOption) d := by
  intro hc
  cases returns_recovering_iff.1 hreturns with
  | @read s _ _ hread =>
    obtain ⟨own, behind, hused, hover, hleaves⟩ := hstatement _ _ _ _ hread hc
    obtain ⟨rest, hmore, hlist⟩ := hrest (hc.of_reads hused)
    rw [hmore.rest] at hleaves
    refine ⟨_, hused.trans hmore, ?_⟩
    rw [List.reduceOption_cons_of_some]
    exact ⟨[], own, behind, rest, by simp, hover, hleaves.of_append, hlist⟩
  | skipped =>
    have hattempt : Composed (recovering statement) := .recovering hcomposed
    obtain ⟨skipped, hskipped⟩ := hattempt.exists_reads_of_returns hreturns
    obtain ⟨rest, hmore, hlist⟩ := hrest (hc.of_reads hskipped)
    refine ⟨_, hskipped.trans hmore, ?_⟩
    rw [List.reduceOption_cons_of_none]
    exact hlist.append_left skipped

/-- However often a statement is attempted, those that are read stand one behind the other. -/
theorem Repeats.lays_statements {next? : Token → Option Unit} {statement : Rule Statement}
    (hcomposed : Composed statement) (hstatement : statement.LaysStatements) {c d : Cursor}
    {attempts : List (Option Statement)} {es : List ParseError}
    (hrepeats : Repeats next? (fun _ => recovering statement) c attempts d es) :
    c.Lays (Statement.ListOver attempts.reduceOption) d := by
  have hnone : ∀ c : Cursor, c.Lays (Statement.ListOver []) c := fun c _ => ⟨[], .refl c, trivial⟩
  induction hrepeats with
  | stop => exact hnone _
  | stuck _ hreturns => exact (hnone _).cons_attempt hcomposed hstatement hreturns
  | more _ hreturns _ _ ih => exact ih.cons_attempt hcomposed hstatement hreturns

private theorem blockRule_lays {statement : Rule Statement} (hcomposed : Composed statement)
    (hstatement : statement.LaysStatements) : (blockRule statement).Lays Block.Over := by
  intro c b d es hreturns
  obtain ⟨hopen, attempts, c', hattempts, hclose, rfl, rfl⟩ := returns_blockRule_iff.1 hreturns
  have hstatements := hattempts.lays_statements hcomposed hstatement
  exact .opened hopen (.cons hstatements (.token hclose (.nil _)))

/-- By induction on the levels that are left. -/
theorem statement_and_parts_lay (n : Nat) :
    (statement n).LaysStatements ∧ (conditional n).Lays Conditional.Over ∧
      (block n).Lays Block.Over := by
  induction n with
  | zero => exact ⟨fun _ _ _ _ h => absurd h not_returns_tooDeep, tooDeep_lays, tooDeep_lays⟩
  | succ n ih =>
    obtain ⟨hstatement, hconditional, hblock⟩ := ih
    have hexpression := expression_lays n
    exact ⟨statementRule_laysStatements hexpression hconditional hblock,
      conditionalRule_lays hexpression hconditional hblock, blockRule_lays (.statement n) hstatement⟩

end GeoLang.Grammar
