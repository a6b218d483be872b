import GeoLang.Proofs.Reading.Program
import GeoLang.Proofs.Sentence.Simple

namespace GeoLang.Grammar

/-- A placeholder is read whatever follows its closing brace. -/
theorem placeholder_accepts : placeholder.Accepts Path.bare PlaceholderForm fun _ => True := by
  rintro c p ts d ⟨_, hpath, hclose⟩ hreads _
  obtain ⟨hinside, _⟩ := hreads.of_cons
  obtain ⟨c', hreadsPath, hrest⟩ := hinside.of_append
  obtain ⟨rfl, rfl⟩ := hrest.of_singleton
  obtain ⟨q, es, hreturns, hsame, hclean⟩ :=
    path_accepts _ _ _ _ hpath hreadsPath (by simp [hclose])
  exact ⟨q, es, returns_placeholder_iff.2 ⟨c', hreturns, hclose, rfl⟩, hsame, hclean⟩

theorem placeholderForm_begins :
    Language.Begins PlaceholderForm fun t => t.kind = .punctuation .lCurly := by
  rintro p ts ⟨hopen, _⟩
  exact ⟨_, _, rfl, hopen⟩

private theorem exists_returns_output {c d : Cursor} {s : Statement} {ts : List Token}
    (houtput : OutputForm s ts) (hreads : c.Reads ts d) :
    ∃ newline x es, c.peek.kind = .keyword (outputKeyword newline) ∧
      (output newline).Returns c x d es ∧ x.bare = s.bare ∧ Clean es := by
  obtain ⟨hword, hopen, htemplate, hplaceholders, hclose, hend⟩ := houtput
  rename_i newline text _ _ _ _ _ _ _ _
  obtain ⟨hrest, rfl⟩ := hreads.of_cons
  obtain ⟨hrest₁, rfl⟩ := hrest.of_cons
  obtain ⟨hrest₂, rfl⟩ := hrest₁.of_cons
  obtain ⟨c', hreadsPlaceholders, rfl, hrest₄⟩ := hrest₂.of_append_cons
  obtain ⟨rfl, rfl⟩ := hrest₄.of_singleton
  obtain ⟨placeholders, es, hrepeats, hsame, hclean⟩ :=
    Repeats.of_items placeholderForm_begins (fun _ ht => ⟨markAt_eq_some_iff.2 ht, trivial⟩)
      placeholder_accepts hplaceholders hreadsPlaceholders
      (markAt_eq_none_iff.2 (by simp [hclose])) trivial
  have hrule : (output newline).Returns c _ c'.advance.advance es :=
    returns_output_iff.2
      ⟨hopen, text, placeholders, c', htemplate, hrepeats, hclose, hend, rfl, rfl⟩
  refine ⟨newline, _, es, hword, hrule, ?_, hclean⟩
  simp only [Statement.bare, hsame]

private theorem input_accepts : input.Accepts Statement.bare InputForm fun _ => True := by
  rintro c s ts d ⟨hword, hopen, hclose, hend⟩ hreads _
  obtain ⟨hrest, rfl⟩ := hreads.of_cons
  obtain ⟨hrest₁, rfl⟩ := hrest.of_cons
  obtain ⟨hrest₂, rfl⟩ := hrest₁.of_cons
  obtain ⟨rfl, rfl⟩ := hrest₂.of_singleton
  exact ⟨_, [], returns_input_iff.2 ⟨hword, hopen, hclose, hend, rfl, rfl, rfl⟩, rfl, .nil⟩

/-- What begins with such a token is read by the rule for assignments and expressions. -/
theorem opensForm_eq_false {t : Token} (hstarts : t.kind.startsOperand = true)
    (hlead : ∀ word ∈ leadingKeywords, t.kind ≠ .keyword word) : t.kind.opensForm = false := by
  cases hkind : t.kind with
  | dataType type => simp [hkind, TokenKind.startsOperand] at hstarts
  | keyword word =>
    have hnot : word ∉ leadingKeywords := fun hmem => hlead word hmem hkind
    revert hnot
    cases word <;> decide
  | _ => rfl

/-- No statement begins with `else`, with the end of a block or with the end of the text. -/
structure BeginsStatement (t : Token) : Prop where
  notElse : t.kind ≠ .keyword .elseKw
  notEnd : t.kind ≠ .punctuation .rCurly
  notEof : t.kind ≠ .eof

section

variable {expression : Rule Expr} {conditional : Rule Conditional} {block : Rule Block}
  {expressions : Language Expr} {conditionals : Language Conditional} {blocks : Language Block}

/-- Every form of statement begins with a token that a statement may begin with. -/
theorem statementForm_begins
    (hexpressions : expressions.Begins fun t => t.kind.startsOperand = true)
    (hconditionals : conditionals.Begins fun t => t.kind = .keyword .ifKw) :
    (Language.Begins (StatementForm expressions conditionals blocks)) BeginsStatement := by
  intro s ts hs
  cases hs with
  | declaration hdeclaration =>
    obtain ⟨htype, _, _⟩ := hdeclaration
    exact ⟨_, _, rfl, by simp [htype], by simp [htype], by simp [htype]⟩
  | simple hsimple hlead =>
    obtain ⟨t, us, rfl, hstarts⟩ := simpleForm_begins hexpressions _ _ hsimple
    refine ⟨t, _, rfl, hlead t rfl .elseKw (by simp [leadingKeywords]), ?_, ?_⟩
    · intro hkind
      simp [hkind, TokenKind.startsOperand] at hstarts
    · intro hkind
      simp [hkind, TokenKind.startsOperand] at hstarts
  | conditional hconditional =>
    obtain ⟨t, us, rfl, hword⟩ := hconditionals _ _ hconditional
    exact ⟨t, us, rfl, by simp [hword], by simp [hword], by simp [hword]⟩
  | whileLoop hloop | forLoop hloop | repeatLoop hloop =>
    obtain ⟨hword⟩ := hloop
    exact ⟨_, _, rfl, by simp [hword], by simp [hword], by simp [hword]⟩
  | output houtput =>
    obtain ⟨hword⟩ := houtput
    refine ⟨_, _, rfl, ?_, by simp [hword], by simp [hword]⟩
    rw [hword, outputKeyword]
    split <;> simp
  | input hinput =>
    obtain ⟨hword⟩ := hinput
    exact ⟨_, _, rfl, by simp [hword], by simp [hword], by simp [hword]⟩

variable (hexpression : expression.Accepts Expr.bare expressions (EndsRow 1))
  (hbegins : expressions.Begins fun t => t.kind.startsOperand = true)
  (hassigns : expressions.NeverAssigns)
  (hconditional : conditional.Accepts Conditional.bare conditionals
    fun t => t.kind ≠ .keyword .elseKw)
  (hconditionals : conditionals.Begins fun t => t.kind = .keyword .ifKw)
  (hblock : block.Accepts Block.bare blocks fun _ => True)
  (hblocks : blocks.Begins fun t => t.kind = .punctuation .lCurly)

include hexpression hblock

private theorem whileLoop_accepts :
    (whileLoop expression block).Accepts Statement.bare (WhileForm expressions blocks)
      fun _ => True := by
  rintro c s ts d ⟨hword, hopen, hcondition, hclose, hbody⟩ hreads _
  obtain ⟨c', rfl, rfl, hreadsCondition, rfl, hreadsBody⟩ := hreads.of_parenthesized
  have hbehind : EndsRow 1 c'.peek := .of_punctuation hclose (by simp) (by simp)
  obtain ⟨condition, es, hreturns, hsame, hclean⟩ :=
    hexpression _ _ _ _ hcondition hreadsCondition hbehind
  obtain ⟨body, fs, hreturnsBody, hsameBody, hcleanBody⟩ := hblock _ _ _ _ hbody hreadsBody trivial
  have hrule : (whileLoop expression block).Returns c _ d (es ++ fs) :=
    returns_whileLoop_iff.2
      ⟨hword, hopen, condition, c', es, body, fs, hreturns, hclose, hreturnsBody, rfl, rfl⟩
  refine ⟨_, es ++ fs, hrule, ?_, hclean.append hcleanBody⟩
  simp only [Statement.bare, hsame, hsameBody]

private theorem repeatLoop_accepts :
    (repeatLoop expression block).Accepts Statement.bare (RepeatForm expressions blocks)
      fun _ => True := by
  rintro c s ts d ⟨hword, hcount, htimes, hbody⟩ hreads _
  obtain ⟨hinside, rfl⟩ := hreads.of_cons
  obtain ⟨c', hreadsCount, rfl, hreadsBody⟩ := hinside.of_append_cons
  obtain ⟨count, es, hreturns, hsame, hclean⟩ :=
    hexpression _ _ _ _ hcount hreadsCount (.of_keyword htimes)
  obtain ⟨body, fs, hreturnsBody, hsameBody, hcleanBody⟩ := hblock _ _ _ _ hbody hreadsBody trivial
  have hrule : (repeatLoop expression block).Returns c _ d (es ++ fs) :=
    returns_repeatLoop_iff.2
      ⟨hword, count, c', es, body, fs, hreturns, htimes, hreturnsBody, rfl, rfl⟩
  refine ⟨_, es ++ fs, hrule, ?_, hclean.append hcleanBody⟩
  simp only [Statement.bare, hsame, hsameBody]

include hbegins hassigns

private theorem forLoop_accepts :
    (forLoop expression block).Accepts Statement.bare (ForForm expressions blocks)
      fun _ => True := by
  rintro c s ts d ⟨hword, hopen, hinit, hinitEnd, hcondition, hconditionEnd, hupdate, hclose, hbody⟩
    hreads _
  obtain ⟨c₁, rfl, rfl, hreadsInit, rfl, hinside₁⟩ := hreads.of_parenthesized
  obtain ⟨c₂, hreadsCondition, rfl, hinside₂⟩ := hinside₁.of_append_cons
  obtain ⟨c₃, hreadsUpdate, rfl, hreadsBody⟩ := hinside₂.of_append_cons
  obtain ⟨init, es, hreturnsInit, hsameInit, hcleanInit⟩ :=
    forInit_accepts hexpression hassigns hbegins _ _ _ _ hinit hreadsInit hinitEnd
  have hbehind : EndsRow 1 c₂.peek := .of_punctuation hconditionEnd (by simp) (by simp)
  obtain ⟨condition, fs, hreturns, hsame, hclean⟩ :=
    hexpression _ _ _ _ hcondition hreadsCondition hbehind
  obtain ⟨change, gs, hreturnsUpdate, hsameUpdate, hcleanUpdate⟩ :=
    update_accepts hexpression _ _ _ _ hupdate hreadsUpdate hclose
  obtain ⟨body, hs, hreturnsBody, hsameBody, hcleanBody⟩ := hblock _ _ _ _ hbody hreadsBody trivial
  have hrule : (forLoop expression block).Returns c _ d (es ++ (fs ++ (gs ++ hs))) :=
    returns_forLoop_iff.2 ⟨hword, hopen, init, c₁, es, condition, c₂, fs, change, c₃, gs, body, hs,
      hreturnsInit, hinitEnd, hreturns, hconditionEnd, hreturnsUpdate, hclose, hreturnsBody, rfl, rfl⟩
  refine ⟨_, _, hrule, ?_, ?_⟩
  · simp only [Statement.bare, hsameInit, hsame, hsameUpdate, hsameBody]
  · exact hcleanInit.append (hclean.append (hcleanUpdate.append hcleanBody))

include hconditional hconditionals

/-- Every form of statement is read. -/
theorem statementRule_accepts :
    (statementRule expression conditional block).Accepts Statement.bare
      (StatementForm expressions conditionals blocks) fun t => t.kind ≠ .keyword .elseKw := by
  intro c s ts d hs hreads hfollows
  cases hs with
  | declaration hdeclaration hend =>
    obtain ⟨c', hreadsDeclaration, hrest⟩ := hreads.of_append
    obtain ⟨rfl, rfl⟩ := hrest.of_singleton
    obtain ⟨type, x, es, htype, hreturns, hsame, hclean⟩ :=
      exists_returns_declaration hexpression hdeclaration hreadsDeclaration hend true
    have hskip : c'.skipTerminator true = c'.advance := by
      simp [Cursor.skipTerminator, hend, TokenKind.isPunctuation]
    rw [hskip] at hreturns
    refine ⟨_, es, returns_statementRule_iff.2 (.declaration htype hreturns), ?_, hclean⟩
    rw [Statement.bare, Statement.bare, hsame]
  | simple hsimple hlead hend =>
    obtain ⟨c', hreadsSimple, hrest⟩ := hreads.of_append
    obtain ⟨rfl, rfl⟩ := hrest.of_singleton
    obtain ⟨x, es, hreturns, hsame, hclean⟩ :=
      simple_accepts hexpression hassigns _ _ _ _ hsimple hreadsSimple hend
    obtain ⟨t, us, rfl, hstarts⟩ := simpleForm_begins hbegins _ _ hsimple
    obtain ⟨_, rfl⟩ := hreadsSimple.of_cons
    have hform := opensForm_eq_false hstarts (hlead _ rfl)
    have hterminated := returns_terminatedSimple_iff.2 ⟨x, c', hreturns, hend, rfl, rfl⟩
    refine ⟨_, es, returns_statementRule_iff.2 (.simple hform hterminated), ?_, hclean⟩
    rw [Statement.bare, Statement.bare, hsame]
  | conditional hx =>
    obtain ⟨x, es, hreturns, hsame, hclean⟩ := hconditional _ _ _ _ hx hreads hfollows
    obtain ⟨t, us, rfl, hword⟩ := hconditionals _ _ hx
    obtain ⟨_, rfl⟩ := hreads.of_cons
    refine ⟨_, es, returns_statementRule_iff.2 (.conditional hword hreturns), ?_, hclean⟩
    rw [Statement.bare, Statement.bare, hsame]
  | whileLoop hloop =>
    obtain ⟨x, es, hreturns, hsame, hclean⟩ :=
      whileLoop_accepts hexpression hblock _ _ _ _ hloop hreads trivial
    have hword := (returns_whileLoop_iff.1 hreturns).1
    exact ⟨x, es, returns_statementRule_iff.2 (.whileLoop hword hreturns), hsame, hclean⟩
  | forLoop hloop =>
    obtain ⟨x, es, hreturns, hsame, hclean⟩ :=
      forLoop_accepts hexpression hbegins hassigns hblock _ _ _ _ hloop hreads trivial
    have hword := (returns_forLoop_iff.1 hreturns).1
    exact ⟨x, es, returns_statementRule_iff.2 (.forLoop hword hreturns), hsame, hclean⟩
  | repeatLoop hloop =>
    obtain ⟨x, es, hreturns, hsame, hclean⟩ :=
      repeatLoop_accepts hexpression hblock _ _ _ _ hloop hreads trivial
    have hword := (returns_repeatLoop_iff.1 hreturns).1
    exact ⟨x, es, returns_statementRule_iff.2 (.repeatLoop hword hreturns), hsame, hclean⟩
  | output houtput =>
    obtain ⟨newline, x, es, hword, hreturns, hsame, hclean⟩ :=
      exists_returns_output houtput hreads
    exact ⟨x, es, returns_statementRule_iff.2 (.output hword hreturns), hsame, hclean⟩
  | input hinput =>
    obtain ⟨x, es, hreturns, hsame, hclean⟩ := input_accepts _ _ _ _ hinput hreads trivial
    have hword := (returns_input_iff.1 hreturns).1
    exact ⟨x, es, returns_statementRule_iff.2 (.input hword hreturns), hsame, hclean⟩

include hblocks
omit hbegins hassigns

omit hexpression in
/-- Without `else` nothing is read. -/
theorem otherwiseRule_accepts :
    (otherwiseRule conditional block).Accepts Otherwise.bare (OtherwiseForm conditionals blocks)
      fun t => t.kind ≠ .keyword .elseKw := by
  intro c x ts d hx hreads hfollows
  cases hx with
  | nothing =>
    obtain rfl := hreads.eq_of_nil
    exact ⟨.nothing, [], returns_otherwiseRule_iff.2 (.nothing hfollows), rfl, .nil⟩
  | conditional helse hy =>
    obtain ⟨hrest, rfl⟩ := hreads.of_cons
    obtain ⟨y, es, hreturns, hsame, hclean⟩ := hconditional _ _ _ _ hy hrest hfollows
    obtain ⟨t, us, rfl, hword⟩ := hconditionals _ _ hy
    obtain ⟨_, rfl⟩ := hrest.of_cons
    refine ⟨_, es, returns_otherwiseRule_iff.2 (.conditional helse hword hreturns), ?_, hclean⟩
    rw [Otherwise.bare, Otherwise.bare, hsame]
  | block helse hy =>
    obtain ⟨hrest, rfl⟩ := hreads.of_cons
    obtain ⟨y, es, hreturns, hsame, hclean⟩ := hblock _ _ _ _ hy hrest trivial
    obtain ⟨t, us, rfl, hopen⟩ := hblocks _ _ hy
    obtain ⟨_, rfl⟩ := hrest.of_cons
    refine ⟨_, es, returns_otherwiseRule_iff.2 (.block helse (by simp [hopen]) hreturns), ?_, hclean⟩
    rw [Otherwise.bare, Otherwise.bare, hsame]

theorem conditionalRule_accepts :
    (conditionalRule expression conditional block).Accepts Conditional.bare
      (ConditionalForm expressions conditionals blocks) fun t => t.kind ≠ .keyword .elseKw := by
  rintro c x ts d ⟨hword, hopen, hcondition, hclose, hbody, hotherwise⟩ hreads hfollows
  obtain ⟨c₁, rfl, rfl, hreadsCondition, rfl, hbehind⟩ := hreads.of_parenthesized
  obtain ⟨c₂, hreadsBody, hreadsOtherwise⟩ := hbehind.of_append
  have hend : EndsRow 1 c₁.peek := .of_punctuation hclose (by simp) (by simp)
  obtain ⟨condition, es, hreturns, hsame, hclean⟩ :=
    hexpression _ _ _ _ hcondition hreadsCondition hend
  obtain ⟨body, fs, hreturnsBody, hsameBody, hcleanBody⟩ := hblock _ _ _ _ hbody hreadsBody trivial
  obtain ⟨otherwise, gs, hreturnsOtherwise, hsameOtherwise, hcleanOtherwise⟩ :=
    otherwiseRule_accepts hconditional hconditionals hblock hblocks _ _ _ _ hotherwise
      hreadsOtherwise hfollows
  have hrule : (conditionalRule expression conditional block).Returns c _ d (es ++ (fs ++ gs)) :=
    returns_conditionalRule_iff.2 ⟨hword, hopen, condition, c₁, es, body, c₂, fs, otherwise, gs,
      hreturns, hclose, hreturnsBody, returns_otherwiseRule_iff.1 hreturnsOtherwise, rfl, rfl⟩
  refine ⟨_, _, hrule, ?_, ?_⟩
  · simp only [Conditional.bare, hsame, hsameBody, hsameOtherwise]
  · exact hclean.append (hcleanBody.append hcleanOtherwise)

end

end GeoLang.Grammar
