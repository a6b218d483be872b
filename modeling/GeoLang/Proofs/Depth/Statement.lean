import GeoLang.Proofs.Depth.Simple

namespace GeoLang.Grammar

open Rule

private theorem overruns_statementRule_of_simple {expression : Rule Expr}
    {conditional : Rule Conditional}
    {block : Rule Block} {c : Cursor} (hform : c.peek.kind.opensForm = false)
    (hsimple : (terminatedSimple expression).Overruns c) :
    (statementRule expression conditional block).Overruns c := by
  refine overruns_peek_bind ?_
  split <;> simp_all [TokenKind.opensForm, Keyword.startsStatement, Keyword.entry]

section

variable {expression : Rule Expr} {conditional : Rule Conditional} {block : Rule Block}
  {wideExpressions expressions : Language Expr}
  {wideConditionals conditionals : Language Conditional} {wideBlocks blocks : Language Block}
  (hexpression : expression.Accepts Expr.bare expressions (EndsRow 1))
  (hconfines : expression.Confines wideExpressions expressions (EndsRow 1))
  (hbegins : wideExpressions.Begins fun t => t.kind.startsOperand = true)
  (hassigns : wideExpressions.NeverAssigns) (hnarrowAssigns : expressions.NeverAssigns)
  (hblock : block.Accepts Block.bare blocks fun _ => True)
  (hblockConfines : block.Confines wideBlocks blocks fun _ => True)
  (hconditionalConfines : conditional.Confines wideConditionals conditionals
    fun t => t.kind ≠ .keyword .elseKw)
  (hconditionals : wideConditionals.Begins fun t => t.kind = .keyword .ifKw)
  (hblocks : wideBlocks.Begins fun t => t.kind = .punctuation .lCurly)

include hexpression hconfines hblockConfines

private theorem whileLoop_confines :
    (whileLoop expression block).Confines (WhileForm wideExpressions wideBlocks)
      (WhileForm expressions blocks) fun _ => True := by
  rintro c s ts d ⟨hword, hopen, hcondition, hclose, hbody⟩ hreads _
  obtain ⟨c', rfl, rfl, hreadsCondition, rfl, hreadsBody⟩ := hreads.of_parenthesized
  have hbehind : EndsRow 1 c'.peek := .of_punctuation hclose (by simp) (by simp)
  refine Classical.or_iff_not_imp_left.2 fun hdeep => ?_
  refine (passes_keyword hword).bind fun _ => (passes_mark hopen _).bind fun _ => ?_
  obtain hover | hnarrow := (hconfines _ _ _ _ hcondition hreadsCondition hbehind).symm
  · exact hover.bind _
  refine (hexpression.passes hnarrow hreadsCondition hbehind).bind fun _ => ?_
  refine (passes_closeParenthesis hclose).bind fun _ => ?_
  obtain hover | hnarrowBody := (hblockConfines _ _ _ _ hbody hreadsBody trivial).symm
  · exact hover.bind _
  exact absurd (.mk hword hopen hnarrow hclose hnarrowBody) hdeep

private theorem repeatLoop_confines :
    (repeatLoop expression block).Confines (RepeatForm wideExpressions wideBlocks)
      (RepeatForm expressions blocks) fun _ => True := by
  rintro c s ts d ⟨hword, hcount, htimes, hbody⟩ hreads _
  obtain ⟨hinside, rfl⟩ := hreads.of_cons
  obtain ⟨c', hreadsCount, rfl, hreadsBody⟩ := hinside.of_append_cons
  have hbehind : EndsRow 1 c'.peek := .of_keyword htimes
  refine Classical.or_iff_not_imp_left.2 fun hdeep => (passes_keyword hword).bind fun _ => ?_
  obtain hover | hnarrow := (hconfines _ _ _ _ hcount hreadsCount hbehind).symm
  · exact hover.bind _
  refine (hexpression.passes hnarrow hreadsCount hbehind).bind fun _ => ?_
  refine (passes_keyword htimes).bind fun _ => ?_
  obtain hover | hnarrowBody := (hblockConfines _ _ _ _ hbody hreadsBody trivial).symm
  · exact hover.bind _
  exact absurd (.mk hword hnarrow htimes hnarrowBody) hdeep

include hbegins hassigns hnarrowAssigns

private theorem forLoop_confines
    (hnarrowBegins : expressions.Begins fun t => t.kind.startsOperand = true) :
    (forLoop expression block).Confines (ForForm wideExpressions wideBlocks)
      (ForForm expressions blocks) fun _ => True := by
  rintro c s ts d ⟨hword, hopen, hinit, hinitEnd, hcondition, hconditionEnd, hupdate, hclose, hbody⟩
    hreads _
  obtain ⟨c₁, rfl, rfl, hreadsInit, rfl, hinside₁⟩ := hreads.of_parenthesized
  obtain ⟨c₂, hreadsCondition, rfl, hinside₂⟩ := hinside₁.of_append_cons
  obtain ⟨c₃, hreadsUpdate, rfl, hreadsBody⟩ := hinside₂.of_append_cons
  have hbehind : EndsRow 1 c₂.peek := .of_punctuation hconditionEnd (by simp) (by simp)
  -- Each part is passed that can be derived; one of them cannot, and that one overruns.
  refine Classical.or_iff_not_imp_left.2 fun hdeep => ?_
  refine (passes_keyword hword).bind fun _ => (passes_mark hopen _).bind fun _ => ?_
  obtain hover | hnarrowInit :=
    (forInit_confines hexpression hconfines hassigns hbegins _ _ _ _ hinit hreadsInit hinitEnd).symm
  · exact hover.bind _
  refine ((forInit_accepts hexpression hnarrowAssigns hnarrowBegins).passes hnarrowInit hreadsInit
    hinitEnd).bind fun _ => (passes_mark hinitEnd _).bind fun _ => ?_
  obtain hover | hnarrow := (hconfines _ _ _ _ hcondition hreadsCondition hbehind).symm
  · exact hover.bind _
  refine (hexpression.passes hnarrow hreadsCondition hbehind).bind fun _ => ?_
  refine (passes_mark hconditionEnd _).bind fun _ => ?_
  obtain hover | hnarrowUpdate :=
    (update_confines hconfines _ _ _ _ hupdate hreadsUpdate hclose).symm
  · exact hover.bind _
  refine ((update_accepts hexpression).passes hnarrowUpdate hreadsUpdate hclose).bind fun _ => ?_
  refine (passes_closeParenthesis hclose).bind fun _ => ?_
  obtain hover | hnarrowBody := (hblockConfines _ _ _ _ hbody hreadsBody trivial).symm
  · exact hover.bind _
  exact absurd (.mk hword hopen hnarrowInit hinitEnd hnarrow hconditionEnd hnarrowUpdate hclose
    hnarrowBody) hdeep

include hconditionals hconditionalConfines

private theorem statementRule_confines
    (hnarrowBegins : expressions.Begins fun t => t.kind.startsOperand = true) :
    (statementRule expression conditional block).Confines
      (StatementForm wideExpressions wideConditionals wideBlocks)
      (StatementForm expressions conditionals blocks) fun t => t.kind ≠ .keyword .elseKw := by
  intro c s ts d hs hreads hfollows
  cases hs with
  | declaration hdeclaration hend =>
    obtain ⟨c', hreadsDeclaration, hrest⟩ := hreads.of_append
    obtain ⟨rfl, rfl⟩ := hrest.of_singleton
    obtain hnarrow | ⟨type, htype, hover⟩ :=
      hdeclaration.confined hexpression hconfines hreadsDeclaration hend true
    · exact .inl (.declaration hnarrow hend)
    · refine .inr (overruns_peek_bind ?_)
      simp only [htype]
      exact hover.bind _
  | simple hsimple hlead hend =>
    obtain ⟨c', hreadsSimple, hrest⟩ := hreads.of_append
    obtain ⟨rfl, rfl⟩ := hrest.of_singleton
    obtain hnarrow | hover := simple_confines hconfines hassigns _ _ _ _ hsimple hreadsSimple hend
    · exact .inl (.simple hnarrow hlead hend)
    · obtain ⟨t, us, rfl, hstarts⟩ := simpleForm_begins hbegins _ _ hsimple
      obtain ⟨_, rfl⟩ := hreadsSimple.of_cons
      refine .inr (overruns_statementRule_of_simple (opensForm_eq_false hstarts (hlead _ rfl)) ?_)
      exact hover.bind _
  | conditional hx =>
    obtain hnarrow | hover := hconditionalConfines _ _ _ _ hx hreads hfollows
    · exact .inl (.conditional hnarrow)
    · obtain ⟨t, us, rfl, hword⟩ := hconditionals _ _ hx
      obtain ⟨_, rfl⟩ := hreads.of_cons
      refine .inr (overruns_peek_bind ?_)
      simp only [hword]
      exact hover.bind _
  | whileLoop hloop =>
    obtain hnarrow | hover :=
      whileLoop_confines hexpression hconfines hblockConfines _ _ _ _ hloop hreads trivial
    · exact .inl (.whileLoop hnarrow)
    · obtain ⟨hword⟩ := hloop
      obtain ⟨_, rfl⟩ := hreads.of_cons
      refine .inr (overruns_peek_bind ?_)
      simpa only [hword] using hover
  | forLoop hloop =>
    obtain hnarrow | hover := forLoop_confines hexpression hconfines hbegins hassigns hnarrowAssigns
      hblockConfines hnarrowBegins _ _ _ _ hloop hreads trivial
    · exact .inl (.forLoop hnarrow)
    · obtain ⟨hword⟩ := hloop
      obtain ⟨_, rfl⟩ := hreads.of_cons
      refine .inr (overruns_peek_bind ?_)
      simpa only [hword] using hover
  | repeatLoop hloop =>
    obtain hnarrow | hover :=
      repeatLoop_confines hexpression hconfines hblockConfines _ _ _ _ hloop hreads trivial
    · exact .inl (.repeatLoop hnarrow)
    · obtain ⟨hword⟩ := hloop
      obtain ⟨_, rfl⟩ := hreads.of_cons
      refine .inr (overruns_peek_bind ?_)
      simpa only [hword] using hover
  | output houtput => exact .inl (.output houtput)
  | input hinput => exact .inl (.input hinput)

include hblocks
omit hbegins hassigns hnarrowAssigns

omit hexpression hconfines in
private theorem otherwiseRule_confines :
    (otherwiseRule conditional block).Confines (OtherwiseForm wideConditionals wideBlocks)
      (OtherwiseForm conditionals blocks) fun t => t.kind ≠ .keyword .elseKw := by
  intro c x ts d hx hreads hfollows
  cases hx with
  | nothing => exact .inl .nothing
  | conditional helse hy =>
    obtain ⟨hrest, rfl⟩ := hreads.of_cons
    obtain hnarrow | hover := hconditionalConfines _ _ _ _ hy hrest hfollows
    · exact .inl (.conditional helse hnarrow)
    · obtain ⟨t, us, rfl, hword⟩ := hconditionals _ _ hy
      obtain ⟨_, rfl⟩ := hrest.of_cons
      refine .inr (overruns_peek_bind ?_)
      rw [if_pos (by simp [TokenKind.isKeyword, helse])]
      refine (passes_advance c).bind fun _ => overruns_peek_bind ?_
      rw [if_pos (by simp [TokenKind.isKeyword, hword])]
      exact hover.bind _
  | block helse hy =>
    obtain ⟨hrest, rfl⟩ := hreads.of_cons
    obtain hnarrow | hover := hblockConfines _ _ _ _ hy hrest trivial
    · exact .inl (.block helse hnarrow)
    · obtain ⟨t, us, rfl, hopen⟩ := hblocks _ _ hy
      obtain ⟨_, rfl⟩ := hrest.of_cons
      refine .inr (overruns_peek_bind ?_)
      rw [if_pos (by simp [TokenKind.isKeyword, helse])]
      refine (passes_advance c).bind fun _ => overruns_peek_bind ?_
      rw [if_neg (by simp [TokenKind.isKeyword, hopen])]
      exact hover.bind _

include hblock

private theorem conditionalRule_confines :
    (conditionalRule expression conditional block).Confines
      (ConditionalForm wideExpressions wideConditionals wideBlocks)
      (ConditionalForm expressions conditionals blocks) fun t => t.kind ≠ .keyword .elseKw := by
  rintro c x ts d ⟨hword, hopen, hcondition, hclose, hbody, hotherwise⟩ hreads hfollows
  obtain ⟨c₁, rfl, rfl, hreadsCondition, rfl, hbehind⟩ := hreads.of_parenthesized
  obtain ⟨c₂, hreadsBody, hreadsOtherwise⟩ := hbehind.of_append
  have hend : EndsRow 1 c₁.peek := .of_punctuation hclose (by simp) (by simp)
  refine Classical.or_iff_not_imp_left.2 fun hdeep => ?_
  refine (passes_keyword hword).bind fun _ => (passes_mark hopen _).bind fun _ => ?_
  obtain hover | hnarrow := (hconfines _ _ _ _ hcondition hreadsCondition hend).symm
  · exact hover.bind _
  refine (hexpression.passes hnarrow hreadsCondition hend).bind fun _ => ?_
  refine (passes_closeParenthesis hclose).bind fun _ => ?_
  obtain hover | hnarrowBody := (hblockConfines _ _ _ _ hbody hreadsBody trivial).symm
  · exact hover.bind _
  refine (hblock.passes hnarrowBody hreadsBody trivial).bind fun _ => overruns_spanSince_bind ?_
  obtain hover | hnarrowOtherwise := (otherwiseRule_confines hblockConfines hconditionalConfines
    hconditionals hblocks _ _ _ _ hotherwise hreadsOtherwise hfollows).symm
  · exact hover.bind _
  exact absurd (.mk hword hopen hnarrow hclose hnarrowBody hnarrowOtherwise) hdeep

end

/-- An attempt carries what its rule does. -/
theorem carries_recovering {α : Type} {statement : Rule Statement} {c : Cursor} {y : Reply α}
    (hstatement : (statement c).Carries y) : (recovering statement c).Carries y := by
  refine .trans ?_ hstatement
  cases hresult : (statement c).result with
  | ok s =>
    have hrule : recovering statement c = ⟨.ok (some s), (statement c).cursor, (statement c).errors⟩ := by
      simp only [recovering, hresult]
    rw [hrule]
    exact ⟨⟨[], [], by simp [Reply.reports, hresult], .nil⟩, fun _ hclean => ⟨hclean, rfl⟩⟩
  | error e =>
    have herrors : (recovering statement c).errors = (statement c).reports := by
      simp only [recovering, Reply.reports, hresult]
    have hreports : (recovering statement c).reports = (statement c).reports := by
      simp only [recovering, Reply.reports, hresult]
    refine ⟨⟨[], [], by simp [hreports], .nil⟩, fun hdirty hclean => ?_⟩
    rw [herrors] at hclean
    exact absurd hclean hdirty

/-- An attempt overruns where its statement does; recovery comes behind that. -/
theorem overruns_recovering {statement : Rule Statement} {c : Cursor} (hover : statement.Overruns c) :
    (recovering statement).Overruns c :=
  hover.carried (.refl c) (carries_recovering (.refl _))

private theorem recovering_confines {statement : Rule Statement} {wide narrow : Language Statement}
    {follows : Token → Prop} (hconfines : statement.Confines wide narrow follows) :
    (recovering statement).Confines (AttemptForm wide) (AttemptForm narrow) follows := by
  rintro c s ts d ⟨hs⟩ hreads hfollows
  obtain hnarrow | hover := hconfines _ _ _ _ hs hreads hfollows
  · exact .inl ⟨hnarrow⟩
  · exact .inr (overruns_recovering hover)

private theorem Items.of_attempts {statement : Language Statement} {ss : List Statement}
    {ts : List Token}
    (hitems : Items (AttemptForm statement) (ss.map some) ts) : Items statement ss ts := by
  induction ss generalizing ts with
  | nil =>
    cases hitems
    exact .nil
  | cons s ss ih =>
    obtain _ | ⟨⟨hs⟩, hrest⟩ := hitems
    exact .cons hs (ih hrest)

/-- Statements are read up to the first that is nested too deeply. -/
theorem Items.confined_recovering {next? : Token → Option Unit} {statement : Rule Statement}
    {wide narrow : Language Statement} (hbegins : wide.Begins BeginsStatement)
    (hnext : ∀ t, BeginsStatement t → next? t = some ())
    (haccepts : statement.Accepts Statement.bare narrow fun t => t.kind ≠ .keyword .elseKw)
    (hconfines : statement.Confines wide narrow fun t => t.kind ≠ .keyword .elseKw)
    {c d : Cursor} {ss : List Statement} {ts : List Token} (hitems : Items wide ss ts)
    (hreads : c.Reads ts d) (helse : d.peek.kind ≠ .keyword .elseKw) :
    Items narrow ss ts ∨ (many next? fun _ => recovering statement).Overruns c := by
  obtain hnarrow | hover := hitems.attempts.confined (attemptForm_begins hbegins)
    (fun t ht => ⟨hnext t ht, ht.notElse⟩) (recovering_accepts haccepts)
    (recovering_confines hconfines) hreads helse
  · exact .inl hnarrow.of_attempts
  · exact .inr hover

private theorem blockRule_confines {statement : Rule Statement} {wide narrow : Language Statement}
    (hbegins : wide.Begins BeginsStatement)
    (haccepts : statement.Accepts Statement.bare narrow fun t => t.kind ≠ .keyword .elseKw)
    (hconfines : statement.Confines wide narrow fun t => t.kind ≠ .keyword .elseKw) :
    (blockRule statement).Confines (BlockForm wide) (BlockForm narrow) fun _ => True := by
  rintro c b ts d ⟨hopen, hstatements, hclose⟩ hreads _
  obtain ⟨hinside, rfl⟩ := hreads.of_cons
  obtain ⟨c', hreadsStatements, hrest⟩ := hinside.of_append
  obtain ⟨rfl, rfl⟩ := hrest.of_singleton
  have hnext : ∀ t, BeginsStatement t → insideBlock t = some () := fun t ht =>
    insideBlock_eq_some_iff.2 ⟨ht.notEnd, ht.notEof⟩
  obtain hnarrow | hover := hstatements.confined_recovering hbegins hnext haccepts hconfines
    hreadsStatements (by simp [hclose])
  · exact .inl ⟨hopen, hnarrow, hclose⟩
  · exact .inr ((passes_mark hopen _).bind fun _ => hover.bind _)

/-- By induction on the levels that are left, the tokens being those of any number of levels. -/
theorem statement_and_parts_confine (n : Nat) :
    ∀ wide, (statement n).Confines (StatementDerives wide) (StatementDerives n)
        (fun t => t.kind ≠ .keyword .elseKw) ∧
      (conditional n).Confines (ConditionalDerives wide) (ConditionalDerives n)
        (fun t => t.kind ≠ .keyword .elseKw) ∧
      (block n).Confines (BlockDerives wide) (BlockDerives n) fun _ => True := by
  induction n with
  | zero =>
    exact fun wide => ⟨confines_tooDeep (statementDerives_begins wide),
      confines_tooDeep (conditionalDerives_begins wide), confines_tooDeep (blockDerives_begins wide)⟩
  | succ n ih =>
    intro wide
    cases wide with
    | zero =>
      exact ⟨fun _ _ _ _ hs => hs.elim, fun _ _ _ _ hx => hx.elim, fun _ _ _ _ hx => hx.elim⟩
    | succ wide =>
      obtain ⟨hstatement, hconditional, hblock⟩ := ih wide
      obtain ⟨hstatementAccepts, _, hblockAccepts⟩ := statement_and_parts_accept n
      have hexpression := expression_accepts n
      have hconfines := expression_confines n wide
      have hconditionals := conditionalDerives_begins wide
      refine ⟨?_, ?_, ?_⟩
      · exact statementRule_confines hexpression hconfines (rowDerives_begins wide 1)
          (rowDerives_neverAssigns wide 1) (rowDerives_neverAssigns n 1) hblock hconditional
          hconditionals (rowDerives_begins n 1)
      · exact conditionalRule_confines hexpression hconfines hblockAccepts hblock hconditional
          hconditionals (blockDerives_begins wide)
      · exact blockRule_confines (statementDerives_begins wide) hstatementAccepts hstatement

end GeoLang.Grammar
