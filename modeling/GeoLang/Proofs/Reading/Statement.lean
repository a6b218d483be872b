import GeoLang.Proofs.Reading.Simple
import GeoLang.Tree.Outline

namespace GeoLang

/-- The kind of the first token already tells which rule reads the statement: a data type or one of
    the statement keywords. -/
def TokenKind.opensForm : TokenKind → Bool
  | dataType _ => true
  | keyword k => k.startsStatement
  | _ => false

namespace Grammar

/-- A path and a closing brace, behind a brace that is consumed unseen. -/
theorem returns_placeholder_iff {c d : Cursor} {p : Path} {es : List ParseError} :
    placeholder.Returns c p d es ↔
      ∃ c', path.Returns c.advance p c' es ∧ c'.peek.kind = .punctuation .rCurly ∧
        d = c'.advance := by
  rw [placeholder, returns_advance_bind_iff, Rule.returns_bind_iff]
  constructor
  · rintro ⟨p', c', es', _, hpath, hrest, rfl⟩
    rw [returns_mark_bind_iff] at hrest
    obtain ⟨hclose, hpure⟩ := hrest
    obtain ⟨rfl, rfl, rfl⟩ := Rule.returns_pure_iff.1 hpure
    exact ⟨c', by simpa using hpath, hclose, rfl⟩
  · rintro ⟨c', hpath, hclose, rfl⟩
    exact ⟨p, c', es, [], hpath, by simp [hclose], by simp⟩

/-- How a `while` loop is read, part by part; each part goes on where the one in front of it
    stopped. -/
theorem returns_whileLoop_iff {expression : Rule Expr} {block : Rule Block} {c d : Cursor}
    {s : Statement} {es : List ParseError} :
    (whileLoop expression block).Returns c s d es ↔
      c.peek.kind = .keyword .whileKw ∧ c.advance.peek.kind = .punctuation .lParen ∧
        ∃ condition c' es₁ body es₂, expression.Returns c.advance.advance condition c' es₁ ∧
          c'.peek.kind = .punctuation .rParen ∧ block.Returns c'.advance body d es₂ ∧
            s = .whileLoop condition body (d.spanSince c.peek.span) ∧ es = es₁ ++ es₂ := by
  rw [whileLoop, returns_keyword_bind_iff, returns_mark_bind_iff, Rule.returns_bind_iff]
  constructor
  · rintro ⟨hwhile, hopen, condition, c', es₁, _, hcondition, hrest, rfl⟩
    rw [returns_closeParenthesis_bind_iff, Rule.returns_bind_iff] at hrest
    obtain ⟨hclose, body, d', es₂, _, hbody, hspan, rfl⟩ := hrest
    rw [returns_spanSince_bind_iff] at hspan
    obtain ⟨rfl, rfl, rfl⟩ := Rule.returns_pure_iff.1 hspan
    exact ⟨hwhile, hopen, condition, c', es₁, body, es₂, hcondition, hclose, hbody, rfl, by simp⟩
  · rintro ⟨hwhile, hopen, condition, c', es₁, body, es₂, hcondition, hclose, hbody, rfl, rfl⟩
    refine ⟨hwhile, hopen, condition, c', es₁, es₂, hcondition, ?_, rfl⟩
    rw [returns_closeParenthesis_bind_iff, Rule.returns_bind_iff]
    exact ⟨hclose, body, d, es₂, [], hbody, by simp, by simp⟩

/-- How a `for` loop is read, with a semicolon behind each of its first two parts. -/
theorem returns_forLoop_iff {expression : Rule Expr} {block : Rule Block} {c d : Cursor}
    {s : Statement} {es : List ParseError} :
    (forLoop expression block).Returns c s d es ↔
      c.peek.kind = .keyword .forKw ∧ c.advance.peek.kind = .punctuation .lParen ∧
        ∃ init c₁ es₁ condition c₂ es₂ change c₃ es₃ body es₄,
          (forInit expression).Returns c.advance.advance init c₁ es₁ ∧
          c₁.peek.kind = .punctuation .semicolon ∧
          expression.Returns c₁.advance condition c₂ es₂ ∧
          c₂.peek.kind = .punctuation .semicolon ∧
          (update expression).Returns c₂.advance change c₃ es₃ ∧
          c₃.peek.kind = .punctuation .rParen ∧ block.Returns c₃.advance body d es₄ ∧
          s = .forLoop init condition change body (d.spanSince c.peek.span) ∧
          es = es₁ ++ (es₂ ++ (es₃ ++ es₄)) := by
  rw [forLoop, returns_keyword_bind_iff, returns_mark_bind_iff, Rule.returns_bind_iff]
  constructor
  · rintro ⟨hfor, hopen, init, c₁, es₁, _, hinit, hrest, rfl⟩
    rw [returns_mark_bind_iff, Rule.returns_bind_iff] at hrest
    obtain ⟨hinitEnd, condition, c₂, es₂, _, hcondition, hrest, rfl⟩ := hrest
    rw [returns_mark_bind_iff, Rule.returns_bind_iff] at hrest
    obtain ⟨hconditionEnd, change, c₃, es₃, _, hchange, hrest, rfl⟩ := hrest
    rw [returns_closeParenthesis_bind_iff, Rule.returns_bind_iff] at hrest
    obtain ⟨hclose, body, d', es₄, _, hbody, hspan, rfl⟩ := hrest
    rw [returns_spanSince_bind_iff] at hspan
    obtain ⟨rfl, rfl, rfl⟩ := Rule.returns_pure_iff.1 hspan
    exact ⟨hfor, hopen, init, c₁, es₁, condition, c₂, es₂, change, c₃, es₃, body, es₄, hinit,
      hinitEnd, hcondition, hconditionEnd, hchange, hclose, hbody, rfl, by simp⟩
  · rintro ⟨hfor, hopen, init, c₁, es₁, condition, c₂, es₂, change, c₃, es₃, body, es₄, hinit,
      hinitEnd, hcondition, hconditionEnd, hchange, hclose, hbody, rfl, rfl⟩
    refine ⟨hfor, hopen, init, c₁, es₁, _, hinit, ?_, rfl⟩
    rw [returns_mark_bind_iff, Rule.returns_bind_iff]
    refine ⟨hinitEnd, condition, c₂, es₂, _, hcondition, ?_, rfl⟩
    rw [returns_mark_bind_iff, Rule.returns_bind_iff]
    refine ⟨hconditionEnd, change, c₃, es₃, _, hchange, ?_, rfl⟩
    rw [returns_closeParenthesis_bind_iff, Rule.returns_bind_iff]
    exact ⟨hclose, body, d, es₄, [], hbody, by simp, by simp⟩

/-- How a `repeat` loop is read, with its count between the keywords. -/
theorem returns_repeatLoop_iff {expression : Rule Expr} {block : Rule Block} {c d : Cursor}
    {s : Statement} {es : List ParseError} :
    (repeatLoop expression block).Returns c s d es ↔
      c.peek.kind = .keyword .repeatKw ∧
        ∃ count c' es₁ body es₂, expression.Returns c.advance count c' es₁ ∧
          c'.peek.kind = .keyword .timesKw ∧ block.Returns c'.advance body d es₂ ∧
            s = .repeatLoop count body (d.spanSince c.peek.span) ∧ es = es₁ ++ es₂ := by
  rw [repeatLoop, returns_keyword_bind_iff, Rule.returns_bind_iff]
  constructor
  · rintro ⟨hrepeat, count, c', es₁, _, hcount, hrest, rfl⟩
    rw [returns_keyword_bind_iff, Rule.returns_bind_iff] at hrest
    obtain ⟨htimes, body, d', es₂, _, hbody, hspan, rfl⟩ := hrest
    rw [returns_spanSince_bind_iff] at hspan
    obtain ⟨rfl, rfl, rfl⟩ := Rule.returns_pure_iff.1 hspan
    exact ⟨hrepeat, count, c', es₁, body, es₂, hcount, htimes, hbody, rfl, by simp⟩
  · rintro ⟨hrepeat, count, c', es₁, body, es₂, hcount, htimes, hbody, rfl, rfl⟩
    refine ⟨hrepeat, count, c', es₁, es₂, hcount, ?_, rfl⟩
    rw [returns_keyword_bind_iff, Rule.returns_bind_iff]
    exact ⟨htimes, body, d, es₂, [], hbody, by simp, by simp⟩

@[simp] theorem returns_template_iff {c d : Cursor} {s : String} {es : List ParseError} :
    template.Returns c s d es ↔
      c.peek.kind = .literal (.string s) ∧ d = c.advance ∧ es = [] := by
  rw [template, returns_peek_bind_iff]
  split
  · next text htext => simp [htext, eq_comm]
  · next htext =>
    simp only [not_returns_unexpected, false_iff]
    rintro ⟨hstring, -⟩
    exact htext s hstring

/-- How an output statement is read; which keyword it begins with has been seen before. -/
theorem returns_output_iff {newline : Bool} {c d : Cursor} {s : Statement}
    {es : List ParseError} :
    (output newline).Returns c s d es ↔
      c.advance.peek.kind = .punctuation .lParen ∧
        ∃ text placeholders c', c.advance.advance.peek.kind = .literal (.string text) ∧
          Repeats (markAt .lCurly) (fun _ => placeholder) c.advance.advance.advance
            placeholders c' es ∧
          c'.peek.kind = .punctuation .rParen ∧ c'.advance.peek.kind = .punctuation .semicolon ∧
          d = c'.advance.advance ∧ s = .output newline text placeholders (d.spanSince c.peek.span) := by
  rw [output, returns_peek_bind_iff, returns_advance_bind_iff, returns_mark_bind_iff,
    Rule.returns_bind_iff]
  constructor
  · rintro ⟨hopen, text, c₁, _, _, htemplate, hrest, rfl⟩
    obtain ⟨htext, rfl, rfl⟩ := returns_template_iff.1 htemplate
    rw [Rule.returns_bind_iff] at hrest
    obtain ⟨placeholders, c', es', _, hplaceholders, hrest, rfl⟩ := hrest
    simp only [returns_closeParenthesis_bind_iff, returns_mark_bind_iff, returns_spanSince_bind_iff,
      Rule.returns_pure_iff] at hrest
    obtain ⟨hclose, hend, rfl, rfl, rfl⟩ := hrest
    exact ⟨hopen, text, placeholders, c', htext, by simpa using hplaceholders, hclose, hend, rfl, rfl⟩
  · rintro ⟨hopen, text, placeholders, c', htext, hplaceholders, hclose, hend, rfl, rfl⟩
    refine ⟨hopen, text, _, [], es, returns_template_iff.2 ⟨htext, rfl, rfl⟩, ?_, rfl⟩
    rw [Rule.returns_bind_iff]
    exact ⟨placeholders, c', es, [], returns_many_iff.2 hplaceholders, by simp [hclose, hend], by simp⟩

theorem returns_terminatedSimple_iff {expression : Rule Expr} {c d : Cursor} {s : Statement}
    {es : List ParseError} :
    (terminatedSimple expression).Returns c s d es ↔
      ∃ x c', (simple expression).Returns c x c' es ∧ c'.peek.kind = .punctuation .semicolon ∧
        d = c'.advance ∧ s = .simple x := by
  rw [terminatedSimple, Rule.returns_bind_iff]
  constructor
  · rintro ⟨x, c', es', _, hsimple, hrest, rfl⟩
    rw [returns_mark_bind_iff] at hrest
    obtain ⟨hend, hpure⟩ := hrest
    obtain ⟨rfl, rfl, rfl⟩ := Rule.returns_pure_iff.1 hpure
    exact ⟨x, c', by simpa using hsimple, hend, rfl, rfl⟩
  · rintro ⟨x, c', hsimple, hend, rfl, rfl⟩
    exact ⟨x, c', es, [], hsimple, by simp [hend], by simp⟩

theorem returns_input_iff {c d : Cursor} {s : Statement} {es : List ParseError} :
    input.Returns c s d es ↔
      c.peek.kind = .keyword .inputKw ∧ c.advance.peek.kind = .punctuation .lParen ∧
        c.advance.advance.peek.kind = .punctuation .rParen ∧
        c.advance.advance.advance.peek.kind = .punctuation .semicolon ∧
        d = c.advance.advance.advance.advance ∧ s = .input (d.spanSince c.peek.span) ∧ es = [] := by
  simp only [input, returns_keyword_bind_iff, returns_mark_bind_iff,
    returns_closeParenthesis_bind_iff, returns_spanSince_bind_iff, Rule.returns_pure_iff]
  grind

/-- The ways in which a statement is read. -/
inductive StatementReturns (expression : Rule Expr) (conditional : Rule Conditional)
    (block : Rule Block) (c : Cursor) : Statement → Cursor → List ParseError → Prop where
  | declaration {type : DataType} {x : Declaration} {d : Cursor} {es : List ParseError}
      (htype : c.peek.kind = .dataType type)
      (hdeclaration : (declaration expression true type).Returns c x d es) :
      StatementReturns expression conditional block c (.declaration x) d es
  | conditional {x : Conditional} {d : Cursor} {es : List ParseError}
      (hif : c.peek.kind = .keyword .ifKw) (hconditional : conditional.Returns c x d es) :
      StatementReturns expression conditional block c (.conditional x) d es
  | whileLoop {s : Statement} {d : Cursor} {es : List ParseError}
      (hwhile : c.peek.kind = .keyword .whileKw)
      (hloop : (whileLoop expression block).Returns c s d es) :
      StatementReturns expression conditional block c s d es
  | forLoop {s : Statement} {d : Cursor} {es : List ParseError}
      (hfor : c.peek.kind = .keyword .forKw) (hloop : (forLoop expression block).Returns c s d es) :
      StatementReturns expression conditional block c s d es
  | repeatLoop {s : Statement} {d : Cursor} {es : List ParseError}
      (hrepeat : c.peek.kind = .keyword .repeatKw)
      (hloop : (repeatLoop expression block).Returns c s d es) :
      StatementReturns expression conditional block c s d es
  | output {newline : Bool} {s : Statement} {d : Cursor} {es : List ParseError}
      (hword : c.peek.kind = .keyword (outputKeyword newline))
      (houtput : (output newline).Returns c s d es) :
      StatementReturns expression conditional block c s d es
  | input {s : Statement} {d : Cursor} {es : List ParseError}
      (hword : c.peek.kind = .keyword .inputKw) (hinput : input.Returns c s d es) :
      StatementReturns expression conditional block c s d es
  | simple {s : Statement} {d : Cursor} {es : List ParseError}
      (hform : c.peek.kind.opensForm = false)
      (hsimple : (terminatedSimple expression).Returns c s d es) :
      StatementReturns expression conditional block c s d es

/-- The ways in which a statement is read, one for each token that it may begin with. -/
theorem returns_statementRule_iff {expression : Rule Expr} {conditional : Rule Conditional}
    {block : Rule Block} {c d : Cursor} {s : Statement} {es : List ParseError} :
    (statementRule expression conditional block).Returns c s d es ↔
      StatementReturns expression conditional block c s d es := by
  rw [statementRule, returns_peek_bind_iff]
  constructor
  · intro hstatement
    split at hstatement
    · next type htype =>
      rw [Rule.returns_bind_iff] at hstatement
      obtain ⟨x, d', es', _, hdeclaration, hpure, rfl⟩ := hstatement
      obtain ⟨rfl, rfl, rfl⟩ := Rule.returns_pure_iff.1 hpure
      simpa using StatementReturns.declaration htype hdeclaration
    · next hif =>
      rw [Rule.returns_bind_iff] at hstatement
      obtain ⟨x, d', es', _, hconditional, hpure, rfl⟩ := hstatement
      obtain ⟨rfl, rfl, rfl⟩ := Rule.returns_pure_iff.1 hpure
      simpa using StatementReturns.conditional hif hconditional
    · next hwhile => exact .whileLoop hwhile hstatement
    · next hfor => exact .forLoop hfor hstatement
    · next hrepeat => exact .repeatLoop hrepeat hstatement
    · next hprint =>
      have hword : c.peek.kind = .keyword (outputKeyword false) := hprint
      exact .output hword hstatement
    · next hprintln =>
      have hword : c.peek.kind = .keyword (outputKeyword true) := hprintln
      exact .output hword hstatement
    · next hinput => exact .input hinput hstatement
    · next htype hif hwhile hfor hrepeat hprint hprintln hinput =>
      refine .simple ?_ hstatement
      cases hkind : c.peek.kind with
      | dataType type => exact absurd hkind (htype type)
      | keyword word => cases word <;> simp_all [TokenKind.opensForm, Keyword.startsStatement, Keyword.entry]
      | _ => rfl
  · intro hreturns
    cases hreturns with
    | declaration htype hdeclaration =>
      simp only [htype]
      exact Rule.returns_bind_iff.2 ⟨_, _, _, [], hdeclaration, by simp, by simp⟩
    | conditional hif hconditional =>
      simp only [hif]
      exact Rule.returns_bind_iff.2 ⟨_, _, _, [], hconditional, by simp, by simp⟩
    | whileLoop hwhile hloop => simpa only [hwhile] using hloop
    | forLoop hfor hloop => simpa only [hfor] using hloop
    | repeatLoop hrepeat hloop => simpa only [hrepeat] using hloop
    | @output newline _ _ _ hword houtput =>
      cases newline with
      | false => simpa only [show c.peek.kind = .keyword .printKw from hword] using houtput
      | true => simpa only [show c.peek.kind = .keyword .printlnKw from hword] using houtput
    | input hword hinput => simpa only [hword] using hinput
    | simple hform hsimple =>
      split <;> simp_all [TokenKind.opensForm, Keyword.startsStatement, Keyword.entry]

/-- The ways in which the part behind the block of a conditional is read. -/
inductive OtherwiseReturns (conditional : Rule Conditional) (block : Rule Block) (c : Cursor) :
    Otherwise → Cursor → List ParseError → Prop where
  | nothing (helse : c.peek.kind ≠ .keyword .elseKw) :
      OtherwiseReturns conditional block c .nothing c []
  | conditional {x : Conditional} {d : Cursor} {es : List ParseError}
      (helse : c.peek.kind = .keyword .elseKw) (hif : c.advance.peek.kind = .keyword .ifKw)
      (hconditional : conditional.Returns c.advance x d es) :
      OtherwiseReturns conditional block c (.conditional x) d es
  | block {x : Block} {d : Cursor} {es : List ParseError}
      (helse : c.peek.kind = .keyword .elseKw) (hif : c.advance.peek.kind ≠ .keyword .ifKw)
      (hblock : block.Returns c.advance x d es) :
      OtherwiseReturns conditional block c (.block x) d es

/-- What follows the block of a conditional, `else` deciding. -/
theorem returns_otherwiseRule_iff {conditional : Rule Conditional} {block : Rule Block}
    {c d : Cursor} {x : Otherwise} {es : List ParseError} :
    (otherwiseRule conditional block).Returns c x d es ↔
      OtherwiseReturns conditional block c x d es := by
  simp only [otherwiseRule, returns_peek_bind_iff, TokenKind.isKeyword, beq_iff_eq]
  constructor
  · intro hotherwise
    split at hotherwise
    · next helse =>
      rw [returns_advance_bind_iff, returns_peek_bind_iff] at hotherwise
      split at hotherwise
      · next hif =>
        rw [Rule.returns_bind_iff] at hotherwise
        obtain ⟨x, d', es', _, hconditional, hpure, rfl⟩ := hotherwise
        obtain ⟨rfl, rfl, rfl⟩ := Rule.returns_pure_iff.1 hpure
        simpa using OtherwiseReturns.conditional helse hif hconditional
      · next hif =>
        rw [Rule.returns_bind_iff] at hotherwise
        obtain ⟨x, d', es', _, hblock, hpure, rfl⟩ := hotherwise
        obtain ⟨rfl, rfl, rfl⟩ := Rule.returns_pure_iff.1 hpure
        simpa using OtherwiseReturns.block helse hif hblock
    · next helse =>
      obtain ⟨rfl, rfl, rfl⟩ := Rule.returns_pure_iff.1 hotherwise
      exact .nothing helse
  · intro hreturns
    cases hreturns with
    | nothing helse => simp [helse]
    | conditional helse hif hconditional =>
      rw [if_pos helse, returns_advance_bind_iff, returns_peek_bind_iff, if_pos hif]
      exact Rule.returns_bind_iff.2 ⟨_, _, _, [], hconditional, by simp, by simp⟩
    | block helse hif hblock =>
      rw [if_pos helse, returns_advance_bind_iff, returns_peek_bind_iff, if_neg hif]
      exact Rule.returns_bind_iff.2 ⟨_, _, _, [], hblock, by simp, by simp⟩

/-- How a conditional is read; the span of its first clause ends with its block. -/
theorem returns_conditionalRule_iff {expression : Rule Expr} {conditional : Rule Conditional}
    {block : Rule Block} {c d : Cursor} {x : Conditional} {es : List ParseError} :
    (conditionalRule expression conditional block).Returns c x d es ↔
      c.peek.kind = .keyword .ifKw ∧ c.advance.peek.kind = .punctuation .lParen ∧
        ∃ condition c₁ es₁ body c₂ es₂ otherwise es₃,
          expression.Returns c.advance.advance condition c₁ es₁ ∧
          c₁.peek.kind = .punctuation .rParen ∧ block.Returns c₁.advance body c₂ es₂ ∧
          OtherwiseReturns conditional block c₂ otherwise d es₃ ∧
          x = .mk condition body (c₂.spanSince c.peek.span) otherwise (d.spanSince c.peek.span) ∧
          es = es₁ ++ (es₂ ++ es₃) := by
  rw [conditionalRule, returns_keyword_bind_iff, returns_mark_bind_iff, Rule.returns_bind_iff]
  constructor
  · rintro ⟨hif, hopen, condition, c₁, es₁, _, hcondition, hrest, rfl⟩
    rw [returns_closeParenthesis_bind_iff, Rule.returns_bind_iff] at hrest
    obtain ⟨hclose, body, c₂, es₂, _, hbody, hrest, rfl⟩ := hrest
    rw [returns_spanSince_bind_iff, Rule.returns_bind_iff] at hrest
    obtain ⟨otherwise, d', es₃, _, hotherwise, hspan, rfl⟩ := hrest
    rw [returns_spanSince_bind_iff] at hspan
    obtain ⟨rfl, rfl, rfl⟩ := Rule.returns_pure_iff.1 hspan
    exact ⟨hif, hopen, condition, c₁, es₁, body, c₂, es₂, otherwise, es₃, hcondition, hclose, hbody,
      returns_otherwiseRule_iff.1 hotherwise, rfl, by simp⟩
  · rintro ⟨hif, hopen, condition, c₁, es₁, body, c₂, es₂, otherwise, es₃, hcondition, hclose,
      hbody, hotherwise, rfl, rfl⟩
    refine ⟨hif, hopen, condition, c₁, es₁, _, hcondition, ?_, rfl⟩
    rw [returns_closeParenthesis_bind_iff, Rule.returns_bind_iff]
    refine ⟨hclose, body, c₂, es₂, _, hbody, ?_, rfl⟩
    rw [returns_spanSince_bind_iff, Rule.returns_bind_iff]
    exact ⟨otherwise, d, es₃, [], returns_otherwiseRule_iff.2 hotherwise, by simp, by simp⟩

/-- How a block is read: attempts up to the closing brace. -/
theorem returns_blockRule_iff {statement : Rule Statement} {c d : Cursor} {b : Block}
    {es : List ParseError} :
    (blockRule statement).Returns c b d es ↔
      c.peek.kind = .punctuation .lCurly ∧ ∃ statements c',
        Repeats insideBlock (fun _ => recovering statement) c.advance statements c' es ∧
          c'.peek.kind = .punctuation .rCurly ∧ d = c'.advance ∧
            b = .mk statements.reduceOption (d.spanSince c.peek.span) := by
  rw [blockRule, returns_mark_bind_iff, Rule.returns_bind_iff]
  constructor
  · rintro ⟨hopen, statements, c', es', _, hstatements, hrest, rfl⟩
    simp only [returns_mark_bind_iff, returns_spanSince_bind_iff, Rule.returns_pure_iff] at hrest
    obtain ⟨hclose, rfl, rfl, rfl⟩ := hrest
    exact ⟨hopen, statements, c', by simpa using hstatements, hclose, rfl, rfl⟩
  · rintro ⟨hopen, statements, c', hstatements, hclose, rfl, rfl⟩
    exact ⟨hopen, statements, c', es, [], returns_many_iff.2 hstatements, by simp [hclose], by simp⟩

end Grammar

end GeoLang
