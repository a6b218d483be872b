import GeoLang.Grammar.Statement
import GeoLang.Proofs.Reading.Outcome

namespace GeoLang.Grammar

/-- A name is one token, known by its lexeme. -/
@[simp] theorem returns_name_iff {x : Expectation} {c d : Cursor} {s : String}
    {es : List ParseError} :
    (name x).Returns c s d es ↔
      c.peek.kind.isName = true ∧ s = c.peek.lexeme ∧ d = c.advance ∧ es = [] := by
  simp only [name, returns_peek_bind_iff]
  split <;> simp [*]

@[simp] theorem returns_name_bind_iff {β : Type} {x : Expectation} {f : String → Rule β}
    {c d : Cursor} {b : β} {es : List ParseError} :
    (name x >>= f).Returns c b d es ↔
      c.peek.kind.isName = true ∧ (f c.peek.lexeme).Returns c.advance b d es :=
  Rule.returns_bind_iff_of_first fun _ _ _ => returns_name_iff

/-- A member is a name behind a token that is consumed unseen. -/
theorem returns_member_iff {c d : Cursor} {s : String} {es : List ParseError} :
    member.Returns c s d es ↔
      c.advance.peek.kind.isName = true ∧ s = c.advance.peek.lexeme ∧
        d = c.advance.advance ∧ es = [] := by
  simp [member]

/-- A path is a name with as many members as points follow. -/
theorem returns_path_iff {c d : Cursor} {p : Path} {es : List ParseError} :
    path.Returns c p d es ↔
      c.peek.kind.isName = true ∧ ∃ members,
        Repeats (markAt .dot) (fun _ => member) c.advance members d es ∧
          p = ⟨c.peek.lexeme, members, d.spanSince c.peek.span⟩ := by
  simp only [path, returns_peek_bind_iff, returns_name_bind_iff]
  constructor
  · rintro ⟨hname, hmembers⟩
    rw [Rule.returns_bind_iff] at hmembers
    obtain ⟨members, c', es', _, hmembers, hspan, rfl⟩ := hmembers
    simp only [returns_spanSince_bind_iff, Rule.returns_pure_iff] at hspan
    obtain ⟨rfl, rfl, rfl⟩ := hspan
    exact ⟨hname, members, by simpa using hmembers, rfl⟩
  · rintro ⟨hname, members, hmembers, rfl⟩
    refine ⟨hname, Rule.returns_bind_iff.2 ⟨members, d, es, [], by simpa using hmembers, ?_, by simp⟩⟩
    simp

/-- The ways in which arguments are read. -/
inductive ArgumentsReturn (expression : Rule Expr) (c : Cursor) :
    List Expr → Cursor → List ParseError → Prop where
  | none (hopen : c.peek.kind = .punctuation .lParen)
      (hclose : c.advance.peek.kind = .punctuation .rParen) :
      ArgumentsReturn expression c [] c.advance.advance []
  | some {first : Expr} {others : List Expr} {c' d : Cursor} {es₁ es₂ : List ParseError}
      (hopen : c.peek.kind = .punctuation .lParen)
      (hmore : c.advance.peek.kind ≠ .punctuation .rParen)
      (hfirst : expression.Returns c.advance first c' es₁)
      (hothers : Repeats (markAt .comma) (fun _ => argument expression) c' others d es₂)
      (hclose : d.peek.kind = .punctuation .rParen) :
      ArgumentsReturn expression c (first :: others) d.advance (es₁ ++ es₂)

theorem returns_argument_iff {expression : Rule Expr} {c d : Cursor} {e : Expr}
    {es : List ParseError} :
    (argument expression).Returns c e d es ↔ expression.Returns c.advance e d es := by
  simp [argument]

/-- Expressions in parentheses, with commas between them, or none at all. -/
theorem returns_arguments_iff {expression : Rule Expr} {c d : Cursor} {args : List Expr}
    {es : List ParseError} :
    (arguments expression).Returns c args d es ↔ ArgumentsReturn expression c args d es := by
  simp only [arguments, returns_mark_bind_iff, returns_peek_bind_iff, TokenKind.isPunctuation,
    beq_iff_eq]
  constructor
  · rintro ⟨hopen, hargs⟩
    split at hargs
    · next hclose =>
      simp only [returns_closeParenthesis_bind_iff, Rule.returns_pure_iff] at hargs
      obtain ⟨_, rfl, rfl, rfl⟩ := hargs
      exact .none hopen hclose
    · next hmore =>
      simp only [Rule.returns_bind_iff, returns_many_iff, returns_closeParenthesis_iff,
        Rule.returns_pure_iff] at hargs
      obtain ⟨first, c', es₁, _, hfirst, ⟨others, c'', es₂, _, hothers, ⟨_, _, _, _,
        ⟨hclose, rfl, rfl, rfl⟩, ⟨rfl, rfl, rfl⟩, rfl⟩, rfl⟩, rfl⟩ := hargs
      simpa using ArgumentsReturn.some hopen hmore hfirst hothers hclose
  · intro hargs
    cases hargs with
    | none hopen hclose => simp [hopen, hclose]
    | some hopen hmore hfirst hothers hclose =>
      refine ⟨hopen, ?_⟩
      rw [if_neg hmore, Rule.returns_bind_iff]
      refine ⟨_, _, _, _, hfirst, ?_, rfl⟩
      rw [Rule.returns_bind_iff]
      exact ⟨_, _, _, [], returns_many_iff.2 hothers, by simp [hclose], by simp⟩

/-- Arguments begin with a parenthesis. -/
theorem opening_of_returns_arguments {expression : Rule Expr} {c d : Cursor} {args : List Expr}
    {es : List ParseError} (hargs : (arguments expression).Returns c args d es) :
    c.peek.kind = .punctuation .lParen := by
  cases returns_arguments_iff.1 hargs with
  | none hopen => exact hopen
  | some hopen => exact hopen

/-- The error that is noted if the word does not take the number of arguments. -/
def arityFaults (word : ReservedWord) (args : List Expr) (span : Span) : List ParseError :=
  if word.arity.least ≤ args.length ∧ args.length ≤ word.arity.most then []
  else [.argumentCount word word.arity.text args.length span]

/-- Checking the number of arguments consumes nothing. -/
@[simp] theorem returns_checkArity_iff {word : ReservedWord} {args : List Expr} {span : Span}
    {c d : Cursor} {u : Unit} {es : List ParseError} :
    (checkArity word args span).Returns c u d es ↔ d = c ∧ es = arityFaults word args span := by
  unfold checkArity arityFaults
  simp only [Arity.admits_iff]
  split <;> simp

/-- The number of arguments is noted behind whatever is wrong with the arguments. -/
theorem returns_reservedCall_iff {expression : Rule Expr} {word : ReservedWord} {start : Span}
    {c d : Cursor} {e : Expr} {es : List ParseError} :
    (reservedCall expression word start).Returns c e d es ↔
      ∃ args es', (arguments expression).Returns c.advance args d es' ∧
        e = .reserved word args (d.spanSince start) ∧
          es = es' ++ arityFaults word args (d.spanSince start) := by
  rw [reservedCall, returns_advance_bind_iff, Rule.returns_bind_iff]
  constructor
  · rintro ⟨args, c', es', _, hargs, hcheck, rfl⟩
    rw [returns_spanSince_bind_iff, Rule.returns_bind_iff] at hcheck
    obtain ⟨_, _, _, _, hcheck, hpure, rfl⟩ := hcheck
    obtain ⟨rfl, rfl⟩ := returns_checkArity_iff.1 hcheck
    obtain ⟨rfl, rfl, rfl⟩ := Rule.returns_pure_iff.1 hpure
    exact ⟨args, es', hargs, rfl, by simp⟩
  · rintro ⟨args, es', hargs, rfl, rfl⟩
    refine ⟨args, d, es', _, hargs, ?_, rfl⟩
    rw [returns_spanSince_bind_iff, Rule.returns_bind_iff]
    exact ⟨(), d, _, [], returns_checkArity_iff.2 ⟨rfl, rfl⟩, by simp, by simp⟩

/-- The ways in which an expression that begins with a path is read. -/
inductive PathExpressionReturns (expression : Rule Expr) (c : Cursor) :
    Expr → Cursor → List ParseError → Prop where
  | call {p : Path} {args : List Expr} {c' d : Cursor} {es₁ es₂ : List ParseError}
      (hpath : path.Returns c p c' es₁) (hargs : (arguments expression).Returns c' args d es₂) :
      PathExpressionReturns expression c (.call p args (d.spanSince p.span)) d (es₁ ++ es₂)
  | post {p : Path} {op : Operator} {c' : Cursor} {es : List ParseError}
      (hpath : path.Returns c p c' es) (hstep : stepAt c'.peek = some op) :
      PathExpressionReturns expression c (.post op p (c'.advance.spanSince p.span)) c'.advance es
  | path {p : Path} {d : Cursor} {es : List ParseError} (hpath : path.Returns c p d es)
      (hcall : d.peek.kind ≠ .punctuation .lParen) (hstep : stepAt d.peek = none) :
      PathExpressionReturns expression c (.path p) d es

/-- `++` or `--` at a token is what a rule finds that asks for the operator itself. -/
theorem stepAt_eq_some_iff {t : Token} {op : Operator} :
    stepAt t = some op ↔ t.kind.operator? = some op ∧ op.isStep = true := by
  simp [stepAt, Option.filter_eq_some_iff]

/-- Behind a path there may be arguments or a step. -/
theorem returns_pathExpression_iff {expression : Rule Expr} {c d : Cursor} {e : Expr}
    {es : List ParseError} :
    (pathExpression expression).Returns c e d es ↔ PathExpressionReturns expression c e d es := by
  rw [pathExpression, Rule.returns_bind_iff]
  constructor
  · rintro ⟨p, c', es₁, es₂, hpath, hrest, rfl⟩
    rw [returns_peek_bind_iff] at hrest
    split at hrest
    · next hopen =>
      rw [Rule.returns_bind_iff] at hrest
      obtain ⟨args, d', es₂, _, hargs, hspan, rfl⟩ := hrest
      rw [returns_spanSince_bind_iff] at hspan
      obtain ⟨rfl, rfl, rfl⟩ := Rule.returns_pure_iff.1 hspan
      simpa using PathExpressionReturns.call hpath hargs
    · next cls op hop =>
      split at hrest
      · next hisStep =>
        simp only [returns_advance_bind_iff, returns_spanSince_bind_iff,
          Rule.returns_pure_iff] at hrest
        obtain ⟨rfl, rfl, rfl⟩ := hrest
        have hstep : stepAt c'.peek = some op :=
          stepAt_eq_some_iff.2 ⟨by simp [hop, TokenKind.operator?], hisStep⟩
        simpa using PathExpressionReturns.post hpath hstep
      · next hnotStep =>
        obtain ⟨rfl, rfl, rfl⟩ := Rule.returns_pure_iff.1 hrest
        have hstep : stepAt d.peek = none := by
          simp [stepAt, hop, TokenKind.operator?, Option.filter, hnotStep]
        simpa using PathExpressionReturns.path hpath (by simp [hop]) hstep
    · next hnotOpen hnotOperator =>
      obtain ⟨rfl, rfl, rfl⟩ := Rule.returns_pure_iff.1 hrest
      have hstep : stepAt d.peek = none := by
        unfold stepAt TokenKind.operator?
        split <;> simp_all
      simpa using PathExpressionReturns.path hpath hnotOpen hstep
  · intro hreturns
    cases hreturns with
    | call hpath hargs =>
      have hopen := opening_of_returns_arguments hargs
      refine ⟨_, _, _, _, hpath, ?_, rfl⟩
      rw [returns_peek_bind_iff]
      simp only [hopen]
      rw [Rule.returns_bind_iff]
      exact ⟨_, _, _, [], hargs, by simp, by simp⟩
    | post hpath hstep =>
      obtain ⟨hop, hisStep⟩ := stepAt_eq_some_iff.1 hstep
      obtain ⟨cls, hop⟩ := TokenKind.operator?_eq_some_iff.1 hop
      refine ⟨_, _, _, [], hpath, ?_, by simp⟩
      simp [hop, hisStep]
    | @path p d es hpath hcall hstep =>
      refine ⟨_, _, _, [], hpath, ?_, by simp⟩
      rw [returns_peek_bind_iff]
      split
      · next hopen => exact absurd hopen hcall
      · next cls op hop =>
        have hnotStep : op.isStep = false := by
          simpa [stepAt, hop, TokenKind.operator?, Option.filter_eq_none_iff] using hstep
        simp [hnotStep]
      · simp

/-- The ways in which an operand is read. -/
inductive FactorReturns (factor expression : Rule Expr) (c : Cursor) :
    Expr → Cursor → List ParseError → Prop where
  | unary {cls : Operator.Class} {op : Operator} {operand : Expr} {d : Cursor}
      {es : List ParseError} (hop : c.peek.kind = .operator cls op) (hleads : op.leads = true)
      (hoperand : factor.Returns c.advance operand d es) :
      FactorReturns factor expression c (.unary op operand (d.spanSince c.peek.span)) d es
  | literal {v : Literal} (hliteral : c.peek.kind = .literal v) :
      FactorReturns factor expression c (.literal v c.peek.span) c.advance []
  | grouped {inner : Expr} {d : Cursor} {es : List ParseError}
      (hopen : c.peek.kind = .punctuation .lParen)
      (hinner : expression.Returns c.advance inner d es)
      (hclose : d.peek.kind = .punctuation .rParen) :
      FactorReturns factor expression c (.grouped inner (d.advance.spanSince c.peek.span)) d.advance es
  | reserved {word : ReservedWord} {args : List Expr} {d : Cursor} {es : List ParseError}
      (hword : c.peek.kind = .reserved word) (hopen : c.second.kind = .punctuation .lParen)
      (hargs : (arguments expression).Returns c.advance args d es) :
      FactorReturns factor expression c (.reserved word args (d.spanSince c.peek.span)) d
        (es ++ arityFaults word args (d.spanSince c.peek.span))
  | path {e : Expr} {d : Cursor} {es : List ParseError} (hname : c.peek.kind.isName = true)
      (hcall : ∀ word, c.peek.kind = .reserved word → c.second.kind ≠ .punctuation .lParen)
      (hpath : PathExpressionReturns expression c e d es) :
      FactorReturns factor expression c e d es

/-- The ways in which a single operand is read. -/
theorem returns_factorRule_iff {factor expression : Rule Expr} {c d : Cursor} {e : Expr}
    {es : List ParseError} :
    (factorRule factor expression).Returns c e d es ↔ FactorReturns factor expression c e d es := by
  rw [factorRule, returns_peek_bind_iff]
  constructor
  · intro hfactor
    split at hfactor
    · next cls op hop =>
      split at hfactor
      · next hleads =>
        rw [returns_advance_bind_iff, Rule.returns_bind_iff] at hfactor
        obtain ⟨operand, d', es', _, hoperand, hspan, rfl⟩ := hfactor
        rw [returns_spanSince_bind_iff] at hspan
        obtain ⟨rfl, rfl, rfl⟩ := Rule.returns_pure_iff.1 hspan
        simpa using FactorReturns.unary hop hleads hoperand
      · exact absurd hfactor not_returns_unexpected
    · next v hliteral =>
      rw [returns_advance_bind_iff] at hfactor
      obtain ⟨rfl, rfl, rfl⟩ := Rule.returns_pure_iff.1 hfactor
      exact .literal hliteral
    · next hopen =>
      rw [returns_advance_bind_iff, Rule.returns_bind_iff] at hfactor
      obtain ⟨inner, d', es', _, hinner, hrest, rfl⟩ := hfactor
      rw [returns_closeParenthesis_bind_iff, returns_spanSince_bind_iff] at hrest
      obtain ⟨hclose, hspan⟩ := hrest
      obtain ⟨rfl, rfl, rfl⟩ := Rule.returns_pure_iff.1 hspan
      simpa using FactorReturns.grouped hopen hinner hclose
    · next word hword =>
      rw [returns_peekSecond_bind_iff] at hfactor
      split at hfactor
      · next hopen =>
        obtain ⟨args, es', hargs, rfl, rfl⟩ := returns_reservedCall_iff.1 hfactor
        exact .reserved hword (by simpa [TokenKind.isPunctuation] using hopen) hargs
      · next hnotOpen =>
        refine .path (by simp [hword, TokenKind.isName]) (fun _ _ => ?_)
          (returns_pathExpression_iff.1 hfactor)
        simpa [TokenKind.isPunctuation] using hnotOpen
    · next name hname =>
      exact .path (by simp [hname, TokenKind.isName]) (by simp [hname])
        (returns_pathExpression_iff.1 hfactor)
    · next word hname =>
      exact .path (by simp [hname, TokenKind.isName]) (by simp [hname])
        (returns_pathExpression_iff.1 hfactor)
    · exact absurd hfactor not_returns_unexpected
  · intro hreturns
    cases hreturns with
    | unary hop hleads hoperand =>
      simp only [hop, hleads, if_true, returns_advance_bind_iff]
      exact Rule.returns_bind_iff.2 ⟨_, _, _, [], hoperand, by simp, by simp⟩
    | literal hliteral => simp [hliteral]
    | grouped hopen hinner hclose =>
      simp only [hopen, returns_advance_bind_iff]
      exact Rule.returns_bind_iff.2 ⟨_, _, _, [], hinner, by simp [hclose], by simp⟩
    | reserved hword hopen hargs =>
      simp only [hword, returns_peekSecond_bind_iff, hopen, TokenKind.isPunctuation,
        BEq.rfl, if_true]
      exact returns_reservedCall_iff.2 ⟨_, _, hargs, rfl, rfl⟩
    | path hname hcall hpath =>
      have hreads := returns_pathExpression_iff.2 hpath
      split
      · next hop => simp [hop, TokenKind.isName] at hname
      · next hliteral => simp [hliteral, TokenKind.isName] at hname
      · next hopen => simp [hopen, TokenKind.isName] at hname
      · next word hword =>
        simpa [TokenKind.isPunctuation, hcall word hword] using hreads
      · exact hreads
      · exact hreads
      · next hidentifier hkeyword =>
        exfalso
        revert hname
        unfold TokenKind.isName
        split <;> simp_all

/-- A token joins operands by what it is, whatever class it has. -/
theorem jointAt_eq_some_iff {least strength : Nat} {t : Token} {op : Operator} :
    jointAt least t = some (op, strength) ↔
      t.kind.operator? = some op ∧ op.strength? = some strength ∧ least ≤ strength := by
  unfold jointAt
  split
  · split
    · split <;> grind
    · grind
  · grind

/-- A link is an operator that is there already, and the operand behind it. -/
theorem returns_link_iff {operand : Nat → Rule Expr} {joint : Operator × Nat} {c d : Cursor}
    {l : Operator × Expr} {es : List ParseError} :
    (link operand joint).Returns c l d es ↔
      ∃ rhs, (operand (joint.1.rightStrength joint.2)).Returns c.advance rhs d es ∧
        l = (joint.1, rhs) := by
  rw [link, returns_advance_bind_iff, Rule.returns_bind_iff]
  constructor
  · rintro ⟨rhs, d', es', _, hrhs, hpure, rfl⟩
    obtain ⟨rfl, rfl, rfl⟩ := Rule.returns_pure_iff.1 hpure
    exact ⟨rhs, by simpa using hrhs, rfl⟩
  · rintro ⟨rhs, hrhs, rfl⟩
    exact ⟨rhs, d, es, [], hrhs, by simp, by simp⟩

/-- A row is an operand and links, which are joined from the left. -/
theorem returns_binaryRule_iff {factor : Rule Expr} {operand : Nat → Rule Expr} {least : Nat}
    {c d : Cursor} {e : Expr} {es : List ParseError} :
    (binaryRule factor operand least).Returns c e d es ↔
      ∃ lhs c' es₁ links es₂, factor.Returns c lhs c' es₁ ∧
        Repeats (jointAt least) (link operand) c' links d es₂ ∧
          e = links.foldl Expr.join lhs ∧ es = es₁ ++ es₂ := by
  rw [binaryRule, Rule.returns_bind_iff]
  constructor
  · rintro ⟨lhs, c', es₁, _, hlhs, hlinks, rfl⟩
    rw [Rule.returns_bind_iff] at hlinks
    obtain ⟨links, d', es₂, _, hlinks, hpure, rfl⟩ := hlinks
    obtain ⟨rfl, rfl, rfl⟩ := Rule.returns_pure_iff.1 hpure
    exact ⟨lhs, c', es₁, links, es₂, hlhs, returns_many_iff.1 hlinks, rfl, by simp⟩
  · rintro ⟨lhs, c', es₁, links, es₂, hlhs, hlinks, rfl, rfl⟩
    refine ⟨lhs, c', es₁, es₂, hlhs, ?_, rfl⟩
    exact Rule.returns_bind_iff.2 ⟨links, d, es₂, [], returns_many_iff.2 hlinks, by simp, by simp⟩

end GeoLang.Grammar
