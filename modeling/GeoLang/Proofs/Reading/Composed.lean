import GeoLang.Proofs.Reading.Cursor
import GeoLang.Proofs.Reading.Plan
import GeoLang.Proofs.Reading.Program

namespace GeoLang.Grammar

/-- The rule is put together from basic rules. A rule fails only because of the current token, and
    the errors it notes on the way are never those that make a rule fail. -/
inductive Composed : {α : Type} → Rule α → Prop where
  | pure {α : Type} (a : α) : Composed (pure a : Rule α)
  | bind {α β : Type} {r : Rule α} {f : α → Rule β} (hfirst : Composed r)
      (hrest : ∀ a, Composed (f a)) : Composed (r >>= f)
  | peek : Composed peek
  | peekSecond : Composed peekSecond
  | atAssignment : Composed atAssignment
  | spanSince (start : Span) : Composed (spanSince start)
  | advance : Composed advance
  | note {e : ParseError} (hnote : e.isSyntactic = false) : Composed (note e)
  | unexpected {α : Type} (x : Expectation) : Composed (unexpected x : Rule α)
  | closeParenthesis : Composed closeParenthesis
  | tooDeep {α : Type} : Composed (tooDeep : Rule α)
  | many {α β : Type} {next? : Token → Option β} {item : β → Rule α}
      (hitem : ∀ b, Composed (item b)) : Composed (many next? item)
  | recovering {r : Rule Statement} (hstatement : Composed r) : Composed (recovering r)

/-- What has a plan is composed, if the rules are that the plan does not take apart. -/
theorem Plan.composed {n : Nat} {α : Type} {r : Rule α}
    (p : Plan (fun _ r => Composed r) n r) : Composed r := by
  induction p with
  | given hgiven => exact hgiven
  | pure a => exact .pure a
  | bind _ _ ihfirst ihrest => exact .bind ihfirst ihrest
  | peek => exact .peek
  | peekSecond => exact .peekSecond
  | atAssignment => exact .atAssignment
  | spanSince start => exact .spanSince start
  | advance => exact .advance
  | note hnote => exact .note hnote
  | unexpected x => exact .unexpected x
  | closeParenthesis => exact .closeParenthesis
  | many _ ih => exact .many ih
  | attempts _ _ ih => exact .many fun _ => .recovering ih
  | nested _ ih => exact ih
  | tooDeep => exact .tooDeep

namespace Composed

theorem mark (p : Punctuation) (x : Expectation) : Composed (Grammar.mark p x) :=
  (Plan.mark (n := 0) p x).composed

theorem keyword (word : Keyword) : Composed (Grammar.keyword word) :=
  (Plan.keyword (n := 0) word).composed

theorem path : Composed Grammar.path := (Plan.path (n := 0)).composed

theorem unitSpecifier : Composed Grammar.unitSpecifier := (Plan.unitSpecifier (n := 0)).composed

theorem template : Composed Grammar.template := (Plan.template (n := 0)).composed

theorem placeholder : Composed Grammar.placeholder := (Plan.placeholder (n := 0)).composed

theorem output (newline : Bool) : Composed (Grammar.output newline) :=
  (Plan.output (n := 0) newline).composed

theorem input : Composed Grammar.input := (Plan.input (n := 0)).composed

section

variable {expression factor : Rule Expr} {conditional : Rule Conditional} {block : Rule Block}

theorem arguments (hexpression : Composed expression) : Composed (Grammar.arguments expression) :=
  (Plan.arguments (n := 0) (.given hexpression)).composed

theorem factorRule (hfactor : Composed factor) (hexpression : Composed expression) :
    Composed (Grammar.factorRule factor expression) :=
  (Plan.factorRule (n := 0) (.given hfactor) (.given hexpression)).composed

theorem binaryRule {operand : Nat → Rule Expr} (hfactor : Composed factor)
    (hoperand : ∀ least, Composed (operand least)) (least : Nat) :
    Composed (Grammar.binaryRule factor operand least) :=
  (Plan.binaryRule (n := 0) (.given hfactor) (fun _ => .given (hoperand _)) least).composed

theorem declarator (hexpression : Composed expression) (type : DataType) :
    Composed (Grammar.declarator expression type) :=
  (Plan.declarator (n := 0) (.given hexpression) type).composed

theorem declaration (hexpression : Composed expression) (terminated : Bool) (type : DataType) :
    Composed (Grammar.declaration expression terminated type) :=
  (Plan.declaration (n := 0) (.given hexpression) terminated type).composed

theorem assignment (hexpression : Composed expression) :
    Composed (Grammar.assignment expression) :=
  (Plan.assignment (n := 0) (.given hexpression)).composed

theorem simple (hexpression : Composed expression) : Composed (Grammar.simple expression) :=
  (Plan.simple (n := 0) (.given hexpression)).composed

theorem update (hexpression : Composed expression) : Composed (Grammar.update expression) :=
  (Plan.update (n := 0) (.given hexpression)).composed

theorem forInit (hexpression : Composed expression) : Composed (Grammar.forInit expression) :=
  (Plan.forInit (n := 0) (.given hexpression)).composed

theorem whileLoop (hexpression : Composed expression) (hblock : Composed block) :
    Composed (Grammar.whileLoop expression block) :=
  (Plan.whileLoop (n := 0) (.given hexpression) (.given hblock)).composed

theorem forLoop (hexpression : Composed expression) (hblock : Composed block) :
    Composed (Grammar.forLoop expression block) :=
  (Plan.forLoop (n := 0) (.given hexpression) (.given hblock)).composed

theorem repeatLoop (hexpression : Composed expression) (hblock : Composed block) :
    Composed (Grammar.repeatLoop expression block) :=
  (Plan.repeatLoop (n := 0) (.given hexpression) (.given hblock)).composed

theorem statementRule (hexpression : Composed expression) (hconditional : Composed conditional)
    (hblock : Composed block) : Composed (Grammar.statementRule expression conditional block) :=
  (Plan.statementRule (n := 0) (.given hexpression) (.given hconditional) (.given hblock)).composed

theorem otherwiseRule (hconditional : Composed conditional) (hblock : Composed block) :
    Composed (Grammar.otherwiseRule conditional block) :=
  (Plan.otherwiseRule (n := 0) (.given hconditional) (.given hblock)).composed

theorem conditionalRule (hexpression : Composed expression) (hconditional : Composed conditional)
    (hblock : Composed block) :
    Composed (Grammar.conditionalRule expression conditional block) :=
  (Plan.conditionalRule (n := 0) (.given hexpression) (.given hconditional) (.given hblock)).composed

/-- Blocks of any statements; plans know only those of the grammar. -/
theorem blockRule {statement : Rule Statement} (hstatement : Composed statement) :
    Composed (Grammar.blockRule statement) :=
  .bind (.mark _ _) fun _ => .bind (.many fun _ => .recovering hstatement) fun _ =>
    .bind (.mark _ _) fun _ => .bind (.spanSince _) fun _ => .pure _

end

theorem expression (n : Nat) : Composed (Grammar.expression n) := (Plan.expression n).composed

theorem statement (n : Nat) : Composed (Grammar.statement n) := (Plan.parts n).statement.composed

theorem conditional (n : Nat) : Composed (Grammar.conditional n) :=
  (Plan.parts n).conditional.composed

theorem block (n : Nat) : Composed (Grammar.block n) := (Plan.parts n).block.composed

theorem program : Composed Grammar.program := Plan.program.composed

end Composed

private theorem fails_unexpected_iff {α : Type} {x : Expectation} {c d : Cursor} {e : ParseError}
    {es : List ParseError} :
    (unexpected x : Rule α).Fails c e d es ↔
      e = .unexpectedToken x.text c.peek.describe c.peek.span ∧ d = c ∧ es = [] := by
  rw [Rule.Fails, eq_comm]
  simp [unexpected, bind, Rule.bind, peek, fail]

/-- Where no level is left a rule fails at once, at the current token. -/
theorem fails_tooDeep_iff {α : Type} {c d : Cursor} {e : ParseError} {es : List ParseError} :
    (tooDeep : Rule α).Fails c e d es ↔
      e = .nestingTooDeep maxNesting c.peek.span ∧ d = c ∧ es = [] := by
  rw [Rule.Fails, eq_comm]
  simp [tooDeep, bind, Rule.bind, peek, fail]

/-- A closing parenthesis that is missing is reported at the token in its place. -/
theorem fails_closeParenthesis_iff {c d : Cursor} {e : ParseError} {es : List ParseError} :
    closeParenthesis.Fails c e d es ↔
      c.peek.kind ≠ .punctuation .rParen ∧ e = .missingClosingParenthesis c.peek.span ∧ d = c ∧
        es = [] := by
  rw [Rule.Fails, eq_comm]
  by_cases hclose : c.peek.kind = .punctuation .rParen
  · simp [closeParenthesis, bind, Rule.bind, pure, Rule.pure, peek, advance, TokenKind.isPunctuation, hclose]
  · simp [closeParenthesis, bind, Rule.bind, peek, fail, TokenKind.isPunctuation, hclose]

/-- What holds from the start of each single run to its end holds from the start of the first to the
    end of the last. -/
theorem rel_many {α β : Type} {next? : Token → Option β} {item : β → Rule α}
    {rel : Cursor → Cursor → Prop} (hrefl : ∀ c, rel c c)
    (htrans : ∀ {c d e}, rel c d → rel d e → rel c e)
    (hitem : ∀ b (c : Cursor), next? c.peek = some b → rel c (item b c).cursor) (c : Cursor) :
    rel c (many next? item c).cursor := by
  rw [many]
  cases hnext : next? c.peek with
  | none => exact hrefl c
  | some b =>
    have hfirst := hitem b c hnext
    cases hresult : (item b c).result with
    | error e => simpa only [hresult] using hfirst
    | ok a =>
      by_cases hless : (item b c).cursor.remaining < c.remaining
      · have hrest := rel_many hrefl htrans hitem (item b c).cursor
        simpa only [hresult, if_pos hless] using htrans hfirst hrest
      · simpa only [hresult, if_neg hless] using hfirst
termination_by c.remaining

/-- What is run again and again fails only because one of the runs does, the first one that
    fails. -/
theorem exists_fails_of_many {α β : Type} {next? : Token → Option β} {item : β → Rule α}
    {rel : Cursor → Cursor → Prop} (hrefl : ∀ c, rel c c)
    (htrans : ∀ {c d e}, rel c d → rel d e → rel c e)
    (hitem : ∀ b (c : Cursor), next? c.peek = some b → rel c (item b c).cursor) {c d : Cursor}
    {e : ParseError} {es : List ParseError} (hfails : (many next? item).Fails c e d es) :
    ∃ b c' es', next? c'.peek = some b ∧ rel c c' ∧ (item b).Fails c' e d es' := by
  rw [Rule.Fails, many] at hfails
  cases hnext : next? c.peek with
  | none => simp [hnext] at hfails
  | some b =>
    cases hresult : (item b c).result with
    | error e' =>
      simp only [hnext, hresult, Reply.mk.injEq, Except.error.injEq] at hfails
      obtain ⟨rfl, rfl, rfl⟩ := hfails
      exact ⟨b, c, _, hnext, hrefl c, Rule.fails_of_result hresult⟩
    | ok a =>
      simp only [hnext, hresult] at hfails
      by_cases hless : (item b c).cursor.remaining < c.remaining
      · simp only [if_pos hless, Reply.mk.injEq] at hfails
        obtain ⟨hrest, rfl, rfl⟩ := hfails
        cases hmany : (many next? item (item b c).cursor).result with
        | ok as => simp [hmany, Except.map] at hrest
        | error e' =>
          simp only [hmany, Except.map, Except.error.injEq] at hrest
          subst hrest
          obtain ⟨b', c', es', hnext', hrel, hfails⟩ :=
            exists_fails_of_many hrefl htrans hitem (Rule.fails_of_result hmany)
          exact ⟨b', c', es', hnext', htrans (hitem b c hnext) hrel, hfails⟩
      · simp [if_neg hless] at hfails
termination_by c.remaining

private theorem exists_reads_many {α β : Type} {next? : Token → Option β} {item : β → Rule α}
    (hitem : ∀ b (c : Cursor), ∃ used, c.Reads used (item b c).cursor) (c : Cursor) :
    ∃ used, c.Reads used (many next? item c).cursor := by
  refine @rel_many _ _ _ _ (fun c d => ∃ used, c.Reads used d) (fun c => ⟨[], .refl c⟩) ?_
    (fun b c _ => hitem b c) c
  rintro c d e ⟨used, hused⟩ ⟨more, hmore⟩
  exact ⟨used ++ more, hused.trans hmore⟩

private theorem exists_reads_recovering {statement : Rule Statement}
    (hstatement : ∀ c : Cursor, ∃ used, c.Reads used (statement c).cursor) (c : Cursor) :
    ∃ used, c.Reads used (recovering statement c).cursor := by
  obtain ⟨used, hused⟩ := hstatement c
  rw [recovering]
  split
  · exact ⟨used, hused⟩
  · obtain ⟨more, hmore⟩ := Cursor.exists_reads_resume
      ((statement c).cursor.remaining == c.remaining) (statement c).cursor
    exact ⟨used ++ more, hused.trans hmore⟩

/-- A rule only moves forward, over tokens that it consumes, whether it succeeds or fails. -/
theorem Composed.exists_reads {α : Type} {r : Rule α} (hr : Composed r) (c : Cursor) :
    ∃ used, c.Reads used (r c).cursor := by
  induction hr generalizing c with
  | @bind α β r f _ _ ihfirst ihrest =>
    obtain ⟨used, hused⟩ := ihfirst c
    cases hresult : (r c).result with
    | error e =>
      rw [Rule.bind_apply_error hresult]
      exact ⟨used, hused⟩
    | ok a =>
      obtain ⟨more, hmore⟩ := ihrest a (r c).cursor
      rw [Rule.bind_apply_ok hresult]
      exact ⟨used ++ more, hused.trans hmore⟩
  | advance => exact c.exists_reads_advance
  | closeParenthesis =>
    obtain ⟨s, d, es, hreturns⟩ | ⟨e, d, es, hfails⟩ :=
      Rule.returns_or_fails Grammar.closeParenthesis c
    · obtain ⟨_, _, rfl, _⟩ := returns_closeParenthesis_iff.1 hreturns
      rw [hreturns]
      exact c.exists_reads_advance
    · obtain ⟨_, _, rfl, _⟩ := fails_closeParenthesis_iff.1 hfails
      rw [hfails]
      exact ⟨[], .refl d⟩
  | many _ ih => exact exists_reads_many ih c
  | recovering _ ih => exact exists_reads_recovering ih c
  | _ => exact ⟨[], .refl c⟩

/-- What a rule consumes stands between where it starts and where it stops. -/
theorem Composed.exists_reads_of_returns {α : Type} {r : Rule α} (hr : Composed r) {c d : Cursor}
    {a : α} {es : List ParseError} (hreturns : r.Returns c a d es) : ∃ used, c.Reads used d := by
  have hreads := hr.exists_reads c
  rwa [hreturns] at hreads

/-- What makes a rule fail is an error at the token where the rule stopped. -/
theorem Composed.error_at_peek {α : Type} {r : Rule α} (hr : Composed r) {c d : Cursor}
    {e : ParseError} {es : List ParseError} (hfails : r.Fails c e d es) :
    e.isSyntactic = true ∧ e.span? = some d.peek.span := by
  induction hr generalizing c d e es with
  | bind _ _ ihfirst ihrest =>
    obtain hfirst | ⟨a, c', es₁, es₂, _, hrest, rfl⟩ := Rule.fails_bind_iff.1 hfails
    · exact ihfirst hfirst
    · exact ihrest a hrest
  | unexpected x =>
    obtain ⟨rfl, rfl, rfl⟩ := fails_unexpected_iff.1 hfails
    exact ⟨rfl, rfl⟩
  | closeParenthesis =>
    obtain ⟨_, rfl, rfl, rfl⟩ := fails_closeParenthesis_iff.1 hfails
    exact ⟨rfl, rfl⟩
  | tooDeep =>
    obtain ⟨rfl, rfl, rfl⟩ := fails_tooDeep_iff.1 hfails
    exact ⟨rfl, rfl⟩
  | many _ ih =>
    obtain ⟨b, c', es', _, _, hitem⟩ := @exists_fails_of_many _ _ _ _ (fun _ _ => True)
      (fun _ => trivial) (fun _ _ => trivial) (fun _ _ _ => trivial) _ _ _ _ hfails
    exact ih b hitem
  | @recovering r _ _ =>
    obtain ⟨s, d', es', hreturns⟩ := exists_returns_recovering r c
    rw [Rule.Fails, hreturns] at hfails
    simp at hfails
  | pure => simp [Rule.Fails, Rule.pure_apply] at hfails
  | _ => cases hfails

end GeoLang.Grammar
