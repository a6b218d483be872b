import GeoLang.Proofs.Locality.Closed
import GeoLang.Proofs.Reading.Consumption

namespace GeoLang.Grammar

/-- Where the rule succeeds without an error, it does the same with `tail` behind the text, which it
    may use up. -/
def Rule.Persists {α : Type} (tail : Tail) (r : Rule α) (c : Cursor) : Prop :=
  ∀ a d, r.Returns c a d [] → d.Closed ∧ r.Returns (c.followedBy tail) a (d.followedBy tail) []

/-- The rule fails at the end of a text. -/
def Rule.Demands {α : Type} (r : Rule α) : Prop :=
  ∀ c a d es, r.Returns c a d es → c.peek.kind ≠ .eof

variable {α β : Type} {tail : Tail} {c d : Cursor} {expression : Rule Expr}

/-- A rule demands a token when its first part does. -/
theorem Rule.Demands.bind {r : Rule α} {h : α → Rule β} (hr : r.Demands) : (r >>= h).Demands := by
  intro c b d es hreturns
  obtain ⟨a, c', es₁, es₂, hfirst, _, _⟩ := Rule.returns_bind_iff.1 hreturns
  exact hr c a c' es₁ hfirst

/-- Marks are demanded. -/
theorem demands_mark (p : Punctuation) (x : Expectation) : (mark p x).Demands := by
  intro c s d es hreturns
  obtain ⟨hkind, _⟩ := returns_mark_iff.1 hreturns
  simp [hkind]

private theorem demands_closeParenthesis : closeParenthesis.Demands := by
  intro c s d es hreturns
  obtain ⟨hkind, _⟩ := returns_closeParenthesis_iff.1 hreturns
  simp [hkind]

theorem demands_path : path.Demands := by
  intro c p d es hreturns hkind
  obtain ⟨hname, _⟩ := returns_path_iff.1 hreturns
  rw [hkind] at hname
  cases hname

private theorem demands_expression (n : Nat) : (Grammar.expression n).Demands := by
  have hfactor : ∀ n, (factor n).Demands := by
    intro n c e d es hreturns hkind
    cases n with
    | zero => exact not_returns_tooDeep hreturns
    | succ n =>
      cases returns_factorRule_iff.1 hreturns with
      | unary hop _ _ => simp [hkind] at hop
      | literal hliteral => simp [hkind] at hliteral
      | grouped hopen _ _ => simp [hkind] at hopen
      | reserved hword _ _ => simp [hkind] at hword
      | path hname _ _ => simp [hkind, TokenKind.isName] at hname
  cases n with
  | zero =>
    intro c e d es hreturns
    exact absurd hreturns not_returns_tooDeep
  | succ n => exact (hfactor n).bind

private theorem demands_update : (update expression).Demands := by
  intro c s d es hreturns
  cases returns_update_iff.1 hreturns with
  | before hstep _ =>
    obtain ⟨cls, hkind⟩ := TokenKind.operator?_eq_some_iff.1 (stepAt_eq_some_iff.1 hstep).1
    simp [hkind]
  | assignment _ _ hassignment => exact demands_path.bind c s d es hassignment
  | behind _ _ hoperand _ => exact demands_path c _ _ es hoperand

theorem Rule.returns_bind_nil_iff {r : Rule α} {h : α → Rule β} {b : β} :
    (r >>= h).Returns c b d [] ↔ ∃ a c', r.Returns c a c' [] ∧ (h a).Returns c' b d [] := by
  constructor
  · intro hreturns
    obtain ⟨a, c', es₁, es₂, hfirst, hsecond, hnil⟩ := Rule.returns_bind_iff.1 hreturns
    obtain ⟨rfl, rfl⟩ := List.append_eq_nil_iff.1 hnil.symm
    exact ⟨a, c', hfirst, hsecond⟩
  · rintro ⟨a, c', hfirst, hsecond⟩
    exact hfirst.bind_iff.2 hsecond

namespace Rule.Persists

/-- A rule that stays inside the text persists. -/
theorem of_stays {r : Rule α} (hr : r.Stays c) : r.Persists tail c := by
  intro a d hreturns
  have hahead := hr.ahead
  have hfollowed := hr.followed tail
  rw [hreturns] at hahead hfollowed
  exact ⟨hahead.toClosed, hfollowed⟩

/-- A rule that demands a token fails at the end of a closed text, so it has to persist only ahead
    of it. -/
theorem of_demands {r : Rule α} (hdemands : r.Demands) (hc : c.Closed)
    (hr : c.Ahead → r.Persists tail c) : r.Persists tail c := by
  intro a d hreturns
  exact hr (hc.ahead_of_peek (hdemands c a d [] hreturns)) a d hreturns

theorem pure (hc : c.Closed) (a : α) : (pure a : Rule α).Persists tail c := by
  intro b d hreturns
  obtain ⟨rfl, rfl, _⟩ := Rule.returns_pure_iff.1 hreturns
  exact ⟨hc, rfl⟩

theorem tooDeep : (Grammar.tooDeep : Rule α).Persists tail c := by
  intro a d hreturns
  exact absurd hreturns not_returns_tooDeep

/-- Rules in turn persist when their parts do. -/
theorem bind {r : Rule α} {h : α → Rule β} (hr : r.Persists tail c)
    (hrest : ∀ a d, d.Closed → (h a).Persists tail d) : (r >>= h).Persists tail c := by
  intro b d hreturns
  obtain ⟨a, c', hfirst, hsecond⟩ := returns_bind_nil_iff.1 hreturns
  obtain ⟨hc', hfirst'⟩ := hr a c' hfirst
  obtain ⟨hd, hsecond'⟩ := hrest a c' hc' b d hsecond
  exact ⟨hd, returns_bind_nil_iff.2 ⟨a, _, hfirst', hsecond'⟩⟩

/-- Behind a part that does not reach the end there is still a token to look at. -/
theorem stays_bind {r : Rule α} {h : α → Rule β} (hr : r.Stays c)
    (hrest : ∀ a d, d.Ahead → (h a).Persists tail d) : (r >>= h).Persists tail c := by
  intro b d hreturns
  obtain ⟨a, c', hfirst, hsecond⟩ := returns_bind_nil_iff.1 hreturns
  have hahead := hr.ahead
  have hfollowed := hr.followed tail
  rw [hfirst] at hahead hfollowed
  obtain ⟨hd, hsecond'⟩ := hrest a c' hahead b d hsecond
  exact ⟨hd, returns_bind_nil_iff.2 ⟨a, _, hfollowed, hsecond'⟩⟩

theorem peek_bind {h : Token → Rule β} (hc : c.Ahead) (hrest : (h c.peek).Persists tail c) :
    (Grammar.peek >>= h).Persists tail c := by
  intro b d hreturns
  obtain ⟨hd, hfollowed⟩ := hrest b d (returns_peek_bind_iff.1 hreturns)
  refine ⟨hd, returns_peek_bind_iff.2 ?_⟩
  rwa [Cursor.peek_followedBy hc.ne_nil]

theorem spanSince_bind {start : Span} {h : Span → Rule β} (hrest : ∀ s, (h s).Persists tail c) :
    (Grammar.spanSince start >>= h).Persists tail c :=
  fun b d hreturns => hrest (c.spanSince start) b d hreturns

theorem advance (hc : c.Ahead) : Grammar.advance.Persists tail c := by
  intro u d hreturns
  obtain ⟨rfl, _⟩ := returns_advance_iff.1 hreturns
  refine ⟨hc.toClosed.advance, returns_advance_iff.2 ⟨?_, rfl⟩⟩
  rw [Cursor.advance_followedBy hc.ne_nil]

/-- A step over a token that closes nothing leaves the text going on. -/
theorem advance_bind {h : Unit → Rule β} (hc : c.Ahead) (hpeek : c.peek.kind.closes = false)
    (hrest : c.advance.Ahead → (h ()).Persists tail c.advance) :
    (Grammar.advance >>= h).Persists tail c := by
  intro b d hreturns
  obtain ⟨hd, hfollowed⟩ := hrest (hc.advance hpeek) b d (returns_advance_bind_iff.1 hreturns)
  refine ⟨hd, returns_advance_bind_iff.2 ?_⟩
  rwa [Cursor.advance_followedBy hc.ne_nil]

end Rule.Persists

open Rule (Persists)

/-- Items that persist are run as before up to where the loop stops, and from there on there may be
    more. -/
theorem Repeats.followedBy {next? : Token → Option β} {item : β → Rule α}
    (hitem : ∀ b c, c.Ahead → next? c.peek = some b → (item b).Persists tail c)
    (hconsumes : ∀ b, (item b).Consumes) (hend : ∀ t, t.kind = .eof → next? t = none)
    {as others : List α} {e : Cursor} {es fs : List ParseError}
    (hrepeats : Repeats next? item c as d es) (hquiet : es = []) (hc : c.Closed) :
    d.Closed ∧ next? d.peek = none ∧ (Repeats next? item (d.followedBy tail) others e fs →
      Repeats next? item (c.followedBy tail) (as ++ others) e fs) := by
  induction hrepeats with
  | stop hnext => exact ⟨hc, hnext, id⟩
  | stuck hnext hreturns hstays =>
    have hc := hc.ahead_of_next hend hnext
    exact absurd (hconsumes _ _ _ _ _ hc.remaining_pos hreturns) hstays
  | @more c c' d b a as es₁ es₂ hnext hreturns hless _ ih =>
    obtain ⟨rfl, rfl⟩ := List.append_eq_nil_iff.1 hquiet
    have hc := hc.ahead_of_next hend hnext
    obtain ⟨hc', hfollowed⟩ := hitem b c hc hnext a c' hreturns
    obtain ⟨hd, hnone, hmore⟩ := ih rfl hc'
    refine ⟨hd, hnone, fun hothers => ?_⟩
    have hnext' : next? (c.followedBy tail).peek = some b := by
      rwa [Cursor.peek_followedBy hc.ne_nil]
    exact .more hnext' hfollowed ((Cursor.remaining_followedBy_lt_iff tail).2 hless) (hmore hothers)

/-- A loop stops in front of a token that what comes behind it needs. -/
theorem Rule.Persists.many_bind {next? : Token → Option β} {item : β → Rule α} {γ : Type}
    {h : List α → Rule γ} (hitem : ∀ b c, c.Ahead → next? c.peek = some b → (item b).Persists tail c)
    (hconsumes : ∀ b, (item b).Consumes) (hend : ∀ t, t.kind = .eof → next? t = none)
    (hdemands : ∀ as, (h as).Demands) (hrest : ∀ as d, d.Ahead → (h as).Persists tail d)
    (hc : c.Closed) : (many next? item >>= h).Persists tail c := by
  intro b d hreturns
  obtain ⟨as, c', hmany, hsecond⟩ := Rule.returns_bind_nil_iff.1 hreturns
  obtain ⟨hc', hnone, hmore⟩ :=
    (returns_many_iff.1 hmany).followedBy hitem hconsumes hend rfl hc
  have hahead := hc'.ahead_of_peek (hdemands as c' b d [] hsecond)
  have hstop : Repeats next? item (c'.followedBy tail) [] (c'.followedBy tail) [] :=
    .stop (by rwa [Cursor.peek_followedBy hahead.ne_nil])
  have hfirst := returns_many_iff.2 (hmore hstop)
  rw [List.append_nil] at hfirst
  obtain ⟨hd, hfollowed⟩ := hrest as c' hahead b d hsecond
  exact ⟨hd, Rule.returns_bind_nil_iff.2 ⟨as, _, hfirst, hfollowed⟩⟩

/-- A mark may be the last token of the text. -/
theorem persists_mark (p : Punctuation) (x : Expectation) (hc : c.Closed) :
    (mark p x).Persists tail c := by
  refine .of_demands (demands_mark p x) hc fun hc => .peek_bind hc ?_
  split
  · exact .bind (.advance hc) fun _ d hd => .pure hd _
  · exact .of_stays (.unexpected hc x)

private theorem persists_placeholder (hc : c.Ahead) (hopen : c.peek.kind = .punctuation .lCurly) :
    placeholder.Persists tail c := by
  refine .advance_bind hc (by rw [hopen]; rfl) fun hc => ?_
  refine .stays_bind (stays_path hc) fun _ d hd => ?_
  exact .bind (persists_mark _ _ hd.toClosed) fun _ d hd => .pure hd _

private theorem consumes_placeholder : placeholder.Consumes := by
  intro c p d es hc hreturns
  obtain ⟨c', hpath, _, rfl⟩ := returns_placeholder_iff.1 hreturns
  have hle := Composed.path.remaining_le hpath
  rw [Cursor.remaining_advance] at hle ⊢
  omega

/-- Whatever follows, an output statement ends with its semicolon. -/
theorem persists_output {newline : Bool} (hc : c.Ahead) (hpeek : c.peek.kind.closes = false) :
    (output newline).Persists tail c := by
  refine .peek_bind hc (.advance_bind hc hpeek fun hc => ?_)
  refine .stays_bind (stays_mark rfl _ hc) fun _ c hc => ?_
  refine .stays_bind (stays_template hc) fun _ c hc => ?_
  refine .many_bind (fun _ c hc hnext => persists_placeholder hc (markAt_eq_some_iff.1 hnext))
    (fun _ => consumes_placeholder) (fun t ht => ?_) (fun _ => demands_closeParenthesis.bind)
    (fun _ c hc => ?_) hc.toClosed
  · rw [markAt, ht]
    rfl
  · refine .stays_bind (stays_closeParenthesis hc) fun _ c hc => ?_
    refine .bind (persists_mark _ _ hc.toClosed) fun _ c hc => ?_
    exact .spanSince_bind fun _ => .pure hc _

private theorem persists_input (hc : c.Ahead) : input.Persists tail c := by
  refine .stays_bind (stays_keyword _ hc) fun _ c hc => ?_
  refine .stays_bind (stays_mark rfl _ hc) fun _ c hc => ?_
  refine .stays_bind (stays_closeParenthesis hc) fun _ c hc => ?_
  refine .bind (persists_mark _ _ hc.toClosed) fun _ c hc => ?_
  exact .spanSince_bind fun _ => .pure hc _

section

variable (hexpression : ∀ c : Cursor, c.Ahead → expression.Stays c)

include hexpression

private theorem persists_declaration {type : DataType} (hc : c.Ahead)
    (htype : c.peek.kind = .dataType type) :
    (declaration expression true type).Persists tail c := by
  refine .peek_bind hc (.advance_bind hc (by rw [htype]; rfl) fun hc => ?_)
  refine .stays_bind (stays_declarator hexpression type hc) fun _ c hc => ?_
  refine .stays_bind (stays_many_led rfl (fun _ => stays_declarator hexpression type) hc)
    fun _ c hc => ?_
  have hterminator : (optionalTerminator true).Persists tail c := by
    refine .peek_bind hc ?_
    split
    · exact .advance hc
    · exact .pure hc.toClosed ()
  exact .bind hterminator fun _ c hc => .spanSince_bind fun _ => .pure hc _

private theorem persists_terminatedSimple (hc : c.Ahead) :
    (terminatedSimple expression).Persists tail c := by
  refine .stays_bind (stays_simple hexpression hc) fun _ c hc => ?_
  exact .bind (persists_mark _ _ hc.toClosed) fun _ c hc => .pure hc _

variable {conditional : Rule Conditional} {block : Rule Block}
  (hconditional : ∀ c : Cursor, c.Ahead → conditional.Persists tail c)
  (hblock : ∀ c : Cursor, c.Ahead → block.Persists tail c)

include hblock

private theorem persists_whileLoop (hc : c.Ahead) :
    (whileLoop expression block).Persists tail c := by
  refine .stays_bind (stays_keyword _ hc) fun _ c hc => ?_
  refine .stays_bind (stays_mark rfl _ hc) fun _ c hc => ?_
  refine .stays_bind (hexpression c hc) fun _ c hc => ?_
  refine .stays_bind (stays_closeParenthesis hc) fun _ c hc => ?_
  exact .bind (hblock c hc) fun _ c hc => .spanSince_bind fun _ => .pure hc _

/-- The semicolons of the header do not end the text, since something has to come behind them. -/
theorem persists_forLoop (hdemands : expression.Demands) (hc : c.Ahead) :
    (forLoop expression block).Persists tail c := by
  refine .stays_bind (stays_keyword _ hc) fun _ c hc => ?_
  refine .stays_bind (stays_mark rfl _ hc) fun _ c hc => ?_
  refine .stays_bind (stays_forInit hexpression hc) fun _ c hc => ?_
  refine .bind (persists_mark _ _ hc.toClosed) fun _ c hc => ?_
  refine .of_demands hdemands.bind hc fun hc => ?_
  refine .stays_bind (hexpression c hc) fun _ c hc => ?_
  refine .bind (persists_mark _ _ hc.toClosed) fun _ c hc => ?_
  refine .of_demands demands_update.bind hc fun hc => ?_
  refine .stays_bind (stays_update hexpression hc) fun _ c hc => ?_
  refine .stays_bind (stays_closeParenthesis hc) fun _ c hc => ?_
  exact .bind (hblock c hc) fun _ c hc => .spanSince_bind fun _ => .pure hc _

private theorem persists_repeatLoop (hc : c.Ahead) :
    (repeatLoop expression block).Persists tail c := by
  refine .stays_bind (stays_keyword _ hc) fun _ c hc => ?_
  refine .stays_bind (hexpression c hc) fun _ c hc => ?_
  refine .stays_bind (stays_keyword _ hc) fun _ c hc => ?_
  exact .bind (hblock c hc) fun _ c hc => .spanSince_bind fun _ => .pure hc _

include hconditional

omit hexpression in
/-- At the end of the text nothing follows a block, and nothing does where no `else` does. -/
theorem persists_otherwiseRule (helse : tail.peek.kind ≠ .keyword .elseKw) (hc : c.Closed) :
    (otherwiseRule conditional block).Persists tail c := by
  by_cases hnil : c.rest = []
  · -- The block ends the text, so the first token of what follows is looked at.
    intro x d hreturns
    have hpeek : c.peek = c.eof := by rw [Cursor.peek, hnil, List.headD_nil]
    have hnothing : x = .nothing ∧ d = c := by
      simpa [otherwiseRule, hpeek, hc.eof, TokenKind.isKeyword] using hreturns
    obtain ⟨rfl, rfl⟩ := hnothing
    have hfollowed : (d.followedBy tail).peek = tail.peek := by
      rw [Cursor.peek, Cursor.followedBy, hnil, List.nil_append, Tail.peek]
    refine ⟨hc, ?_⟩
    simp [otherwiseRule, hfollowed, helse, TokenKind.isKeyword]
  · have hc : c.Ahead := ⟨hc, hnil⟩
    refine .peek_bind hc ?_
    split
    · next hword =>
      rw [TokenKind.isKeyword, beq_iff_eq] at hword
      refine .advance_bind hc (by rw [hword]; rfl) fun hc => .peek_bind hc ?_
      split
      · exact .bind (hconditional _ hc) fun _ c hc => .pure hc _
      · exact .bind (hblock _ hc) fun _ c hc => .pure hc _
    · exact .pure hc.toClosed _

private theorem persists_conditionalRule (helse : tail.peek.kind ≠ .keyword .elseKw)
    (hc : c.Ahead) :
    (conditionalRule expression conditional block).Persists tail c := by
  refine .stays_bind (stays_keyword _ hc) fun _ c hc => ?_
  refine .stays_bind (stays_mark rfl _ hc) fun _ c hc => ?_
  refine .stays_bind (hexpression c hc) fun _ c hc => ?_
  refine .stays_bind (stays_closeParenthesis hc) fun _ c hc => ?_
  refine .bind (hblock c hc) fun _ c hc => .spanSince_bind fun _ => ?_
  refine .bind (persists_otherwiseRule hconditional hblock helse hc) fun _ c hc => ?_
  exact .spanSince_bind fun _ => .pure hc _

private theorem persists_statementRule (hdemands : expression.Demands) (hc : c.Ahead) :
    (statementRule expression conditional block).Persists tail c := by
  refine .peek_bind hc ?_
  split
  · next htype => exact .bind (persists_declaration hexpression hc htype) fun _ c hc => .pure hc _
  · exact .bind (hconditional c hc) fun _ c hc => .pure hc _
  · exact persists_whileLoop hexpression hblock hc
  · exact persists_forLoop hexpression hblock hdemands hc
  · exact persists_repeatLoop hexpression hblock hc
  · next hword => exact persists_output hc (by rw [hword]; rfl)
  · next hword => exact persists_output hc (by rw [hword]; rfl)
  · exact persists_input hc
  · exact persists_terminatedSimple hexpression hc

end

/-- An attempt without an error has read a statement. -/
theorem persists_recovering {statement : Rule Statement} (hstatement : statement.Persists tail c) :
    (recovering statement).Persists tail c := by
  intro s d hreturns
  obtain ⟨es, hquiet, hattempt⟩ : ∃ es, es = [] ∧ RecoveringReturns statement c s d es :=
    ⟨[], rfl, returns_recovering_iff.1 hreturns⟩
  cases hattempt with
  | read hread =>
    rw [hquiet] at hread
    obtain ⟨hd, hfollowed⟩ := hstatement _ d hread
    exact ⟨hd, returns_recovering_iff.2 (.read hfollowed)⟩
  | skipped _ => exact absurd hquiet (List.append_ne_nil_of_right_ne_nil _ (List.cons_ne_nil _ _))

/-- Every attempt at a statement makes progress, failed or not. -/
theorem consumes_recovering (n : Nat) : (recovering (statement n)).Consumes := by
  intro c s d es hc hreturns
  have hlt := remaining_recovering_lt n hc
  rwa [hreturns] at hlt

private theorem persists_blockRule {n : Nat}
    (hstatement : ∀ c : Cursor, c.Ahead → (statement n).Persists tail c) (hc : c.Ahead) :
    (blockRule (statement n)).Persists tail c := by
  refine .stays_bind (stays_mark rfl _ hc) fun _ c hc => ?_
  refine .many_bind (fun _ c hc _ => persists_recovering (hstatement c hc))
    (fun _ => consumes_recovering n) (fun t ht => insideBlock_eq_none_iff.2 (.inr ht))
    (fun _ => (demands_mark _ _).bind) (fun _ c hc => ?_) hc.toClosed
  exact .bind (persists_mark _ _ hc.toClosed) fun _ c hc => .spanSince_bind fun _ => .pure hc _

/-- Only `else` could carry a statement on into what follows, so this must not begin with it. -/
theorem persists_statement_and_parts (helse : tail.peek.kind ≠ .keyword .elseKw) (n : Nat) :
    (∀ c : Cursor, c.Ahead → (statement n).Persists tail c) ∧
      (∀ c : Cursor, c.Ahead → (conditional n).Persists tail c) ∧
        ∀ c : Cursor, c.Ahead → (block n).Persists tail c := by
  induction n with
  | zero => exact ⟨fun _ _ => .tooDeep, fun _ _ => .tooDeep, fun _ _ => .tooDeep⟩
  | succ n ih =>
    obtain ⟨hstatement, hconditional, hblock⟩ := ih
    have hexpression := stays_expression n
    have hdemands := demands_expression n
    exact ⟨fun _ => persists_statementRule hexpression hconditional hblock hdemands,
      fun _ => persists_conditionalRule hexpression hconditional hblock helse,
      fun _ => persists_blockRule hstatement⟩

end GeoLang.Grammar
