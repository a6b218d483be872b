import GeoLang.Grammar.Program

namespace GeoLang

/-- The class of an operator does not matter. -/
theorem TokenKind.operator?_eq_some_iff {k : TokenKind} {op : Operator} :
    k.operator? = some op ↔ ∃ cls, k = .operator cls op := by
  cases k <;> simp [operator?]

/-- An assignment is an operator with the class of one. -/
theorem TokenKind.assignment?_eq_some_iff {k : TokenKind} {op : Operator} :
    k.assignment? = some op ↔ k = .operator .assignment op := by
  unfold assignment?
  split <;> simp_all

theorem TokenKind.operator?_of_assignment? {k : TokenKind} {op : Operator}
    (hop : k.assignment? = some op) : k.operator? = some op :=
  operator?_eq_some_iff.2 ⟨_, assignment?_eq_some_iff.1 hop⟩

theorem TokenKind.isEof_iff {k : TokenKind} : k.isEof = true ↔ k = .eof := by
  cases k <;> simp [isEof]

namespace Grammar

variable {α β : Type}

namespace Rule

/-- `r` succeeds at `c` with the value `a`, stops at `d`, and notes `es` on the way. -/
def Returns (r : Rule α) (c : Cursor) (a : α) (d : Cursor) (es : List ParseError) : Prop :=
  r c = ⟨.ok a, d, es⟩

/-- A rule that runs on a given cursor succeeds at most once. -/
theorem Returns.unique {r : Rule α} {c d d' : Cursor} {a a' : α} {es es' : List ParseError}
    (hfirst : r.Returns c a d es) (hsecond : r.Returns c a' d' es') :
    a = a' ∧ d = d' ∧ es = es' := by
  have heq := hfirst.symm.trans hsecond
  simpa using heq

theorem returns_of_result {r : Rule α} {c : Cursor} {a : α} (hok : (r c).result = .ok a) :
    r.Returns c a (r c).cursor (r c).errors := by
  simp only [Returns, ← hok]

/-- `r` fails at `c` with the error `e`, stops at `d`, and noted `es` on the way. -/
def Fails (r : Rule α) (c : Cursor) (e : ParseError) (d : Cursor) (es : List ParseError) : Prop :=
  r c = ⟨.error e, d, es⟩

theorem fails_of_result {r : Rule α} {c : Cursor} {e : ParseError}
    (herror : (r c).result = .error e) : r.Fails c e (r c).cursor (r c).errors := by
  simp only [Fails, ← herror]

/-- A rule succeeds or fails, in one way only. -/
theorem returns_or_fails (r : Rule α) (c : Cursor) :
    (∃ a d es, r.Returns c a d es) ∨ ∃ e d es, r.Fails c e d es := by
  cases hresult : (r c).result with
  | ok a => exact .inl ⟨a, _, _, returns_of_result hresult⟩
  | error e => exact .inr ⟨e, _, _, fails_of_result hresult⟩

@[simp] theorem returns_pure_iff {a b : α} {c d : Cursor} {es : List ParseError} :
    (pure a : Rule α).Returns c b d es ↔ b = a ∧ d = c ∧ es = [] := by
  simp only [Returns, pure_apply, Reply.mk.injEq, Except.ok.injEq]
  grind

/-- A sequence succeeds if both of its parts do, the second from where the first stopped. -/
@[simp low] theorem returns_bind_iff {r : Rule α} {f : α → Rule β} {c d : Cursor} {b : β}
    {es : List ParseError} :
    (r >>= f).Returns c b d es ↔
      ∃ a c' es₁ es₂, r.Returns c a c' es₁ ∧ (f a).Returns c' b d es₂ ∧ es = es₁ ++ es₂ := by
  constructor
  · intro hwhole
    cases hr : (r c).result with
    | error e =>
      rw [Returns, bind_apply_error hr] at hwhole
      simp at hwhole
    | ok a =>
      rw [Returns, bind_apply_ok hr] at hwhole
      simp only [Reply.mk.injEq] at hwhole
      obtain ⟨hresult, hcursor, herrors⟩ := hwhole
      refine ⟨a, (r c).cursor, (r c).errors, _, returns_of_result hr, ?_, herrors.symm⟩
      rw [← hcursor]
      exact returns_of_result hresult
  · rintro ⟨a, c', es₁, es₂, hfirst, hsecond, rfl⟩
    have hr : (r c).result = .ok a := by rw [hfirst]
    rw [Returns, bind_apply_ok hr, hfirst, hsecond]

/-- A sequence fails if its first part does, or if its second part does from where the first
    stopped. -/
theorem fails_bind_iff {r : Rule α} {f : α → Rule β} {c d : Cursor} {e : ParseError}
    {es : List ParseError} :
    (r >>= f).Fails c e d es ↔ r.Fails c e d es ∨
      ∃ a c' es₁ es₂, r.Returns c a c' es₁ ∧ (f a).Fails c' e d es₂ ∧ es = es₁ ++ es₂ := by
  constructor
  · intro hwhole
    cases hr : (r c).result with
    | error e' =>
      rw [Fails, bind_apply_error hr] at hwhole
      simp only [Reply.mk.injEq, Except.error.injEq] at hwhole
      obtain ⟨rfl, rfl, rfl⟩ := hwhole
      exact .inl (fails_of_result hr)
    | ok a =>
      rw [Fails, bind_apply_ok hr] at hwhole
      simp only [Reply.mk.injEq] at hwhole
      obtain ⟨hresult, hcursor, herrors⟩ := hwhole
      refine .inr ⟨a, (r c).cursor, (r c).errors, _, returns_of_result hr, ?_, herrors.symm⟩
      rw [← hcursor]
      exact fails_of_result hresult
  · rintro (hfirst | ⟨a, c', es₁, es₂, hfirst, hsecond, rfl⟩)
    · have hr : (r c).result = .error e := by rw [hfirst]
      rw [Fails, bind_apply_error hr, hfirst]
    · have hr : (r c).result = .ok a := by rw [hfirst]
      rw [Fails, bind_apply_ok hr, hfirst, hsecond]

end Rule

/-- None of the errors is one that makes a rule fail. -/
def Clean (es : List ParseError) : Prop := ∀ e ∈ es, e.isSyntactic = false

instance (es : List ParseError) : Decidable (Clean es) :=
  inferInstanceAs (Decidable (∀ e ∈ es, e.isSyntactic = false))

/-- Nothing in two lists makes a rule fail if nothing in either does. -/
theorem Clean.append_iff {es fs : List ParseError} : Clean (es ++ fs) ↔ Clean es ∧ Clean fs :=
  List.forall_mem_append

/-- What comes behind a part that notes nothing runs from where that part stops. -/
theorem Rule.Returns.bind_iff {r : Rule α} {f : α → Rule β} {c c' d : Cursor} {a : α} {b : β}
    {es : List ParseError} (hfirst : r.Returns c a c' []) :
    (r >>= f).Returns c b d es ↔ (f a).Returns c' b d es := by
  rw [Rule.returns_bind_iff]
  constructor
  · rintro ⟨a', d', es₁, es₂, hfirst', hsecond, rfl⟩
    obtain ⟨rfl, rfl, rfl⟩ := hfirst.unique hfirst'
    exact hsecond
  · intro hsecond
    exact ⟨a, c', [], es, hfirst, hsecond, rfl⟩

/-- Looking at the text consumes nothing and notes nothing. -/
@[simp] theorem returns_peek_bind_iff {f : Token → Rule β} {c d : Cursor} {b : β}
    {es : List ParseError} : (peek >>= f).Returns c b d es ↔ (f c.peek).Returns c b d es :=
  Rule.Returns.bind_iff rfl

@[simp] theorem returns_peekSecond_bind_iff {f : Token → Rule β} {c d : Cursor} {b : β}
    {es : List ParseError} :
    (peekSecond >>= f).Returns c b d es ↔ (f c.second).Returns c b d es :=
  Rule.Returns.bind_iff rfl

@[simp] theorem returns_atAssignment_bind_iff {f : Bool → Rule β} {c d : Cursor} {b : β}
    {es : List ParseError} :
    (atAssignment >>= f).Returns c b d es ↔ (f (assignsPath c.rest)).Returns c b d es :=
  Rule.Returns.bind_iff rfl

@[simp] theorem returns_spanSince_bind_iff {f : Span → Rule β} {start : Span} {c d : Cursor} {b : β}
    {es : List ParseError} :
    (spanSince start >>= f).Returns c b d es ↔ (f (c.spanSince start)).Returns c b d es :=
  Rule.Returns.bind_iff rfl

@[simp] theorem returns_advance_iff {c d : Cursor} {u : Unit} {es : List ParseError} :
    advance.Returns c u d es ↔ d = c.advance ∧ es = [] := by
  simp only [Rule.Returns, advance, Reply.mk.injEq, true_and]
  grind

@[simp] theorem returns_advance_bind_iff {f : Unit → Rule β} {c d : Cursor} {b : β}
    {es : List ParseError} :
    (advance >>= f).Returns c b d es ↔ (f ()).Returns c.advance b d es :=
  Rule.Returns.bind_iff rfl

@[simp] theorem returns_note_iff {e : ParseError} {c d : Cursor} {u : Unit}
    {es : List ParseError} : (note e).Returns c u d es ↔ d = c ∧ es = [e] := by
  simp only [Rule.Returns, note, Reply.mk.injEq, true_and]
  grind

/-- What fails does not succeed. -/
@[simp] theorem not_returns_fail {e : ParseError} {c d : Cursor} {a : α} {es : List ParseError} :
    ¬ (fail e : Rule α).Returns c a d es := by
  simp [Rule.Returns, fail]

@[simp] theorem not_returns_unexpected {x : Expectation} {c d : Cursor} {a : α}
    {es : List ParseError} : ¬ (unexpected x : Rule α).Returns c a d es := by
  simp [unexpected]

@[simp] theorem not_returns_tooDeep {c d : Cursor} {a : α} {es : List ParseError} :
    ¬ (tooDeep : Rule α).Returns c a d es := by
  simp [tooDeep]

/-- A keyword is one token, which gives its span. -/
@[simp] theorem returns_keyword_iff {word : Keyword} {c d : Cursor} {s : Span}
    {es : List ParseError} :
    (keyword word).Returns c s d es ↔
      c.peek.kind = .keyword word ∧ s = c.peek.span ∧ d = c.advance ∧ es = [] := by
  simp only [keyword, returns_peek_bind_iff, TokenKind.isKeyword, beq_iff_eq]
  split <;> simp [*]

/-- So is a mark. -/
@[simp] theorem returns_mark_iff {p : Punctuation} {x : Expectation} {c d : Cursor} {s : Span}
    {es : List ParseError} :
    (mark p x).Returns c s d es ↔
      c.peek.kind = .punctuation p ∧ s = c.peek.span ∧ d = c.advance ∧ es = [] := by
  simp only [mark, returns_peek_bind_iff, TokenKind.isPunctuation, beq_iff_eq]
  split <;> simp [*]

@[simp] theorem returns_closeParenthesis_iff {c d : Cursor} {s : Span} {es : List ParseError} :
    closeParenthesis.Returns c s d es ↔
      c.peek.kind = .punctuation .rParen ∧ s = c.peek.span ∧ d = c.advance ∧ es = [] := by
  simp only [closeParenthesis, returns_peek_bind_iff, TokenKind.isPunctuation, beq_iff_eq]
  split <;> simp [*]

/-- A first part that succeeds in one way only can be taken out of a sequence. -/
theorem Rule.returns_bind_iff_of_first {r : Rule α} {f : α → Rule β} {c c' d : Cursor} {a : α} {b : β}
    {es : List ParseError} {P : Prop}
    (hfirst : ∀ a' d' es', r.Returns c a' d' es' ↔ P ∧ a' = a ∧ d' = c' ∧ es' = []) :
    (r >>= f).Returns c b d es ↔ P ∧ (f a).Returns c' b d es := by
  constructor
  · intro hwhole
    obtain ⟨a', d', es₁, es₂, hr, hf, rfl⟩ := Rule.returns_bind_iff.1 hwhole
    obtain ⟨hp, rfl, rfl, rfl⟩ := (hfirst a' d' es₁).1 hr
    exact ⟨hp, hf⟩
  · rintro ⟨hp, hf⟩
    exact (Rule.Returns.bind_iff ((hfirst a c' []).2 ⟨hp, rfl, rfl, rfl⟩)).2 hf

@[simp] theorem returns_keyword_bind_iff {word : Keyword} {f : Span → Rule β} {c d : Cursor} {b : β}
    {es : List ParseError} :
    (keyword word >>= f).Returns c b d es ↔
      c.peek.kind = .keyword word ∧ (f c.peek.span).Returns c.advance b d es :=
  Rule.returns_bind_iff_of_first fun _ _ _ => returns_keyword_iff

@[simp] theorem returns_mark_bind_iff {p : Punctuation} {x : Expectation} {f : Span → Rule β}
    {c d : Cursor} {b : β} {es : List ParseError} :
    (mark p x >>= f).Returns c b d es ↔
      c.peek.kind = .punctuation p ∧ (f c.peek.span).Returns c.advance b d es :=
  Rule.returns_bind_iff_of_first fun _ _ _ => returns_mark_iff

@[simp] theorem returns_closeParenthesis_bind_iff {f : Span → Rule β} {c d : Cursor} {b : β}
    {es : List ParseError} :
    (closeParenthesis >>= f).Returns c b d es ↔
      c.peek.kind = .punctuation .rParen ∧ (f c.peek.span).Returns c.advance b d es :=
  Rule.returns_bind_iff_of_first fun _ _ _ => returns_closeParenthesis_iff

theorem markAt_eq_some_iff {p : Punctuation} {t : Token} {u : Unit} :
    markAt p t = some u ↔ t.kind = .punctuation p := by
  simp [markAt, TokenKind.isPunctuation]

/-- The statements of a program end with the text. -/
theorem insideProgram_eq_none_iff {t : Token} : insideProgram t = none ↔ t.kind = .eof := by
  simp [insideProgram, TokenKind.isEof_iff]

theorem insideProgram_eq_some_iff {t : Token} {u : Unit} :
    insideProgram t = some u ↔ t.kind ≠ .eof := by
  simp [insideProgram, TokenKind.isEof_iff]

/-- Those of a block end with a closing brace, too. -/
theorem insideBlock_eq_none_iff {t : Token} :
    insideBlock t = none ↔ t.kind = .punctuation .rCurly ∨ t.kind = .eof := by
  simp [insideBlock, TokenKind.isPunctuation, TokenKind.isEof_iff, Decidable.or_iff_not_imp_left]

theorem insideBlock_eq_some_iff {t : Token} {u : Unit} :
    insideBlock t = some u ↔ t.kind ≠ .punctuation .rCurly ∧ t.kind ≠ .eof := by
  simp [insideBlock, TokenKind.isPunctuation, TokenKind.isEof_iff]

/-- How `many` succeeds: item after item, up to a token on which no item is run. A run of the item
    that consumes no token is the last one. -/
inductive Repeats (next? : Token → Option β) (item : β → Rule α) :
    Cursor → List α → Cursor → List ParseError → Prop where
  | stop {c : Cursor} (hnext : next? c.peek = none) : Repeats next? item c [] c []
  | stuck {c d : Cursor} {b : β} {a : α} {es : List ParseError} (hnext : next? c.peek = some b)
      (hitem : (item b).Returns c a d es) (hstays : ¬ d.remaining < c.remaining) :
      Repeats next? item c [a] d es
  | more {c c' d : Cursor} {b : β} {a : α} {as : List α} {es₁ es₂ : List ParseError}
      (hnext : next? c.peek = some b) (hitem : (item b).Returns c a c' es₁)
      (hless : c'.remaining < c.remaining) (hrest : Repeats next? item c' as d es₂) :
      Repeats next? item c (a :: as) d (es₁ ++ es₂)

theorem Repeats.of_returns {next? : Token → Option β} {item : β → Rule α} {c d : Cursor} {as : List α}
    {es : List ParseError} (hmany : (many next? item).Returns c as d es) :
    Repeats next? item c as d es := by
  rw [Rule.Returns, many] at hmany
  cases hnext : next? c.peek with
  | none =>
    simp only [hnext, Reply.mk.injEq, Except.ok.injEq] at hmany
    obtain ⟨rfl, rfl, rfl⟩ := hmany
    exact .stop hnext
  | some b =>
    cases hok : (item b c).result with
    | error e => simp [hnext, hok] at hmany
    | ok a =>
      have hitem := Rule.returns_of_result hok
      simp only [hnext, hok] at hmany
      by_cases hless : (item b c).cursor.remaining < c.remaining
      · simp only [if_pos hless, Reply.mk.injEq] at hmany
        obtain ⟨hresult, rfl, rfl⟩ := hmany
        cases hrest : (many next? item (item b c).cursor).result with
        | error e => simp [hrest, Except.map] at hresult
        | ok as' =>
          simp only [hrest, Except.map, Except.ok.injEq] at hresult
          subst hresult
          exact .more hnext hitem hless (of_returns (Rule.returns_of_result hrest))
      · simp only [if_neg hless, Reply.mk.injEq, Except.ok.injEq] at hmany
        obtain ⟨rfl, rfl, rfl⟩ := hmany
        exact .stuck hnext hitem hless
termination_by c.remaining

theorem Repeats.returns {next? : Token → Option β} {item : β → Rule α} {c d : Cursor} {as : List α}
    {es : List ParseError} (hrepeats : Repeats next? item c as d es) :
    (many next? item).Returns c as d es := by
  induction hrepeats with
  | stop hnext =>
    rw [Rule.Returns, many]
    simp only [hnext]
  | stuck hnext hitem hstays =>
    rw [Rule.Returns, many]
    rw [Rule.Returns] at hitem
    simp only [hnext, hitem, if_neg hstays]
  | more hnext hitem hless hrest ih =>
    rw [Rule.Returns, many]
    rw [Rule.Returns] at hitem ih
    simp only [hnext, hitem, if_pos hless, ih, Except.map]

/-- A loop runs as often as a token says that there is more, each time from where the last run
    stopped. -/
@[simp] theorem returns_many_iff {next? : Token → Option β} {item : β → Rule α} {c d : Cursor}
    {as : List α} {es : List ParseError} :
    (many next? item).Returns c as d es ↔ Repeats next? item c as d es :=
  ⟨Repeats.of_returns, Repeats.returns⟩

/-- Items that always consume something are run up to a token on which no item is run. The
    invariant is what the items rely on to consume something. -/
theorem Repeats.next?_eq_none {next? : Token → Option β} {item : β → Rule α} {c d : Cursor}
    {as : List α} {es : List ParseError} (hrepeats : Repeats next? item c as d es)
    (invariant : Cursor → Prop)
    (hitem : ∀ b c a d fs, invariant c → next? c.peek = some b → (item b).Returns c a d fs → fs ⊆ es →
      invariant d ∧ d.remaining < c.remaining)
    (hstart : invariant c) : next? d.peek = none := by
  induction hrepeats with
  | stop hnext => exact hnext
  | stuck hnext hreturns hstays =>
    exact absurd (hitem _ _ _ _ _ hstart hnext hreturns (List.Subset.refl _)).2 hstays
  | more hnext hreturns _ _ ih =>
    refine ih ?_ (hitem _ _ _ _ _ hstart hnext hreturns (List.subset_append_left _ _)).1
    intro b c a d fs hc hnext hreturns hsubset
    exact hitem b c a d fs hc hnext hreturns (List.subset_append_of_subset_right _ hsubset)

end Grammar

end GeoLang
