import GeoLang.Proofs.Reading.Expression
import GeoLang.Proofs.Sentence.Bare
import GeoLang.Proofs.Sentence.Items

namespace GeoLang

/-- An operand may begin with such a token. -/
def TokenKind.startsOperand : TokenKind → Bool
  | literal _ => true
  | identifier _ => true
  | keyword _ => true
  | reserved _ => true
  | operator _ _ => true
  | punctuation p => p == .lParen
  | _ => false

namespace Grammar

private theorem member_accepts : member.Accepts id (Led .dot NameForm) fun _ => True := by
  rintro c s ts d ⟨hdot, ⟨hname⟩⟩ hreads _
  obtain ⟨hname', _⟩ := hreads.of_cons
  obtain ⟨rfl, rfl⟩ := hname'.of_singleton
  exact ⟨_, [], returns_member_iff.2 ⟨hname, rfl, rfl, rfl⟩, rfl, .nil⟩

theorem markAt_eq_none_iff {p : Punctuation} {t : Token} :
    markAt p t = none ↔ t.kind ≠ .punctuation p := by
  simp [markAt, TokenKind.isPunctuation]

/-- A path is read as far as it goes: up to a token that is no point. -/
theorem path_accepts :
    path.Accepts Path.bare PathForm fun t => t.kind ≠ .punctuation .dot := by
  rintro c p ts d ⟨hname, hmembers⟩ hreads hfollows
  obtain ⟨hrest, rfl⟩ := hreads.of_cons
  obtain ⟨members, es, hrepeats, hsame, hclean⟩ :=
    Repeats.of_items (led_begins .dot NameForm) (fun t ht => ⟨markAt_eq_some_iff.2 ht, trivial⟩)
      member_accepts hmembers hrest (markAt_eq_none_iff.2 hfollows) trivial
  rw [List.map_id, List.map_id] at hsame
  subst hsame
  exact ⟨_, es, returns_path_iff.2 ⟨hname, _, hrepeats, rfl⟩, rfl, hclean⟩

/-- Behind the head of a path stands a point, or what follows the path. -/
theorem PathForm.second {p : Path} {ts : List Token} {c d : Cursor} (hpath : PathForm p ts)
    (hreads : c.Reads ts d) :
    c.second.kind = .punctuation .dot ∨ ts = [c.peek] ∧ c.second = d.peek := by
  obtain ⟨_, hmembers⟩ := hpath
  obtain ⟨hrest, rfl⟩ := hreads.of_cons
  rw [← c.peek_advance]
  cases hmembers with
  | nil =>
    obtain rfl := hrest.eq_of_nil
    exact .inr ⟨rfl, rfl⟩
  | cons hitem _ =>
    obtain ⟨hdot, _⟩ := hitem
    obtain ⟨_, rfl⟩ := hrest.of_cons
    exact .inl hdot

/-- A path that ends in front of no parenthesis does not begin like a call. -/
theorem PathForm.second_ne_open {p : Path} {ts : List Token} {c d : Cursor} (hpath : PathForm p ts)
    (hreads : c.Reads ts d) (hbehind : d.peek.kind ≠ .punctuation .lParen) :
    c.second.kind ≠ .punctuation .lParen := by
  obtain hdot | ⟨_, hend⟩ := hpath.second hreads
  · simp [hdot]
  · rwa [hend]

/-- A path begins with a name. -/
theorem PathForm.isName_peek {p : Path} {ts : List Token} {c d : Cursor} (hpath : PathForm p ts)
    (hreads : c.Reads ts d) : c.peek.kind.isName = true := by
  obtain ⟨hname, _⟩ := hpath
  obtain ⟨_, rfl⟩ := hreads.of_cons
  exact hname

/-- With such a token a path ends, and the operand that it is. -/
structure EndsOperand (t : Token) : Prop where
  notOpen : t.kind ≠ .punctuation .lParen
  notDot : t.kind ≠ .punctuation .dot
  notStep : stepAt t = none

/-- With such a token a row of operands ends too. -/
structure EndsRow (least : Nat) (t : Token) : Prop extends EndsOperand t where
  notJoint : jointAt least t = none

/-- Any mark ends a row of operands, but for a parenthesis and a point, which would go on with the
    last one. -/
theorem EndsRow.of_punctuation {least : Nat} {t : Token} {p : Punctuation}
    (hmark : t.kind = .punctuation p) (hopen : p ≠ .lParen) (hdot : p ≠ .dot) :
    EndsRow least t where
  notOpen := by simpa [hmark] using hopen
  notDot := by simpa [hmark] using hdot
  notStep := by simp [stepAt, hmark, TokenKind.operator?]
  notJoint := by simp [jointAt, hmark, TokenKind.operator?]

/-- Any keyword ends a row of operands. -/
theorem EndsRow.of_keyword {least : Nat} {t : Token} {word : Keyword}
    (hword : t.kind = .keyword word) : EndsRow least t where
  notOpen := by simp [hword]
  notDot := by simp [hword]
  notStep := by simp [stepAt, hword, TokenKind.operator?]
  notJoint := by simp [jointAt, hword, TokenKind.operator?]

/-- A step is known by its operator, whatever class it has. -/
theorem stepAt_of_isOperator {t : Token} {op : Operator} (hop : t.IsOperator op) :
    stepAt t = if op.isStep then some op else none := by
  obtain ⟨cls, hkind, _⟩ := hop
  cases hstep : op.isStep <;> simp [stepAt, hkind, TokenKind.operator?, Option.filter, hstep]

theorem stepAt_of_isStep {t : Token} {op : Operator} (hop : t.IsOperator op)
    (hstep : op.isStep = true) : stepAt t = some op := by
  rw [stepAt_of_isOperator hop, if_pos hstep]

/-- An operator that joins operands ends the one in front of it. -/
theorem EndsOperand.of_isOperator {t : Token} {op : Operator} {strength : Nat}
    (hop : t.IsOperator op) (hstrength : op.strength? = some strength) : EndsOperand t := by
  have hstep := stepAt_of_isOperator hop
  rw [Operator.isStep_of_strength? hstrength] at hstep
  obtain ⟨cls, hkind, _⟩ := hop
  exact ⟨by simp [hkind], by simp [hkind], hstep⟩

theorem argumentsForm_begins (expression : Language Expr) :
    (Language.Begins (ArgumentsForm expression)) fun t => t.kind = .punctuation .lParen := by
  intro args ts hargs
  cases hargs with
  | none hopen => exact ⟨_, _, rfl, hopen⟩
  | some hopen => exact ⟨_, _, rfl, hopen⟩

private theorem clean_arityFaults (word : ReservedWord) (args : List Expr) (span : Span) :
    Clean (arityFaults word args span) := by
  unfold arityFaults
  split <;> simp [Clean, ParseError.isSyntactic]

section

variable {expression : Rule Expr} {language : Language Expr}
  (hexpression : expression.Accepts Expr.bare language (EndsRow 1))

include hexpression

theorem argument_accepts : (argument expression).Accepts Expr.bare (Led .comma language) (EndsRow 1) := by
  rintro c e ts d ⟨_, he⟩ hreads hfollows
  obtain ⟨hrest, _⟩ := hreads.of_cons
  obtain ⟨b, es, hreturns, hsame, hclean⟩ := hexpression _ _ _ _ he hrest hfollows
  exact ⟨b, es, returns_argument_iff.2 hreturns, hsame, hclean⟩

/-- Arguments are read whatever follows their closing parenthesis. -/
theorem arguments_accepts (hbegins : language.Begins fun t => t.kind.startsOperand = true) :
    (arguments expression).Accepts (List.map Expr.bare) (ArgumentsForm language) fun _ => True := by
  intro c args ts d hargs hreads _
  cases hargs with
  | none hopen hclose =>
    obtain ⟨hrest, rfl⟩ := hreads.of_cons
    obtain ⟨rfl, rfl⟩ := hrest.of_singleton
    exact ⟨[], [], returns_arguments_iff.2 (.none hopen hclose), rfl, .nil⟩
  | some hopen hfirst hothers hclose =>
    obtain ⟨hinside, rfl⟩ := hreads.of_cons
    obtain ⟨c₁, hreadsFirst, hrest⟩ := hinside.of_append
    obtain ⟨c₂, hreadsOthers, hends⟩ := hrest.of_append
    obtain ⟨rfl, rfl⟩ := hends.of_singleton
    have hmore : c.advance.peek.kind ≠ .punctuation .rParen := by
      obtain ⟨t, us, rfl, hstarts⟩ := hbegins _ _ hfirst
      obtain ⟨_, rfl⟩ := hreadsFirst.of_cons
      intro hkind
      simp [hkind, TokenKind.startsOperand] at hstarts
    have hend : EndsRow 1 c₂.peek := .of_punctuation hclose (by simp) (by simp)
    have hbehind := hothers.follows (led_begins .comma language)
      (fun t ht => EndsRow.of_punctuation ht (by simp) (by simp)) hreadsOthers hend
    obtain ⟨e, es, hreturns, hsame, hclean⟩ := hexpression _ _ _ _ hfirst hreadsFirst hbehind
    obtain ⟨others, fs, hrepeats, hsameOthers, hcleanOthers⟩ :=
      Repeats.of_items (led_begins .comma language)
        (fun t ht => ⟨markAt_eq_some_iff.2 ht, .of_punctuation ht (by simp) (by simp)⟩)
        (argument_accepts hexpression) hothers hreadsOthers
        (markAt_eq_none_iff.2 (by simp [hclose])) hend
    refine ⟨e :: others, es ++ fs, ?_, ?_, hclean.append hcleanOthers⟩
    · exact returns_arguments_iff.2 (.some hopen hmore hreturns hrepeats hclose)
    · rw [List.map_cons, List.map_cons, hsame, hsameOthers]

private theorem factorRule_accepts {factor : Rule Expr} {operand : Language Expr}
    (hbegins : language.Begins fun t => t.kind.startsOperand = true)
    (hfactor : factor.Accepts Expr.bare operand EndsOperand) :
    (factorRule factor expression).Accepts Expr.bare (FactorForm operand language) EndsOperand := by
  intro c e ts d he hreads hfollows
  cases he with
  | unary hop hleads hoperand =>
    obtain ⟨hrest, rfl⟩ := hreads.of_cons
    obtain ⟨cls, hkind, _⟩ := hop
    obtain ⟨e, es, hreturns, hsame, hclean⟩ := hfactor _ _ _ _ hoperand hrest hfollows
    refine ⟨_, es, returns_factorRule_iff.2 (.unary hkind hleads hreturns), ?_, hclean⟩
    rw [Expr.bare, Expr.bare, hsame]
  | literal hliteral =>
    obtain ⟨rfl, rfl⟩ := hreads.of_singleton
    exact ⟨_, [], returns_factorRule_iff.2 (.literal hliteral), rfl, .nil⟩
  | grouped hopen hinner hclose =>
    obtain ⟨hinside, rfl⟩ := hreads.of_cons
    obtain ⟨c', hreadsInner, hend⟩ := hinside.of_append
    obtain ⟨rfl, rfl⟩ := hend.of_singleton
    have hbehind : EndsRow 1 c'.peek := .of_punctuation hclose (by simp) (by simp)
    obtain ⟨e, es, hreturns, hsame, hclean⟩ := hexpression _ _ _ _ hinner hreadsInner hbehind
    refine ⟨_, es, returns_factorRule_iff.2 (.grouped hopen hreturns hclose), ?_, hclean⟩
    rw [Expr.bare, Expr.bare, hsame]
  | reserved hword hargs =>
    obtain ⟨hrest, rfl⟩ := hreads.of_cons
    obtain ⟨t, us, rfl, hopen⟩ := argumentsForm_begins language _ _ hargs
    obtain ⟨_, hpeek⟩ := hrest.of_cons
    obtain ⟨args, es, hreturns, hsame, hclean⟩ :=
      arguments_accepts hexpression hbegins _ _ _ _ hargs hrest trivial
    have hsecond : c.second.kind = .punctuation .lParen := by rw [← c.peek_advance, hpeek, hopen]
    refine ⟨_, _, returns_factorRule_iff.2 (.reserved hword hsecond hreturns), ?_, ?_⟩
    · simp only [Expr.bare, Expr.bareList_eq_map, hsame]
    · exact hclean.append (clean_arityFaults _ _ _)
  | path hpath =>
    have hname := hpath.isName_peek hreads
    have hsecond := hpath.second_ne_open hreads hfollows.notOpen
    obtain ⟨p, es, hreturns, hsame, hclean⟩ := path_accepts _ _ _ _ hpath hreads hfollows.notDot
    have hoperand : PathExpressionReturns expression c (.path p) d es :=
      .path hreturns hfollows.notOpen hfollows.notStep
    refine ⟨_, es, returns_factorRule_iff.2 (.path hname (fun _ _ => hsecond) hoperand), ?_, hclean⟩
    rw [Expr.bare, Expr.bare, hsame]
  | post hpath hop hstep =>
    obtain ⟨c', hreadsPath, hend⟩ := hreads.of_append
    obtain ⟨rfl, rfl⟩ := hend.of_singleton
    have hstepAt := stepAt_of_isStep hop hstep
    obtain ⟨cls, hkind, _⟩ := hop
    have hname := hpath.isName_peek hreadsPath
    have hsecond := hpath.second_ne_open hreadsPath (by simp [hkind])
    obtain ⟨p, es, hreturns, hsame, hclean⟩ :=
      path_accepts _ _ _ _ hpath hreadsPath (by simp [hkind])
    have hoperand : PathExpressionReturns expression c _ c'.advance es := .post hreturns hstepAt
    refine ⟨_, es, returns_factorRule_iff.2 (.path hname (fun _ _ => hsecond) hoperand), ?_, hclean⟩
    rw [Expr.bare, Expr.bare, hsame]
  | call hcallee hword hargs =>
    obtain ⟨c', hreadsPath, hreadsArgs⟩ := hreads.of_append
    obtain ⟨t, us, rfl, hopen⟩ := argumentsForm_begins language _ _ hargs
    obtain ⟨_, hpeek⟩ := hreadsArgs.of_cons
    have hname := hcallee.isName_peek hreadsPath
    have hsecond : ∀ word, c.peek.kind = .reserved word → c.second.kind ≠ .punctuation .lParen := by
      intro word hreserved
      obtain hdot | ⟨hsingle, _⟩ := hcallee.second hreadsPath
      · simp [hdot]
      · exact absurd hreserved (hword _ word hsingle)
    obtain ⟨p, es, hreturns, hsame, hclean⟩ :=
      path_accepts _ _ _ _ hcallee hreadsPath (by simp [hpeek, hopen])
    obtain ⟨args, fs, hreturnsArgs, hsameArgs, hcleanArgs⟩ :=
      arguments_accepts hexpression hbegins _ _ _ _ hargs hreadsArgs trivial
    have hoperand := PathExpressionReturns.call hreturns hreturnsArgs
    refine ⟨_, es ++ fs, returns_factorRule_iff.2 (.path hname hsecond hoperand), ?_, ?_⟩
    · simp only [Expr.bare, Expr.bareList_eq_map, hsame, hsameArgs]
    · exact hclean.append hcleanArgs

end

/-- A token joins operands if its operator is strong enough. -/
theorem jointAt_of_isOperator {t : Token} {op : Operator} {strength : Nat} (hop : t.IsOperator op)
    (hstrength : op.strength? = some strength) (least : Nat) :
    jointAt least t = if least ≤ strength then some (op, strength) else none := by
  obtain ⟨cls, hkind, _⟩ := hop
  simp only [jointAt, hkind, TokenKind.operator?, hstrength]

/-- What does not join weakly does not join more tightly. -/
theorem jointAt_eq_none_of_le {least more : Nat} {t : Token} (hle : least ≤ more)
    (hnone : jointAt least t = none) : jointAt more t = none := by
  cases hmore : jointAt more t with
  | none => rfl
  | some joint =>
    obtain ⟨hop, hstrength, hle'⟩ := jointAt_eq_some_iff.1 hmore
    have hjoint := jointAt_eq_some_iff.2 ⟨hop, hstrength, Nat.le_trans hle hle'⟩
    rw [hnone] at hjoint
    cases hjoint

section

variable {factor : Rule Expr} {operand : Nat → Rule Expr} {factorLanguage : Language Expr}
  {operandLanguage : Nat → Language Expr}
  (hfactor : factor.Accepts Expr.bare factorLanguage EndsOperand)
  (hoperand : ∀ least, (operand least).Accepts Expr.bare (operandLanguage least) (EndsRow least))

include hfactor hoperand

/-- A row is read as its first operand and the links behind it. The loop that reads the links asks
    for no more strength than the row has (`floor`), so it goes on with whatever links follow. -/
theorem RowForm.exists_links {least floor : Nat} (hfloor : floor ≤ least) {c d : Cursor} {e : Expr}
    {ts : List Token} (hrow : RowForm factorLanguage operandLanguage least e ts)
    (hreads : c.Reads ts d) (hends : EndsOperand d.peek)
    (hfollows : ∀ op strength, Operator.strength? op = some strength → least ≤ strength →
      jointAt (op.rightStrength strength) d.peek = none) :
    ∃ lhs c' es links fs, factor.Returns c lhs c' es ∧
      Leads (jointAt floor) (link operand) c' links d fs ∧
        (links.foldl Expr.join lhs).bare = e.bare ∧ Clean es ∧ Clean fs := by
  induction hrow generalizing d with
  | factor he =>
    obtain ⟨lhs, es, hreturns, hsame, hclean⟩ := hfactor _ _ _ _ he hreads hends
    exact ⟨lhs, d, es, [], [], hreturns, .refl d, hsame, hclean, .nil⟩
  | @join least strength op lhs rhs t ts us span hstrength hleast _ hop hrhs ih =>
    obtain ⟨c₁, hreadsLhs, hlink⟩ := hreads.of_append
    obtain ⟨hreadsRhs, rfl⟩ := hlink.of_cons
    have hbehind : ∀ op' strength', Operator.strength? op' = some strength' →
        op.leftStrength strength ≤ strength' →
          jointAt (op'.rightStrength strength') c₁.peek = none := by
      intro op' strength' hstrength' hle
      have hlt := (Operator.leftStrength_le_iff hstrength' hstrength).1 hle
      rw [jointAt_of_isOperator hop hstrength, if_neg (by omega)]
    have hle := op.le_leftStrength strength
    obtain ⟨first, c', es, links, fs, hfirst, hlinks, hsame, hcleanFirst, hcleanLinks⟩ :=
      ih (by omega) hreadsLhs (.of_isOperator hop hstrength) hbehind
    obtain ⟨operand', gs, hreturns, hsameRhs, hcleanRhs⟩ :=
      hoperand _ _ _ _ _ hrhs hreadsRhs ⟨hends, hfollows op strength hstrength hleast⟩
    have hjoint : jointAt floor c₁.peek = some (op, strength) := by
      rw [jointAt_of_isOperator hop hstrength, if_pos (by omega)]
    have hitem : (link operand (op, strength)).Returns c₁ (op, operand') d gs :=
      returns_link_iff.2 ⟨operand', hreturns, rfl⟩
    have hless : d.remaining < c₁.remaining := by
      rw [hlink.remaining_eq, List.length_cons]
      omega
    refine ⟨first, c', es, links ++ [(op, operand')], fs ++ gs, hfirst,
      .snoc hlinks hjoint hitem hless, ?_, hcleanFirst, hcleanLinks.append hcleanRhs⟩
    rw [List.foldl_append, List.foldl_cons, List.foldl_nil, Expr.join, Expr.bare, Expr.bare, hsame,
      hsameRhs]

private theorem binaryRule_accepts (least : Nat) :
    (binaryRule factor operand least).Accepts Expr.bare (RowForm factorLanguage operandLanguage least)
      (EndsRow least) := by
  intro c e ts d hrow hreads hfollows
  have hbehind : ∀ op strength, Operator.strength? op = some strength → least ≤ strength →
      jointAt (op.rightStrength strength) d.peek = none := by
    intro op strength _ hle
    exact jointAt_eq_none_of_le (Nat.le_trans hle (op.le_rightStrength strength)) hfollows.notJoint
  obtain ⟨lhs, c', es, links, fs, hfirst, hlinks, hsame, hcleanFirst, hcleanLinks⟩ :=
    hrow.exists_links hfactor hoperand (Nat.le_refl least) hreads hfollows.toEndsOperand hbehind
  have hrepeats := hlinks.repeats (.stop hfollows.notJoint)
  rw [List.append_nil, List.append_nil] at hrepeats
  have hrule : (binaryRule factor operand least).Returns c _ d (es ++ fs) :=
    returns_binaryRule_iff.2 ⟨lhs, c', es, links, fs, hfirst, hrepeats, rfl, rfl⟩
  exact ⟨_, es ++ fs, hrule, hsame, hcleanFirst.append hcleanLinks⟩

end

theorem PathForm.begins : Language.Begins PathForm fun t => t.kind.isName = true := by
  rintro p ts ⟨hname, _⟩
  exact ⟨_, _, rfl, hname⟩

theorem startsOperand_of_isName {k : TokenKind} (hname : k.isName = true) :
    k.startsOperand = true := by
  cases k <;> simp_all [TokenKind.isName, TokenKind.startsOperand]

/-- A single operand begins with a token that operands begin with. -/
theorem factorForm_begins (factor expression : Language Expr) :
    (Language.Begins (FactorForm factor expression)) fun t => t.kind.startsOperand = true := by
  intro e ts he
  cases he with
  | unary hop =>
    obtain ⟨cls, hkind, _⟩ := hop
    exact ⟨_, _, rfl, by simp [hkind, TokenKind.startsOperand]⟩
  | literal hliteral => exact ⟨_, _, rfl, by simp [hliteral, TokenKind.startsOperand]⟩
  | grouped hopen => exact ⟨_, _, rfl, by simp [hopen, TokenKind.startsOperand]⟩
  | reserved hword => exact ⟨_, _, rfl, by simp [hword, TokenKind.startsOperand]⟩
  | path hpath | post hpath | call hpath =>
    obtain ⟨t, us, rfl, hname⟩ := PathForm.begins _ _ hpath
    exact ⟨t, _, rfl, startsOperand_of_isName hname⟩

theorem RowForm.begins {factor : Language Expr} {operand : Nat → Language Expr} {first : Token → Prop}
    (hfactor : factor.Begins first) (least : Nat) :
    (Language.Begins (RowForm factor operand least)) first := by
  intro e ts hrow
  induction hrow with
  | factor he => exact hfactor _ _ he
  | join _ _ _ _ _ ih =>
    obtain ⟨t, us, rfl, ht⟩ := ih
    exact ⟨t, _, rfl, ht⟩

/-- So does a row of operands. -/
theorem rowDerives_begins (n least : Nat) :
    (RowDerives n least).Begins fun t => t.kind.startsOperand = true := by
  cases n with
  | zero => exact fun _ _ hrow => hrow.elim
  | succ n =>
    refine RowForm.begins ?_ least
    cases n with
    | zero => exact fun _ _ he => he.elim
    | succ n => exact factorForm_begins _ _

/-- Whatever can be derived with at most `n` levels open is read with `n` levels of nesting left. -/
theorem binary_and_factor_accept (n : Nat) :
    (∀ least, (binary n least).Accepts Expr.bare (RowDerives n least) (EndsRow least)) ∧
      (factor n).Accepts Expr.bare (FactorDerives n) EndsOperand := by
  induction n with
  | zero => exact ⟨fun _ _ _ _ _ hrow => hrow.elim, fun _ _ _ _ he => he.elim⟩
  | succ n ih =>
    obtain ⟨hbinary, hfactor⟩ := ih
    exact ⟨binaryRule_accepts hfactor hbinary,
      factorRule_accepts (hbinary 1) (rowDerives_begins n 1) hfactor⟩

/-- Expressions that the grammar derives are read, up to spans. -/
theorem expression_accepts (n : Nat) :
    (expression n).Accepts Expr.bare (ExpressionDerives n) (EndsRow 1) :=
  (binary_and_factor_accept n).1 1

end Grammar

end GeoLang
