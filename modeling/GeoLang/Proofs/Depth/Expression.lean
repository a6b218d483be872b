import GeoLang.Proofs.Depth.Overrun

namespace GeoLang.Grammar

open Rule

section

variable {expression : Rule Expr} {wide narrow : Language Expr}
  (haccepts : expression.Accepts Expr.bare narrow (EndsRow 1))
  (hconfines : expression.Confines wide narrow (EndsRow 1))

include hconfines

private theorem argument_confines :
    (argument expression).Confines (Led .comma wide) (Led .comma narrow) (EndsRow 1) := by
  rintro c e ts d ⟨hmark, he⟩ hreads hfollows
  obtain ⟨hrest, _⟩ := hreads.of_cons
  obtain hnarrow | hover := hconfines _ _ _ _ he hrest hfollows
  · exact .inl ⟨hmark, hnarrow⟩
  · exact .inr ((passes_advance c).bind fun _ => hover)

include haccepts

/-- Arguments are nested too deeply where one of them is. -/
theorem arguments_confines (hbegins : wide.Begins fun t => t.kind.startsOperand = true) :
    (arguments expression).Confines (ArgumentsForm wide) (ArgumentsForm narrow) fun _ => True := by
  intro c args ts d hargs hreads _
  cases hargs with
  | none hopen hclose => exact .inl (.none hopen hclose)
  | some hopen hfirst hothers hclose =>
    obtain ⟨hinside, rfl⟩ := hreads.of_cons
    obtain ⟨c₁, hreadsFirst, hrest⟩ := hinside.of_append
    obtain ⟨c₂, hreadsOthers, hends⟩ := hrest.of_append
    obtain ⟨rfl, rfl⟩ := hends.of_singleton
    have hmore : c.advance.peek.kind.isPunctuation .rParen = false := by
      obtain ⟨t, us, rfl, hstarts⟩ := hbegins _ _ hfirst
      obtain ⟨_, rfl⟩ := hreadsFirst.of_cons
      cases hkind : c.advance.peek.kind <;>
        simp_all [TokenKind.isPunctuation, TokenKind.startsOperand]
    have hend : EndsRow 1 c₂.peek := .of_punctuation hclose (by simp) (by simp)
    have hcomma : ∀ t : Token, t.kind = .punctuation .comma →
        markAt .comma t = some () ∧ EndsRow 1 t := fun t ht =>
      ⟨markAt_eq_some_iff.2 ht, .of_punctuation ht (by simp) (by simp)⟩
    have hbehind := hothers.follows (led_begins .comma wide) (fun t ht => (hcomma t ht).2)
      hreadsOthers hend
    refine Classical.or_iff_not_imp_left.2 fun hdeep => ?_
    refine (passes_mark hopen .arguments).bind fun _ => overruns_peek_bind ?_
    rw [hmore, if_neg (by simp)]
    obtain hover | hnarrow := (hconfines _ _ _ _ hfirst hreadsFirst hbehind).symm
    · exact hover.bind _
    refine (haccepts.passes hnarrow hreadsFirst hbehind).bind fun _ => ?_
    obtain hover | hnarrowOthers := (hothers.confined (led_begins .comma wide) hcomma
      (argument_accepts haccepts) (argument_confines hconfines) hreadsOthers hend).symm
    · exact hover.bind _
    exact absurd (.some hopen hnarrow hnarrowOthers hclose) hdeep

omit haccepts hconfines in
private theorem overruns_factorRule_of_path {factor : Rule Expr} {c : Cursor}
    (hname : c.peek.kind.isName = true)
    (hcall : ∀ word, c.peek.kind = .reserved word → c.second.kind ≠ .punctuation .lParen)
    (hpath : (pathExpression expression).Overruns c) : (factorRule factor expression).Overruns c := by
  refine overruns_peek_bind ?_
  cases hkind : c.peek.kind with
  | reserved word =>
    refine overruns_peekSecond_bind ?_
    rwa [if_neg (by simpa [TokenKind.isPunctuation] using hcall word hkind)]
  | identifier _ => exact hpath
  | keyword _ => exact hpath
  | _ => simp [hkind, TokenKind.isName] at hname

private theorem factorRule_confines {factor : Rule Expr} {wideOperand operand : Language Expr}
    (hbegins : wide.Begins fun t => t.kind.startsOperand = true)
    (hfactor : factor.Confines wideOperand operand EndsOperand) :
    (factorRule factor expression).Confines (FactorForm wideOperand wide)
      (FactorForm operand narrow) EndsOperand := by
  intro c e ts d he hreads hfollows
  cases he with
  | unary hop hleads hoperand =>
    obtain ⟨hrest, rfl⟩ := hreads.of_cons
    obtain hnarrow | hover := hfactor _ _ _ _ hoperand hrest hfollows
    · exact .inl (.unary hop hleads hnarrow)
    · obtain ⟨cls, hkind, _⟩ := hop
      refine .inr (overruns_peek_bind ?_)
      simp only [hkind, hleads, if_true]
      exact (passes_advance c).bind fun _ => hover.bind _
  | literal hliteral => exact .inl (.literal hliteral)
  | grouped hopen hinner hclose =>
    obtain ⟨hinside, rfl⟩ := hreads.of_cons
    obtain ⟨c', hreadsInner, hend⟩ := hinside.of_append
    obtain ⟨rfl, rfl⟩ := hend.of_singleton
    have hbehind : EndsRow 1 c'.peek := .of_punctuation hclose (by simp) (by simp)
    obtain hnarrow | hover := hconfines _ _ _ _ hinner hreadsInner hbehind
    · exact .inl (.grouped hopen hnarrow hclose)
    · refine .inr (overruns_peek_bind ?_)
      simp only [hopen]
      exact (passes_advance c).bind fun _ => hover.bind _
  | reserved hword hargs =>
    obtain ⟨hrest, rfl⟩ := hreads.of_cons
    have hopen : c.second.kind = .punctuation .lParen := by
      obtain ⟨t, us, rfl, hopen⟩ := argumentsForm_begins wide _ _ hargs
      rw [← c.peek_advance, hrest.of_cons.2, hopen]
    obtain hnarrow | hover := arguments_confines haccepts hconfines hbegins _ _ _ _ hargs hrest trivial
    · exact .inl (.reserved hword hnarrow)
    · refine .inr (overruns_peek_bind ?_)
      simp only [hword]
      refine overruns_peekSecond_bind ?_
      rw [if_pos (by simp [TokenKind.isPunctuation, hopen])]
      exact (passes_advance c).bind fun _ => hover.bind _
  | path hpath => exact .inl (.path hpath)
  | post hpath hop hstep => exact .inl (.post hpath hop hstep)
  | call hcallee hword hargs =>
    obtain ⟨c', hreadsPath, hreadsArgs⟩ := hreads.of_append
    have hopen : c'.peek.kind = .punctuation .lParen := by
      obtain ⟨t, us, rfl, hopen⟩ := argumentsForm_begins wide _ _ hargs
      rw [hreadsArgs.of_cons.2, hopen]
    obtain hnarrow | hover :=
      arguments_confines haccepts hconfines hbegins _ _ _ _ hargs hreadsArgs trivial
    · exact .inl (.call hcallee hword hnarrow)
    · have hsecond : ∀ word, c.peek.kind = .reserved word → c.second.kind ≠ .punctuation .lParen := by
        intro word hreserved
        obtain hdot | ⟨hsingle, _⟩ := hcallee.second hreadsPath
        · simp [hdot]
        · exact absurd hreserved (hword _ word hsingle)
      refine .inr (overruns_factorRule_of_path (hcallee.isName_peek hreadsPath) hsecond ?_)
      refine (path_accepts.passes hcallee hreadsPath (by simp [hopen])).bind fun _ => ?_
      refine overruns_peek_bind ?_
      simp only [hopen]
      exact hover.bind _

end

section

variable {factor : Rule Expr} {operand : Nat → Rule Expr} {wideFactor narrowFactor : Language Expr}
  {wideOperand narrowOperand : Nat → Language Expr}
  (hfactor : factor.Accepts Expr.bare narrowFactor EndsOperand)
  (hoperand : ∀ least, (operand least).Accepts Expr.bare (narrowOperand least) (EndsRow least))
  (hconfines : factor.Confines wideFactor narrowFactor EndsOperand)
  (hoperandConfines : ∀ least,
    (operand least).Confines (wideOperand least) (narrowOperand least) (EndsRow least))

include hfactor hoperand

/-- The loop that reads the links of a row reaches the operand behind it. -/
theorem RowForm.overruns_behind {least floor strength : Nat} {op : Operator} {c d : Cursor}
    {e : Expr} {ts : List Token} (hrow : RowForm narrowFactor narrowOperand least e ts)
    (hfloor : floor ≤ least) (hreads : c.Reads ts d) (hends : EndsOperand d.peek)
    (hfollows : ∀ op strength, Operator.strength? op = some strength → least ≤ strength →
      jointAt (op.rightStrength strength) d.peek = none)
    (hjoint : jointAt floor d.peek = some (op, strength))
    (hover : (operand (op.rightStrength strength)).Overruns d.advance) :
    (binaryRule factor operand floor).Overruns c := by
  obtain ⟨first, c', es, links, fs, hfirst, hlinks, _, hcleanFirst, hcleanLinks⟩ :=
    hrow.exists_links hfactor hoperand hfloor hreads hends hfollows
  have hitem : (link operand (op, strength)).Overruns d :=
    (passes_advance d).bind fun _ => hover.bind _
  refine (overruns_many hjoint hitem).carried hreads (hfirst.carries_bind hcleanFirst ?_)
  exact carries_bind (hlinks.carries_many hcleanLinks (.refl _)) _

include hconfines hoperandConfines

/-- The first operand of a row that is nested too deeply is reached. -/
theorem RowForm.confined {least floor : Nat} (hfloor : floor ≤ least) {c d : Cursor} {e : Expr}
    {ts : List Token} (hrow : RowForm wideFactor wideOperand least e ts) (hreads : c.Reads ts d)
    (hends : EndsOperand d.peek)
    (hfollows : ∀ op strength, Operator.strength? op = some strength → least ≤ strength →
      jointAt (op.rightStrength strength) d.peek = none) :
    RowForm narrowFactor narrowOperand least e ts ∨ (binaryRule factor operand floor).Overruns c := by
  induction hrow generalizing d with
  | factor he =>
    obtain hnarrow | hover := hconfines _ _ _ _ he hreads hends
    · exact .inl (.factor hnarrow)
    · exact .inr (hover.bind _)
  | @join least strength op lhs rhs t ts us span hstrength hleast _ hop hrhs ih =>
    obtain ⟨c₁, hreadsLhs, rfl, hreadsRhs⟩ := hreads.of_append_cons
    have hendsLhs : EndsOperand c₁.peek := .of_isOperator hop hstrength
    have hbehind : ∀ op' strength', Operator.strength? op' = some strength' →
        op.leftStrength strength ≤ strength' →
          jointAt (op'.rightStrength strength') c₁.peek = none := by
      intro op' strength' hstrength' hle
      have hlt := (Operator.leftStrength_le_iff hstrength' hstrength).1 hle
      rw [jointAt_of_isOperator hop hstrength, if_neg (by omega)]
    have hlow : floor ≤ op.leftStrength strength := by
      have hle := op.le_leftStrength strength
      omega
    obtain hnarrow | hover := ih hlow hreadsLhs hendsLhs hbehind
    · obtain hnarrowRhs | hover := hoperandConfines _ _ _ _ _ hrhs hreadsRhs
        ⟨hends, hfollows op strength hstrength hleast⟩
      · exact .inl (.join hstrength hleast hnarrow hop hnarrowRhs)
      · have hjoint : jointAt floor c₁.peek = some (op, strength) := by
          rw [jointAt_of_isOperator hop hstrength, if_pos (by omega)]
        exact .inr (hnarrow.overruns_behind hfactor hoperand hlow hreadsLhs hendsLhs hbehind hjoint
          hover)
    · exact .inr hover

private theorem binaryRule_confines (least : Nat) :
    (binaryRule factor operand least).Confines (RowForm wideFactor wideOperand least)
      (RowForm narrowFactor narrowOperand least) (EndsRow least) := by
  intro c e ts d hrow hreads hfollows
  have hbehind : ∀ op strength, Operator.strength? op = some strength → least ≤ strength →
      jointAt (op.rightStrength strength) d.peek = none := by
    intro op strength _ hle
    exact jointAt_eq_none_of_le (Nat.le_trans hle (op.le_rightStrength strength)) hfollows.notJoint
  exact hrow.confined hfactor hoperand hconfines hoperandConfines (Nat.le_refl least) hreads
    hfollows.toEndsOperand hbehind

end

private theorem factorDerives_begins (n : Nat) :
    (FactorDerives n).Begins fun t => t.kind.startsOperand = true := by
  cases n with
  | zero => exact fun _ _ he => he.elim
  | succ n => exact factorForm_begins _ _

/-- Whatever can be derived with any number of levels is read with `n` levels of nesting left, or
    is nested too deeply for that. -/
theorem binary_and_factor_confine (n : Nat) :
    ∀ wide, (∀ least, (binary n least).Confines (RowDerives wide least) (RowDerives n least)
        (EndsRow least)) ∧
      (factor n).Confines (FactorDerives wide) (FactorDerives n) EndsOperand := by
  induction n with
  | zero =>
    exact fun wide => ⟨fun least => confines_tooDeep (rowDerives_begins wide least),
      confines_tooDeep (factorDerives_begins wide)⟩
  | succ n ih =>
    intro wide
    cases wide with
    | zero => exact ⟨fun _ _ _ _ _ hrow => hrow.elim, fun _ _ _ _ he => he.elim⟩
    | succ wide =>
      obtain ⟨hbinary, hfactor⟩ := ih wide
      obtain ⟨hbinaryAccepts, hfactorAccepts⟩ := binary_and_factor_accept n
      exact ⟨binaryRule_confines hfactorAccepts hbinaryAccepts hfactor hbinary,
        factorRule_confines (hbinaryAccepts 1) (hbinary 1) (rowDerives_begins wide 1) hfactor⟩

/-- An expression of more levels than are left overruns where the last one of them is used up. -/
theorem expression_confines (n wide : Nat) :
    (expression n).Confines (ExpressionDerives wide) (ExpressionDerives n) (EndsRow 1) :=
  (binary_and_factor_confine n wide).1 1

end GeoLang.Grammar
