import GeoLang.Proofs.Reading.Composed
import GeoLang.Proofs.Shape.Tree

namespace GeoLang

/-- The class of an operator token is one that the operator may have. -/
def Token.Classed (t : Token) : Prop :=
  ∀ cls op, t.kind = .operator cls op → op.MayHaveClass cls

namespace Grammar

variable {α β : Type}

/-- The text ends with its end, and the classes of the operators in it are right. -/
structure Cursor.Sound (c : Cursor) : Prop where
  eof : c.eof.kind = .eof
  classed : ∀ t ∈ c.rest, t.Classed

/-- Reading keeps the classes of the tokens ahead sound. -/
theorem Cursor.Sound.of_reads {c d : Cursor} {used : List Token} (hsound : c.Sound)
    (hreads : c.Reads used d) : d.Sound where
  eof := by rw [hreads.eof, hsound.eof]
  classed := fun t ht => hsound.classed t (hreads.subset ht)

theorem Cursor.Sound.advance {c : Cursor} (hsound : c.Sound) : c.advance.Sound := by
  obtain ⟨used, hreads⟩ := c.exists_reads_advance
  exact hsound.of_reads hreads

theorem Cursor.Sound.peek {c : Cursor} (hsound : c.Sound) : c.peek.Classed := by
  cases hrest : c.rest with
  | nil =>
    intro cls op hkind
    rw [Cursor.peek, hrest, List.headD_nil, hsound.eof] at hkind
    cases hkind
  | cons t ts =>
    rw [Cursor.peek, hrest, List.headD_cons]
    exact hsound.classed t (by rw [hrest]; exact List.mem_cons_self)

/-- Whatever the rule returns has the property, which may speak of the place where it stopped. -/
structure Rule.Yields (r : Rule α) (property : α → Cursor → Prop) : Prop where
  composed : Composed r
  holds : ∀ c a d es, c.Sound → r.Returns c a d es → property a d

/-- Behind a rule the tokens ahead are still sound. -/
theorem Rule.Yields.sound {r : Rule α} {property : α → Cursor → Prop} (hyields : r.Yields property)
    {c d : Cursor} {a : α} {es : List ParseError} (hsound : c.Sound)
    (hreturns : r.Returns c a d es) : d.Sound := by
  obtain ⟨used, hreads⟩ := hyields.composed.exists_reads_of_returns hreturns
  exact hsound.of_reads hreads

/-- Whatever a rule returns that is run again and again has the property. -/
theorem Repeats.yields {next? : Token → Option β} {item : β → Rule α} {property : α → Prop}
    (hitem : ∀ b, (item b).Yields fun a _ => property a) {c d : Cursor} {as : List α}
    {es : List ParseError} (hrepeats : Repeats next? item c as d es) (hsound : c.Sound) :
    d.Sound ∧ ∀ a ∈ as, property a := by
  induction hrepeats with
  | stop => exact ⟨hsound, by simp⟩
  | stuck _ hreturns _ =>
    have hproperty := (hitem _).holds _ _ _ _ hsound hreturns
    exact ⟨(hitem _).sound hsound hreturns, by simpa using hproperty⟩
  | more _ hreturns _ _ ih =>
    have hproperty := (hitem _).holds _ _ _ _ hsound hreturns
    obtain ⟨hend, hrest⟩ := ih ((hitem _).sound hsound hreturns)
    exact ⟨hend, List.forall_mem_cons.2 ⟨hproperty, hrest⟩⟩

/-- Paths are well-formed by their type. -/
theorem path_yields : path.Yields fun p _ => p.Shaped :=
  ⟨.path, fun _ p _ _ _ _ => p.shaped⟩

/-- Each of the arguments is well-formed when expressions are. -/
theorem arguments_yields {expression : Rule Expr} (hexpression : expression.Yields fun e _ => e.Shaped) :
    (arguments expression).Yields fun args _ => ∀ e ∈ args, e.Shaped := by
  refine ⟨.arguments hexpression.composed, ?_⟩
  intro c args d es hsound hreturns
  cases returns_arguments_iff.1 hreturns with
  | none => simp
  | some _ _ hfirst hothers _ =>
    have hshaped := hexpression.holds _ _ _ _ hsound.advance hfirst
    have hargument : (argument expression).Yields fun e _ => e.Shaped := by
      refine ⟨.bind .advance fun _ => hexpression.composed, ?_⟩
      intro c e d es hsound hreturns
      exact hexpression.holds _ _ _ _ hsound.advance (returns_argument_iff.1 hreturns)
    obtain ⟨_, hrest⟩ :=
      Repeats.yields (fun _ => hargument) hothers (hexpression.sound hsound.advance hfirst)
    exact List.forall_mem_cons.2 ⟨hshaped, hrest⟩

/-- The steps are the increment and the decrement. -/
theorem eq_increment_or_eq_decrement {op : Operator} (hstep : op.isStep = true) :
    op = .increment ∨ op = .decrement := by
  cases op <;> simp_all [Operator.isStep]

/-- Either step may stand in front of an operand. -/
theorem leads_of_isStep {op : Operator} (hstep : op.isStep = true) : op.leads = true := by
  obtain rfl | rfl := eq_increment_or_eq_decrement hstep <;> rfl

/-- An operand never joins operands itself unless it is in parentheses. -/
theorem factorRule_yields {factor expression : Rule Expr}
    (hfactor : factor.Yields fun e _ => e.Shaped ∧ e.joint? = none)
    (hexpression : expression.Yields fun e _ => e.Shaped) :
    (factorRule factor expression).Yields fun e _ => e.Shaped ∧ e.joint? = none := by
  refine ⟨.factorRule hfactor.composed hexpression.composed, ?_⟩
  intro c e d es hsound hreturns
  cases returns_factorRule_iff.1 hreturns with
  | unary _ hleads hoperand =>
    obtain ⟨hshaped, hjoint⟩ := hfactor.holds _ _ _ _ hsound.advance hoperand
    exact ⟨⟨hleads, hjoint, hshaped⟩, rfl⟩
  | literal => exact ⟨trivial, rfl⟩
  | grouped _ hinner _ =>
    have hshaped := hexpression.holds _ _ _ _ hsound.advance hinner
    exact ⟨hshaped, rfl⟩
  | reserved _ _ hargs =>
    have hshaped := (arguments_yields hexpression).holds _ _ _ _ hsound.advance hargs
    exact ⟨⟨rfl, Expr.allShaped_iff.2 hshaped⟩, rfl⟩
  | path _ _ hpath =>
    cases hpath with
    | call hcallee hargs =>
      have hshaped := (arguments_yields hexpression).holds _ _ _ _ (path_yields.sound hsound hcallee)
        hargs
      exact ⟨⟨Path.shaped _, Expr.allShaped_iff.2 hshaped⟩, rfl⟩
    | post _ hstep =>
      have hop := eq_increment_or_eq_decrement (stepAt_eq_some_iff.1 hstep).2
      exact ⟨⟨hop, Path.shaped _⟩, rfl⟩
    | path => exact ⟨Path.shaped _, rfl⟩

/-- Among the operators that join operands only two make a logical node. -/
theorem nodeKind_eq_logicalOp_iff {op : Operator} {strength : Nat}
    (hstrength : op.strength? = some strength) :
    op.nodeKind = .logicalOp ↔ op = .logicalAnd ∨ op = .logicalOr := by
  cases op <;> simp_all [Operator.strength?, Operator.nodeKind, Operator.cls, Operator.entry]

/-- The row so far joins with strength `least` or more, and its right operand took every operator
    that it may take: none of them stands at `d`. -/
def EndsAt (least : Nat) (e : Expr) (d : Cursor) : Prop :=
  ∀ op ∈ e.joint?, ∃ strength, op.strength? = some strength ∧ least ≤ strength ∧
    jointAt (op.rightStrength strength) d.peek = none

private theorem EndsAt.joinsFrom {least : Nat} {e : Expr} {d : Cursor} (hends : EndsAt least e d) :
    e.JoinsFrom least := by
  intro op hop
  obtain ⟨strength, hstrength, hle, _⟩ := hends op hop
  exact ⟨strength, hstrength, hle⟩

/-- An operand that joins nothing ends anywhere. -/
theorem endsAt_of_joint?_eq_none {e : Expr} (hjoint : e.joint? = none) (least : Nat) (d : Cursor) :
    EndsAt least e d := by
  intro op hop
  rw [hjoint] at hop
  cases hop

/-- What the operands of a row are asked for, and what they leave behind. -/
def OperandYields (operand : Nat → Rule Expr) : Prop :=
  ∀ least, (operand least).Yields fun e d =>
    e.Shaped ∧ e.JoinsFrom least ∧ jointAt least d.peek = none

private theorem link_composed {operand : Nat → Rule Expr} (hoperand : OperandYields operand)
    (joint : Operator × Nat) : Composed (link operand joint) :=
  .bind .advance fun _ => .bind (hoperand _).composed fun _ => .pure _

/-- One more operand keeps the shape of a row. -/
theorem EndsAt.join {operand : Nat → Rule Expr} (hoperand : OperandYields operand) {least : Nat}
    {c d : Cursor} {lhs : Expr} {joint : Operator × Nat} {l : Operator × Expr}
    {es : List ParseError} (hsound : c.Sound) (hjoint : jointAt least c.peek = some joint)
    (hlink : (link operand joint).Returns c l d es) (hshaped : lhs.Shaped)
    (hends : EndsAt least lhs c) : (lhs.join l).Shaped ∧ EndsAt least (lhs.join l) d := by
  obtain ⟨op, strength⟩ := joint
  obtain ⟨hop, hstrength, hle⟩ := jointAt_eq_some_iff.1 hjoint
  obtain ⟨rhs, hrhs, rfl⟩ := returns_link_iff.1 hlink
  obtain ⟨hshapedRhs, hjoinsRhs, hnone⟩ := (hoperand _).holds _ _ _ _ hsound.advance hrhs
  have hjoinsLhs : lhs.JoinsFrom (op.leftStrength strength) := by
    intro op' hop'
    obtain ⟨strength', hstrength', _, hnone'⟩ := hends op' hop'
    refine ⟨strength', hstrength', (Operator.leftStrength_le_iff hstrength' hstrength).2 ?_⟩
    rw [← Nat.not_le]
    intro hle'
    have hsome := jointAt_eq_some_iff.2 ⟨hop, hstrength, hle'⟩
    rw [hnone'] at hsome
    cases hsome
  rw [Operator.rightStrength_eq hstrength] at hjoinsRhs
  rw [Operator.leftStrength_eq hstrength] at hjoinsLhs
  have hjoins : op.Joins lhs rhs :=
    ⟨⟨strength, hstrength, hjoinsRhs, hjoinsLhs⟩, nodeKind_eq_logicalOp_iff hstrength⟩
  refine ⟨⟨hjoins, hshaped, hshapedRhs⟩, ?_⟩
  intro op' hop'
  obtain rfl := Option.some.inj hop'
  exact ⟨strength, hstrength, hle, hnone⟩

/-- Any number of operands keeps the shape of a row. -/
theorem EndsAt.foldl_join {operand : Nat → Rule Expr} (hoperand : OperandYields operand)
    {least : Nat} {c d : Cursor} {lhs : Expr} {links : List (Operator × Expr)}
    {es : List ParseError} (hrepeats : Repeats (jointAt least) (link operand) c links d es)
    (hsound : c.Sound) (hshaped : lhs.Shaped) (hends : EndsAt least lhs c) :
    (links.foldl Expr.join lhs).Shaped ∧ EndsAt least (links.foldl Expr.join lhs) d := by
  induction hrepeats generalizing lhs with
  | stop => exact ⟨hshaped, hends⟩
  | stuck hjoint hlink _ => exact hends.join hoperand hsound hjoint hlink hshaped
  | more hjoint hlink _ _ ih =>
    obtain ⟨hshapedJoin, hendsJoin⟩ := hends.join hoperand hsound hjoint hlink hshaped
    obtain ⟨used, hreads⟩ := (link_composed hoperand _).exists_reads_of_returns hlink
    exact ih (hsound.of_reads hreads) hshapedJoin hendsJoin

/-- Reading one more operand consumes at least its operator. -/
theorem remaining_lt_of_link {operand : Nat → Rule Expr} (hoperand : OperandYields operand)
    {least : Nat} {c d : Cursor} {joint : Operator × Nat} {l : Operator × Expr}
    {es : List ParseError} (hsound : c.Sound) (hjoint : jointAt least c.peek = some joint)
    (hlink : (link operand joint).Returns c l d es) : d.Sound ∧ d.remaining < c.remaining := by
  obtain ⟨hop, _⟩ := jointAt_eq_some_iff.1 hjoint
  obtain ⟨rhs, hrhs, _⟩ := returns_link_iff.1 hlink
  have hne : c.rest ≠ [] := by
    refine Cursor.rest_ne_nil_of_peek hsound.eof fun heof => ?_
    rw [heof] at hop
    cases hop
  obtain ⟨used, hreads⟩ := (hoperand _).composed.exists_reads_of_returns hrhs
  have hremaining := hreads.remaining_eq
  have hadvance := (Cursor.reads_advance hne).remaining_eq
  rw [List.length_singleton] at hadvance
  exact ⟨(hsound.advance).of_reads hreads, by omega⟩

private theorem binaryRule_yields {factor : Rule Expr} {operand : Nat → Rule Expr}
    (hfactor : factor.Yields fun e _ => e.Shaped ∧ e.joint? = none)
    (hoperand : OperandYields operand) : OperandYields (binaryRule factor operand) := by
  intro least
  refine ⟨.binaryRule hfactor.composed (fun least => (hoperand least).composed) least, ?_⟩
  intro c e d es hsound hreturns
  obtain ⟨lhs, c', _, links, _, hlhs, hlinks, rfl, _⟩ := returns_binaryRule_iff.1 hreturns
  obtain ⟨hshaped, hjoint⟩ := hfactor.holds _ _ _ _ hsound hlhs
  have hsoundLinks := hfactor.sound hsound hlhs
  obtain ⟨hshapedRow, hends⟩ :=
    (endsAt_of_joint?_eq_none hjoint least c').foldl_join hoperand hlinks hsoundLinks hshaped
  refine ⟨hshapedRow, hends.joinsFrom, ?_⟩
  refine hlinks.next?_eq_none Cursor.Sound ?_ hsoundLinks
  intro joint c l d _ hsound hjoint hlink _
  exact remaining_lt_of_link hoperand hsound hjoint hlink

/-- Weakening what a rule yields. -/
theorem Rule.Yields.mono {r : Rule α} {property weaker : α → Cursor → Prop}
    (hyields : r.Yields property) (himplies : ∀ a d, property a d → weaker a d) : r.Yields weaker :=
  ⟨hyields.composed, fun _ _ _ _ hsound hreturns =>
    himplies _ _ (hyields.holds _ _ _ _ hsound hreturns)⟩

/-- Nothing is returned below the last level. -/
theorem tooDeep_yields {property : α → Cursor → Prop} : (tooDeep : Rule α).Yields property :=
  ⟨.tooDeep, fun _ _ _ _ _ hreturns => absurd hreturns not_returns_tooDeep⟩

private theorem binary_and_factor_yield (n : Nat) :
    OperandYields (binary n) ∧ (factor n).Yields fun e _ => e.Shaped ∧ e.joint? = none := by
  induction n with
  | zero => exact ⟨fun _ => tooDeep_yields, tooDeep_yields⟩
  | succ n ih =>
    obtain ⟨hbinary, hfactor⟩ := ih
    have hexpression := (hbinary 1).mono fun _ _ hrow => hrow.1
    exact ⟨binaryRule_yields hfactor hbinary, factorRule_yields hfactor hexpression⟩

/-- Expressions are well-formed, by induction on the levels that are left. -/
theorem expression_yields (n : Nat) : (expression n).Yields fun e _ => e.Shaped :=
  ((binary_and_factor_yield n).1 1).mono fun _ _ hrow => hrow.1

end Grammar

end GeoLang
