import GeoLang.Proofs.Errors.Rule

namespace GeoLang.Grammar

variable {α β : Type} {p : ParseError → Prop}

/-- Every error that the rule notes on the way has the property, whether the rule succeeds or fails.
    The error that it fails with is not among them. -/
def Rule.NotesOnly (p : ParseError → Prop) (r : Rule α) : Prop := ∀ c, ∀ e ∈ (r c).errors, p e

namespace Rule.NotesOnly

/-- Rules that note nothing note only what they should. -/
theorem of_nil {r : Rule α} (hnone : ∀ c, (r c).errors = []) : r.NotesOnly p := by
  intro c
  rw [hnone]
  exact List.forall_mem_nil _

theorem pure (a : α) : (pure a : Rule α).NotesOnly p := of_nil fun _ => rfl

theorem peek : Grammar.peek.NotesOnly p := of_nil fun _ => rfl

theorem peekSecond : Grammar.peekSecond.NotesOnly p := of_nil fun _ => rfl

theorem atAssignment : Grammar.atAssignment.NotesOnly p := of_nil fun _ => rfl

theorem spanSince (start : Span) : (Grammar.spanSince start).NotesOnly p := of_nil fun _ => rfl

theorem advance : Grammar.advance.NotesOnly p := of_nil fun _ => rfl

theorem fail (e : ParseError) : (Grammar.fail e : Rule α).NotesOnly p := of_nil fun _ => rfl

theorem unexpected (x : Expectation) : (Grammar.unexpected x : Rule α).NotesOnly p :=
  of_nil fun _ => rfl

theorem tooDeep : (Grammar.tooDeep : Rule α).NotesOnly p := of_nil fun _ => rfl

/-- An error that is noted has the property. -/
theorem note {e : ParseError} (he : p e) : (Grammar.note e).NotesOnly p :=
  fun _ => List.forall_mem_singleton.2 he

/-- A sequence notes what its parts note. -/
protected theorem bind {r : Rule α} {f : α → Rule β} (hr : r.NotesOnly p)
    (hf : ∀ a, (f a).NotesOnly p) : (r >>= f).NotesOnly p := by
  intro c
  cases hresult : (r c).result with
  | error e =>
    rw [bind_apply_error hresult]
    exact hr c
  | ok a =>
    rw [bind_apply_ok hresult]
    exact List.forall_mem_append.2 ⟨hr c, hf a _⟩

/-- A choice notes what its sides note. -/
theorem ite {q : Prop} [Decidable q] {r s : Rule α} (hthen : r.NotesOnly p)
    (helse : s.NotesOnly p) : (if q then r else s).NotesOnly p := by
  split
  · exact hthen
  · exact helse

/-- A loop notes what its runs note. -/
theorem many {next? : Token → Option β} {item : β → Rule α} (hitem : ∀ b, (item b).NotesOnly p) :
    (Grammar.many next? item).NotesOnly p := by
  intro c
  rw [Grammar.many]
  cases next? c.peek with
  | none => exact List.forall_mem_nil _
  | some b =>
    have hfirst := hitem b c
    cases hresult : (item b c).result with
    | error e => simpa only [hresult] using hfirst
    | ok a =>
      simp only [hresult]
      split
      · exact List.forall_mem_append.2 ⟨hfirst, many hitem _⟩
      · exact hfirst
termination_by c => c.remaining

theorem closeParenthesis : Grammar.closeParenthesis.NotesOnly p :=
  .bind .peek fun _ => .ite (.bind .advance fun _ => .pure _) (.fail _)

theorem keyword (word : Keyword) : (Grammar.keyword word).NotesOnly p :=
  .bind .peek fun _ => .ite (.bind .advance fun _ => .pure _) (.unexpected _)

theorem mark (q : Punctuation) (x : Expectation) : (Grammar.mark q x).NotesOnly p :=
  .bind .peek fun _ => .ite (.bind .advance fun _ => .pure _) (.unexpected _)

theorem name (x : Expectation) : (Grammar.name x).NotesOnly p :=
  .bind .peek fun _ => .ite (.bind .advance fun _ => .pure _) (.unexpected _)

/-- No error is noted while a path is read, whatever it fails with. -/
theorem path : Grammar.path.NotesOnly p :=
  .bind .peek fun _ => .bind (.name _) fun _ =>
    .bind (.many fun _ => .bind .advance fun _ => .name _) fun _ =>
      .bind (.spanSince _) fun _ => .pure _

section

variable {expression factor : Rule Expr} (hexpression : expression.NotesOnly p)

include hexpression

theorem arguments : (Grammar.arguments expression).NotesOnly p :=
  .bind (.mark _ _) fun _ => .bind .peek fun _ => .ite (.bind .closeParenthesis fun _ => .pure _) <|
    .bind hexpression fun _ => .bind (.many fun _ => .bind .advance fun _ => hexpression) fun _ =>
      .bind .closeParenthesis fun _ => .pure _

theorem pathExpression : (Grammar.pathExpression expression).NotesOnly p := by
  refine .bind .path fun _ => .bind .peek fun t => ?_
  split
  · exact .bind (.arguments hexpression) fun _ => .bind (.spanSince _) fun _ => .pure _
  · exact .ite (.bind .advance fun _ => .bind (.spanSince _) fun _ => .pure _) (.pure _)
  · exact .pure _

theorem assignment : (Grammar.assignment expression).NotesOnly p := by
  refine .bind .path fun _ => .bind .peek fun t => ?_
  split
  · exact .bind .advance fun _ => .bind hexpression fun _ => .pure _
  · exact .unexpected _

theorem simple : (Grammar.simple expression).NotesOnly p :=
  .bind .atAssignment fun _ => .ite (.assignment hexpression) (.bind hexpression fun _ => .pure _)

theorem update : (Grammar.update expression).NotesOnly p := by
  have hpostStep : Grammar.postStep.NotesOnly p := by
    refine .bind .peek fun _ => .bind .path fun _ => .bind .peek fun u => ?_
    split
    · exact .bind .advance fun _ => .bind (.spanSince _) fun _ => .pure _
    · exact .unexpected _
  refine .bind .peek fun t => ?_
  split
  · exact .bind .advance fun _ => .bind .path fun _ => .bind (.spanSince _) fun _ => .pure _
  · exact .bind .atAssignment fun _ => .ite (.assignment hexpression) hpostStep

/-- The fault of a call is its number of arguments. -/
theorem factorRule (hcounts : ∀ e : ParseError, e.CountsArguments → p e)
    (hfactor : factor.NotesOnly p) : (Grammar.factorRule factor expression).NotesOnly p := by
  have hreserved : ∀ word start, (Grammar.reservedCall expression word start).NotesOnly p :=
    fun word start => .bind .advance fun _ => .bind (.arguments hexpression) fun _ =>
      .bind (.spanSince _) fun _ => .bind (.ite (.pure _) (.note (hcounts _ trivial))) fun _ => .pure _
  refine .bind .peek fun t => ?_
  split
  · exact .ite (.bind .advance fun _ => .bind hfactor fun _ => .bind (.spanSince _) fun _ => .pure _)
      (.unexpected _)
  · exact .bind .advance fun _ => .pure _
  · exact .bind .advance fun _ => .bind hexpression fun _ => .bind .closeParenthesis fun _ =>
      .bind (.spanSince _) fun _ => .pure _
  · exact .bind .peekSecond fun _ => .ite (hreserved _ _) (.pathExpression hexpression)
  · exact .pathExpression hexpression
  · exact .pathExpression hexpression
  · exact .unexpected _

end

theorem binaryRule {factor : Rule Expr} {operand : Nat → Rule Expr} (hfactor : factor.NotesOnly p)
    (hoperand : ∀ least, (operand least).NotesOnly p) (least : Nat) :
    (Grammar.binaryRule factor operand least).NotesOnly p :=
  .bind hfactor fun _ =>
    .bind (.many fun _ => .bind .advance fun _ => .bind (hoperand _) fun _ => .pure _) fun _ => .pure _

/-- Expressions note only numbers of arguments. -/
theorem expression (hcounts : ∀ e : ParseError, e.CountsArguments → p e) (n : Nat) :
    (Grammar.expression n).NotesOnly p := by
  have hboth : ∀ n, (∀ least, (binary n least).NotesOnly p) ∧ (factor n).NotesOnly p := by
    intro n
    induction n with
    | zero => exact ⟨fun _ => .tooDeep, .tooDeep⟩
    | succ n ih =>
      obtain ⟨hbinary, hfactor⟩ := ih
      exact ⟨.binaryRule hfactor hbinary, .factorRule (hbinary 1) hcounts hfactor⟩
  exact (hboth n).1 1

theorem output (newline : Bool) : (Grammar.output newline).NotesOnly p := by
  have htemplate : Grammar.template.NotesOnly p := by
    refine .bind .peek fun t => ?_
    split
    · exact .bind .advance fun _ => .pure _
    · exact .unexpected _
  have hplaceholder : Grammar.placeholder.NotesOnly p :=
    .bind .advance fun _ => .bind .path fun _ => .bind (.mark _ _) fun _ => .pure _
  refine .bind .peek fun _ => .bind .advance fun _ => .bind (.mark _ _) fun _ => ?_
  refine .bind htemplate fun _ => .bind (.many fun _ => hplaceholder) fun _ => ?_
  exact .bind .closeParenthesis fun _ => .bind (.mark _ _) fun _ =>
    .bind (.spanSince _) fun _ => .pure _

theorem input : Grammar.input.NotesOnly p :=
  .bind (.keyword _) fun _ => .bind (.mark _ _) fun _ => .bind .closeParenthesis fun _ =>
    .bind (.mark _ _) fun _ => .bind (.spanSince _) fun _ => .pure _

section

variable {expression : Rule Expr} (hexpression : expression.NotesOnly p)
  (htypes : ∀ type found span, p (.typeMismatch type found span))

include hexpression htypes

theorem declarator (type : DataType) : (Grammar.declarator expression type).NotesOnly p := by
  have hunit : Grammar.unitSpecifier.NotesOnly p := by
    refine .bind .peek fun t => .ite (.bind .advance fun _ => .bind .peek fun u => ?_) ?_
    · split
      · exact .bind .advance fun _ => .bind (.spanSince _) fun _ => .pure _
      · exact .unexpected _
    · split
      · exact .bind .advance fun _ => .bind (.spanSince _) fun _ => .pure _
      · exact .pure _
  have hcheck : ∀ e, (checkInitializer type e).NotesOnly p := by
    intro e
    unfold checkInitializer
    split
    · exact .ite (.pure _) (.note (htypes _ _ _))
    · exact .pure _
  have hinitializer : (Grammar.initializer expression type).NotesOnly p :=
    .bind .peek fun _ => .ite (.bind .advance fun _ => .bind hexpression fun e =>
      .bind (hcheck e) fun _ => .pure _) (.pure _)
  refine .bind .peek fun t => ?_
  split
  · exact .bind .advance fun _ => .bind hunit fun _ => .bind hinitializer fun _ =>
      .bind (.spanSince _) fun _ => .pure _
  · exact .unexpected _

/-- Declarations note wrong types too. -/
theorem declaration (terminated : Bool) (type : DataType) :
    (Grammar.declaration expression terminated type).NotesOnly p :=
  .bind .peek fun _ => .bind .advance fun _ => .bind (.declarator hexpression htypes type) fun _ =>
    .bind (.many fun _ => .bind .advance fun _ => .declarator hexpression htypes type) fun _ =>
      .bind (.bind .peek fun _ => .ite .advance (.pure _)) fun _ =>
        .bind (.spanSince _) fun _ => .pure _

/-- Besides numbers of arguments, declarations note wrong types. -/
theorem forInit : (Grammar.forInit expression).NotesOnly p := by
  refine .bind .peek fun t => ?_
  split
  · exact .bind (.declaration hexpression htypes _ _) fun _ => .pure _
  · exact .bind (.simple hexpression) fun _ => .pure _

end

end Rule.NotesOnly

end GeoLang.Grammar
