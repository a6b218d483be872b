import GeoLang.Proofs.Errors.Rule
import GeoLang.Proofs.Layout.Tree

namespace GeoLang

open Grammar (arityFaults)

/-- Each of the errors reports the number of arguments of a call that has its row among `rows`. -/
def CountedIn (rows : List Row) (es : List ParseError) : Prop :=
  ∀ e ∈ es, e.CountsArguments ∧ ∃ row ∈ rows, e.span? = some row.span

namespace CountedIn

variable {rows more : List Row} {es fs : List ParseError}

/-- No errors count nothing. -/
theorem nil : CountedIn rows [] := List.forall_mem_nil _

/-- More rows may be there than are counted. -/
theorem of_subset (hcounted : CountedIn rows es) (hsubset : rows ⊆ more) : CountedIn more es := by
  intro e he
  obtain ⟨hcounts, row, hmem, hspan⟩ := hcounted e he
  exact ⟨hcounts, row, hsubset hmem, hspan⟩

/-- The errors of the parts of a node are not its own. -/
theorem cons (hcounted : CountedIn rows es) (row : Row) : CountedIn (row :: rows) es :=
  hcounted.of_subset (List.subset_cons_self row rows)

/-- The errors of two parts are counted in the rows of both. -/
theorem append (hfirst : CountedIn rows es) (hsecond : CountedIn more fs) :
    CountedIn (rows ++ more) (es ++ fs) :=
  List.forall_mem_append.2 ⟨hfirst.of_subset (List.subset_append_left rows more),
    hsecond.of_subset (List.subset_append_right rows more)⟩

/-- A call of a reserved word has the faults of its arguments and its own. -/
theorem concat {row : Row} (hcounted : CountedIn rows es) (word : ReservedWord) (args : List Expr) :
    CountedIn (row :: rows) (es ++ arityFaults word args row.span) := by
  refine List.forall_mem_append.2 ⟨hcounted.cons row, ?_⟩
  intro e he
  unfold arityFaults at he
  split at he
  · cases he
  · obtain rfl := List.mem_singleton.1 he
    exact ⟨trivial, row, List.mem_cons_self, rfl⟩

end CountedIn

mutual

/-- Every fault of an expression has its row in the listing of the expression. -/
theorem Expr.countedIn_faults (depth : Nat) : (e : Expr) → CountedIn (e.rows depth) e.faults
  | .literal _ _ => .nil
  | .path _ => .nil
  | .binary lhs _ rhs _ =>
    ((lhs.countedIn_faults (depth + 1)).cons _).append (rhs.countedIn_faults (depth + 1))
  | .unary _ operand _ => (operand.countedIn_faults (depth + 1)).cons _
  | .post _ _ _ => .nil
  | .call _ args _ => ((Expr.countedIn_listFaults (depth + 1) args).cons _).cons _
  | .grouped inner _ => (inner.countedIn_faults (depth + 1)).cons _
  | .reserved word args _ => (Expr.countedIn_listFaults (depth + 1) args).concat word args

/-- So has every fault of its arguments. -/
theorem Expr.countedIn_listFaults (depth : Nat) :
    (es : List Expr) → CountedIn (Expr.rowsOf depth es) (Expr.listFaults es)
  | [] => .nil
  | e :: es => (e.countedIn_faults depth).append (Expr.countedIn_listFaults depth es)

end

/-- The calls whose faults are reported stand among the tokens of the arguments. -/
theorem Expr.among_of_mem_listFaults {args : List Expr} {ts : List Token}
    (hordered : InSourceOrder ts) (hover : Expr.ArgumentsOver args ts) {e : ParseError}
    (he : e ∈ Expr.listFaults args) : e.CountsArguments ∧ ∃ s ∈ e.span?, s.Among ts := by
  obtain ⟨hcounts, row, hmem, hspan⟩ := Expr.countedIn_listFaults 0 args e he
  exact ⟨hcounts, row.span, hspan, (Expr.arguments_lie 0 args ts hordered hover).among row hmem⟩

namespace Grammar

namespace Rule.KeepsOrder

/-- Paths note nothing, and keep the order of errors thereby. -/
theorem path : Grammar.path.KeepsOrder :=
  .bind .peek fun _ => .bind (.name _) fun _ =>
    .bind (.many fun _ => .bind .advance fun _ => .name _) fun _ =>
      .bind (.spanSince _) fun _ => .pure _

section

variable {expression factor : Rule Expr} (hexpression : expression.KeepsOrder)

include hexpression

theorem arguments : (Grammar.arguments expression).KeepsOrder :=
  .bind (.mark _ _) fun _ => .bind .peek fun _ => .ite (.bind .closeParenthesis fun _ => .pure _) <|
    .bind hexpression fun _ => .bind (.many fun _ => .bind .advance fun _ => hexpression) fun _ =>
      .bind .closeParenthesis fun _ => .pure _

theorem pathExpression : (Grammar.pathExpression expression).KeepsOrder := by
  refine .bind .path fun p => .bind .peek fun t => ?_
  split
  · exact .bind (.arguments hexpression) fun _ => .bind (.spanSince _) fun _ => .pure _
  · exact .ite (.bind .advance fun _ => .bind (.spanSince _) fun _ => .pure _) (.pure _)
  · exact .pure _

variable (hnotes : expression.Notes Expr.faults) (hlays : expression.Lays Expr.Over)

include hnotes hlays

/-- A call of a reserved word that begins at the current token. -/
theorem reservedCall {c : Cursor} (hc : c.Ordered) {word : ReservedWord}
    (hword : c.peek.kind = .reserved word) :
    (Grammar.reservedCall expression word c.peek.span).OrderedAt c := by
  have hne := Cursor.rest_ne_nil_of_peek hc.eof (by simp [hword])
  have hadvance := Cursor.reads_advance hne
  have hc' := hc.of_reads hadvance
  have hargs := (arguments hexpression c.advance hc').of_reads hc hadvance
  obtain ⟨args, d, es, hreturns⟩ | ⟨e, d, es, hfails⟩ :=
    returns_or_fails (Grammar.arguments expression) c.advance
  · have hcall : (Grammar.reservedCall expression word c.peek.span).Returns c _ d _ :=
      returns_reservedCall_iff.2 ⟨args, es, hreturns, rfl, rfl⟩
    obtain ⟨used, hused, hover⟩ := arguments_lays hlays _ _ _ _ hreturns hc'.toInOrder
    have hwhole := hadvance.trans hused
    have hbounds := hwhole.bounds_spanSince (hc.used hwhole) (Span.bounds_singleton c.peek)
    rw [hreturns] at hargs
    rw [OrderedAt, hcall, arityFaults]
    split
    · rw [List.append_nil]
      exact hargs.with_result _
    · refine hargs.note _ ?_ ?_
      · exact ⟨_, rfl, hc.between hwhole hbounds.among⟩
      · intro e he
        obtain rfl := arguments_notes hnotes _ _ _ _ hreturns
        obtain ⟨hcounts, s, hs, hamong⟩ := Expr.among_of_mem_listFaults (hc'.used hused) hover he
        have hinside := (hamong.append_left [c.peek]).inside (hc.used hwhole) hbounds
        exact ⟨s, hs, _, rfl, .inr ⟨hinside, hcounts, trivial⟩⟩
  · have hcall : (Grammar.reservedCall expression word c.peek.span).Fails c e d es := by
      refine fails_bind_iff.2 (.inr ⟨(), c.advance, [], es, rfl, ?_, rfl⟩)
      exact fails_bind_iff.2 (.inl hfails)
    rw [hfails] at hargs
    rw [OrderedAt, hcall]
    exact hargs.with_result _

/-- A call of a reserved word notes its own fault behind those of its arguments. -/
theorem factorRule (hfactor : factor.KeepsOrder) :
    (Grammar.factorRule factor expression).KeepsOrder := by
  intro c hc
  refine .peek_bind ?_
  split
  · refine ite (.bind .advance fun _ => ?_) (.unexpected _) c hc
    exact .bind hfactor fun _ => .bind (.spanSince _) fun _ => .pure _
  · exact (KeepsOrder.bind .advance fun _ => .pure _) c hc
  · refine KeepsOrder.bind .advance (fun _ => .bind hexpression fun _ => ?_) c hc
    exact .bind .closeParenthesis fun _ => .bind (.spanSince _) fun _ => .pure _
  · next word hword =>
    refine .peekSecond_bind ?_
    split
    · exact reservedCall hexpression hnotes hlays hc hword
    · exact pathExpression hexpression c hc
  · exact pathExpression hexpression c hc
  · exact pathExpression hexpression c hc
  · exact unexpected _ c hc

end

theorem binaryRule {factor : Rule Expr} {operand : Nat → Rule Expr} (hfactor : factor.KeepsOrder)
    (hoperand : ∀ least, (operand least).KeepsOrder) (least : Nat) :
    (Grammar.binaryRule factor operand least).KeepsOrder :=
  .bind hfactor fun _ =>
    .bind (.many fun _ => .bind .advance fun _ => .bind (hoperand _) fun _ => .pure _) fun _ => .pure _

/-- By induction on the levels that are left. -/
theorem binary_and_factor (n : Nat) :
    (∀ least, (Grammar.binary n least).KeepsOrder) ∧ (Grammar.factor n).KeepsOrder := by
  induction n with
  | zero => exact ⟨fun _ => .tooDeep, .tooDeep⟩
  | succ n ih =>
    obtain ⟨hbinary, hfactor⟩ := ih
    refine ⟨.binaryRule hfactor hbinary, ?_⟩
    exact .factorRule (hbinary 1) (expression_notes n) (expression_lays n) hfactor

theorem expression (n : Nat) : (Grammar.expression n).KeepsOrder := (binary_and_factor n).1 1

end Rule.KeepsOrder

end Grammar

end GeoLang
