import GeoLang.Proofs.Extent.Rule

namespace GeoLang

variable {good : Span → Prop}

/-- Joining operands merges their spans. -/
theorem Expr.placed_join (hmerge : Grammar.MergesWell good) {lhs : Expr} {link : Operator × Expr}
    (hlhs : lhs.Placed good) (hlink : link.2.Placed good) : (lhs.join link).Placed good :=
  placed_binary _ (hmerge _ _ hlhs.span hlink.span) hlhs hlink

private theorem Expr.placed_foldl_join (hmerge : Grammar.MergesWell good) {lhs : Expr}
    {links : List (Operator × Expr)} (hlhs : lhs.Placed good)
    (hlinks : ∀ l ∈ links, l.2.Placed good) : (links.foldl join lhs).Placed good := by
  induction links generalizing lhs with
  | nil => exact hlhs
  | cons l links ih =>
    obtain ⟨hl, hrest⟩ := List.forall_mem_cons.1 hlinks
    exact ih (placed_join hmerge hlhs hl) hrest

namespace Grammar.Rule.Places

variable (hmerge : MergesWell good)

include hmerge

/-- The span of a path reaches from its first name to its last. -/
theorem path : Grammar.path.Places good (Path.Placed good) := by
  refine .bind .peek fun t ht => .bind (.name _) fun _ _ => ?_
  refine .bind (.many fun _ => .bind .advance fun _ _ => .name _) fun members _ => ?_
  exact .bind (.spanSince hmerge ht) fun _ hs => .pure hs

section

variable {expression : Rule Expr} (hexpression : expression.Places good (Expr.Placed good))

omit hmerge in
include hexpression in
theorem arguments : (Grammar.arguments expression).Places good fun es => ∀ e ∈ es, e.Placed good := by
  refine .bind (.mark _ _) fun _ _ => .bind .peek fun t _ => .ite (fun _ => ?_) fun _ => ?_
  · exact .bind .closeParenthesis fun _ _ => .pure (by simp)
  · refine .bind hexpression fun first hfirst => ?_
    refine .bind (.many fun _ => .bind .advance fun _ _ => hexpression) fun others hothers => ?_
    exact .bind .closeParenthesis fun _ _ => .pure (List.forall_mem_cons.2 ⟨hfirst, hothers⟩)

include hexpression

theorem reservedCall (word : ReservedWord) {start : Span} (hstart : good start) :
    (Grammar.reservedCall expression word start).Places good (Expr.Placed good) := by
  refine .bind .advance fun _ _ => .bind (.arguments hexpression) fun args hargs => ?_
  refine .bind (.spanSince hmerge hstart) fun s hs => ?_
  refine .bind (.ite (fun _ => .pure trivial) fun _ => .note ?_) fun _ _ => ?_
  · rintro s ⟨⟩
    exact hs
  · exact .pure (Expr.placed_reserved word hs hargs)

theorem pathExpression : (Grammar.pathExpression expression).Places good (Expr.Placed good) := by
  refine .bind (.path hmerge) fun p hp => .bind .peek fun t _ => ?_
  split
  · refine .bind (.arguments hexpression) fun args hargs => ?_
    exact .bind (.spanSince hmerge hp) fun s hs => .pure (Expr.placed_call hs hp hargs)
  · refine .ite (fun _ => .bind .advance fun _ _ => ?_) fun _ => .pure (Expr.placed_path hp)
    exact .bind (.spanSince hmerge hp) fun s hs => .pure (Expr.placed_post _ hs hp)
  · exact .pure (Expr.placed_path hp)

/-- The spans of an operand are those of its tokens and of its parts, merged. -/
theorem factorRule {factor : Rule Expr} (hfactor : factor.Places good (Expr.Placed good)) :
    (Grammar.factorRule factor expression).Places good (Expr.Placed good) := by
  refine .bind .peek fun t ht => ?_
  split
  · refine .ite (fun _ => .bind .advance fun _ _ => ?_) fun _ => .unexpected _
    refine .bind hfactor fun operand hoperand => ?_
    exact .bind (.spanSince hmerge ht) fun s hs => .pure (Expr.placed_unary _ hs hoperand)
  · exact .bind .advance fun _ _ => .pure (Expr.placed_literal _ ht)
  · refine .bind .advance fun _ _ => .bind hexpression fun inner hinner => ?_
    refine .bind .closeParenthesis fun _ _ => ?_
    exact .bind (.spanSince hmerge ht) fun s hs => .pure (Expr.placed_grouped hs hinner)
  · refine .bind .peekSecond fun _ _ => .ite (fun _ => ?_) fun _ => ?_
    · exact .reservedCall hmerge hexpression _ ht
    · exact .pathExpression hmerge hexpression
  · exact .pathExpression hmerge hexpression
  · exact .pathExpression hmerge hexpression
  · exact .unexpected _

end

/-- A row spans its first operand and its last. -/
theorem binaryRule {factor : Rule Expr} {operand : Nat → Rule Expr}
    (hfactor : factor.Places good (Expr.Placed good))
    (hoperand : ∀ least, (operand least).Places good (Expr.Placed good)) (least : Nat) :
    (Grammar.binaryRule factor operand least).Places good (Expr.Placed good) := by
  have hlink : ∀ joint, (Grammar.link operand joint).Places good fun l => l.2.Placed good := by
    intro joint
    exact .bind .advance fun _ _ => .bind (hoperand _) fun rhs hrhs => .pure hrhs
  refine .bind hfactor fun lhs hlhs => .bind (.many hlink) fun links hlinks => ?_
  exact .pure (Expr.placed_foldl_join hmerge hlhs hlinks)

/-- By induction on the levels that are left. -/
theorem binary_and_factor (n : Nat) :
    (∀ least, (Grammar.binary n least).Places good (Expr.Placed good)) ∧
      (Grammar.factor n).Places good (Expr.Placed good) := by
  induction n with
  | zero => exact ⟨fun _ => .tooDeep, .tooDeep⟩
  | succ n ih =>
    obtain ⟨hbinary, hfactor⟩ := ih
    exact ⟨.binaryRule hmerge hfactor hbinary, .factorRule hmerge (hbinary 1) hfactor⟩

theorem expression (n : Nat) : (Grammar.expression n).Places good (Expr.Placed good) :=
  (binary_and_factor hmerge n).1 1

end Grammar.Rule.Places

end GeoLang
