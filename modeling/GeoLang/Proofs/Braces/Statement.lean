import GeoLang.Proofs.Braces.Nesting
import GeoLang.Proofs.Reading.Statement

namespace GeoLang.Grammar

open Cursor (Nests)

variable {expression : Rule Expr} {c : Cursor}

private theorem nests_unitSpecifier : unitSpecifier.Nests := by
  intro c
  have hstart := Nests.refl c
  refine .peek_bind ?_
  split
  · next hsq =>
    refine hstart.advance_bind (by rw [reserved?_eq_some_iff.1 hsq]; rfl) fun h => .peek_bind ?_
    split
    · next unit hunit =>
      refine h.advance_bind (by rw [(unitAt_eq_some_iff.1 hunit).1]; rfl) fun h => ?_
      exact .spanSince_bind fun _ => h.pure _
    · exact h.unexpected _
  · split
    · next unit hunit =>
      refine hstart.advance_bind (by rw [(unitAt_eq_some_iff.1 hunit).1]; rfl) fun h => ?_
      exact .spanSince_bind fun _ => h.pure _
    · exact hstart.pure _

private theorem nests_checkInitializer (type : DataType) (e : Expr) :
    (checkInitializer type e).Nests := by
  intro c
  unfold checkInitializer
  split
  · split <;> exact Nests.refl c
  · exact Nests.refl c

private theorem nests_initializer (hexpression : expression.Nests) (type : DataType) :
    (initializer expression type).Nests := by
  intro c
  refine .peek_bind ?_
  split
  · next hassign =>
    obtain ⟨cls, hkind⟩ := TokenKind.operator?_eq_some_iff.1 hassign
    refine (Nests.refl c).advance_bind (by rw [hkind]; rfl) fun h => ?_
    refine h.bind hexpression fun e _ h => ?_
    exact h.bind (nests_checkInitializer type e) fun _ _ h => h.pure _
  · exact (Nests.refl c).pure _

/-- What is declared has no braces, whatever fails inside of it. -/
theorem nests_declarator (hexpression : expression.Nests) (type : DataType) :
    (declarator expression type).Nests := by
  intro c
  refine .peek_bind ?_
  split
  · next hname =>
    refine (Nests.refl c).advance_bind (by rw [hname]; rfl) fun h => ?_
    refine h.bind nests_unitSpecifier fun _ _ h => ?_
    refine h.bind (nests_initializer hexpression type) fun _ _ h => ?_
    exact .spanSince_bind fun _ => h.pure _
  · exact (Nests.refl c).unexpected _

private theorem nests_optionalTerminator (owned : Bool) : (optionalTerminator owned).Nests := by
  intro c
  refine .peek_bind ?_
  split
  · next hmark =>
    exact (Nests.refl c).advance
      (isBrace_of_isPunctuation (Bool.and_eq_true_iff.1 hmark).2 (by decide))
  · exact (Nests.refl c).pure _

theorem nests_declaration (hexpression : expression.Nests) (terminated : Bool) {type : DataType}
    (htype : c.peek.kind = .dataType type) :
    (declaration expression terminated type).NestsFrom c c := by
  refine .peek_bind ((Nests.refl c).advance_bind (by rw [htype]; rfl) fun h => ?_)
  refine h.bind (nests_declarator hexpression type) fun _ _ h => ?_
  refine h.bind (nests_many_led (by decide) (nests_declarator hexpression type)) fun _ _ h => ?_
  refine h.bind (nests_optionalTerminator terminated) fun _ _ h => ?_
  exact .spanSince_bind fun _ => h.pure _

/-- An assignment has no braces. -/
theorem nests_assignment (hexpression : expression.Nests) : (assignment expression).Nests := by
  intro c
  refine (Nests.refl c).bind nests_path fun _ _ h => .peek_bind ?_
  split
  · next op hop =>
    refine h.advance_bind (by rw [TokenKind.assignment?_eq_some_iff.1 hop]; rfl) fun h => ?_
    exact h.bind hexpression fun _ _ h => h.pure _
  · exact h.unexpected _

/-- Nor has a call. -/
theorem nests_simple (hexpression : expression.Nests) : (simple expression).Nests := by
  intro c
  refine .atAssignment_bind fun b => ?_
  split
  · exact nests_assignment hexpression c
  · exact (Nests.refl c).bind hexpression fun _ _ h => h.pure _

/-- A step is no brace. -/
theorem isBrace_of_stepAt {t : Token} {op : Operator} (hop : stepAt t = some op) :
    t.kind.isBrace = false := by
  obtain ⟨cls, hkind⟩ := TokenKind.operator?_eq_some_iff.1 (stepAt_eq_some_iff.1 hop).1
  rw [hkind]
  rfl

private theorem nests_postStep : postStep.Nests := by
  intro c
  refine .peek_bind ((Nests.refl c).bind nests_path fun _ _ h => .peek_bind ?_)
  split
  · next op hop =>
    refine h.advance_bind (isBrace_of_stepAt hop) fun h => ?_
    exact .spanSince_bind fun _ => h.pure _
  · exact h.unexpected _

/-- The step of a header has no braces. -/
theorem nests_update (hexpression : expression.Nests) : (update expression).Nests := by
  intro c
  refine .peek_bind ?_
  split
  · next op hop =>
    refine (Nests.refl c).advance_bind (isBrace_of_stepAt hop) fun h => ?_
    exact h.bind nests_path fun _ _ h => .spanSince_bind fun _ => h.pure _
  · refine .atAssignment_bind fun b => ?_
    split
    · exact nests_assignment hexpression c
    · exact nests_postStep c

/-- Nor has the start of a header. -/
theorem nests_forInit (hexpression : expression.Nests) : (forInit expression).Nests := by
  intro c
  refine .peek_bind ?_
  split
  · next htype =>
    exact Nests.of_bind (nests_declaration hexpression false htype) fun _ _ _ _ h => h.pure _
  · exact (Nests.refl c).bind (nests_simple hexpression) fun _ _ h => h.pure _

theorem nests_input : input.Nests := by
  intro c
  refine (Nests.refl c).bind (nests_keyword _) fun _ _ h => ?_
  refine h.bind (nests_mark _ (by decide)) fun _ _ h => ?_
  refine h.bind nests_closeParenthesis fun _ _ h => ?_
  refine h.bind (nests_mark _ (by decide)) fun _ _ h => ?_
  exact .spanSince_bind fun _ => h.pure _

theorem nests_terminatedSimple (hexpression : expression.Nests) :
    (terminatedSimple expression).Nests := by
  intro c
  refine (Nests.refl c).bind (nests_simple hexpression) fun _ _ h => ?_
  exact h.bind (nests_mark _ (by decide)) fun _ _ h => h.pure _

theorem nests_template : template.Nests := by
  intro c
  refine .peek_bind ?_
  split
  · next htext => exact (Nests.refl c).advance_bind (by rw [htext]; rfl) fun h => h.pure _
  · exact (Nests.refl c).unexpected _

end GeoLang.Grammar
