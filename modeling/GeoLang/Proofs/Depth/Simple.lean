import GeoLang.Proofs.Depth.Expression

namespace GeoLang.Grammar

open Rule

section

variable {expression : Rule Expr} {wide narrow : Language Expr}
  (haccepts : expression.Accepts Expr.bare narrow (EndsRow 1))
  (hconfines : expression.Confines wide narrow (EndsRow 1))

include hconfines

private theorem initializer_confines (type : DataType) :
    (initializer expression type).Confines (InitializerForm wide) (InitializerForm narrow)
      EndsDeclarator := by
  intro c init ts d hinit hreads hfollows
  cases hinit with
  | none => exact .inl .none
  | some hassign he =>
    obtain ⟨hrest, rfl⟩ := hreads.of_cons
    obtain hnarrow | hover := hconfines _ _ _ _ he hrest hfollows.endsRow
    · exact .inl (.some hassign hnarrow)
    · obtain ⟨cls, hkind, _⟩ := hassign
      refine .inr (overruns_peek_bind ?_)
      simp only [hkind, TokenKind.operator?, if_true]
      exact (passes_advance c).bind fun _ => hover.bind _

/-- A declarator overruns in its initializer. -/
theorem declarator_confines (type : DataType) :
    (declarator expression type).Confines (DeclaratorForm wide) (DeclaratorForm narrow)
      EndsDeclarator := by
  rintro c x ts d ⟨hname, hunit, hinit⟩ hreads hfollows
  obtain ⟨hrest, rfl⟩ := hreads.of_cons
  obtain ⟨c', hreadsUnit, hreadsInit⟩ := hrest.of_append
  obtain hnarrow | hover := initializer_confines hconfines type _ _ _ _ hinit hreadsInit hfollows
  · exact .inl (.mk hname hunit hnarrow)
  · obtain ⟨unit, hreturns, _⟩ :=
      exists_unitReturns hunit hreadsUnit (hinit.not_reserved hreadsInit hfollows)
    have hpasses : unitSpecifier.Passes c.advance c' :=
      ⟨⟨unit, [], returns_unitSpecifier_iff.2 hreturns, .nil⟩, ⟨_, hreadsUnit⟩⟩
    refine .inr (overruns_peek_bind ?_)
    simp only [hname]
    exact (passes_advance c).bind fun _ => hpasses.bind fun _ => hover.bind _

private theorem nextDeclarator_confines (type : DataType) :
    (nextDeclarator expression type).Confines (Led .comma (DeclaratorForm wide))
      (Led .comma (DeclaratorForm narrow)) EndsDeclarator := by
  rintro c x ts d ⟨hmark, hx⟩ hreads hfollows
  obtain ⟨hrest, _⟩ := hreads.of_cons
  obtain hnarrow | hover := declarator_confines hconfines type _ _ _ _ hx hrest hfollows
  · exact .inl ⟨hmark, hnarrow⟩
  · exact .inr ((passes_advance c).bind fun _ => hover)

include haccepts

/-- A declaration overruns in one of its declarators; its data type is in front of that. -/
theorem DeclarationForm.confined {c d : Cursor} {x : Declaration} {ts : List Token}
    (hx : DeclarationForm wide x ts) (hreads : c.Reads ts d)
    (hend : d.peek.kind = .punctuation .semicolon) (terminated : Bool) :
    DeclarationForm narrow x ts ∨ ∃ type, c.peek.kind = .dataType type ∧
      (declaration expression terminated type).Overruns c := by
  obtain ⟨htype, hfirst, hothers⟩ := hx
  rename_i type _ _ _ _ _ _
  obtain ⟨hrest, rfl⟩ := hreads.of_cons
  obtain ⟨c', hreadsFirst, hreadsOthers⟩ := hrest.of_append
  have hends : EndsDeclarator d.peek := .inr hend
  have hbehind : EndsDeclarator c'.peek :=
    hothers.follows (led_begins .comma _) (fun _ ht => .inl ht) hreadsOthers hends
  obtain hnarrow | hover :=
    declarator_confines hconfines type _ _ _ _ hfirst hreadsFirst hbehind
  · have hpasses := (declarator_accepts haccepts type).passes hnarrow hreadsFirst hbehind
    obtain hnarrowOthers | hover := hothers.confined (led_begins .comma _)
      (fun _ ht => ⟨markAt_eq_some_iff.2 ht, .inl ht⟩) (nextDeclarator_accepts haccepts type)
      (nextDeclarator_confines hconfines type) hreadsOthers hends
    · exact .inl (.mk htype hnarrow hnarrowOthers)
    · refine .inr ⟨type, htype, overruns_peek_bind ((passes_advance c).bind fun _ => ?_)⟩
      exact hpasses.bind fun _ => hover.bind _
  · refine .inr ⟨type, htype, overruns_peek_bind ((passes_advance c).bind fun _ => ?_)⟩
    exact hover.bind _

omit haccepts in
/-- An assignment overruns in its value. -/
theorem assignment_confines :
    (assignment expression).Confines (AssignmentForm wide) (AssignmentForm narrow) (EndsRow 1) := by
  rintro c s ts d ⟨htarget, hop, hassigns, hvalue⟩ hreads hfollows
  obtain ⟨c', hreadsTarget, rfl, hreadsValue⟩ := hreads.of_append_cons
  obtain hnarrow | hover := hconfines _ _ _ _ hvalue hreadsValue hfollows
  · exact .inl (.mk htarget hop hassigns hnarrow)
  · have hassignment := assignment?_of_isOperator hop hassigns
    obtain ⟨cls, hkind, _⟩ := hop
    have hpasses := path_accepts.passes htarget hreadsTarget (by simp [hkind])
    refine .inr (hpasses.bind fun _ => overruns_peek_bind ?_)
    simp only [hassignment]
    exact (passes_advance c').bind fun _ => hover.bind _

omit haccepts in
/-- The wider language must not look like an assignment where it is none. -/
theorem simple_confines (hassigns : wide.NeverAssigns) :
    (simple expression).Confines (SimpleForm wide) (SimpleForm narrow)
      fun t => t.kind = .punctuation .semicolon := by
  intro c s ts d hsimple hreads hend
  have hfollows : EndsRow 1 d.peek := .of_punctuation hend (by simp) (by simp)
  cases hsimple with
  | assignment hassignment =>
    obtain hnarrow | hover := assignment_confines hconfines _ _ _ _ hassignment hreads hfollows
    · exact .inl (.assignment hnarrow)
    · refine .inr (overruns_atAssignment_bind ?_)
      rwa [if_pos (hassignment.assignsPath_rest hreads)]
  | expression he =>
    obtain hnarrow | hover := hconfines _ _ _ _ he hreads hfollows
    · exact .inl (.expression hnarrow)
    · refine .inr (overruns_atAssignment_bind ?_)
      rw [if_neg (by simp [hassigns.assignsPath_rest he hreads hend])]
      exact hover.bind _

omit haccepts in
/-- The step of a header overruns in the value of its assignment. -/
theorem update_confines :
    (update expression).Confines (UpdateForm wide) (UpdateForm narrow)
      fun t => t.kind = .punctuation .rParen := by
  intro c s ts d hupdate hreads hend
  cases hupdate with
  | before hop hstep hpath => exact .inl (.before hop hstep hpath)
  | behind hpath hop hstep => exact .inl (.behind hpath hop hstep)
  | assignment hassignment =>
    have hfollows : EndsRow 1 d.peek := .of_punctuation hend (by simp) (by simp)
    obtain hnarrow | hover := assignment_confines hconfines _ _ _ _ hassignment hreads hfollows
    · exact .inl (.assignment hnarrow)
    · have hnone : stepAt c.peek = none := by
        obtain ⟨htarget, _⟩ := hassignment
        obtain ⟨c', hreadsTarget, _⟩ := hreads.of_append
        exact stepAt_of_isName (htarget.isName_peek hreadsTarget)
      refine .inr (overruns_peek_bind ?_)
      simp only [hnone]
      refine overruns_atAssignment_bind ?_
      rwa [if_pos (hassignment.assignsPath_rest hreads)]

/-- The start of a header overruns as a declaration or as a statement. -/
theorem forInit_confines (hassigns : wide.NeverAssigns)
    (hbegins : wide.Begins fun t => t.kind.startsOperand = true) :
    (forInit expression).Confines (ForInitForm wide) (ForInitForm narrow)
      fun t => t.kind = .punctuation .semicolon := by
  intro c init ts d hinit hreads hend
  cases hinit with
  | declaration hdeclaration =>
    obtain hnarrow | ⟨type, htype, hover⟩ :=
      hdeclaration.confined haccepts hconfines hreads hend false
    · exact .inl (.declaration hnarrow)
    · refine .inr (overruns_peek_bind ?_)
      simp only [htype]
      exact hover.bind _
  | simple hsimple =>
    obtain hnarrow | hover := simple_confines hconfines hassigns _ _ _ _ hsimple hreads hend
    · exact .inl (.simple hnarrow)
    · obtain ⟨t, us, rfl, hstarts⟩ := simpleForm_begins hbegins _ _ hsimple
      obtain ⟨_, rfl⟩ := hreads.of_cons
      refine .inr (overruns_peek_bind ?_)
      cases hkind : c.peek.kind with
      | dataType type => simp [hkind, TokenKind.startsOperand] at hstarts
      | _ => exact hover.bind _

end

end GeoLang.Grammar
