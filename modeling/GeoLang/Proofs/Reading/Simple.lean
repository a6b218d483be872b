import GeoLang.Proofs.Reading.Declaration

namespace GeoLang.Grammar

/-- A path, an assignment operator and a value; its span reaches from the path to the value. -/
theorem returns_assignment_iff {expression : Rule Expr} {c d : Cursor} {s : Simple}
    {es : List ParseError} :
    (assignment expression).Returns c s d es ↔
      ∃ target c' es₁ op value es₂, path.Returns c target c' es₁ ∧
        c'.peek.kind.assignment? = some op ∧ expression.Returns c'.advance value d es₂ ∧
          s = .assignment target op value (target.span.merge value.span) ∧ es = es₁ ++ es₂ := by
  rw [assignment, Rule.returns_bind_iff]
  constructor
  · rintro ⟨target, c', es₁, _, htarget, hrest, rfl⟩
    rw [returns_peek_bind_iff] at hrest
    split at hrest
    · next op hop =>
      rw [returns_advance_bind_iff, Rule.returns_bind_iff] at hrest
      obtain ⟨value, d', es₂, _, hvalue, hpure, rfl⟩ := hrest
      obtain ⟨rfl, rfl, rfl⟩ := Rule.returns_pure_iff.1 hpure
      exact ⟨target, c', es₁, op, value, es₂, htarget, hop, hvalue, rfl, by simp⟩
    · exact absurd hrest not_returns_unexpected
  · rintro ⟨target, c', es₁, op, value, es₂, htarget, hop, hvalue, rfl, rfl⟩
    refine ⟨target, c', es₁, es₂, htarget, ?_, rfl⟩
    simp only [returns_peek_bind_iff, hop, returns_advance_bind_iff]
    exact Rule.returns_bind_iff.2 ⟨value, d, es₂, [], hvalue, by simp, by simp⟩

/-- The ways in which a statement without a semicolon is read. -/
inductive SimpleReturns (expression : Rule Expr) (c : Cursor) :
    Simple → Cursor → List ParseError → Prop where
  | assignment {s : Simple} {d : Cursor} {es : List ParseError}
      (hassigns : assignsPath c.rest = true) (hassignment : (assignment expression).Returns c s d es) :
      SimpleReturns expression c s d es
  | expression {e : Expr} {d : Cursor} {es : List ParseError}
      (hassigns : assignsPath c.rest = false) (hexpression : expression.Returns c e d es) :
      SimpleReturns expression c (.ofExpr e) d es

/-- The look ahead decides between an assignment and an expression. -/
theorem returns_simple_iff {expression : Rule Expr} {c d : Cursor} {s : Simple}
    {es : List ParseError} :
    (simple expression).Returns c s d es ↔ SimpleReturns expression c s d es := by
  rw [simple, returns_atAssignment_bind_iff]
  constructor
  · intro hsimple
    split at hsimple
    · next hassigns => exact .assignment hassigns hsimple
    · next hassigns =>
      rw [Rule.returns_bind_iff] at hsimple
      obtain ⟨e, d', es', _, hexpression, hpure, rfl⟩ := hsimple
      obtain ⟨rfl, rfl, rfl⟩ := Rule.returns_pure_iff.1 hpure
      simpa using SimpleReturns.expression (by simpa using hassigns) hexpression
  · intro hreturns
    cases hreturns with
    | assignment hassigns hassignment => simpa [hassigns] using hassignment
    | expression hassigns hexpression =>
      rw [hassigns, if_neg (by simp), Rule.returns_bind_iff]
      exact ⟨_, _, _, [], hexpression, by simp, by simp⟩

/-- The ways in which the last part of the header of a `for` loop is read. -/
inductive UpdateReturns (expression : Rule Expr) (c : Cursor) :
    Simple → Cursor → List ParseError → Prop where
  | before {op : Operator} {operand : Path} {d : Cursor} {es : List ParseError}
      (hstep : stepAt c.peek = some op) (hoperand : path.Returns c.advance operand d es) :
      UpdateReturns expression c
        (.expression (.unary op (.path operand) (d.spanSince c.peek.span))) d es
  | assignment {s : Simple} {d : Cursor} {es : List ParseError} (hstep : stepAt c.peek = none)
      (hassigns : assignsPath c.rest = true) (hassignment : (assignment expression).Returns c s d es) :
      UpdateReturns expression c s d es
  | behind {op : Operator} {operand : Path} {d : Cursor} {es : List ParseError}
      (hnone : stepAt c.peek = none) (hassigns : assignsPath c.rest = false)
      (hoperand : path.Returns c operand d es) (hstep : stepAt d.peek = some op) :
      UpdateReturns expression c
        (.expression (.post op operand (d.advance.spanSince c.peek.span))) d.advance es

/-- A path and a step behind it. -/
theorem returns_postStep_iff {c d : Cursor} {s : Simple} {es : List ParseError} :
    postStep.Returns c s d es ↔
      ∃ operand c' op, path.Returns c operand c' es ∧ stepAt c'.peek = some op ∧ d = c'.advance ∧
        s = .expression (.post op operand (c'.advance.spanSince c.peek.span)) := by
  rw [postStep, returns_peek_bind_iff, Rule.returns_bind_iff]
  constructor
  · rintro ⟨operand, c', es₁, _, hoperand, hrest, rfl⟩
    rw [returns_peek_bind_iff] at hrest
    split at hrest
    · next op hop =>
      simp only [returns_advance_bind_iff, returns_spanSince_bind_iff,
        Rule.returns_pure_iff] at hrest
      obtain ⟨rfl, rfl, rfl⟩ := hrest
      exact ⟨operand, c', op, by simpa using hoperand, hop, rfl, rfl⟩
    · exact absurd hrest not_returns_unexpected
  · rintro ⟨operand, c', op, hoperand, hop, rfl, rfl⟩
    exact ⟨operand, c', es, [], hoperand, by simp [hop], by simp⟩

/-- A step in front of a path or behind one, or an assignment. -/
theorem returns_update_iff {expression : Rule Expr} {c d : Cursor} {s : Simple}
    {es : List ParseError} :
    (update expression).Returns c s d es ↔ UpdateReturns expression c s d es := by
  rw [update, returns_peek_bind_iff]
  constructor
  · intro hupdate
    split at hupdate
    · next op hop =>
      rw [returns_advance_bind_iff, Rule.returns_bind_iff] at hupdate
      obtain ⟨operand, d', es', _, hoperand, hspan, rfl⟩ := hupdate
      rw [returns_spanSince_bind_iff] at hspan
      obtain ⟨rfl, rfl, rfl⟩ := Rule.returns_pure_iff.1 hspan
      simpa using UpdateReturns.before hop hoperand
    · next hnone =>
      rw [returns_atAssignment_bind_iff] at hupdate
      split at hupdate
      · next hassigns => exact .assignment hnone hassigns hupdate
      · next hassigns =>
        obtain ⟨operand, c', op, hoperand, hop, rfl, rfl⟩ := returns_postStep_iff.1 hupdate
        exact .behind hnone (by simpa using hassigns) hoperand hop
  · intro hreturns
    cases hreturns with
    | before hstep hoperand =>
      simp only [hstep, returns_advance_bind_iff]
      exact Rule.returns_bind_iff.2 ⟨_, _, _, [], hoperand, by simp, by simp⟩
    | assignment hnone hassigns hassignment => simpa [hnone, hassigns] using hassignment
    | behind hnone hassigns hoperand hstep =>
      simpa [hnone, hassigns] using returns_postStep_iff.2 ⟨_, _, _, hoperand, hstep, rfl, rfl⟩

/-- The ways in which the first part of the header of a `for` loop is read. -/
inductive ForInitReturns (expression : Rule Expr) (c : Cursor) :
    ForInit → Cursor → List ParseError → Prop where
  | declaration {type : DataType} {x : Declaration} {d : Cursor} {es : List ParseError}
      (htype : c.peek.kind = .dataType type)
      (hdeclaration : (declaration expression false type).Returns c x d es) :
      ForInitReturns expression c (.declaration x) d es
  | simple {s : Simple} {d : Cursor} {es : List ParseError}
      (htype : ∀ type, c.peek.kind ≠ .dataType type) (hsimple : (simple expression).Returns c s d es) :
      ForInitReturns expression c (.simple s) d es

/-- A data type decides for a declaration. -/
theorem returns_forInit_iff {expression : Rule Expr} {c d : Cursor} {init : ForInit}
    {es : List ParseError} :
    (forInit expression).Returns c init d es ↔ ForInitReturns expression c init d es := by
  rw [forInit, returns_peek_bind_iff]
  constructor
  · intro hinit
    split at hinit
    · next type htype =>
      rw [Rule.returns_bind_iff] at hinit
      obtain ⟨x, d', es', _, hdeclaration, hpure, rfl⟩ := hinit
      obtain ⟨rfl, rfl, rfl⟩ := Rule.returns_pure_iff.1 hpure
      simpa using ForInitReturns.declaration htype hdeclaration
    · next htype =>
      rw [Rule.returns_bind_iff] at hinit
      obtain ⟨s, d', es', _, hsimple, hpure, rfl⟩ := hinit
      obtain ⟨rfl, rfl, rfl⟩ := Rule.returns_pure_iff.1 hpure
      simpa using ForInitReturns.simple htype hsimple
  · intro hreturns
    cases hreturns with
    | declaration htype hdeclaration =>
      simp only [htype]
      exact Rule.returns_bind_iff.2 ⟨_, _, _, [], hdeclaration, by simp, by simp⟩
    | simple htype hsimple =>
      split
      · next type hkind => exact absurd hkind (htype type)
      · exact Rule.returns_bind_iff.2 ⟨_, _, _, [], hsimple, by simp, by simp⟩

end GeoLang.Grammar
