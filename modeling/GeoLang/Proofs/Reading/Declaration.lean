import GeoLang.Proofs.Reading.Expression

namespace GeoLang.Grammar

theorem unitAt_eq_some_iff {t : Token} {unit : ReservedWord} :
    unitAt t = some unit ↔ t.kind = .reserved unit ∧ unit.isUnit = true := by
  cases hkind : t.kind <;> simp [unitAt, hkind, TokenKind.reserved?, Option.filter_eq_some_iff]

theorem reserved?_eq_some_iff {k : TokenKind} {word : ReservedWord} :
    k.reserved? = some word ↔ k = .reserved word := by
  cases k <;> simp [TokenKind.reserved?]

/-- The ways in which a unit of measure is read, or none. -/
inductive UnitReturns (c : Cursor) : Option UnitSpecifier → Cursor → List ParseError → Prop where
  | squared {unit : ReservedWord} (hsq : c.peek.kind = .reserved .sq)
      (hunit : unitAt c.advance.peek = some unit) :
      UnitReturns c (some ⟨unit, true, c.advance.advance.spanSince c.peek.span⟩)
        c.advance.advance []
  | plain {unit : ReservedWord} (hsq : c.peek.kind ≠ .reserved .sq)
      (hunit : unitAt c.peek = some unit) :
      UnitReturns c (some ⟨unit, false, c.advance.spanSince c.peek.span⟩) c.advance []
  | none (hsq : c.peek.kind ≠ .reserved .sq) (hunit : unitAt c.peek = none) :
      UnitReturns c none c []

/-- The unit behind a name, if there is one. -/
theorem returns_unitSpecifier_iff {c d : Cursor} {u : Option UnitSpecifier}
    {es : List ParseError} : unitSpecifier.Returns c u d es ↔ UnitReturns c u d es := by
  simp only [unitSpecifier, returns_peek_bind_iff, reserved?_eq_some_iff]
  constructor
  · intro hunit
    split at hunit
    · next hsq =>
      rw [returns_advance_bind_iff, returns_peek_bind_iff] at hunit
      split at hunit
      · next unit hunitAt =>
        simp only [returns_advance_bind_iff, returns_spanSince_bind_iff,
          Rule.returns_pure_iff] at hunit
        obtain ⟨rfl, rfl, rfl⟩ := hunit
        exact .squared hsq hunitAt
      · exact absurd hunit not_returns_unexpected
    · next hsq =>
      split at hunit
      · next unit hunitAt =>
        simp only [returns_advance_bind_iff, returns_spanSince_bind_iff,
          Rule.returns_pure_iff] at hunit
        obtain ⟨rfl, rfl, rfl⟩ := hunit
        exact .plain hsq hunitAt
      · next hunitAt =>
        obtain ⟨rfl, rfl, rfl⟩ := Rule.returns_pure_iff.1 hunit
        exact .none hsq hunitAt
  · intro hreturns
    cases hreturns with
    | squared hsq hunit => simp [hsq, hunit]
    | plain hsq hunit => simp [hsq, hunit]
    | none hsq hunit => simp [hsq, hunit]

/-- The error that is noted if an initializer is a literal that does not fit the type. -/
def initializerFaults (type : DataType) (e : Expr) : List ParseError :=
  match e.literal? with
  | some v => if type.accepts v.kind then [] else [.typeMismatch type v.kind e.span]
  | none => []

/-- Checking a first value consumes nothing, and notes a literal of the wrong kind. -/
@[simp] theorem returns_checkInitializer_iff {type : DataType} {e : Expr} {c d : Cursor} {u : Unit}
    {es : List ParseError} :
    (checkInitializer type e).Returns c u d es ↔ d = c ∧ es = initializerFaults type e := by
  rw [checkInitializer, initializerFaults]
  cases e.literal? with
  | none => simp
  | some v => by_cases haccepts : type.accepts v.kind = true <;> simp [haccepts]

/-- The ways in which an initializer is read, or none. -/
inductive InitializerReturns (expression : Rule Expr) (type : DataType) (c : Cursor) :
    Option Expr → Cursor → List ParseError → Prop where
  | some {e : Expr} {d : Cursor} {es : List ParseError}
      (hassign : c.peek.kind.operator? = some .assign)
      (hexpression : expression.Returns c.advance e d es) :
      InitializerReturns expression type c (some e) d (es ++ initializerFaults type e)
  | none (hassign : c.peek.kind.operator? ≠ some .assign) :
      InitializerReturns expression type c none c []

/-- The first value behind `=`, if there is one, with what is wrong with it. -/
theorem returns_initializer_iff {expression : Rule Expr} {type : DataType} {c d : Cursor}
    {init : Option Expr} {es : List ParseError} :
    (initializer expression type).Returns c init d es ↔
      InitializerReturns expression type c init d es := by
  simp only [initializer, returns_peek_bind_iff]
  constructor
  · intro hinit
    split at hinit
    · next hassign =>
      rw [returns_advance_bind_iff, Rule.returns_bind_iff] at hinit
      obtain ⟨e, d', es', _, hexpression, hcheck, rfl⟩ := hinit
      rw [Rule.returns_bind_iff] at hcheck
      obtain ⟨_, _, _, _, hcheck, hpure, rfl⟩ := hcheck
      obtain ⟨rfl, rfl⟩ := returns_checkInitializer_iff.1 hcheck
      obtain ⟨rfl, rfl, rfl⟩ := Rule.returns_pure_iff.1 hpure
      simpa using InitializerReturns.some hassign hexpression
    · next hassign =>
      obtain ⟨rfl, rfl, rfl⟩ := Rule.returns_pure_iff.1 hinit
      exact .none hassign
  · intro hreturns
    cases hreturns with
    | @some e d es hassign hexpression =>
      rw [if_pos hassign, returns_advance_bind_iff, Rule.returns_bind_iff]
      refine ⟨e, d, es, _, hexpression, ?_, rfl⟩
      rw [Rule.returns_bind_iff]
      exact ⟨(), d, _, [], returns_checkInitializer_iff.2 ⟨rfl, rfl⟩, by simp, by simp⟩
    | none hassign => simp [hassign]

/-- A name, then its unit, then its first value; neither of the last two need be there. -/
theorem returns_declarator_iff {expression : Rule Expr} {type : DataType} {c d : Cursor}
    {x : Declarator} {es : List ParseError} :
    (declarator expression type).Returns c x d es ↔
      ∃ name unit c' init, c.peek.kind = .identifier name ∧ UnitReturns c.advance unit c' [] ∧
        InitializerReturns expression type c' init d es ∧
          x = ⟨name, unit, init, d.spanSince c.peek.span⟩ := by
  rw [declarator, returns_peek_bind_iff]
  constructor
  · intro hdeclarator
    split at hdeclarator
    · next name hname =>
      rw [returns_advance_bind_iff, Rule.returns_bind_iff] at hdeclarator
      obtain ⟨unit, c', es₁, _, hunit, hrest, rfl⟩ := hdeclarator
      rw [Rule.returns_bind_iff] at hrest
      obtain ⟨init, d', es₂, _, hinit, hspan, rfl⟩ := hrest
      rw [returns_spanSince_bind_iff] at hspan
      obtain ⟨rfl, rfl, rfl⟩ := Rule.returns_pure_iff.1 hspan
      have hunit := returns_unitSpecifier_iff.1 hunit
      have hes : es₁ = [] := by cases hunit <;> rfl
      subst hes
      exact ⟨name, unit, c', init, hname, hunit, by simpa using returns_initializer_iff.1 hinit, rfl⟩
    · exact absurd hdeclarator not_returns_unexpected
  · rintro ⟨name, unit, c', init, hname, hunit, hinit, rfl⟩
    simp only [hname, returns_advance_bind_iff]
    rw [Rule.returns_bind_iff]
    refine ⟨unit, c', [], es, returns_unitSpecifier_iff.2 hunit, ?_, rfl⟩
    rw [Rule.returns_bind_iff]
    exact ⟨init, d, es, [], returns_initializer_iff.2 hinit, by simp, by simp⟩

theorem returns_nextDeclarator_iff {expression : Rule Expr} {type : DataType} {c d : Cursor}
    {x : Declarator} {es : List ParseError} :
    (nextDeclarator expression type).Returns c x d es ↔
      (declarator expression type).Returns c.advance x d es := by
  simp [nextDeclarator]

/-- Behind the semicolon, if the declaration owns one that is there. -/
def Cursor.skipTerminator (c : Cursor) (owned : Bool) : Cursor :=
  if owned && c.peek.kind.isPunctuation .semicolon then c.advance else c

/-- The semicolon is consumed if it is there, and its absence is no error. -/
@[simp] theorem returns_optionalTerminator_bind_iff {β : Type} {owned : Bool} {f : Unit → Rule β}
    {c d : Cursor} {b : β} {es : List ParseError} :
    (optionalTerminator owned >>= f).Returns c b d es ↔
      (f ()).Returns (c.skipTerminator owned) b d es := by
  refine Rule.Returns.bind_iff ?_
  rw [optionalTerminator, returns_peek_bind_iff, Cursor.skipTerminator]
  split <;> simp

/-- The first name and those behind commas, each read with the type in front. -/
theorem returns_declaration_iff {expression : Rule Expr} {terminated : Bool} {type : DataType}
    {c d : Cursor} {x : Declaration} {es : List ParseError} :
    (declaration expression terminated type).Returns c x d es ↔
      ∃ first c₁ es₁ others c₂ es₂, (declarator expression type).Returns c.advance first c₁ es₁ ∧
        Repeats (markAt .comma) (fun _ => nextDeclarator expression type) c₁ others c₂ es₂ ∧
          d = c₂.skipTerminator terminated ∧ es = es₁ ++ es₂ ∧
            x = ⟨type, first, others, d.spanSince c.peek.span⟩ := by
  rw [declaration, returns_peek_bind_iff, returns_advance_bind_iff, Rule.returns_bind_iff]
  constructor
  · rintro ⟨first, c₁, es₁, _, hfirst, hrest, rfl⟩
    rw [Rule.returns_bind_iff] at hrest
    obtain ⟨others, c₂, es₂, _, hothers, hrest, rfl⟩ := hrest
    rw [returns_optionalTerminator_bind_iff, returns_spanSince_bind_iff] at hrest
    obtain ⟨rfl, rfl, rfl⟩ := Rule.returns_pure_iff.1 hrest
    exact ⟨first, c₁, es₁, others, c₂, es₂, hfirst, returns_many_iff.1 hothers, rfl, by simp, rfl⟩
  · rintro ⟨first, c₁, es₁, others, c₂, es₂, hfirst, hothers, rfl, rfl, rfl⟩
    refine ⟨first, c₁, es₁, es₂, hfirst, ?_, rfl⟩
    rw [Rule.returns_bind_iff]
    exact ⟨others, c₂, es₂, [], returns_many_iff.2 hothers, by simp, by simp⟩

end GeoLang.Grammar
