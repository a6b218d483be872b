import GeoLang.Proofs.Sentence.Program

namespace GeoLang

/-- Tokens of the same kinds and lexemes. -/
def Token.Alike (ts us : List Token) : Prop :=
  us.map (fun t => (t.kind, t.lexeme)) = ts.map fun t => (t.kind, t.lexeme)

namespace Token.Alike

variable {t : Token} {ts ts' us : List Token}

theorem eq_nil (h : Alike [] us) : us = [] := List.map_eq_nil_iff.1 h

/-- Lists that are alike are so from their first tokens on. -/
theorem of_cons (h : Alike (t :: ts) us) :
    ∃ u vs, us = u :: vs ∧ u.kind = t.kind ∧ u.lexeme = t.lexeme ∧ Alike ts vs := by
  obtain ⟨u, vs, rfl, hu, hvs⟩ := List.map_eq_cons_iff.1 h
  obtain ⟨hkind, hlexeme⟩ := Prod.mk.inj hu
  exact ⟨u, vs, rfl, hkind, hlexeme, hvs⟩

theorem of_singleton (h : Alike [t] us) :
    ∃ u, us = [u] ∧ u.kind = t.kind ∧ u.lexeme = t.lexeme := by
  obtain ⟨u, vs, rfl, hkind, hlexeme, hvs⟩ := h.of_cons
  obtain rfl := hvs.eq_nil
  exact ⟨u, rfl, hkind, hlexeme⟩

/-- Lists that are alike fall into parts that are. -/
theorem of_append (h : Alike (ts ++ ts') us) :
    ∃ vs vs', us = vs ++ vs' ∧ Alike ts vs ∧ Alike ts' vs' := by
  rw [Alike, List.map_append] at h
  exact List.map_eq_append_iff.1 h

end Token.Alike

namespace Grammar

open Token (Alike)

variable {α : Type}

/-- Tokens that are alike form the same. -/
def Language.Placeless (language : Language α) : Prop :=
  ∀ ⦃a ts us⦄, language a ts → Alike ts us → language a us

namespace Language.Placeless

theorem isOperator {t u : Token} {op : Operator} (hop : t.IsOperator op) (hkind : u.kind = t.kind) :
    u.IsOperator op := by
  rwa [Token.IsOperator, hkind]

/-- Rows of items do not depend on places. -/
theorem items {item : Language α} (hitem : item.Placeless) : Language.Placeless (Items item) := by
  intro as ts us hitems halike
  induction hitems generalizing us with
  | nil =>
    obtain rfl := halike.eq_nil
    exact .nil
  | cons ha _ ih =>
    obtain ⟨vs, vs', rfl, hvs, hvs'⟩ := halike.of_append
    exact .cons (hitem ha hvs) (ih hvs')

theorem led {item : Language α} (hitem : item.Placeless) (p : Punctuation) :
    Language.Placeless (Led p item) := by
  rintro a ts us ⟨hmark, ha⟩ halike
  obtain ⟨u, vs, rfl, hkind, -, hvs⟩ := halike.of_cons
  exact .mk (hkind.trans hmark) (hitem ha hvs)

private theorem nameForm : Language.Placeless NameForm := by
  rintro _ ts us ⟨hname⟩ halike
  obtain ⟨u, rfl, hkind, hlexeme⟩ := halike.of_singleton
  rw [← hlexeme]
  exact .mk (by rwa [hkind])

theorem pathForm : Language.Placeless PathForm := by
  rintro _ ts us ⟨hname, hmembers⟩ halike
  obtain ⟨u, vs, rfl, hkind, hlexeme, hvs⟩ := halike.of_cons
  rw [← hlexeme]
  exact .mk (by rwa [hkind]) ((nameForm.led .dot).items hmembers hvs)

section

variable {factor expression : Language Expr} (hexpression : expression.Placeless)

include hexpression

/-- Nor do arguments, if expressions do not. -/
theorem argumentsForm : Language.Placeless (ArgumentsForm expression) := by
  intro args ts us hargs halike
  cases hargs with
  | none hopen hclose =>
    obtain ⟨u, _, rfl, hu, -, hvs⟩ := halike.of_cons
    obtain ⟨v, rfl, hv, -⟩ := hvs.of_singleton
    exact .none (hu.trans hopen) (hv.trans hclose)
  | some hopen hfirst hothers hclose =>
    obtain ⟨u, _, rfl, hu, -, hinside⟩ := halike.of_cons
    obtain ⟨vs, _, rfl, hvs, hrest⟩ := hinside.of_append
    obtain ⟨ws, _, rfl, hws, hlast⟩ := hrest.of_append
    obtain ⟨v, rfl, hv, -⟩ := hlast.of_singleton
    exact .some (hu.trans hopen) (hexpression hfirst hvs) ((hexpression.led .comma).items hothers hws)
      (hv.trans hclose)

private theorem factorForm (hfactor : factor.Placeless) : Language.Placeless
    (FactorForm factor expression) := by
  intro e ts us he halike
  cases he with
  | unary hop hleads hoperand =>
    obtain ⟨u, vs, rfl, hu, -, hvs⟩ := halike.of_cons
    exact .unary (isOperator hop hu) hleads (hfactor hoperand hvs)
  | literal hliteral =>
    obtain ⟨u, rfl, hu, -⟩ := halike.of_singleton
    exact .literal (hu.trans hliteral)
  | grouped hopen hinner hclose =>
    obtain ⟨u, _, rfl, hu, -, hinside⟩ := halike.of_cons
    obtain ⟨vs, _, rfl, hvs, hlast⟩ := hinside.of_append
    obtain ⟨v, rfl, hv, -⟩ := hlast.of_singleton
    exact .grouped (hu.trans hopen) (hexpression hinner hvs) (hv.trans hclose)
  | reserved hword hargs =>
    obtain ⟨u, vs, rfl, hu, -, hvs⟩ := halike.of_cons
    exact .reserved (hu.trans hword) (hexpression.argumentsForm hargs hvs)
  | path hpath => exact .path (pathForm hpath halike)
  | post hpath hop hstep =>
    obtain ⟨vs, _, rfl, hvs, hlast⟩ := halike.of_append
    obtain ⟨v, rfl, hv, -⟩ := hlast.of_singleton
    exact .post (pathForm hpath hvs) (isOperator hop hv) hstep
  | call hcallee hword hargs =>
    obtain ⟨vs, ws, rfl, hvs, hws⟩ := halike.of_append
    refine .call (pathForm hcallee hvs) ?_ (hexpression.argumentsForm hargs hws)
    rintro v word rfl
    obtain ⟨t, rfl, hkind, -⟩ := Alike.of_singleton hvs.symm
    rw [← hkind]
    exact hword t word rfl

private theorem initializerForm : Language.Placeless (InitializerForm expression) := by
  intro init ts us hinit halike
  cases hinit with
  | none =>
    obtain rfl := halike.eq_nil
    exact .none
  | some hassign he =>
    obtain ⟨u, vs, rfl, hu, -, hvs⟩ := halike.of_cons
    exact .some (isOperator hassign hu) (hexpression he hvs)

end

private theorem rowForm {factor : Language Expr} {operand : Nat → Language Expr}
    (hfactor : factor.Placeless)
    (hoperand : ∀ least, (operand least).Placeless) (least : Nat) :
    Language.Placeless (RowForm factor operand least) := by
  intro e ts us he halike
  induction he generalizing us with
  | factor hfirst => exact .factor (hfactor hfirst halike)
  | join hstrength hleast _ hop hrhs ih =>
    obtain ⟨vs, _, rfl, hvs, hws⟩ := halike.of_append
    obtain ⟨u, ws, rfl, hu, -, hws⟩ := hws.of_cons
    exact .join hstrength hleast (ih hvs) (isOperator hop hu) (hoperand _ hrhs hws)

private theorem row_and_factor (n : Nat) :
    (∀ least, (RowDerives n least).Placeless) ∧ (FactorDerives n).Placeless := by
  induction n with
  | zero => exact ⟨fun _ _ _ _ he => he.elim, fun _ _ _ he => he.elim⟩
  | succ n ih =>
    obtain ⟨hrow, hfactor⟩ := ih
    exact ⟨rowForm hfactor hrow, (hrow 1).factorForm hfactor⟩

/-- Nor do expressions, by induction on the levels that are left. -/
theorem expression (n : Nat) : (ExpressionDerives n).Placeless := (row_and_factor n).1 1

private theorem unitForm : Language.Placeless UnitForm := by
  intro unit ts us hunit halike
  cases hunit with
  | none =>
    obtain rfl := halike.eq_nil
    exact .none
  | plain hword hunit =>
    obtain ⟨u, rfl, hu, -⟩ := halike.of_singleton
    exact .plain (hu.trans hword) hunit
  | squared hsq hword hunit =>
    obtain ⟨u, _, rfl, hu, -, hvs⟩ := halike.of_cons
    obtain ⟨v, rfl, hv, -⟩ := hvs.of_singleton
    exact .squared (hu.trans hsq) (hv.trans hword) hunit

private theorem declaratorForm {expression : Language Expr} (hexpression : expression.Placeless) :
    Language.Placeless (DeclaratorForm expression) := by
  rintro _ ts us ⟨hname, hunit, hinit⟩ halike
  obtain ⟨u, _, rfl, hu, -, hvs⟩ := halike.of_cons
  obtain ⟨vs, ws, rfl, hvs, hws⟩ := hvs.of_append
  exact .mk (hu.trans hname) (unitForm hunit hvs) (hexpression.initializerForm hinit hws)

private theorem declarationForm {expression : Language Expr} (hexpression : expression.Placeless) :
    Language.Placeless (DeclarationForm expression) := by
  rintro _ ts us ⟨htype, hfirst, hothers⟩ halike
  have hdeclarator := hexpression.declaratorForm
  obtain ⟨u, _, rfl, hu, -, hvs⟩ := halike.of_cons
  obtain ⟨vs, ws, rfl, hvs, hws⟩ := hvs.of_append
  exact .mk (hu.trans htype) (hdeclarator hfirst hvs) ((hdeclarator.led .comma).items hothers hws)

end Language.Placeless

private theorem declarationForm_of_statementDerives {n : Nat} {x : Declaration} {ts : List Token}
    (hx : StatementDerives (n + 1) (.declaration x) ts) :
    ∃ us t, ts = us ++ [t] ∧ DeclarationForm (ExpressionDerives n) x us ∧
      t.kind = .punctuation .semicolon := by
  cases hx with
  | declaration hdeclaration hend => exact ⟨_, _, rfl, hdeclaration, hend⟩
  | whileLoop hloop => cases hloop
  | forLoop hloop => cases hloop
  | repeatLoop hloop => cases hloop
  | output houtput => cases houtput
  | input hinput => cases hinput

/-- A declaration is read wherever it stands and whatever follows it. -/
theorem exists_returns_of_alike {n : Nat} {x : Declaration} {ts us : List Token}
    (hx : StatementDerives (n + 1) (.declaration x) ts) (halike : Alike ts us) {c d : Cursor}
    (hreads : c.Reads us d) :
    (∃ type, c.peek.kind = .dataType type) ∧
      ∃ y es, (statement (n + 1)).Returns c (.declaration y) d es ∧ y.bare = x.bare ∧ Clean es := by
  obtain ⟨ts, t, rfl, hdeclaration, hend⟩ := declarationForm_of_statementDerives hx
  obtain ⟨us, _, rfl, hus, hlast⟩ := halike.of_append
  obtain ⟨u, rfl, hu, -⟩ := hlast.of_singleton
  obtain ⟨c', hreadsDeclaration, hrest⟩ := hreads.of_append
  obtain ⟨rfl, rfl⟩ := hrest.of_singleton
  obtain ⟨type, y, es, htype, hreturns, hsame, hclean⟩ :=
    exists_returns_declaration (expression_accepts n)
      ((Language.Placeless.expression n).declarationForm hdeclaration hus) hreadsDeclaration
      (hu.trans hend) true
  have hskip : c'.skipTerminator true = c'.advance := by
    simp [Cursor.skipTerminator, hu.trans hend, TokenKind.isPunctuation]
  rw [hskip] at hreturns
  exact ⟨⟨type, htype⟩, y, es, returns_statementRule_iff.2 (.declaration htype hreturns), hsame, hclean⟩

end Grammar

end GeoLang
