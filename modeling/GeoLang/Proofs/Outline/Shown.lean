import GeoLang.Proofs.Outline.Part

namespace GeoLang

open Outline (Shows AllShow)

variable {R : Binary64 → Prop}

/-- The outline of a path shows the path, spans apart; so does that of every construct below. -/
theorem Path.shows_outline {p : Path} (hp : p.Named) : Shows R p.outline (.expr (.path p.bare)) :=
  .ofHeading (l := .path p) hp .nil rfl

theorem Path.show_outlines {ps : List Path} (hps : ∀ p ∈ ps, p.Named) :
    AllShow R (ps.map Path.outline) ((ps.map Path.bare).map fun p => .expr (.path p)) := by
  induction ps with
  | nil => exact .nil
  | cons p ps ih =>
    obtain ⟨hp, hps⟩ := List.forall_mem_cons.1 hps
    exact .cons (Path.shows_outline hp) (ih hps)

mutual

/-- Parentheses and spans are lost, and nothing else is. -/
theorem Expr.shows_outline : ∀ (e : Expr), e.Legible R → Shows R e.outline (.expr e.erased)
  | .literal v _, he => .ofHeading (l := .literal v) he .nil rfl
  | .path _, he => Path.shows_outline he
  | .binary lhs op rhs _, he =>
    .ofHeading (l := .binary op) trivial
      (.cons (lhs.shows_outline he.1) (.cons (rhs.shows_outline he.2) .nil)) rfl
  | .unary op operand _, he =>
    .ofHeading (l := .unary op false) trivial (.cons (operand.shows_outline he) .nil) rfl
  | .post op _ _, he =>
    .ofHeading (l := .unary op true) trivial (.cons (Path.shows_outline he) .nil) rfl
  | .call callee args _, he =>
    .ofHeading (l := .call callee) he.1 (Expr.show_outlines args he.2)
      (Part.ofHeading?_call (Part.mapM_expr? _) _)
  | .grouped inner _, he => inner.shows_outline he
  | .reserved word args _, he =>
    .ofHeading (l := .reserved word) trivial (Expr.show_outlines args he)
      (Part.ofHeading?_reserved (Part.mapM_expr? _) _)

theorem Expr.show_outlines : ∀ (es : List Expr), Expr.AllLegible R es →
    AllShow R (Expr.outlines es) ((Expr.erasedList es).map .expr)
  | [], _ => .nil
  | e :: es, hes => .cons (e.shows_outline hes.1) (Expr.show_outlines es hes.2)

end

theorem UnitSpecifier.shows_outline (u : UnitSpecifier) :
    Shows R (.leaf .unitSpecifier (some u.text)) (.unit u.bare) :=
  .ofHeading (l := .unit u) trivial .nil rfl

theorem Declarator.shows_outline {x : Declarator} (hx : x.Legible R) :
    Shows R x.outline (.declarator x.erased) := by
  obtain ⟨name, unit, initializer, span⟩ := x
  have hname : (Heading.declarator name).Legible R := hx.name
  cases unit with
  | none =>
    cases initializer with
    | none => exact .ofHeading hname .nil rfl
    | some e => exact .ofHeading hname (.cons (e.shows_outline (hx.initializer e rfl)) .nil) rfl
  | some u =>
    cases initializer with
    | none => exact .ofHeading hname (.cons u.shows_outline .nil) rfl
    | some e =>
      have he := e.shows_outline (hx.initializer e rfl)
      exact .ofHeading hname (.cons u.shows_outline (.cons he .nil)) rfl

theorem Declarator.show_outlines {xs : List Declarator} (hxs : ∀ x ∈ xs, x.Legible R) :
    AllShow R (xs.map Declarator.outline) ((xs.map Declarator.erased).map .declarator) := by
  induction xs with
  | nil => exact .nil
  | cons x xs ih =>
    obtain ⟨hx, hxs⟩ := List.forall_mem_cons.1 hxs
    exact .cons (Declarator.shows_outline hx) (ih hxs)

theorem Declaration.shows_outline {x : Declaration} (hx : x.Legible R) :
    Shows R x.outline (.declaration x.erased) := by
  obtain ⟨hfirst, hothers⟩ := List.forall_mem_cons.1 hx
  exact .ofHeading (l := .declaration x.type) trivial
    (.cons (Declarator.shows_outline hfirst) (Declarator.show_outlines hothers))
    (Part.ofHeading?_declaration (Part.mapM_declarator? _) _ _)

/-- As an expression or as a statement, a call is shown by the same outline. -/
theorem Simple.exists_shows_outline {s : Simple} (hs : s.Legible R) :
    ∃ x, Shows R s.outline x ∧ x.simple? = some s.erased := by
  cases s with
  | assignment target op value span =>
    have hparts := AllShow.cons (Path.shows_outline hs.1) (.cons (value.shows_outline hs.2) .nil)
    exact ⟨_, .ofHeading (l := .assignment op) trivial hparts rfl, rfl⟩
  | call callee args span =>
    exact ⟨_, Expr.shows_outline (.call callee args span) hs, rfl⟩
  | expression e => exact ⟨_, e.shows_outline hs, rfl⟩

/-- A call at the start of a header is shown like an expression, so that some part is shown that can
    be read as the header's. -/
theorem ForInit.exists_shows_outline {i : ForInit} (hi : i.Legible R) :
    ∃ x, Shows R i.outline x ∧ x.forInit? = some i.erased := by
  cases i with
  | declaration d => exact ⟨_, Declaration.shows_outline hi, rfl⟩
  | simple s =>
    obtain ⟨x, hshows, hx⟩ := Simple.exists_shows_outline hi
    exact ⟨x, hshows, Part.forInit?_of_simple? hx⟩

mutual

/-- The same is true of statements. -/
theorem Statement.exists_shows_outline :
    ∀ (s : Statement), s.Legible R → ∃ x, Shows R s.outline x ∧ x.statement? = some s.erased
  | .declaration _, hs => ⟨_, Declaration.shows_outline hs, rfl⟩
  | .simple s, hs => by
    obtain ⟨x, hshows, hx⟩ := Simple.exists_shows_outline (s := s) hs
    exact ⟨x, hshows, Part.statement?_of_simple? hx⟩
  | .conditional c, hs => ⟨_, c.shows_outline hs, rfl⟩
  | .whileLoop condition body _, hs => by
    have hparts := AllShow.cons (condition.shows_outline hs.1) (.cons (body.shows_outline hs.2) .nil)
    exact ⟨_, .ofHeading (l := .mark .whileLoop) trivial hparts rfl, rfl⟩
  | .forLoop init condition update body span, hs => by
    obtain ⟨hinit, hcondition, hupdate, hbody⟩ := hs
    obtain ⟨x, hshowsInit, hx⟩ := ForInit.exists_shows_outline hinit
    obtain ⟨y, hshowsUpdate, hy⟩ := Simple.exists_shows_outline hupdate
    have hparts := AllShow.cons hshowsInit (.cons (condition.shows_outline hcondition)
      (.cons hshowsUpdate (.cons (body.shows_outline hbody) .nil)))
    have hloop : Part.ofHeading? (.mark .forLoop) [x, .expr condition.erased, y, .block body.erased] =
        some (.statement (Statement.forLoop init condition update body span).erased) := by
      simp [Part.ofHeading?, hx, hy, Statement.erased]
    exact ⟨_, .ofHeading (l := .mark .forLoop) trivial hparts hloop, rfl⟩
  | .repeatLoop count body _, hs => by
    have hparts := AllShow.cons (count.shows_outline hs.1) (.cons (body.shows_outline hs.2) .nil)
    exact ⟨_, .ofHeading (l := .mark .repeatLoop) trivial hparts rfl, rfl⟩
  | .output newline template _ _, hs =>
    ⟨_, .ofHeading (l := .output newline template) trivial (Path.show_outlines hs)
      (Part.ofHeading?_output (Part.mapM_path? _) _ _), rfl⟩
  | .input _, _ => ⟨_, .ofHeading (l := .mark .inputStatement) trivial .nil rfl, rfl⟩

theorem Statement.exists_show_outlines : ∀ (ss : List Statement), Statement.AllLegible R ss →
    ∃ xs, AllShow R (Statement.outlines ss) xs ∧
      xs.mapM Part.statement? = some (Statement.erasedList ss)
  | [], _ => ⟨[], .nil, rfl⟩
  | s :: ss, hss => by
    obtain ⟨x, hshows, hx⟩ := s.exists_shows_outline hss.1
    obtain ⟨xs, hshow, hxs⟩ := Statement.exists_show_outlines ss hss.2
    exact ⟨x :: xs, .cons hshows hshow, by simp [hx, hxs, Statement.erasedList]⟩

theorem Block.shows_outline : ∀ (b : Block), b.Legible R → Shows R b.outline (.block b.erased)
  | .mk statements _, hb => by
    obtain ⟨xs, hshow, hxs⟩ := Statement.exists_show_outlines statements hb
    exact .ofHeading (l := .mark .block) trivial hshow (Part.ofHeading?_block hxs)

theorem Conditional.shows_outline :
    ∀ (c : Conditional), c.Legible R → Shows R c.outline (.conditional c.erased)
  | .mk condition block clause otherwise span, hc => by
    obtain ⟨hcondition, hblock, hotherwise⟩ := hc
    obtain ⟨xs, hshow, hxs⟩ := otherwise.exists_show_outlines hotherwise
    have hparts := AllShow.cons (condition.shows_outline hcondition)
      (.cons (block.shows_outline hblock) .nil)
    have hclause : Shows R _ (.clause condition.erased block.erased) :=
      .ofHeading (l := .mark .ifClause) trivial hparts rfl
    have hwhole : Part.ofHeading? (.mark .conditionalStatement)
        (.clause condition.erased block.erased :: xs) =
          some (.conditional (Conditional.mk condition block clause otherwise span).erased) := by
      simp [Part.ofHeading?, hxs, Conditional.erased]
    exact .ofHeading (l := .mark .conditionalStatement) trivial (.cons hclause hshow) hwhole

/-- What follows a conditional is shown by the children behind its block. -/
theorem Otherwise.exists_show_outlines : ∀ (o : Otherwise), o.Legible R →
    ∃ xs, AllShow R o.outlines xs ∧ Part.otherwise? xs = some o.erased
  | .nothing, _ => ⟨[], .nil, rfl⟩
  | .block b, ho => ⟨_, .cons (b.shows_outline ho) .nil, rfl⟩
  | .conditional c, ho => ⟨_, .cons (c.shows_outline ho) .nil, rfl⟩

end

/-- The outline of a program shows it, groups and spans apart. -/
theorem Program.shows_outline {p : Program} (hp : p.Legible R) :
    Shows R p.outline (.program p.erased) := by
  obtain ⟨xs, hshow, hxs⟩ := Statement.exists_show_outlines p.statements hp
  exact .ofHeading (l := .mark .program) trivial hshow (Part.ofHeading?_program hxs)

/-- What is legible in a program can be read from the text of its outline. -/
theorem Program.erased_eq_of_text_eq (hR : ∀ x y, R x → R y → x.text = y.text → x = y) {p q : Program}
    (hp : p.Legible R) (hq : q.Legible R) (htext : p.outline.text = q.outline.text) :
    p.erased = q.erased := by
  have hshows := Program.shows_outline hp
  have hshows' := Program.shows_outline hq
  have hplain := Outline.plain_of_shows hshows
  have houtline := Outline.eq_of_text_eq hplain (Outline.plain_of_shows hshows') htext
  rw [← houtline] at hshows'
  exact Part.program.inj (Outline.eq_of_shows hR hshows hshows')

end GeoLang
