import GeoLang.Proofs.Outline.Tree

namespace GeoLang

/-- What a node of an outline may stand for. A call stands for an expression here. -/
inductive Part where
  | expr (e : Expr)
  | unit (u : UnitSpecifier)
  | declarator (x : Declarator)
  | declaration (x : Declaration)
  | simple (s : Simple)
  | block (b : Block)
  | clause (condition : Expr) (block : Block)
  | conditional (c : Conditional)
  | statement (s : Statement)
  | program (p : Program)

namespace Part

/-- The part as an expression. -/
def expr? : Part → Option Expr
  | expr e => some e
  | _ => none

/-- The part as a path, which an outline shows like an expression. -/
def path? : Part → Option Path
  | expr (.path p) => some p
  | _ => none

/-- The part as a declarator. -/
def declarator? : Part → Option Declarator
  | declarator x => some x
  | _ => none

/-- The part as an assignment or a call; the latter is shown like an expression. -/
def simple? : Part → Option Simple
  | expr e => some (.ofExpr e)
  | simple s => some s
  | _ => none

/-- The part as the start of a header. -/
def forInit? : Part → Option ForInit
  | declaration x => some (.declaration x)
  | x => x.simple?.map .simple

/-- The part as a statement. -/
def statement? : Part → Option Statement
  | declaration x => some (.declaration x)
  | conditional c => some (.conditional c)
  | statement s => some s
  | x => x.simple?.map .simple

/-- What is read as an assignment or a call may start a header. -/
theorem forInit?_of_simple? {x : Part} {s : Simple} (hx : x.simple? = some s) :
    x.forInit? = some (.simple s) := by
  cases x with
  | expr | simple => exact congrArg (Option.map ForInit.simple) hx
  | _ => cases hx

/-- It may be a statement as well. -/
theorem statement?_of_simple? {x : Part} {s : Simple} (hx : x.simple? = some s) :
    x.statement? = some (.simple s) := by
  cases x with
  | expr | simple => exact congrArg (Option.map Statement.simple) hx
  | _ => cases hx

/-- Parts of one sort are read one by one. -/
theorem mapM_map {α : Type} {f : Part → Option α} {g : α → Part} (hread : ∀ a, f (g a) = some a)
    (as : List α) : (as.map g).mapM f = some as := by
  induction as with
  | nil => rfl
  | cons a as ih => simp [hread, ih]

/-- A list of expressions is read back from its parts, and so are the lists below. -/
theorem mapM_expr? (es : List Expr) : (es.map expr).mapM expr? = some es :=
  mapM_map (g := expr) (fun _ => rfl) es

theorem mapM_path? (ps : List Path) : (ps.map fun p => expr (.path p)).mapM path? = some ps :=
  mapM_map (g := fun p => expr (.path p)) (fun _ => rfl) ps

theorem mapM_declarator? (xs : List Declarator) : (xs.map declarator).mapM declarator? = some xs :=
  mapM_map (g := declarator) (fun _ => rfl) xs

/-- What stands below the clause of a conditional statement. -/
def otherwise? : List Part → Option Otherwise
  | [] => some .nothing
  | [block b] => some (.block b)
  | [conditional c] => some (.conditional c)
  | _ => none

/-- The part with the heading and with parts of its own. -/
def ofHeading? : Heading → List Part → Option Part
  | .literal v, [] => some (expr (.literal v .none))
  | .path p, [] => some (expr (.path p))
  | .binary op, [expr lhs, expr rhs] => some (expr (.binary lhs op rhs .none))
  | .unary op false, [expr operand] => some (expr (.unary op operand .none))
  | .unary op true, [expr (.path operand)] => some (expr (.post op operand .none))
  | .call callee, xs => (xs.mapM expr?).map fun args => expr (.call callee args .none)
  | .reserved word, xs => (xs.mapM expr?).map fun args => expr (.reserved word args .none)
  | .unit u, [] => some (unit u)
  | .declarator name, [] => some (declarator ⟨name, none, none, .none⟩)
  | .declarator name, [unit u] => some (declarator ⟨name, some u, none, .none⟩)
  | .declarator name, [expr e] => some (declarator ⟨name, none, some e, .none⟩)
  | .declarator name, [unit u, expr e] => some (declarator ⟨name, some u, some e, .none⟩)
  | .declaration type, x :: xs =>
    x.declarator?.bind fun first =>
      (xs.mapM declarator?).map fun others => declaration ⟨type, first, others, .none⟩
  | .assignment op, [expr (.path target), expr value] =>
    some (simple (.assignment target op value .none))
  | .mark .block, xs => (xs.mapM statement?).map fun ss => block (.mk ss .none)
  | .mark .ifClause, [expr condition, block b] => some (clause condition b)
  | .mark .conditionalStatement, clause condition b :: xs =>
    (otherwise? xs).map fun otherwise => conditional (.mk condition b .none otherwise .none)
  | .mark .whileLoop, [expr condition, block b] =>
    some (statement (.whileLoop condition b .none))
  | .mark .forLoop, [x, expr condition, y, block b] =>
    x.forInit?.bind fun init =>
      y.simple?.map fun update => statement (.forLoop init condition update b .none)
  | .mark .repeatLoop, [expr count, block b] => some (statement (.repeatLoop count b .none))
  | .output newline template, xs =>
    (xs.mapM path?).map fun placeholders => statement (.output newline template placeholders .none)
  | .mark .inputStatement, [] => some (statement (.input .none))
  | .mark .program, xs => (xs.mapM statement?).map fun ss => program ⟨ss⟩
  | _, _ => none

/-- Headings with parts of their own are read back with these. -/
theorem ofHeading?_call {xs : List Part} {args : List Expr} (hxs : xs.mapM expr? = some args)
    (callee : Path) : ofHeading? (.call callee) xs = some (expr (.call callee args .none)) := by
  simp [ofHeading?, hxs]

theorem ofHeading?_reserved {xs : List Part} {args : List Expr} (hxs : xs.mapM expr? = some args)
    (word : ReservedWord) : ofHeading? (.reserved word) xs = some (expr (.reserved word args .none)) := by
  simp [ofHeading?, hxs]

theorem ofHeading?_declaration {xs : List Part} {others : List Declarator}
    (hxs : xs.mapM declarator? = some others) (type : DataType) (first : Declarator) :
    ofHeading? (.declaration type) (declarator first :: xs) =
      some (declaration ⟨type, first, others, .none⟩) := by
  simp [ofHeading?, declarator?, hxs]

theorem ofHeading?_output {xs : List Part} {ps : List Path} (hxs : xs.mapM path? = some ps)
    (newline : Bool) (template : String) :
    ofHeading? (.output newline template) xs = some (statement (.output newline template ps .none)) := by
  simp [ofHeading?, hxs]

theorem ofHeading?_block {xs : List Part} {ss : List Statement} (hxs : xs.mapM statement? = some ss) :
    ofHeading? (.mark .block) xs = some (block (.mk ss .none)) := by
  simp [ofHeading?, hxs]

theorem ofHeading?_program {xs : List Part} {ss : List Statement} (hxs : xs.mapM statement? = some ss) :
    ofHeading? (.mark .program) xs = some (program ⟨ss⟩) := by
  simp [ofHeading?, hxs]

end Part

namespace Outline

section

variable (R : Binary64 → Prop)

mutual

/-- The outline shows the part: its line is that of a heading, and its children show the parts that
    the part is put together from. -/
def Shows : Outline → Part → Prop
  | node kind value children, x =>
    ∃ (l : Heading) (xs : List Part), l.Legible R ∧ l.kind = kind ∧ l.value = value ∧
      AllShow children xs ∧ Part.ofHeading? l.bare xs = some x

/-- Every outline of the list shows the part at its place. -/
def AllShow : List Outline → List Part → Prop
  | [], xs => xs = []
  | o :: os, xs => ∃ y ys, xs = y :: ys ∧ Shows o y ∧ AllShow os ys

end

end

section

variable {R : Binary64 → Prop}

/-- A node shows what is read from its heading and from what its children show. -/
theorem Shows.ofHeading {l : Heading} (hl : l.Legible R) {children : List Outline} {xs : List Part} {x : Part}
    (hchildren : AllShow R children xs) (hx : Part.ofHeading? l.bare xs = some x) :
    Shows R (node l.kind l.value children) x :=
  ⟨l, xs, hl, rfl, rfl, hchildren, hx⟩

theorem AllShow.nil : AllShow R [] [] := rfl

/-- One more outline and its part in front. -/
theorem AllShow.cons {o : Outline} {os : List Outline} {x : Part} {xs : List Part} (ho : Shows R o x)
    (hos : AllShow R os xs) : AllShow R (o :: os) (x :: xs) :=
  ⟨x, xs, rfl, ho, hos⟩

mutual

/-- An outline that shows something has no line feeds in its values. -/
theorem plain_of_shows : ∀ {o : Outline} {x : Part}, Shows R o x → o.Plain
  | node kind value children, x, hshows => by
    obtain ⟨l, xs, hl, rfl, rfl, hchildren, -⟩ := hshows
    exact ⟨Heading.not_mem_value hl, allPlain_of_allShow hchildren⟩

/-- Outlines that show something are plain. -/
theorem allPlain_of_allShow : ∀ {os : List Outline} {xs : List Part}, AllShow R os xs → AllPlain os
  | [], _, _ => trivial
  | o :: os, _, hshow => by
    obtain ⟨y, ys, rfl, hy, hys⟩ := hshow
    exact ⟨plain_of_shows hy, allPlain_of_allShow hys⟩

end

mutual

/-- No outline shows two different things. -/
theorem eq_of_shows (hR : ∀ x y, R x → R y → x.text = y.text → x = y) :
    ∀ {o : Outline} {x x' : Part}, Shows R o x → Shows R o x' → x = x'
  | node kind value children, x, x', hshows, hshows' => by
    obtain ⟨l, xs, hl, rfl, rfl, hchildren, hx⟩ := hshows
    obtain ⟨l', xs', hl', hkind, hvalue, hchildren', hx'⟩ := hshows'
    rw [Heading.bare_eq_of_line_eq hR hl' hl hkind hvalue, eq_of_allShow hR hchildren' hchildren, hx] at hx'
    exact Option.some.inj hx'

/-- Outlines show one list of parts only, if the reals can be told by their text. -/
theorem eq_of_allShow (hR : ∀ x y, R x → R y → x.text = y.text → x = y) :
    ∀ {os : List Outline} {xs xs' : List Part}, AllShow R os xs → AllShow R os xs' → xs = xs'
  | [], _, _, hshow, hshow' => Eq.trans hshow (Eq.symm hshow')
  | o :: os, _, _, hshow, hshow' => by
    obtain ⟨y, ys, rfl, hy, hys⟩ := hshow
    obtain ⟨y', ys', rfl, hy', hys'⟩ := hshow'
    rw [eq_of_shows hR hy hy', eq_of_allShow hR hys hys']

end

end

end Outline

end GeoLang
