import GeoLang.Tree.Listing

namespace GeoLang

variable {good : Span → Prop}

/-- The span of the path is good. -/
def Path.Placed (good : Span → Prop) (p : Path) : Prop := good p.span

/-- Every span inside of the expression is good; the listing of its rows has them all. -/
def Expr.Placed (good : Span → Prop) (e : Expr) : Prop :=
  ∀ depth, ∀ row ∈ e.rows depth, good row.span

def UnitSpecifier.Placed (good : Span → Prop) (u : UnitSpecifier) : Prop := good u.span

def Declarator.Placed (good : Span → Prop) (d : Declarator) : Prop :=
  ∀ depth, ∀ row ∈ d.rows depth, good row.span

def Declaration.Placed (good : Span → Prop) (d : Declaration) : Prop :=
  ∀ depth, ∀ row ∈ d.rows depth, good row.span

def Simple.Placed (good : Span → Prop) (s : Simple) : Prop :=
  ∀ depth, ∀ row ∈ s.rows depth, good row.span

def ForInit.Placed (good : Span → Prop) (i : ForInit) : Prop :=
  ∀ depth, ∀ row ∈ i.rows depth, good row.span

def Statement.Placed (good : Span → Prop) (s : Statement) : Prop :=
  ∀ depth, ∀ row ∈ s.rows depth, good row.span

def Block.Placed (good : Span → Prop) (b : Block) : Prop :=
  ∀ depth, ∀ row ∈ b.rows depth, good row.span

/-- The rows of a conditional are those of its clauses; its own span stands in front of them. -/
structure Conditional.Placed (good : Span → Prop) (c : Conditional) : Prop where
  span : good c.span
  rows : ∀ depth, ∀ row ∈ c.rows depth, good row.span

def Otherwise.Placed (good : Span → Prop) (o : Otherwise) : Prop :=
  ∀ depth, ∀ row ∈ o.rows depth, good row.span

/-- Every span of the program is good. -/
def Program.Placed (good : Span → Prop) (p : Program) : Prop := ∀ row ∈ p.rows, good row.span

theorem Path.span_row (depth : Nat) (p : Path) : (p.row depth).span = p.span := by
  unfold row
  split <;> rfl

theorem Path.Placed.row {p : Path} (hp : p.Placed good) (depth : Nat) : good (p.row depth).span := by
  rw [span_row]
  exact hp

namespace Expr

/-- The first row of an expression is its own. -/
theorem Placed.span {e : Expr} (he : e.Placed good) : good e.span := by
  have hfirst := he 0
  cases e with
  | path p =>
    have hrow := hfirst (p.row 0) (by simp [rows])
    rwa [Path.span_row] at hrow
  | literal | binary | unary | post | call | grouped | reserved =>
    exact hfirst _ (by rw [rows]; exact List.mem_cons_self)

/-- The spans of a list of expressions are those of its members. -/
theorem placed_rowsOf {es : List Expr} (hes : ∀ e ∈ es, e.Placed good) (depth : Nat) :
    ∀ row ∈ rowsOf depth es, good row.span := by
  induction es with
  | nil => simp [rowsOf]
  | cons e es ih =>
    intro row hrow
    obtain ⟨he, hrest⟩ := List.forall_mem_cons.1 hes
    rw [rowsOf, List.mem_append] at hrow
    obtain hrow | hrow := hrow
    · exact he depth row hrow
    · exact ih hrest row hrow

theorem placed_literal (v : Literal) {s : Span} (hs : good s) : (literal v s).Placed good := by
  intro depth row hrow
  obtain rfl := List.mem_singleton.1 hrow
  exact hs

theorem placed_path {p : Path} (hp : p.Placed good) : (path p).Placed good := by
  intro depth row hrow
  obtain rfl := List.mem_singleton.1 hrow
  exact hp.row depth

/-- A node is placed when its span is good and its parts are placed, here and below. -/
theorem placed_binary {lhs rhs : Expr} (op : Operator) {s : Span} (hs : good s)
    (hlhs : lhs.Placed good) (hrhs : rhs.Placed good) : (binary lhs op rhs s).Placed good := by
  intro depth row hrow
  rw [rows, List.cons_append, List.mem_cons, List.mem_append] at hrow
  obtain rfl | hrow | hrow := hrow
  · exact hs
  · exact hlhs _ row hrow
  · exact hrhs _ row hrow

theorem placed_unary (op : Operator) {operand : Expr} {s : Span} (hs : good s)
    (hoperand : operand.Placed good) : (unary op operand s).Placed good := by
  intro depth row hrow
  obtain rfl | hrow := List.mem_cons.1 hrow
  · exact hs
  · exact hoperand _ row hrow

theorem placed_post (op : Operator) {operand : Path} {s : Span} (hs : good s)
    (hoperand : operand.Placed good) : (post op operand s).Placed good := by
  intro depth row hrow
  obtain rfl | hrow := List.mem_cons.1 hrow
  · exact hs
  · obtain rfl := List.mem_singleton.1 hrow
    exact hoperand.row _

theorem placed_call {callee : Path} {args : List Expr} {s : Span} (hs : good s)
    (hcallee : callee.Placed good) (hargs : ∀ e ∈ args, e.Placed good) :
    (call callee args s).Placed good := by
  intro depth row hrow
  rw [rows, List.mem_cons, List.mem_cons] at hrow
  obtain rfl | rfl | hrow := hrow
  · exact hs
  · exact hcallee.row _
  · exact placed_rowsOf hargs _ row hrow

theorem placed_grouped {inner : Expr} {s : Span} (hs : good s) (hinner : inner.Placed good) :
    (grouped inner s).Placed good := by
  intro depth row hrow
  obtain rfl | hrow := List.mem_cons.1 hrow
  · exact hs
  · exact hinner _ row hrow

theorem placed_reserved (word : ReservedWord) {args : List Expr} {s : Span} (hs : good s)
    (hargs : ∀ e ∈ args, e.Placed good) : (reserved word args s).Placed good := by
  intro depth row hrow
  obtain rfl | hrow := List.mem_cons.1 hrow
  · exact hs
  · exact placed_rowsOf hargs _ row hrow

end Expr

theorem Declarator.placed {name : String} {unit : Option UnitSpecifier} {initializer : Option Expr}
    {s : Span} (hs : good s) (hunit : ∀ u ∈ unit, u.Placed good)
    (hinitializer : ∀ e ∈ initializer, e.Placed good) :
    (Declarator.mk name unit initializer s).Placed good := by
  intro depth row hrow
  rw [rows, List.cons_append, List.mem_cons, List.mem_append] at hrow
  obtain rfl | hrow | hrow := hrow
  · exact hs
  · obtain ⟨u, hu, rfl⟩ := Option.map_eq_some_iff.1 (Option.mem_toList.1 hrow)
    exact hunit u hu
  · cases initializer with
    | none => cases hrow
    | some e => exact hinitializer e rfl _ row hrow

theorem Declaration.placed {type : DataType} {first : Declarator} {others : List Declarator}
    {s : Span} (hs : good s) (hfirst : first.Placed good) (hothers : ∀ d ∈ others, d.Placed good) :
    (Declaration.mk type first others s).Placed good := by
  intro depth row hrow
  obtain rfl | hrow := List.mem_cons.1 hrow
  · exact hs
  · obtain ⟨d, hd, hpart⟩ := List.mem_flatMap.1 hrow
    obtain rfl | hd := List.mem_cons.1 hd
    · exact hfirst _ row hpart
    · exact hothers d hd _ row hpart

namespace Simple

theorem placed_assignment {target : Path} (op : Operator) {value : Expr} {s : Span} (hs : good s)
    (htarget : target.Placed good) (hvalue : value.Placed good) :
    (assignment target op value s).Placed good := by
  intro depth row hrow
  rw [rows, List.mem_cons, List.mem_cons] at hrow
  obtain rfl | rfl | hrow := hrow
  · exact hs
  · exact htarget.row _
  · exact hvalue _ row hrow

theorem placed_expression {e : Expr} (he : e.Placed good) : (expression e).Placed good := by
  intro depth row hrow
  obtain rfl | hrow := List.mem_cons.1 hrow
  · exact he.span
  · exact he _ row hrow

/-- A call statement has the nodes of the call. -/
theorem placed_ofExpr {e : Expr} (he : e.Placed good) : (ofExpr e).Placed good := by
  cases e with
  | call callee args s =>
    intro depth row hrow
    rw [ofExpr, rows, List.mem_cons] at hrow
    obtain rfl | hrow := hrow
    · exact he.span
    · exact he depth row (by rw [Expr.rows]; exact List.mem_cons_of_mem _ hrow)
  | literal | path | binary | unary | post | grouped | reserved => exact placed_expression he

end Simple

namespace Statement

/-- The spans of a list of statements are those of its members. -/
theorem placed_rowsOf {ss : List Statement} (hss : ∀ s ∈ ss, s.Placed good) (depth : Nat) :
    ∀ row ∈ rowsOf depth ss, good row.span := by
  induction ss with
  | nil => simp [rowsOf]
  | cons s ss ih =>
    intro row hrow
    obtain ⟨hs, hrest⟩ := List.forall_mem_cons.1 hss
    rw [rowsOf, List.mem_append] at hrow
    obtain hrow | hrow := hrow
    · exact hs depth row hrow
    · exact ih hrest row hrow

theorem placed_conditional {c : Conditional} (hc : c.Placed good) : (conditional c).Placed good := by
  intro depth row hrow
  obtain rfl | hrow := List.mem_cons.1 hrow
  · exact hc.span
  · exact hc.rows _ row hrow

theorem placed_whileLoop {condition : Expr} {body : Block} {s : Span} (hs : good s)
    (hcondition : condition.Placed good) (hbody : body.Placed good) :
    (whileLoop condition body s).Placed good := by
  intro depth row hrow
  rw [rows, List.cons_append, List.mem_cons, List.mem_append] at hrow
  obtain rfl | hrow | hrow := hrow
  · exact hs
  · exact hcondition _ row hrow
  · exact hbody _ row hrow

theorem placed_forLoop {init : ForInit} {condition : Expr} {update : Simple} {body : Block}
    {s : Span} (hs : good s) (hinit : init.Placed good) (hcondition : condition.Placed good)
    (hupdate : update.Placed good) (hbody : body.Placed good) :
    (forLoop init condition update body s).Placed good := by
  intro depth row hrow
  simp only [rows, List.cons_append, List.append_assoc, List.mem_cons, List.mem_append] at hrow
  obtain rfl | hrow | hrow | hrow | hrow := hrow
  · exact hs
  · exact hinit _ row hrow
  · exact hcondition _ row hrow
  · exact hupdate _ row hrow
  · exact hbody _ row hrow

theorem placed_repeatLoop {count : Expr} {body : Block} {s : Span} (hs : good s)
    (hcount : count.Placed good) (hbody : body.Placed good) :
    (repeatLoop count body s).Placed good := by
  intro depth row hrow
  rw [rows, List.cons_append, List.mem_cons, List.mem_append] at hrow
  obtain rfl | hrow | hrow := hrow
  · exact hs
  · exact hcount _ row hrow
  · exact hbody _ row hrow

theorem placed_output (newline : Bool) (template : String) {placeholders : List Path} {s : Span}
    (hs : good s) (hplaceholders : ∀ p ∈ placeholders, p.Placed good) :
    (output newline template placeholders s).Placed good := by
  intro depth row hrow
  obtain rfl | hrow := List.mem_cons.1 hrow
  · exact hs
  · obtain ⟨p, hp, rfl⟩ := List.mem_map.1 hrow
    exact (hplaceholders p hp).row _

theorem placed_input {s : Span} (hs : good s) : (input s).Placed good := by
  intro depth row hrow
  obtain rfl := List.mem_singleton.1 hrow
  exact hs

end Statement

theorem Block.placed {statements : List Statement} {s : Span} (hs : good s)
    (hstatements : ∀ x ∈ statements, x.Placed good) : (Block.mk statements s).Placed good := by
  intro depth row hrow
  obtain rfl | hrow := List.mem_cons.1 hrow
  · exact hs
  · exact Statement.placed_rowsOf hstatements _ row hrow

theorem Conditional.placed {condition : Expr} {block : Block} {clause : Span}
    {otherwise : Otherwise} {s : Span} (hs : good s) (hclause : good clause)
    (hcondition : condition.Placed good) (hblock : block.Placed good)
    (hotherwise : otherwise.Placed good) :
    (Conditional.mk condition block clause otherwise s).Placed good := by
  refine ⟨hs, ?_⟩
  intro depth row hrow
  simp only [rows, List.cons_append, List.append_assoc, List.mem_cons, List.mem_append] at hrow
  obtain rfl | hrow | hrow | hrow := hrow
  · exact hclause
  · exact hcondition _ row hrow
  · exact hblock _ row hrow
  · exact hotherwise _ row hrow

theorem Otherwise.placed_conditional {c : Conditional} (hc : c.Placed good) :
    (Otherwise.conditional c).Placed good := by
  intro depth row hrow
  obtain rfl | hrow := List.mem_cons.1 hrow
  · exact hc.span
  · exact hc.rows _ row hrow

theorem Otherwise.placed_nothing : Otherwise.nothing.Placed good := by
  intro depth row hrow
  cases hrow

end GeoLang
