import GeoLang.Proofs.Source.Span
import GeoLang.Proofs.Spelling.Terminal

namespace GeoLang

/-- The span reaches from the first of the tokens to the last. -/
def Span.Bounds (s : Span) (ts : List Token) : Prop :=
  ∃ first ∈ ts.head?, ∃ last ∈ ts.getLast?, s = ⟨first.span.start, last.span.stop⟩

/-- The tokens are those of the parts, one part behind the other. -/
def InTurn : List (List Token → Prop) → List Token → Prop
  | [], ts => ts = []
  | part :: parts, ts => ∃ us vs, ts = us ++ vs ∧ part us ∧ InTurn parts vs

/-- The tokens are those of the parts, and the span bounds them. -/
def Span.Encloses (s : Span) (parts : List (List Token → Prop)) (ts : List Token) : Prop :=
  s.Bounds ts ∧ InTurn parts ts

/-- The path stands over its names and dots. -/
def Path.Over (p : Path) : List Token → Prop := p.span.Encloses [Written p.terminals]

mutual

/-- The expression stands over the tokens of its parts in turn. -/
def Expr.Over : Expr → List Token → Prop
  | .literal v s => s.Encloses [Written [.literal v]]
  | .path p => p.Over
  | .binary lhs op rhs s => s.Encloses [lhs.Over, Written [.operator op], rhs.Over]
  | .unary op operand s => s.Encloses [Written [.operator op], operand.Over]
  | .post op operand s => s.Encloses [operand.Over, Written [.operator op]]
  | .call callee args s => s.Encloses [callee.Over, Expr.ArgumentsOver args]
  | .grouped inner s => s.Encloses [Written [.mark .lParen], inner.Over, Written [.mark .rParen]]
  | .reserved word args s => s.Encloses [Written [.reserved word], Expr.ArgumentsOver args]

/-- Arguments stand in parentheses. -/
def Expr.ArgumentsOver : List Expr → List Token → Prop
  | [] => InTurn [Written [.mark .lParen], Written [.mark .rParen]]
  | e :: es =>
    InTurn [Written [.mark .lParen], e.Over, Expr.OthersOver es, Written [.mark .rParen]]

/-- Each argument but the first has a comma in front of it. -/
def Expr.OthersOver : List Expr → List Token → Prop
  | [] => InTurn []
  | e :: es => InTurn [InTurn [Written [.mark .comma], e.Over], Expr.OthersOver es]

end

/-- The unit stands over its tokens. -/
def UnitSpecifier.Over (u : UnitSpecifier) : List Token → Prop :=
  u.span.Encloses [Written u.terminals]

/-- A name, the unit if there is one, and the initializer behind its sign. -/
def Declarator.Over (x : Declarator) : List Token → Prop :=
  x.span.Encloses [Written [.identifier x.name], x.unit.elim (InTurn []) UnitSpecifier.Over,
    x.initializer.elim (InTurn []) fun e => InTurn [Written [.operator .assign], e.Over]]

/-- A declaration that is a statement may end with a semicolon, and then that is a part of it. -/
def Declaration.Over (terminated : Bool) (x : Declaration) : List Token → Prop :=
  x.span.Encloses [Written [.dataType x.type], x.first.Over,
    InTurn (x.others.map fun y => InTurn [Written [.mark .comma], y.Over]),
    Written (if terminated then [.terminator] else [])]

/-- The target, the operator and the value; or the callee and the arguments. -/
def Simple.Over : Simple → List Token → Prop
  | assignment target op value s => s.Encloses [target.Over, Written [.operator op], value.Over]
  | call callee args s => s.Encloses [callee.Over, Expr.ArgumentsOver args]
  | expression e => e.Over

def ForInit.Over : ForInit → List Token → Prop
  | declaration d => d.Over false
  | simple s => s.Over

/-- The path of a placeholder stands in braces. -/
def Path.PlaceholderOver (p : Path) : List Token → Prop :=
  InTurn [Written [.mark .lCurly], p.Over, Written [.mark .rCurly]]

/-- What stands `behind` a statement with the tokens `own` before the `rest` begins that does not
    belong to it. A simple statement leaves its semicolon there; a declaration leaves none, if one
    stands there it is the last of its own tokens. -/
def Statement.Leaves (own behind rest : List Token) : Statement → Prop
  | .simple _ => Written [.mark .semicolon] behind
  | .declaration _ => behind = [] ∧ ((∃ t ∈ rest.head?, t.kind = .punctuation .semicolon) →
      ∃ t ∈ own.getLast?, t.kind = .punctuation .semicolon)
  | _ => behind = []

mutual

/-- The statement stands over the tokens of its parts, with the semicolon that ends it where its
    form has one. -/
def Statement.Over : Statement → List Token → Prop
  | .declaration d => d.Over true
  | .simple s => s.Over
  | .conditional c => c.Over
  | .whileLoop condition body s => s.Encloses [Written [.keyword .whileKw],
      Written [.mark .lParen], condition.Over, Written [.mark .rParen], body.Over]
  | .forLoop init condition update body s => s.Encloses [Written [.keyword .forKw],
      Written [.mark .lParen], init.Over, Written [.mark .semicolon], condition.Over,
      Written [.mark .semicolon], update.Over, Written [.mark .rParen], body.Over]
  | .repeatLoop count body s => s.Encloses [Written [.keyword .repeatKw], count.Over,
      Written [.keyword .timesKw], body.Over]
  | .output newline template placeholders s => s.Encloses [
      Written [.keyword (outputKeyword newline)], Written [.mark .lParen],
      Written [.literal (.string template)], InTurn (placeholders.map Path.PlaceholderOver),
      Written [.mark .rParen], Written [.mark .semicolon]]
  | .input s => s.Encloses [Written [.keyword .inputKw], Written [.mark .lParen],
      Written [.mark .rParen], Written [.mark .semicolon]]

/-- The statements stand one behind the other. In front of each of them, and behind the last one,
    tokens may have been skipped. -/
def Statement.ListOver : List Statement → List Token → Prop
  | [], _ => True
  | s :: ss, ts => ∃ skipped own behind rest, ts = skipped ++ (own ++ (behind ++ rest)) ∧
      s.Over own ∧ s.Leaves own behind rest ∧ Statement.ListOver ss rest

/-- The statements in turn between two braces. -/
def Block.Over : Block → List Token → Prop
  | .mk statements s => s.Encloses [Written [.mark .lCurly], Statement.ListOver statements,
      Written [.mark .rCurly]]

/-- The clause is a construct of its own; what is done otherwise stands behind it. -/
def Conditional.Over : Conditional → List Token → Prop
  | .mk condition block clause otherwise s => s.Encloses [
      clause.Encloses [Written [.keyword .ifKw], Written [.mark .lParen], condition.Over,
        Written [.mark .rParen], block.Over],
      otherwise.Over]

/-- Nothing, or `else` and what stands behind it. -/
def Otherwise.Over : Otherwise → List Token → Prop
  | .nothing => InTurn []
  | .block b => InTurn [Written [.keyword .elseKw], b.Over]
  | .conditional c => InTurn [Written [.keyword .elseKw], c.Over]

end

private theorem inTurn_pair_iff {first second : List Token → Prop} {ts : List Token} :
    InTurn [first, second] ts ↔ ∃ us vs, ts = us ++ vs ∧ first us ∧ second vs := by
  constructor
  · rintro ⟨us, vs, rfl, hfirst, vs', _, rfl, hsecond, rfl⟩
    exact ⟨us, vs', by rw [List.append_nil], hfirst, hsecond⟩
  · rintro ⟨us, vs, rfl, hfirst, hsecond⟩
    exact ⟨us, vs, rfl, hfirst, vs, [], by rw [List.append_nil], hsecond, rfl⟩

theorem Expr.othersOver_iff {es : List Expr} {ts : List Token} :
    Expr.OthersOver es ts ↔
      InTurn (es.map fun e => InTurn [Written [.mark .comma], e.Over]) ts := by
  induction es generalizing ts with
  | nil => rfl
  | cons e es ih =>
    rw [OthersOver, inTurn_pair_iff, List.map_cons, InTurn]
    simp only [ih]

/-- Whatever node it is, its span bounds its tokens. -/
theorem Expr.Over.bounds {e : Expr} {ts : List Token} (hover : e.Over ts) : e.span.Bounds ts := by
  cases e with
  | _ => exact hover.1

/-- A conditional has the bounds of its tokens. -/
theorem Conditional.Over.bounds {c : Conditional} {ts : List Token} (hover : c.Over ts) :
    c.span.Bounds ts := by
  cases c
  exact hover.1

/-- What is just a call is a call statement over the same tokens. -/
theorem Simple.over_ofExpr {e : Expr} {ts : List Token} (hover : e.Over ts) :
    (Simple.ofExpr e).Over ts := by
  cases e with
  | _ => exact hover

/-- Of the tokens behind a statement only the first ones matter for what it leaves behind. -/
theorem Statement.Leaves.of_append {s : Statement} {own behind rest more : List Token}
    (hleaves : s.Leaves own behind (rest ++ more)) : s.Leaves own behind rest := by
  cases s with
  | declaration d =>
    refine ⟨hleaves.1, ?_⟩
    rintro ⟨t, ht, hkind⟩
    refine hleaves.2 ⟨t, ?_, hkind⟩
    rw [List.head?_append, ht]
    rfl
  | _ => exact hleaves

theorem Statement.ListOver.append_left {ss : List Statement} {ts : List Token} (us : List Token)
    (hover : ListOver ss ts) : ListOver ss (us ++ ts) := by
  cases ss with
  | nil => trivial
  | cons s ss =>
    obtain ⟨skipped, own, behind, rest, rfl, hparts⟩ := hover
    exact ⟨us ++ skipped, own, behind, rest, by rw [List.append_assoc], hparts⟩

end GeoLang
