import GeoLang.Proofs.Braces.Count
import GeoLang.Proofs.Spelling.Terminal

namespace GeoLang

/-- As many braces are opened as are closed. -/
def Terminal.Paired (xs : List Terminal) : Prop := xs.count (.mark .lCurly) = xs.count (.mark .rCurly)

instance (xs : List Terminal) : Decidable (Terminal.Paired xs) :=
  inferInstanceAs (Decidable (_ = _))

/-- No brace is among them. -/
def Terminal.Braceless (xs : List Terminal) : Prop :=
  .mark .lCurly ∉ xs ∧ .mark .rCurly ∉ xs

namespace Terminal

variable {x : Terminal} {xs ys : List Terminal}

/-- Without braces everything is paired. -/
theorem Braceless.paired (hxs : Braceless xs) : Paired xs := by
  rw [Paired, List.count_eq_zero.2 hxs.1, List.count_eq_zero.2 hxs.2]

/-- Paired texts in turn are paired. -/
theorem Paired.append (hxs : Paired xs) (hys : Paired ys) : Paired (xs ++ ys) := by
  rw [Paired, List.count_append, List.count_append, hxs, hys]

/-- A terminal that is no brace may stand in front. -/
theorem Paired.cons (hx : x ≠ .mark .lCurly ∧ x ≠ .mark .rCurly) (hxs : Paired xs) :
    Paired (x :: xs) := by
  rw [Paired, List.count_cons_of_ne hx.1, List.count_cons_of_ne hx.2, hxs]

/-- A paired text may be put into braces. -/
theorem Paired.braced (hxs : Paired xs) : Paired (.mark .lCurly :: xs ++ [.mark .rCurly]) := by
  rw [Paired] at hxs
  simp [Paired, hxs]

/-- Paired texts in a row are paired. -/
theorem Paired.flatMap {α : Type} {as : List α} {f : α → List Terminal}
    (hf : ∀ a, Paired (f a)) : Paired (as.flatMap f) := by
  induction as with
  | nil => rfl
  | cons a as ih => exact (hf a).append ih

@[simp] theorem braceless_nil : Braceless [] := by simp [Braceless]

@[simp] theorem braceless_cons :
    Braceless (x :: xs) ↔ (x ≠ .mark .lCurly ∧ x ≠ .mark .rCurly) ∧ Braceless xs := by
  simp only [Braceless, List.mem_cons]
  grind

@[simp] theorem braceless_append : Braceless (xs ++ ys) ↔ Braceless xs ∧ Braceless ys := by
  simp only [Braceless, List.mem_append]
  grind

theorem braceless_flatMap {α : Type} {as : List α} {f : α → List Terminal}
    (hf : ∀ a ∈ as, Braceless (f a)) : Braceless (as.flatMap f) := by
  induction as with
  | nil => simp
  | cons a as ih =>
    obtain ⟨ha, has⟩ := List.forall_mem_cons.1 hf
    rw [List.flatMap_cons, braceless_append]
    exact ⟨ha, ih has⟩

end Terminal

open Terminal

/-- There are no braces in a path, nor in an expression, a declaration or a header. -/
theorem Path.braceless_terminals (p : Path) : Braceless p.terminals := by
  simp [terminals, braceless_flatMap]

mutual

/-- The recursion is that of the tree, with its two lists of arguments. -/
theorem Expr.braceless_terminals (e : Expr) : Braceless e.terminals := by
  cases e with
  | literal v s => simp [terminals]
  | path p => exact p.braceless_terminals
  | binary lhs op rhs s => simp [terminals, lhs.braceless_terminals, rhs.braceless_terminals]
  | unary op operand s => simp [terminals, operand.braceless_terminals]
  | post op operand s => simp [terminals, operand.braceless_terminals]
  | call callee args s =>
    simp [terminals, callee.braceless_terminals, Expr.braceless_argumentTerminals args]
  | grouped inner s => simp [terminals, inner.braceless_terminals]
  | reserved word args s => simp [terminals, Expr.braceless_argumentTerminals args]

theorem Expr.braceless_argumentTerminals (es : List Expr) : Braceless (argumentTerminals es) := by
  cases es with
  | nil => simp [argumentTerminals]
  | cons e es => simp [argumentTerminals, e.braceless_terminals, Expr.braceless_otherTerminals es]

theorem Expr.braceless_otherTerminals (es : List Expr) : Braceless (otherTerminals es) := by
  cases es with
  | nil => simp [otherTerminals]
  | cons e es => simp [otherTerminals, e.braceless_terminals, Expr.braceless_otherTerminals es]

end

theorem Declaration.braceless_terminals (d : Declaration) : Braceless d.terminals := by
  have hdeclarator (x : Declarator) : Braceless x.terminals := by
    have hunit : Braceless (x.unit.elim [] UnitSpecifier.terminals) := by
      cases x.unit with
      | none => simp
      | some u => cases hsquared : u.squared <;> simp [UnitSpecifier.terminals, hsquared]
    cases hinit : x.initializer with
    | none => simp [Declarator.terminals, hunit, hinit]
    | some e => simp [Declarator.terminals, hunit, hinit, e.braceless_terminals]
  have hothers : Braceless (d.others.flatMap fun y => .mark .comma :: y.terminals) :=
    braceless_flatMap fun y _ => by simp [hdeclarator]
  simp [terminals, hdeclarator, hothers]

theorem Simple.braceless_terminals (s : Simple) : Braceless s.terminals := by
  cases s with
  | assignment target op value span =>
    simp [terminals, target.braceless_terminals, value.braceless_terminals]
  | call callee args span =>
    simp [terminals, callee.braceless_terminals, Expr.braceless_argumentTerminals args]
  | expression e => exact e.braceless_terminals

theorem ForInit.braceless_terminals (i : ForInit) : Braceless i.terminals := by
  cases i with
  | declaration d => exact d.braceless_terminals
  | simple s => exact s.braceless_terminals

private theorem Path.paired_placeholderTerminals (p : Path) : Paired p.placeholderTerminals :=
  p.braceless_terminals.paired.braced

mutual

/-- Blocks and placeholders bring pairs, and nothing else brings braces. -/
theorem Statement.paired_terminals (s : Statement) : Paired s.terminals := by
  cases s with
  | declaration d => exact d.braceless_terminals.paired.append (by decide)
  | simple s => exact s.braceless_terminals.paired.append (by decide)
  | conditional c => exact c.paired_terminals
  | whileLoop condition body span =>
    have hheader : Braceless (.keyword .whileKw :: .mark .lParen :: condition.terminals) := by
      simp [condition.braceless_terminals]
    exact hheader.paired.append (body.paired_terminals.cons (by simp))
  | forLoop init condition update body span =>
    have hheader : Braceless (.keyword .forKw :: .mark .lParen :: init.terminals ++
        .mark .semicolon :: condition.terminals ++ .mark .semicolon :: update.terminals) := by
      simp [init.braceless_terminals, condition.braceless_terminals, update.braceless_terminals]
    exact hheader.paired.append (body.paired_terminals.cons (by simp))
  | repeatLoop count body span =>
    have hheader : Braceless (.keyword .repeatKw :: count.terminals) := by
      simp [count.braceless_terminals]
    exact hheader.paired.append (body.paired_terminals.cons (by simp))
  | output newline template placeholders span =>
    have hplaceholders : Paired (placeholders.flatMap Path.placeholderTerminals) :=
      .flatMap Path.paired_placeholderTerminals
    have htemplate : Paired (.literal (.string template) ::
        placeholders.flatMap Path.placeholderTerminals) := hplaceholders.cons (by simp)
    exact ((htemplate.cons (by simp)).cons (by simp)).append (by decide)
  | input span => exact of_decide_eq_true rfl

theorem Statement.paired_listTerminals (ss : List Statement) :
    Paired (Statement.listTerminals ss) := by
  cases ss with
  | nil => rfl
  | cons s ss => exact s.paired_terminals.append (Statement.paired_listTerminals ss)

theorem Block.paired_terminals (b : Block) : Paired b.terminals := by
  cases b with
  | mk statements span => exact (Statement.paired_listTerminals statements).braced

theorem Conditional.paired_terminals (c : Conditional) : Paired c.terminals := by
  cases c with
  | mk condition block clause otherwise span =>
    have hheader : Braceless (.keyword .ifKw :: .mark .lParen :: condition.terminals) := by
      simp [condition.braceless_terminals]
    exact (hheader.paired.append (block.paired_terminals.cons (by simp))).append
      otherwise.paired_terminals

theorem Otherwise.paired_terminals (o : Otherwise) : Paired o.terminals := by
  cases o with
  | nothing => rfl
  | block b => exact b.paired_terminals.cons (by simp)
  | conditional c => exact c.paired_terminals.cons (by simp)

end

namespace Grammar

private theorem isPunctuation_iff_of_fits {x : Terminal} {t : Token} (hfits : x.Fits t)
    {p : Punctuation}
    (hp : p ≠ .semicolon) : t.kind.isPunctuation p = true ↔ x = .mark p := by
  have hoperator : ∀ op, t.kind.operator? = some op → t.kind.isPunctuation p = false := by
    intro op hop
    cases hkind : t.kind <;> simp_all [TokenKind.operator?, TokenKind.isPunctuation]
  have hname : t.kind.isName = true → t.kind.isPunctuation p = false := by
    intro hname
    cases hkind : t.kind <;> simp_all [TokenKind.isName, TokenKind.isPunctuation]
  cases x with
  | operator op => simp [hoperator op hfits]
  | name s => simp [hname hfits.1]
  | terminator =>
    have hkind : t.kind = .punctuation .semicolon := hfits
    simpa [TokenKind.isPunctuation, hkind] using hp.symm
  | mark q =>
    have hkind : t.kind = .punctuation q := hfits
    simp [TokenKind.isPunctuation, hkind]
  | _ =>
    simp only [Terminal.Fits] at hfits
    simp [TokenKind.isPunctuation, hfits]

/-- The tokens of a tree have the braces that its terminals have. -/
theorem countP_of_written {xs : List Terminal} {ts : List Token} (hwritten : Written xs ts)
    {p : Punctuation} (hp : p ≠ .semicolon) :
    ts.countP (·.kind.isPunctuation p) = xs.count (.mark p) := by
  induction hwritten with
  | nil => rfl
  | @token x t xs ts hfits _ ih =>
    have hiff : t.kind.isPunctuation p = (x == .mark p) := by
      rw [Bool.eq_iff_iff, beq_iff_eq]
      exact isPunctuation_iff_of_fits hfits hp
    rw [List.countP_cons, List.count_cons, ih, hiff]
  | omitted _ ih => rw [ih, List.count_cons_of_ne (by simp)]

/-- What a tree stands for opens as many braces as it closes. -/
theorem opening_eq_closing_of_written {xs : List Terminal} {ts : List Token} (hxs : Terminal.Paired xs)
    (hwritten : Written xs ts) : opening ts = closing ts := by
  rw [opening, closing, countP_of_written hwritten (by decide), countP_of_written hwritten (by decide)]
  exact hxs

end Grammar

end GeoLang
