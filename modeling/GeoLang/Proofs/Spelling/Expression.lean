import GeoLang.Proofs.Reading.Cursor
import GeoLang.Proofs.Reading.Expression
import GeoLang.Proofs.Spelling.Terminal

namespace GeoLang.Grammar

variable {α β : Type}

/-- The tokens between `c` and `d` write out the terminals. -/
def Cursor.Spells (c : Cursor) (xs : List Terminal) (d : Cursor) : Prop :=
  c.eof.kind = .eof → ∃ used, c.Reads used d ∧ Written xs used

namespace Cursor.Spells

theorem refl (c : Cursor) : c.Spells [] c := fun _ => ⟨[], .refl c, .nil⟩

theorem trans {c d e : Cursor} {xs ys : List Terminal} (hfirst : c.Spells xs d)
    (hsecond : d.Spells ys e) : c.Spells (xs ++ ys) e := by
  intro heof
  obtain ⟨used, hused, hxs⟩ := hfirst heof
  obtain ⟨more, hmore, hys⟩ := hsecond (by rw [hused.eof, heof])
  exact ⟨used ++ more, hused.trans hmore, hxs.append hys⟩

/-- The current token alone. -/
theorem token {c : Cursor} {x : Terminal} (hfits : x.Fits c.peek) : c.Spells [x] c.advance := by
  intro heof
  have hne := rest_ne_nil_of_peek heof hfits.kind_ne_eof
  exact ⟨[c.peek], reads_advance hne, .token hfits .nil⟩

/-- The current token, and what comes behind it. -/
theorem cons {c d : Cursor} {x : Terminal} {xs : List Terminal} (hfits : x.Fits c.peek)
    (hrest : c.advance.Spells xs d) : c.Spells (x :: xs) d :=
  (token hfits).trans hrest

/-- What stands in front of the current token, and that token. -/
theorem concat {c d : Cursor} {x : Terminal} {xs : List Terminal} (hrest : c.Spells xs d)
    (hfits : x.Fits d.peek) : c.Spells (xs ++ [x]) d.advance :=
  hrest.trans (token hfits)

end Cursor.Spells

/-- If each run of an item is read from the tokens that write out its value, so are all of them. -/
theorem Repeats.spells {next? : Token → Option β} {item : β → Rule α} {terminals : α → List Terminal}
    {c d : Cursor} {as : List α} {es : List ParseError} (hrepeats : Repeats next? item c as d es)
    (hitem : ∀ b c a d es, next? c.peek = some b → (item b).Returns c a d es → Clean es →
      c.Spells (terminals a) d)
    (hclean : Clean es) : c.Spells (as.flatMap terminals) d := by
  induction hrepeats with
  | stop => exact .refl _
  | stuck hnext hreturns =>
    simpa using hitem _ _ _ _ _ hnext hreturns hclean
  | more hnext hreturns _ _ ih =>
    obtain ⟨hfirst, hrest⟩ := Clean.append_iff.1 hclean
    rw [List.flatMap_cons]
    exact (hitem _ _ _ _ _ hnext hreturns hfirst).trans (ih hrest)

/-- The value that a rule gives without failing is written out by the tokens that it consumes. -/
def Rule.Spells (r : Rule α) (terminals : α → List Terminal) : Prop :=
  ∀ c a d es, r.Returns c a d es → Clean es → c.Spells (terminals a) d

theorem tooDeep_spells {terminals : α → List Terminal} : (tooDeep : Rule α).Spells terminals :=
  fun _ _ _ _ hreturns => absurd hreturns not_returns_tooDeep

/-- A path is read from its names and the points between them. -/
theorem path_spells : path.Spells Path.terminals := by
  intro c p d es hreturns hclean
  obtain ⟨hname, members, hmembers, rfl⟩ := returns_path_iff.1 hreturns
  refine .cons ⟨hname, rfl⟩ (hmembers.spells ?_ hclean)
  intro _ c s d es hdot hmember _
  obtain ⟨hname, rfl, rfl, rfl⟩ := returns_member_iff.1 hmember
  exact .cons (markAt_eq_some_iff.1 hdot) (.token ⟨hname, rfl⟩)

/-- Arguments are read from the tokens that they are written with, the commas among them. -/
theorem arguments_spells {expression : Rule Expr} (hexpression : expression.Spells Expr.terminals) :
    (arguments expression).Spells Expr.argumentTerminals := by
  intro c args d es hreturns hclean
  cases returns_arguments_iff.1 hreturns with
  | none hopen hclose => exact .cons hopen (.token hclose)
  | some hopen _ hfirst hothers hclose =>
    obtain ⟨hcleanFirst, hcleanOthers⟩ := Clean.append_iff.1 hclean
    rw [Expr.argumentTerminals, Expr.otherTerminals_eq_flatMap]
    have hfirst := hexpression _ _ _ _ hfirst hcleanFirst
    refine .concat (.trans (.cons hopen hfirst) (hothers.spells ?_ hcleanOthers)) hclose
    intro _ c e d es hcomma hargument hclean
    exact .cons (markAt_eq_some_iff.1 hcomma)
      (hexpression _ _ _ _ (returns_argument_iff.1 hargument) hclean)

private theorem pathExpression_spells {expression : Rule Expr}
    (hexpression : expression.Spells Expr.terminals) :
    (pathExpression expression).Spells Expr.terminals := by
  intro c e d es hreturns hclean
  cases returns_pathExpression_iff.1 hreturns with
  | call hpath hargs =>
    obtain ⟨hcleanPath, hcleanArgs⟩ := Clean.append_iff.1 hclean
    exact (path_spells _ _ _ _ hpath hcleanPath).trans
      (arguments_spells hexpression _ _ _ _ hargs hcleanArgs)
  | post hpath hstep =>
    obtain ⟨hop, _⟩ := stepAt_eq_some_iff.1 hstep
    exact (path_spells _ _ _ _ hpath hclean).concat hop
  | path hpath => exact path_spells _ _ _ _ hpath hclean

private theorem factorRule_spells {factor expression : Rule Expr}
    (hfactor : factor.Spells Expr.terminals)
    (hexpression : expression.Spells Expr.terminals) :
    (factorRule factor expression).Spells Expr.terminals := by
  intro c e d es hreturns hclean
  cases returns_factorRule_iff.1 hreturns with
  | unary hop _ hoperand =>
    have hfits : (Terminal.operator _).Fits c.peek := TokenKind.operator?_eq_some_iff.2 ⟨_, hop⟩
    exact .cons hfits (hfactor _ _ _ _ hoperand hclean)
  | literal hliteral => exact .token hliteral
  | grouped hopen hinner hclose =>
    exact .concat (.cons hopen (hexpression _ _ _ _ hinner hclean)) hclose
  | reserved hword _ hargs =>
    obtain ⟨hcleanArgs, _⟩ := Clean.append_iff.1 hclean
    exact .cons hword (arguments_spells hexpression _ _ _ _ hargs hcleanArgs)
  | path _ _ hpath =>
    exact pathExpression_spells hexpression _ _ _ _ (returns_pathExpression_iff.2 hpath) hclean

/-- Operands joined from the left are written out in a row, each with its operator in front. -/
theorem terminals_foldl_join (lhs : Expr) (links : List (Operator × Expr)) :
    (links.foldl Expr.join lhs).terminals =
      lhs.terminals ++ links.flatMap fun l => .operator l.1 :: l.2.terminals := by
  induction links generalizing lhs with
  | nil => simp
  | cons l ls ih => simp [ih, Expr.join, Expr.terminals]

private theorem binaryRule_spells {factor : Rule Expr} {operand : Nat → Rule Expr}
    (hfactor : factor.Spells Expr.terminals)
    (hoperand : ∀ least, (operand least).Spells Expr.terminals) (least : Nat) :
    (binaryRule factor operand least).Spells Expr.terminals := by
  intro c e d es hreturns hclean
  obtain ⟨lhs, c', es₁, links, es₂, hlhs, hlinks, rfl, rfl⟩ := returns_binaryRule_iff.1 hreturns
  obtain ⟨hcleanLhs, hcleanLinks⟩ := Clean.append_iff.1 hclean
  rw [terminals_foldl_join]
  refine (hfactor _ _ _ _ hlhs hcleanLhs).trans (hlinks.spells ?_ hcleanLinks)
  intro joint c l d es hjoint hlink hclean
  obtain ⟨rhs, hrhs, rfl⟩ := returns_link_iff.1 hlink
  obtain ⟨hop, _, _⟩ := jointAt_eq_some_iff.1 hjoint
  exact .cons hop (hoperand _ _ _ _ _ hrhs hclean)

private theorem binary_and_factor_spells (n : Nat) :
    (∀ least, (binary n least).Spells Expr.terminals) ∧ (factor n).Spells Expr.terminals := by
  induction n with
  | zero => exact ⟨fun _ => tooDeep_spells, tooDeep_spells⟩
  | succ n ih =>
    obtain ⟨hbinary, hfactor⟩ := ih
    exact ⟨binaryRule_spells hfactor hbinary, factorRule_spells hfactor (hbinary 1)⟩

/-- An expression is read from its own tokens. Numbers of arguments do not disturb this. -/
theorem expression_spells (n : Nat) : (expression n).Spells Expr.terminals :=
  (binary_and_factor_spells n).1 1

end GeoLang.Grammar
