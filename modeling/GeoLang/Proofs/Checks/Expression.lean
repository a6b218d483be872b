import GeoLang.Proofs.Checks.Tree
import GeoLang.Proofs.Reading.Simple

namespace GeoLang.Grammar

variable {α β : Type}

/-- If the rule succeeds, it noted just the faults of its value. -/
def Rule.Notes (r : Rule α) (faults : α → List ParseError) : Prop :=
  ∀ c a d es, r.Returns c a d es → es = faults a

/-- Below the last level nothing is returned that could have faults. -/
theorem tooDeep_notes {faults : α → List ParseError} : (tooDeep : Rule α).Notes faults :=
  fun _ _ _ _ hreturns => absurd hreturns not_returns_tooDeep

/-- An item that is run again and again notes the faults of its values one after the other. -/
theorem Repeats.notes {next? : Token → Option β} {item : β → Rule α} {faults : α → List ParseError}
    (hitem : ∀ b, (item b).Notes faults) {c d : Cursor} {as : List α} {es : List ParseError}
    (hrepeats : Repeats next? item c as d es) : es = as.flatMap faults := by
  induction hrepeats with
  | stop => rfl
  | stuck _ hreturns => simpa using hitem _ _ _ _ _ hreturns
  | more _ hreturns _ _ ih => rw [List.flatMap_cons, ← hitem _ _ _ _ _ hreturns, ← ih]

/-- Paths have no faults. -/
theorem path_notes : path.Notes fun _ => [] := by
  intro c p d es hreturns
  obtain ⟨_, members, hmembers, rfl⟩ := returns_path_iff.1 hreturns
  have hmember : member.Notes fun _ => [] := by
    intro c s d es hreturns
    obtain ⟨_, _, _, rfl⟩ := returns_member_iff.1 hreturns
    rfl
  rw [hmembers.notes fun _ => hmember]
  exact List.flatMap_eq_nil_iff.2 fun _ _ => rfl

section

variable {expression : Rule Expr} (hexpression : expression.Notes Expr.faults)

include hexpression

/-- The faults of the arguments are noted in turn. -/
theorem arguments_notes : (arguments expression).Notes Expr.listFaults := by
  intro c args d es hreturns
  cases returns_arguments_iff.1 hreturns with
  | none => rfl
  | some _ _ hfirst hothers _ =>
    have hargument : (argument expression).Notes Expr.faults := fun _ _ _ _ hreturns =>
      hexpression _ _ _ _ (returns_argument_iff.1 hreturns)
    rw [Expr.listFaults, Expr.listFaults_eq_flatMap, hexpression _ _ _ _ hfirst,
      hothers.notes fun _ => hargument]

private theorem factorRule_notes {factor : Rule Expr} (hfactor : factor.Notes Expr.faults) :
    (factorRule factor expression).Notes Expr.faults := by
  intro c e d es hreturns
  have harguments := arguments_notes hexpression
  cases returns_factorRule_iff.1 hreturns with
  | unary _ _ hoperand => rw [Expr.faults, hfactor _ _ _ _ hoperand]
  | literal => rfl
  | grouped _ hinner _ => rw [Expr.faults, hexpression _ _ _ _ hinner]
  | reserved _ _ hargs => rw [Expr.faults, harguments _ _ _ _ hargs]
  | path _ _ hpath =>
    cases hpath with
    | call hcallee hargs =>
      rw [Expr.faults, path_notes _ _ _ _ hcallee, harguments _ _ _ _ hargs, List.nil_append]
    | post hoperand => exact path_notes _ _ _ _ hoperand
    | path hpath => exact path_notes _ _ _ _ hpath

end

private theorem binaryRule_notes {factor : Rule Expr} {operand : Nat → Rule Expr}
    (hfactor : factor.Notes Expr.faults) (hoperand : ∀ least, (operand least).Notes Expr.faults)
    (least : Nat) : (binaryRule factor operand least).Notes Expr.faults := by
  intro c e d es hreturns
  obtain ⟨lhs, c', es₁, links, es₂, hlhs, hlinks, rfl, rfl⟩ := returns_binaryRule_iff.1 hreturns
  have hlink : ∀ joint, (link operand joint).Notes fun l => l.2.faults := by
    intro joint c l d es hreturns
    obtain ⟨rhs, hrhs, rfl⟩ := returns_link_iff.1 hreturns
    exact hoperand _ _ _ _ _ hrhs
  rw [Expr.faults_foldl_join, hfactor _ _ _ _ hlhs, hlinks.notes hlink]

private theorem binary_and_factor_note (n : Nat) :
    (∀ least, (binary n least).Notes Expr.faults) ∧ (factor n).Notes Expr.faults := by
  induction n with
  | zero => exact ⟨fun _ => tooDeep_notes, tooDeep_notes⟩
  | succ n ih =>
    obtain ⟨hbinary, hfactor⟩ := ih
    exact ⟨binaryRule_notes hfactor hbinary, factorRule_notes (hbinary 1) hfactor⟩

/-- An expression notes its faults, by induction on the levels that are left. -/
theorem expression_notes (n : Nat) : (expression n).Notes Expr.faults :=
  (binary_and_factor_note n).1 1

section

variable {expression : Rule Expr} (hexpression : expression.Notes Expr.faults)

include hexpression

private theorem declarator_notes (type : DataType) :
    (declarator expression type).Notes (Declarator.faults type) := by
  intro c x d es hreturns
  obtain ⟨name, unit, c', init, _, _, hinit, rfl⟩ := returns_declarator_iff.1 hreturns
  cases hinit with
  | some _ hvalue => rw [hexpression _ _ _ _ hvalue, Declarator.faults, Option.elim_some]
  | none => rfl

/-- A literal of another type is a fault of its declarator. -/
theorem declaration_notes (terminated : Bool) (type : DataType) :
    (declaration expression terminated type).Notes Declaration.faults := by
  intro c x d es hreturns
  obtain ⟨first, c₁, es₁, others, c₂, es₂, hfirst, hothers, _, rfl, rfl⟩ :=
    returns_declaration_iff.1 hreturns
  have hdeclarator := declarator_notes hexpression type
  have hnext : (nextDeclarator expression type).Notes (Declarator.faults type) :=
    fun _ _ _ _ hreturns => hdeclarator _ _ _ _ (returns_nextDeclarator_iff.1 hreturns)
  rw [Declaration.faults, Declaration.declarators, List.flatMap_cons, hdeclarator _ _ _ _ hfirst,
    hothers.notes fun _ => hnext]

theorem assignment_notes : (assignment expression).Notes Simple.faults := by
  intro c s d es hreturns
  obtain ⟨target, c', es₁, op, value, es₂, htarget, _, hvalue, rfl, rfl⟩ :=
    returns_assignment_iff.1 hreturns
  rw [Simple.faults, path_notes _ _ _ _ htarget, hexpression _ _ _ _ hvalue, List.nil_append]

/-- What stands in front of a semicolon notes its faults. -/
theorem simple_notes : (simple expression).Notes Simple.faults := by
  intro c s d es hreturns
  cases returns_simple_iff.1 hreturns with
  | assignment _ hassignment => exact assignment_notes hexpression _ _ _ _ hassignment
  | expression _ hreturns =>
    rw [Simple.faults_ofExpr]
    exact hexpression _ _ _ _ hreturns

theorem update_notes : (update expression).Notes Simple.faults := by
  intro c s d es hreturns
  cases returns_update_iff.1 hreturns with
  | before _ hoperand => exact path_notes _ _ _ _ hoperand
  | assignment _ _ hassignment => exact assignment_notes hexpression _ _ _ _ hassignment
  | behind _ _ hoperand _ => exact path_notes _ _ _ _ hoperand

theorem forInit_notes : (forInit expression).Notes ForInit.faults := by
  intro c i d es hreturns
  cases returns_forInit_iff.1 hreturns with
  | declaration _ hdeclaration => exact declaration_notes hexpression _ _ _ _ _ _ hdeclaration
  | simple _ hsimple => exact simple_notes hexpression _ _ _ _ hsimple

end

end GeoLang.Grammar
