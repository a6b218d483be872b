import GeoLang.Proofs.Height.Tree
import GeoLang.Proofs.Reading.Program

namespace GeoLang.Grammar

variable {α β : Type}

/-- If the rule succeeds, its value has the property. -/
def Rule.Gives (r : Rule α) (property : α → Prop) : Prop :=
  ∀ c a d es, r.Returns c a d es → property a

/-- Below the last level nothing is given. -/
theorem tooDeep_gives {property : α → Prop} : (tooDeep : Rule α).Gives property :=
  fun _ _ _ _ hreturns => absurd hreturns not_returns_tooDeep

/-- What all turns of a loop give, all members have. -/
theorem Repeats.gives {next? : Token → Option β} {item : β → Rule α} {property : α → Prop}
    (hitem : ∀ b, (item b).Gives property) {c d : Cursor} {as : List α} {es : List ParseError}
    (hrepeats : Repeats next? item c as d es) : ∀ a ∈ as, property a := by
  induction hrepeats with
  | stop => exact List.forall_mem_nil _
  | stuck _ hreturns _ => exact List.forall_mem_singleton.2 (hitem _ _ _ _ _ hreturns)
  | more _ hreturns _ _ ih => exact List.forall_mem_cons.2 ⟨hitem _ _ _ _ _ hreturns, ih⟩

section

variable {n : Nat} {expression : Rule Expr} (hexpression : expression.Gives fun e => e.levels ≤ n)

include hexpression

private theorem arguments_gives :
    (arguments expression).Gives fun args => ∀ e ∈ args, e.levels ≤ n := by
  intro c args d es hreturns
  cases returns_arguments_iff.1 hreturns with
  | none => exact List.forall_mem_nil _
  | some _ _ hfirst hothers _ =>
    have hargument : (argument expression).Gives fun e => e.levels ≤ n := fun _ _ _ _ hreturns =>
      hexpression _ _ _ _ (returns_argument_iff.1 hreturns)
    exact List.forall_mem_cons.2
      ⟨hexpression _ _ _ _ hfirst, hothers.gives fun _ => hargument⟩

/-- The lowest operand with another one below is a step behind a path. -/
theorem factorRule_gives {factor : Rule Expr} (hpos : 1 ≤ n)
    (hfactor : factor.Gives fun e => e.levels ≤ n) :
    (factorRule factor expression).Gives fun e => e.levels ≤ n + 1 := by
  intro c e d es hreturns
  have harguments := arguments_gives hexpression
  cases returns_factorRule_iff.1 hreturns with
  | unary _ _ hoperand => exact Nat.succ_le_succ (hfactor _ _ _ _ hoperand)
  | literal => exact Nat.le_add_left 1 n
  | grouped _ hinner _ => exact Nat.succ_le_succ (hexpression _ _ _ _ hinner)
  | reserved _ _ hargs =>
    exact Nat.succ_le_succ (Expr.listLevels_le_iff.2 (harguments _ _ _ _ hargs))
  | path _ _ hpath =>
    cases hpath with
    | call _ hargs =>
      exact Nat.succ_le_succ
        (Nat.max_le.2 ⟨hpos, Expr.listLevels_le_iff.2 (harguments _ _ _ _ hargs)⟩)
    | post => exact Nat.succ_le_succ hpos
    | path => exact Nat.le_add_left 1 n

end

private theorem binaryRule_gives {n : Nat} {factor : Rule Expr} {operand : Nat → Rule Expr}
    (hfactor : factor.Gives fun e => e.levels ≤ n)
    (hoperand : ∀ least, (operand least).Gives fun e => e.levels ≤ n) (least : Nat) :
    (binaryRule factor operand least).Gives fun e => e.levels ≤ n + 1 := by
  intro c e d es hreturns
  obtain ⟨lhs, c', es₁, links, es₂, hlhs, hlinks, rfl, _⟩ := returns_binaryRule_iff.1 hreturns
  have hlink : ∀ joint, (link operand joint).Gives fun l => l.2.levels ≤ n := by
    intro joint c l d es hreturns
    obtain ⟨rhs, hrhs, rfl⟩ := returns_link_iff.1 hreturns
    exact hoperand _ _ _ _ _ hrhs
  have hfirst : lhs.RowWithin n := .inl (hfactor _ _ _ _ hlhs)
  obtain hrow | ⟨_, hrow⟩ := hfirst.foldl_join (hlinks.gives hlink)
  · exact Nat.le_succ_of_le hrow
  · exact hrow

/-- With `n` levels of nesting left, an expression has at most one level more. -/
theorem binary_and_factor_give (n : Nat) :
    (∀ least, (binary n least).Gives fun e => e.levels ≤ n + 1) ∧
      (factor n).Gives fun e => e.levels ≤ n + 1 := by
  induction n with
  | zero => exact ⟨fun _ => tooDeep_gives, tooDeep_gives⟩
  | succ n ih =>
    obtain ⟨hbinary, hfactor⟩ := ih
    exact ⟨binaryRule_gives hfactor hbinary,
      factorRule_gives (hbinary 1) (Nat.le_add_left 1 n) hfactor⟩

section

variable {n : Nat} {expression : Rule Expr} (hexpression : expression.Gives fun e => e.levels ≤ n)

include hexpression

private theorem declarator_gives (type : DataType) :
    (declarator expression type).Gives fun x => ∀ e ∈ x.initializer, e.levels ≤ n := by
  intro c x d es hreturns
  obtain ⟨name, unit, c', init, _, _, hinit, rfl⟩ := returns_declarator_iff.1 hreturns
  cases hinit with
  | some _ hvalue =>
    rintro e ⟨⟩
    exact hexpression _ _ _ _ hvalue
  | none => simp

/-- The initializers of a declaration have no more levels than are left. -/
theorem declaration_gives (terminated : Bool) (type : DataType) :
    (declaration expression terminated type).Gives fun x => ∀ e ∈ x.expressions, e.levels ≤ n := by
  intro c x d es hreturns e he
  obtain ⟨first, c₁, es₁, others, c₂, es₂, hfirst, hothers, _, _, rfl⟩ :=
    returns_declaration_iff.1 hreturns
  have hdeclarator := declarator_gives hexpression type
  have hnext : (nextDeclarator expression type).Gives fun x => ∀ e ∈ x.initializer, e.levels ≤ n :=
    fun _ _ _ _ hreturns => hdeclarator _ _ _ _ (returns_nextDeclarator_iff.1 hreturns)
  have hall := List.forall_mem_cons.2
    ⟨hdeclarator _ _ _ _ hfirst, hothers.gives fun _ => hnext⟩
  obtain ⟨x, hx, hinit⟩ := List.mem_filterMap.1 he
  exact hall x hx e hinit

theorem assignment_gives (hpos : 1 ≤ n) :
    (assignment expression).Gives fun s => ∀ e ∈ s.expressions, e.levels ≤ n := by
  intro c s d es hreturns
  obtain ⟨target, c', es₁, op, value, es₂, _, _, hvalue, rfl, _⟩ := returns_assignment_iff.1 hreturns
  exact List.forall_mem_cons.2 ⟨hpos, List.forall_mem_singleton.2 (hexpression _ _ _ _ hvalue)⟩

/-- The target of an assignment counts as an expression of one level. -/
theorem simple_gives (hpos : 1 ≤ n) :
    (simple expression).Gives fun s => ∀ e ∈ s.expressions, e.levels ≤ n := by
  intro c s d es hreturns
  cases returns_simple_iff.1 hreturns with
  | assignment _ hassignment => exact assignment_gives hexpression hpos _ _ _ _ hassignment
  | expression _ hreturns =>
    rw [Simple.expressions_ofExpr]
    exact List.forall_mem_singleton.2 (hexpression _ _ _ _ hreturns)

private theorem update_gives (htwo : 2 ≤ n) :
    (update expression).Gives fun s => ∀ e ∈ s.expressions, e.levels ≤ n := by
  intro c s d es hreturns
  cases returns_update_iff.1 hreturns with
  | before => exact List.forall_mem_singleton.2 htwo
  | assignment _ _ hassignment =>
    exact assignment_gives hexpression (Nat.le_of_succ_le htwo) _ _ _ _ hassignment
  | behind => exact List.forall_mem_singleton.2 htwo

private theorem terminatedSimple_gives (hpos : 1 ≤ n) :
    (terminatedSimple expression).Gives fun s => ∀ e ∈ s.expressions, e.levels ≤ n := by
  intro c s d es hreturns
  obtain ⟨x, c', hsimple, _, _, rfl⟩ := returns_terminatedSimple_iff.1 hreturns
  exact simple_gives hexpression hpos _ _ _ _ hsimple

private theorem forInit_gives (hpos : 1 ≤ n) :
    (forInit expression).Gives fun i => ∀ e ∈ i.expressions, e.levels ≤ n := by
  intro c i d es hreturns
  cases returns_forInit_iff.1 hreturns with
  | declaration _ hdeclaration => exact declaration_gives hexpression _ _ _ _ _ _ hdeclaration
  | simple _ hsimple => exact simple_gives hexpression hpos _ _ _ _ hsimple

end

private theorem output_gives {n : Nat} (hpos : 1 ≤ n) (newline : Bool) :
    (output newline).Gives fun s => ∀ e ∈ s.expressions, e.levels ≤ n := by
  intro c s d es hreturns e he
  obtain ⟨_, text, placeholders, c', _, _, _, _, _, rfl⟩ := returns_output_iff.1 hreturns
  obtain ⟨p, _, rfl⟩ := List.mem_map.1 he
  exact hpos

private theorem input_gives {n : Nat} : input.Gives fun s => ∀ e ∈ s.expressions, e.levels ≤ n := by
  intro c s d es hreturns
  obtain ⟨_, _, _, _, _, rfl, _⟩ := returns_input_iff.1 hreturns
  exact List.forall_mem_nil _

section

variable {n : Nat} {expression : Rule Expr} {conditional : Rule Conditional} {block : Rule Block}
  (hexpression : expression.Gives fun e => e.levels ≤ n)
  (hconditional : conditional.Gives fun x => ∀ e ∈ x.expressions, e.levels ≤ n)
  (hblock : block.Gives fun b => ∀ e ∈ b.expressions, e.levels ≤ n)

include hexpression hblock

private theorem whileLoop_gives :
    (whileLoop expression block).Gives fun s => ∀ e ∈ s.expressions, e.levels ≤ n := by
  intro c s d es hreturns
  obtain ⟨_, _, condition, c', _, body, _, hcondition, _, hbody, rfl, _⟩ :=
    returns_whileLoop_iff.1 hreturns
  exact List.forall_mem_cons.2 ⟨hexpression _ _ _ _ hcondition, hblock _ _ _ _ hbody⟩

private theorem repeatLoop_gives :
    (repeatLoop expression block).Gives fun s => ∀ e ∈ s.expressions, e.levels ≤ n := by
  intro c s d es hreturns
  obtain ⟨_, count, c', _, body, _, hcount, _, hbody, rfl, _⟩ := returns_repeatLoop_iff.1 hreturns
  exact List.forall_mem_cons.2 ⟨hexpression _ _ _ _ hcount, hblock _ _ _ _ hbody⟩

private theorem forLoop_gives (htwo : 2 ≤ n) :
    (forLoop expression block).Gives fun s => ∀ e ∈ s.expressions, e.levels ≤ n := by
  intro c s d es hreturns
  obtain ⟨_, _, init, c₁, _, condition, c₂, _, change, c₃, _, body, _, hinit, _, hcondition, _,
    hchange, _, hbody, rfl, _⟩ := returns_forLoop_iff.1 hreturns
  have hinit := forInit_gives hexpression (Nat.le_of_succ_le htwo) _ _ _ _ hinit
  have hchange := update_gives hexpression htwo _ _ _ _ hchange
  have hparts := List.forall_mem_append.2 ⟨hchange, hblock _ _ _ _ hbody⟩
  exact List.forall_mem_append.2
    ⟨hinit, List.forall_mem_cons.2 ⟨hexpression _ _ _ _ hcondition, hparts⟩⟩

include hconditional

private theorem conditionalRule_gives :
    (conditionalRule expression conditional block).Gives
      fun x => ∀ e ∈ x.expressions, e.levels ≤ n := by
  intro c x d es hreturns
  obtain ⟨_, _, condition, c₁, _, body, c₂, _, otherwise, _, hcondition, _, hbody, hotherwise, rfl, _⟩ :=
    returns_conditionalRule_iff.1 hreturns
  have hrest : ∀ e ∈ otherwise.expressions, e.levels ≤ n := by
    cases hotherwise with
    | nothing => exact List.forall_mem_nil _
    | conditional _ _ hreturns => exact hconditional _ _ _ _ hreturns
    | block _ _ hreturns => exact hblock _ _ _ _ hreturns
  exact List.forall_mem_cons.2 ⟨hexpression _ _ _ _ hcondition,
    List.forall_mem_append.2 ⟨hblock _ _ _ _ hbody, hrest⟩⟩

private theorem statementRule_gives (htwo : 2 ≤ n) :
    (statementRule expression conditional block).Gives
      fun s => ∀ e ∈ s.expressions, e.levels ≤ n := by
  intro c s d es hreturns
  have hpos := Nat.le_of_succ_le htwo
  cases returns_statementRule_iff.1 hreturns with
  | declaration _ hdeclaration => exact declaration_gives hexpression _ _ _ _ _ _ hdeclaration
  | conditional _ hreturns => exact hconditional _ _ _ _ hreturns
  | whileLoop _ hloop => exact whileLoop_gives hexpression hblock _ _ _ _ hloop
  | forLoop _ hloop => exact forLoop_gives hexpression hblock htwo _ _ _ _ hloop
  | repeatLoop _ hloop => exact repeatLoop_gives hexpression hblock _ _ _ _ hloop
  | output _ houtput => exact output_gives hpos _ _ _ _ _ houtput
  | input _ hinput => exact input_gives _ _ _ _ hinput
  | simple _ hsimple => exact terminatedSimple_gives hexpression hpos _ _ _ _ hsimple

end

/-- However often a statement is attempted, what holds of the expressions of one that is read holds
    of those of all of them. -/
theorem Repeats.expressions {next? : Token → Option Unit} {statement : Rule Statement}
    {property : Expr → Prop} (hstatement : statement.Gives fun s => ∀ e ∈ s.expressions, property e)
    {c d : Cursor} {attempts : List (Option Statement)} {es : List ParseError}
    (hrepeats : Repeats next? (fun _ => recovering statement) c attempts d es) :
    ∀ e ∈ Statement.listExpressions attempts.reduceOption, property e := by
  have hattempt : (recovering statement).Gives fun s => ∀ x ∈ s, ∀ e ∈ x.expressions, property e := by
    intro c s d es hreturns
    cases returns_recovering_iff.1 hreturns with
    | read hread =>
      rintro x ⟨⟩
      exact hstatement _ _ _ _ hread
    | skipped => simp
  intro e he
  obtain ⟨s, hs, he⟩ := Statement.mem_listExpressions.1 he
  obtain ⟨x, hx, hsome⟩ := List.mem_filterMap.1 hs
  exact hrepeats.gives (fun _ => hattempt) x hx s hsome e he

private theorem statement_and_parts_give {n : Nat} (htwo : 2 ≤ n) (budget : Nat)
    (hbudget : budget ≤ n) :
    (statement budget).Gives (fun s => ∀ e ∈ s.expressions, e.levels ≤ n) ∧
      (conditional budget).Gives (fun x => ∀ e ∈ x.expressions, e.levels ≤ n) ∧
        (block budget).Gives fun b => ∀ e ∈ b.expressions, e.levels ≤ n := by
  induction budget with
  | zero => exact ⟨tooDeep_gives, tooDeep_gives, tooDeep_gives⟩
  | succ budget ih =>
    obtain ⟨hstatement, hconditional, hblock⟩ := ih (Nat.le_of_succ_le hbudget)
    have hexpression : (expression budget).Gives fun e => e.levels ≤ n := fun _ _ _ _ hreturns =>
      Nat.le_trans ((binary_and_factor_give budget).1 1 _ _ _ _ hreturns) hbudget
    refine ⟨statementRule_gives hexpression hconditional hblock htwo,
      conditionalRule_gives hexpression hconditional hblock, ?_⟩
    intro c b d es hreturns
    obtain ⟨_, attempts, c', hattempts, _, _, rfl⟩ := returns_blockRule_iff.1 hreturns
    exact hattempts.expressions hstatement

/-- No expression of a program has more levels than there are in all. -/
theorem program_gives : program.Gives fun p => ∀ e ∈ p.expressions, e.levels ≤ maxNesting := by
  intro c p d es hreturns
  obtain ⟨attempts, hattempts, rfl⟩ := returns_program_iff.1 hreturns
  have htwo : 2 ≤ maxNesting := by decide
  exact hattempts.expressions (statement_and_parts_give htwo maxNesting (Nat.le_refl _)).1

end GeoLang.Grammar
