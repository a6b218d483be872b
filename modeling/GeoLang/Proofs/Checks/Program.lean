import GeoLang.Lexical.Tokens
import GeoLang.Proofs.Checks.Expression
import GeoLang.Proofs.Reading.Composed

namespace GeoLang

/-- The errors are those of statements that failed and, in this order, the faults `fs`. -/
structure Reported (fs es : List ParseError) : Prop where
  sublist : fs.Sublist es
  exact : Grammar.Clean es → es = fs

namespace Reported

/-- Where no statement fails, the faults are all. -/
theorem refl (fs : List ParseError) : Reported fs fs := ⟨.refl fs, fun _ => rfl⟩

theorem of_eq {fs es : List ParseError} (heq : es = fs) : Reported fs es := heq ▸ .refl es

/-- Reports in turn. -/
theorem append {fs gs es es' : List ParseError} (hfirst : Reported fs es)
    (hsecond : Reported gs es') : Reported (fs ++ gs) (es ++ es') where
  sublist := hfirst.sublist.append hsecond.sublist
  exact := by
    intro hclean
    obtain ⟨hcleanFirst, hcleanSecond⟩ := Grammar.Clean.append_iff.1 hclean
    rw [hfirst.exact hcleanFirst, hsecond.exact hcleanSecond]

/-- Where a statement failed nothing is read, and the error that made it fail is there. -/
theorem of_failure (es : List ParseError) {e : ParseError} (hsyntactic : e.isSyntactic = true) :
    Reported [] (es ++ [e]) where
  sublist := List.nil_sublist _
  exact := by
    intro hclean
    have hnot := hclean e (List.mem_append_right es List.mem_cons_self)
    rw [hsyntactic] at hnot
    cases hnot

end Reported

namespace Grammar

variable {α β : Type}

/-- If the rule succeeds, the faults of its value are reported. -/
def Rule.Reports (r : Rule α) (faults : α → List ParseError) : Prop :=
  ∀ c a d es, r.Returns c a d es → Reported (faults a) es

/-- What is noted without errors is reported with them as well. -/
theorem Rule.Notes.reports {r : Rule α} {faults : α → List ParseError} (hnotes : r.Notes faults) :
    r.Reports faults :=
  fun _ _ _ _ hreturns => .of_eq (hnotes _ _ _ _ hreturns)

/-- An attempt reports the faults of the statement, if one is read. -/
theorem recovering_reports {statement : Rule Statement} (hcomposed : Composed statement)
    (hstatement : statement.Reports Statement.faults) :
    (recovering statement).Reports fun s => s.elim [] Statement.faults := by
  intro c s d es hreturns
  cases returns_recovering_iff.1 hreturns with
  | read hread => exact hstatement _ _ _ _ hread
  | skipped hfails => exact .of_failure _ (hcomposed.error_at_peek hfails).1

private theorem flatMap_faults_reduceOption (statements : List (Option Statement)) :
    statements.reduceOption.flatMap Statement.faults =
      statements.flatMap fun s => s.elim [] Statement.faults := by
  induction statements with
  | nil => rfl
  | cons s ss ih =>
    rw [List.flatMap_cons, ← ih]
    cases s <;> rfl

/-- However often a statement is attempted, the faults of those that are read are reported. -/
theorem Repeats.reports {next? : Token → Option Unit} {statement : Rule Statement}
    (hcomposed : Composed statement) (hstatement : statement.Reports Statement.faults)
    {c d : Cursor} {attempts : List (Option Statement)} {es : List ParseError}
    (hrepeats : Repeats next? (fun _ => recovering statement) c attempts d es) :
    Reported (Statement.listFaults attempts.reduceOption) es := by
  rw [Statement.listFaults_eq_flatMap, flatMap_faults_reduceOption]
  have hattempt := recovering_reports hcomposed hstatement
  induction hrepeats with
  | stop => exact .refl []
  | stuck _ hreturns => simpa using hattempt _ _ _ _ hreturns
  | more _ hreturns _ _ ih =>
    rw [List.flatMap_cons]
    exact (hattempt _ _ _ _ hreturns).append ih

private theorem output_reports (newline : Bool) : (output newline).Reports Statement.faults := by
  intro c s d es hreturns
  obtain ⟨_, text, placeholders, c', _, hplaceholders, _, _, _, rfl⟩ := returns_output_iff.1 hreturns
  have hplaceholder : placeholder.Notes fun _ => [] := by
    intro c p d es hreturns
    obtain ⟨c', hpath, _, _⟩ := returns_placeholder_iff.1 hreturns
    exact path_notes _ _ _ _ hpath
  have hnone := hplaceholders.notes fun _ => hplaceholder
  exact .of_eq (hnone.trans (List.flatMap_eq_nil_iff.2 fun _ _ => rfl))

private theorem input_reports : input.Reports Statement.faults := by
  intro c s d es hreturns
  obtain ⟨_, _, _, _, _, rfl, rfl⟩ := returns_input_iff.1 hreturns
  exact .refl []

section

variable {expression : Rule Expr} {conditional : Rule Conditional} {block : Rule Block}
  (hexpression : expression.Notes Expr.faults)
  (hconditional : conditional.Reports Conditional.faults)
  (hblock : block.Reports Block.faults)

include hexpression

private theorem terminatedSimple_reports :
    (terminatedSimple expression).Reports Statement.faults := by
  intro c s d es hreturns
  obtain ⟨x, c', hsimple, _, _, rfl⟩ := returns_terminatedSimple_iff.1 hreturns
  exact (simple_notes hexpression).reports _ _ _ _ hsimple

include hblock

private theorem whileLoop_reports : (whileLoop expression block).Reports Statement.faults := by
  intro c s d es hreturns
  obtain ⟨_, _, condition, c', es₁, body, es₂, hcondition, _, hbody, rfl, rfl⟩ :=
    returns_whileLoop_iff.1 hreturns
  exact (hexpression.reports _ _ _ _ hcondition).append (hblock _ _ _ _ hbody)

private theorem forLoop_reports : (forLoop expression block).Reports Statement.faults := by
  intro c s d es hreturns
  obtain ⟨_, _, init, c₁, es₁, condition, c₂, es₂, change, c₃, es₃, body, es₄, hinit, _, hcondition,
    _, hchange, _, hbody, rfl, rfl⟩ := returns_forLoop_iff.1 hreturns
  have hinit := (forInit_notes hexpression).reports _ _ _ _ hinit
  have hcondition := hexpression.reports _ _ _ _ hcondition
  have hchange := (update_notes hexpression).reports _ _ _ _ hchange
  have hparts := hinit.append (hcondition.append (hchange.append (hblock _ _ _ _ hbody)))
  simpa only [Statement.faults, List.append_assoc] using hparts

private theorem repeatLoop_reports : (repeatLoop expression block).Reports Statement.faults := by
  intro c s d es hreturns
  obtain ⟨_, count, c', es₁, body, es₂, hcount, _, hbody, rfl, rfl⟩ :=
    returns_repeatLoop_iff.1 hreturns
  exact (hexpression.reports _ _ _ _ hcount).append (hblock _ _ _ _ hbody)

include hconditional

private theorem statementRule_reports :
    (statementRule expression conditional block).Reports Statement.faults := by
  intro c s d es hreturns
  cases returns_statementRule_iff.1 hreturns with
  | declaration _ hdeclaration =>
    exact (declaration_notes hexpression _ _).reports _ _ _ _ hdeclaration
  | conditional _ hreturns => exact hconditional _ _ _ _ hreturns
  | whileLoop _ hloop => exact whileLoop_reports hexpression hblock _ _ _ _ hloop
  | forLoop _ hloop => exact forLoop_reports hexpression hblock _ _ _ _ hloop
  | repeatLoop _ hloop => exact repeatLoop_reports hexpression hblock _ _ _ _ hloop
  | output _ houtput => exact output_reports _ _ _ _ _ houtput
  | input _ hinput => exact input_reports _ _ _ _ hinput
  | simple _ hsimple => exact terminatedSimple_reports hexpression _ _ _ _ hsimple

private theorem conditionalRule_reports :
    (conditionalRule expression conditional block).Reports Conditional.faults := by
  intro c x d es hreturns
  obtain ⟨_, _, condition, c₁, es₁, body, c₂, es₂, otherwise, es₃, hcondition, _, hbody, hotherwise,
    rfl, rfl⟩ := returns_conditionalRule_iff.1 hreturns
  have hotherwise : Reported otherwise.faults es₃ := by
    cases hotherwise with
    | nothing => exact .refl []
    | conditional _ _ hreturns => exact hconditional _ _ _ _ hreturns
    | block _ _ hreturns => exact hblock _ _ _ _ hreturns
  have hparts := (hexpression.reports _ _ _ _ hcondition).append
    ((hblock _ _ _ _ hbody).append hotherwise)
  simpa only [Conditional.faults, List.append_assoc] using hparts

end

private theorem blockRule_reports {statement : Rule Statement} (hcomposed : Composed statement)
    (hstatement : statement.Reports Statement.faults) :
    (blockRule statement).Reports Block.faults := by
  intro c b d es hreturns
  obtain ⟨_, statements, c', hstatements, _, _, rfl⟩ := returns_blockRule_iff.1 hreturns
  exact hstatements.reports hcomposed hstatement

private theorem statement_and_parts_report (n : Nat) :
    (statement n).Reports Statement.faults ∧ (conditional n).Reports Conditional.faults ∧
      (block n).Reports Block.faults := by
  induction n with
  | zero => exact ⟨tooDeep_notes.reports, tooDeep_notes.reports, tooDeep_notes.reports⟩
  | succ n ih =>
    obtain ⟨hstatement, hconditional, hblock⟩ := ih
    have hexpression := expression_notes n
    exact ⟨statementRule_reports hexpression hconditional hblock,
      conditionalRule_reports hexpression hconditional hblock,
      blockRule_reports (.statement n) hstatement⟩

private theorem program_reports : program.Reports Program.faults := by
  intro c p d es hreturns
  obtain ⟨attempts, hattempts, rfl⟩ := returns_program_iff.1 hreturns
  exact hattempts.reports (.statement maxNesting) (statement_and_parts_report maxNesting).1

end Grammar

open Grammar in
/-- Every fault of the program that is read is reported, in the order in which its nodes are
    complete, whatever else there is; and if no statement fails, nothing else is reported. -/
theorem Parsed.exists_faults_reported {tokens : List Token} (hne : tokens ≠ []) :
    ∃ p, (Parsed.ofTokens tokens).program = some p ∧
      p.faults.Sublist (Parsed.ofTokens tokens).errors ∧
        (Clean (Parsed.ofTokens tokens).errors → (Parsed.ofTokens tokens).errors = p.faults) := by
  obtain ⟨last, p, d, es, _, hreturns, hparsed⟩ := exists_returns_program hne
  obtain ⟨hsublist, hexact⟩ := program_reports _ _ _ _ hreturns
  rw [hparsed]
  exact ⟨p, rfl, hsublist, hexact⟩

open Grammar in
/-- A literal of the wrong type, a call with too many arguments inside of one with too few, and a
    call in a block. -/
theorem Parsed.exists_faults_reported_nested :
    let tokens := (Lexed.ofSource false
      "int n = true, k = distance(circle(1, 2)); while (n) \x7b cm(); \x7d").tokens
    ∃ p, (Parsed.ofTokens tokens).program = some p ∧
      p.faults.Sublist (Parsed.ofTokens tokens).errors ∧ (Parsed.ofTokens tokens).errors = p.faults := by
  intro tokens
  have hclean : Clean (Parsed.ofTokens tokens).errors := by decide +kernel
  have hne : tokens ≠ [] := by decide +kernel
  obtain ⟨p, hp, hsublist, hexact⟩ := Parsed.exists_faults_reported hne
  exact ⟨p, hp, hsublist, hexact hclean⟩

end GeoLang
