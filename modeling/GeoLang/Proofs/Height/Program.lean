import GeoLang.Proofs.Depth.Program
import GeoLang.Proofs.Height.Reading

namespace GeoLang

open Grammar in
/-- Counting operands that are joined from the left once, no expression is higher than nesting goes,
    in whatever order tokens stand and whatever errors there are. -/
theorem Parsed.levels_le_maxNesting {tokens : List Token} {p : Program}
    (hp : (Parsed.ofTokens tokens).program = some p) : ∀ e ∈ p.expressions, e.levels ≤ maxNesting := by
  have hne : tokens ≠ [] := by
    rintro rfl
    cases hp
  obtain ⟨last, q, d, es, _, hreturns, hparsed⟩ := exists_returns_program hne
  rw [hparsed] at hp
  obtain rfl := Option.some.inj hp
  exact program_gives _ _ _ _ hreturns

open Grammar in
/-- Something added to a step behind a path with 125 signs in front of it has all the levels there
    may be. -/
theorem Parsed.levels_eq_maxNesting :
    let tokens : List Token := List.replicate 125 ⟨.operator .logical .logicalNot, "!", .none⟩ ++
      [⟨.identifier "x", "x", .none⟩, ⟨.operator .arithmetic .increment, "++", .none⟩,
        ⟨.operator .arithmetic .plus, "+", .none⟩, ⟨.literal (.integer 1), "1", .none⟩,
        ⟨.punctuation .semicolon, ";", .none⟩]
    ∃ p, (Parsed.ofTokens tokens).program = some p ∧ (∀ e ∈ p.expressions, e.levels ≤ maxNesting) ∧
      p.expressions.map Expr.levels = [maxNesting] := by
  intro tokens
  have hne : tokens ≠ [] := by decide +kernel
  obtain ⟨last, p, d, es, _, _, hparsed⟩ := exists_returns_program hne
  have hp : (Parsed.ofTokens tokens).program = some p := by rw [hparsed]
  refine ⟨p, hp, Parsed.levels_le_maxNesting hp, ?_⟩
  have hlevels : (Parsed.ofTokens tokens).program.map (·.expressions.map Expr.levels) =
      some [maxNesting] := by decide +kernel
  rw [hp] at hlevels
  exact Option.some.inj hlevels

namespace Grammar

/-- One, with one added to it `n` times. -/
def sum : (n : Nat) → Expr
  | 0 => .literal (.integer 1) .none
  | n + 1 => .binary (sum n) .plus (.literal (.integer 1) .none) .none

/-- The tokens of `1 + 1 + …` with `n` signs. -/
def sumTokens : (n : Nat) → List Token
  | 0 => [⟨.literal (.integer 1), "1", .none⟩]
  | n + 1 =>
    sumTokens n ++
      ⟨.operator .arithmetic .plus, "+", .none⟩ :: [⟨.literal (.integer 1), "1", .none⟩]

private theorem height_sum (n : Nat) : (sum n).height = n + 1 := by
  induction n with
  | zero => rfl
  | succ n ih =>
    rw [sum, Expr.height, ih, Expr.height]
    omega

/-- A sum takes two levels of nesting, however long it is. -/
theorem rowForm_sum (n budget : Nat) {least : Nat} (hleast : least ≤ Operator.plus.strength?.getD 0) :
    RowForm (FactorDerives (budget + 2)) (RowDerives (budget + 2)) least (sum n) (sumTokens n) := by
  have hone : ∀ levels, FactorDerives (levels + 1) (.literal (.integer 1) .none)
      [⟨.literal (.integer 1), "1", .none⟩] := fun _ => FactorForm.literal rfl
  induction n generalizing least with
  | zero => exact .factor (hone (budget + 1))
  | succ n ih =>
    have hplus : Token.IsOperator ⟨.operator .arithmetic .plus, "+", .none⟩ .plus :=
      ⟨_, rfl, .inl rfl⟩
    exact .join rfl hleast (ih (by decide)) hplus (.factor (hone budget))

/-- `x = 1 + … + 1;`. -/
def sumAssignment (n : Nat) : Statement :=
  .simple (.assignment ⟨"x", [], .none⟩ .assign (sum n) .none)

/-- The tokens of an assignment of that sum. -/
def sumAssignmentTokens (n : Nat) : List Token :=
  [⟨.identifier "x", "x", .none⟩, ⟨.operator .assignment .assign, "=", .none⟩] ++ sumTokens n ++
    [⟨.punctuation .semicolon, ";", .none⟩]

private theorem statementDerives_sumAssignment (n : Nat) :
    StatementDerives maxNesting (sumAssignment n) (sumAssignmentTokens n) := by
  have hx : PathForm ⟨"x", [], .none⟩ [⟨.identifier "x", "x", .none⟩] :=
    PathForm.mk (t := ⟨.identifier "x", "x", .none⟩) rfl .nil
  have hassign : Token.IsOperator ⟨.operator .assignment .assign, "=", .none⟩ .assign :=
    ⟨_, rfl, .inl rfl⟩
  have hsum : ExpressionDerives 127 (sum n) (sumTokens n) := rowForm_sum n 124 (by decide)
  refine StatementForm.simple (.assignment (.mk hx hassign rfl hsum)) ?_ rfl
  intro u hu
  obtain rfl : _ = u := Option.some.inj hu
  decide

/-- What is left of an assignment without spans tells the value without spans. -/
theorem exists_value_of_bare {s : Statement} {target : Path} {op : Operator} {value : Expr} {span : Span}
    (hbare : s.bare = .simple (.assignment target op value span)) :
    ∃ e ∈ s.expressions, e.bare = value := by
  cases s with
  | simple s =>
    cases s with
    | assignment target' op' value' span' =>
      simp only [Statement.bare, Simple.bare, Statement.simple.injEq, Simple.assignment.injEq] at hbare
      exact ⟨value', List.mem_cons_of_mem _ List.mem_cons_self, hbare.2.2.1⟩
    | _ => simp [Statement.bare, Simple.bare] at hbare
  | _ => simp [Statement.bare] at hbare

end Grammar

open Grammar in
/-- Expressions may be of any height, in a text in which no statement fails. -/
theorem Parsed.exists_height (n : Nat) :
    ∃ tokens p, (Parsed.ofTokens tokens).program = some p ∧ Clean (Parsed.ofTokens tokens).errors ∧
      ∃ e ∈ p.expressions, e.height = n + 1 := by
  let ts := sumAssignmentTokens n
  let eof := Token.eofAt .start
  have hderives := statementDerives_sumAssignment n
  have hprogram : ProgramDerives ⟨[sumAssignment n]⟩ ts := by
    have hitems : Items (StatementDerives maxNesting) [sumAssignment n] (ts ++ []) :=
      .cons hderives .nil
    rwa [List.append_nil] at hitems
  obtain ⟨p, d, es, hreturns, _, hsame, hclean⟩ :=
    exists_returns_of_programDerives hprogram (rfl : eof.kind = .eof)
  rw [← ofTokens_append_eof rfl hderives.isCode eof] at hreturns
  have hlast : (ts ++ [eof]).getLast? = some eof := List.getLast?_concat ..
  obtain ⟨s, hs, hbare⟩ := List.map_eq_singleton_iff.1 (congrArg Program.statements hsame)
  obtain ⟨e, he, hsum⟩ := exists_value_of_bare hbare
  refine ⟨ts ++ [eof], p, ?_, ?_, e, Statement.mem_listExpressions.2 ⟨s, ?_, he⟩, ?_⟩
  · rw [parsed_of_returns hlast hreturns]
  · rwa [parsed_of_returns hlast hreturns]
  · rw [hs]
    exact List.mem_cons_self
  · rw [← e.height_bare, hsum, Expr.height_bare, height_sum]

/-- A sum of 130 numbers is higher than nesting goes, with one level to spare. -/
theorem Parsed.not_height_le_maxNesting :
    ¬ ∀ tokens p, (Parsed.ofTokens tokens).program = some p →
      ∀ e ∈ p.expressions, e.height ≤ maxNesting + 1 := by
  intro hbounded
  obtain ⟨tokens, p, hp, _, e, he, hheight⟩ := Parsed.exists_height 129
  have hle := hbounded tokens p hp e he
  rw [hheight] at hle
  exact absurd hle (by decide)

end GeoLang
