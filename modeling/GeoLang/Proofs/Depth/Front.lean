import GeoLang.Proofs.Depth.Frame
import GeoLang.Proofs.Depth.Statement

namespace GeoLang.Grammar

open Rule

/-- The rule reads what stands in front of a gap, and carries what is replied at the gap. -/
def Rule.Reaches {α : Type} (r : Rule α) (frame : Frame) (gap : Cursor) (y : Reply Statement) :
    Prop :=
  ∀ c front back, frame front back → c.Reads front gap → (r c).Carries y

variable {gap : Cursor} {y : Reply Statement}

section

variable {expression : Rule Expr} {conditional : Rule Conditional} {block : Rule Block}
  {expressions : Language Expr} {conditionals : Language Conditional} {blocks : Language Block}
  {conditionalFrame blockFrame : Frame}
  (hexpression : expression.Accepts Expr.bare expressions (EndsRow 1))
  (hbegins : expressions.Begins fun t => t.kind.startsOperand = true)
  (hassigns : expressions.NeverAssigns)
  (hconditional : conditional.Reaches conditionalFrame gap y)
  (hblock : block.Reaches blockFrame gap y)

include hexpression

include hbegins hassigns in
/-- Behind the header of a loop its block is reached. -/
theorem HeaderForm.carries {c c' : Cursor} {ts : List Token} (hheader : HeaderForm expressions ts)
    (hreads : c.Reads ts c') (hbody : (block c').Carries y) :
    (statementRule expression conditional block c).Carries y := by
  cases hheader with
  | whileLoop hword hopen hcondition hclose =>
    obtain ⟨c₁, rfl, rfl, hreadsCondition, rfl, hend⟩ := hreads.of_parenthesized
    obtain rfl := hend.eq_of_nil
    have hbehind : EndsRow 1 c₁.peek := .of_punctuation hclose (by simp) (by simp)
    refine carries_peek_bind ?_
    simp only [hword]
    refine (passes_keyword hword).carries_bind fun _ => (passes_mark hopen _).carries_bind fun _ => ?_
    refine (hexpression.passes hcondition hreadsCondition hbehind).carries_bind fun _ => ?_
    exact (passes_closeParenthesis hclose).carries_bind fun _ => carries_bind hbody _
  | forLoop hword hopen hinit hinitEnd hcondition hconditionEnd hupdate hclose =>
    obtain ⟨c₁, rfl, rfl, hreadsInit, rfl, hinside₁⟩ := hreads.of_parenthesized
    obtain ⟨c₂, hreadsCondition, rfl, hinside₂⟩ := hinside₁.of_append_cons
    obtain ⟨c₃, hreadsUpdate, hrest₃⟩ := hinside₂.of_append
    obtain ⟨rfl, rfl⟩ := hrest₃.of_singleton
    have hbehind : EndsRow 1 c₂.peek := .of_punctuation hconditionEnd (by simp) (by simp)
    refine carries_peek_bind ?_
    simp only [hword]
    refine (passes_keyword hword).carries_bind fun _ => (passes_mark hopen _).carries_bind fun _ => ?_
    refine ((forInit_accepts hexpression hassigns hbegins).passes hinit hreadsInit
      hinitEnd).carries_bind fun _ => (passes_mark hinitEnd _).carries_bind fun _ => ?_
    refine (hexpression.passes hcondition hreadsCondition hbehind).carries_bind fun _ => ?_
    refine (passes_mark hconditionEnd _).carries_bind fun _ => ?_
    refine ((update_accepts hexpression).passes hupdate hreadsUpdate hclose).carries_bind fun _ => ?_
    exact (passes_closeParenthesis hclose).carries_bind fun _ => carries_bind hbody _
  | repeatLoop hword hcount htimes =>
    obtain ⟨hinside, rfl⟩ := hreads.of_cons
    obtain ⟨c₁, hreadsCount, hend⟩ := hinside.of_append
    obtain ⟨rfl, rfl⟩ := hend.of_singleton
    refine carries_peek_bind ?_
    simp only [hword]
    refine (passes_keyword hword).carries_bind fun _ => ?_
    refine (hexpression.passes hcount hreadsCount (.of_keyword htimes)).carries_bind fun _ => ?_
    exact (passes_keyword htimes).carries_bind fun _ => carries_bind hbody _

include hconditional hblock

include hbegins hassigns in
private theorem statementRule_reaches
    (hframes : conditionalFrame.Begins fun t => t.kind = .keyword .ifKw) :
    (statementRule expression conditional block).Reaches
      (StatementFrame expressions conditionalFrame blockFrame) gap y := by
  intro c front back hframe hfront
  cases hframe with
  | conditional hframe =>
    have hinner := hconditional _ _ _ hframe hfront
    obtain ⟨t, us, rfl, hword⟩ := hframes _ _ hframe
    obtain ⟨_, rfl⟩ := hfront.of_cons
    refine carries_peek_bind ?_
    simp only [hword]
    exact carries_bind hinner _
  | loop hheader hframe =>
    obtain ⟨c', hreadsHeader, hreadsFront⟩ := hfront.of_append
    exact hheader.carries hexpression hbegins hassigns hreadsHeader (hblock _ _ _ hframe hreadsFront)

omit hexpression in
private theorem otherwiseRule_reaches
    (hconditionals : conditionalFrame.Begins fun t => t.kind = .keyword .ifKw)
    (hblocks : blockFrame.Begins fun t => t.kind = .punctuation .lCurly) :
    (otherwiseRule conditional block).Reaches (OtherwiseFrame conditionalFrame blockFrame) gap y := by
  intro c front back hframe hfront
  cases hframe with
  | conditional helse hframe =>
    obtain ⟨hrest, rfl⟩ := hfront.of_cons
    have hinner := hconditional _ _ _ hframe hrest
    obtain ⟨t, us, rfl, hword⟩ := hconditionals _ _ hframe
    obtain ⟨_, rfl⟩ := hrest.of_cons
    refine carries_peek_bind ?_
    rw [if_pos (by simp [TokenKind.isKeyword, helse])]
    refine (passes_advance c).carries_bind fun _ => carries_peek_bind ?_
    rw [if_pos (by simp [TokenKind.isKeyword, hword])]
    exact carries_bind hinner _
  | block helse hframe =>
    obtain ⟨hrest, rfl⟩ := hfront.of_cons
    have hinner := hblock _ _ _ hframe hrest
    obtain ⟨t, us, rfl, hopen⟩ := hblocks _ _ hframe
    obtain ⟨_, rfl⟩ := hrest.of_cons
    refine carries_peek_bind ?_
    rw [if_pos (by simp [TokenKind.isKeyword, helse])]
    refine (passes_advance c).carries_bind fun _ => carries_peek_bind ?_
    rw [if_neg (by simp [TokenKind.isKeyword, hopen])]
    exact carries_bind hinner _

private theorem conditionalRule_reaches
    (hblockAccepts : block.Accepts Block.bare blocks fun _ => True)
    (hconditionalFrames : conditionalFrame.Begins fun t => t.kind = .keyword .ifKw)
    (hblockFrames : blockFrame.Begins fun t => t.kind = .punctuation .lCurly) :
    (conditionalRule expression conditional block).Reaches
      (ConditionalFrame expressions conditionals blocks conditionalFrame blockFrame) gap y := by
  intro c front back hframe hfront
  cases hframe with
  | body hword hopen hcondition hclose hframe hotherwise =>
    obtain ⟨c₁, rfl, rfl, hreadsCondition, rfl, hreadsFront⟩ := hfront.of_parenthesized
    have hend : EndsRow 1 c₁.peek := .of_punctuation hclose (by simp) (by simp)
    refine (passes_keyword hword).carries_bind fun _ => (passes_mark hopen _).carries_bind fun _ => ?_
    refine (hexpression.passes hcondition hreadsCondition hend).carries_bind fun _ => ?_
    refine (passes_closeParenthesis hclose).carries_bind fun _ => ?_
    exact carries_bind (hblock _ _ _ hframe hreadsFront) _
  | otherwise hword hopen hcondition hclose hbody hframe =>
    obtain ⟨c₁, rfl, rfl, hreadsCondition, rfl, hrest₂⟩ := hfront.of_parenthesized
    obtain ⟨c₂, hreadsBody, hreadsFront⟩ := hrest₂.of_append
    have hend : EndsRow 1 c₁.peek := .of_punctuation hclose (by simp) (by simp)
    have hotherwise := otherwiseRule_reaches hconditional hblock hconditionalFrames hblockFrames
    refine (passes_keyword hword).carries_bind fun _ => (passes_mark hopen _).carries_bind fun _ => ?_
    refine (hexpression.passes hcondition hreadsCondition hend).carries_bind fun _ => ?_
    refine (passes_closeParenthesis hclose).carries_bind fun _ => ?_
    refine (hblockAccepts.passes hbody hreadsBody trivial).carries_bind fun _ => ?_
    exact carries_spanSince_bind (carries_bind (hotherwise _ _ _ hframe hreadsFront) _)

end

/-- In a row of statements the gap is reached, in the place of one of them or inside of one. -/
theorem ItemsFrame.carries {m n : Nat} {statementFrame : Frame}
    (hgap : (statement m gap).Carries y) (hbegins : BeginsStatement gap.peek)
    (hstatement : (statement n).Reaches statementFrame gap y)
    (hframes : statementFrame.Begins BeginsStatement) {next? : Token → Option Unit}
    (hnext : ∀ t, BeginsStatement t → next? t = some ()) {c : Cursor} {front back : List Token}
    (hframe : ItemsFrame (StatementDerives n) (n = m) statementFrame front back)
    (hfront : c.Reads front gap) :
    (many next? (fun _ => recovering (statement n)) c).Carries y := by
  have hattempts {before : List Statement} {ts : List Token} {c₁ : Cursor}
      (hbefore : Items (StatementDerives n) before ts) (hts : c.Reads ts c₁)
      (hc₁ : BeginsStatement c₁.peek) (hcarries : (statement n c₁).Carries y) :
      (many next? (fun _ => recovering (statement n)) c).Carries y := by
    obtain ⟨_, noted, hleads, _, hnoted⟩ :=
      Leads.of_items (attemptForm_begins (statementDerives_begins n))
        (fun t ht => ⟨hnext t ht, ht.notElse⟩) (recovering_accepts (statement_and_parts_accept n).1)
        hbefore.attempts hts hc₁.notElse
    exact hleads.carries_many hnoted (carries_many (hnext _ hc₁) (carries_recovering hcarries))
  cases hframe with
  | here hhere hbefore _ =>
    subst hhere
    exact hattempts hbefore hfront hbegins hgap
  | inside hbefore hframe _ =>
    obtain ⟨c₁, hts, hreadsFront⟩ := hfront.of_append
    have hc₁ : BeginsStatement c₁.peek := by
      obtain ⟨t, us, rfl, ht⟩ := hframes _ _ hframe
      rwa [hreadsFront.of_cons.2]
    exact hattempts hbefore hts hc₁ (hstatement _ _ _ hframe hreadsFront)

private theorem statement_and_parts_reach {m : Nat} (hgap : (statement m gap).Carries y)
    (hbegins : BeginsStatement gap.peek) (n : Nat) :
    (statement n).Reaches (StatementEncloses m n) gap y ∧
      (conditional n).Reaches (ConditionalEncloses m n) gap y ∧
      (block n).Reaches (BlockEncloses m n) gap y := by
  induction n with
  | zero =>
    exact ⟨fun _ _ _ hframe => hframe.elim, fun _ _ _ hframe => hframe.elim,
      fun _ _ _ hframe => hframe.elim⟩
  | succ n ih =>
    obtain ⟨hstatement, hconditional, hblock⟩ := ih
    obtain ⟨_, _, hblockAccepts⟩ := statement_and_parts_accept n
    refine ⟨?_, ?_, ?_⟩
    · exact statementRule_reaches (expression_accepts n) (rowDerives_begins n 1)
        (rowDerives_neverAssigns n 1) hconditional hblock (conditionalEncloses_begins m n)
    · exact conditionalRule_reaches (expression_accepts n) hconditional hblock hblockAccepts
        (conditionalEncloses_begins m n) (blockEncloses_begins m n)
    · rintro c front back ⟨hopen, hframe, _⟩ hfront
      obtain ⟨hreadsFront, rfl⟩ := hfront.of_cons
      have hnext : ∀ t, BeginsStatement t → insideBlock t = some () := fun t ht =>
        insideBlock_eq_some_iff.2 ⟨ht.notEnd, ht.notEof⟩
      refine (passes_mark hopen _).carries_bind fun _ => carries_bind ?_ _
      exact hframe.carries hgap hbegins hstatement (statementEncloses_begins m n) hnext hreadsFront

/-- What is reported at a gap in a program is reported by the program, behind nothing but wrong
    types and numbers of arguments. -/
theorem ProgramEncloses.carries {m : Nat} {c : Cursor} {front back : List Token}
    (hframe : ProgramEncloses m front back) (hfront : c.Reads front gap)
    (hgap : (statement m gap).Carries y) (hbegins : BeginsStatement gap.peek) :
    (program c).Carries y := by
  have hnext : ∀ t, BeginsStatement t → insideProgram t = some () := fun t ht =>
    insideProgram_eq_some_iff.2 ht.notEof
  exact carries_bind (ItemsFrame.carries hgap hbegins
    (statement_and_parts_reach hgap hbegins maxNesting).1 (statementEncloses_begins m maxNesting) hnext
    hframe hfront) _

end GeoLang.Grammar
