import GeoLang.Proofs.Depth.Overdeep
import Mathlib.Data.List.Basic

namespace GeoLang

open Grammar in
/-- A statement that needs more levels than are allowed is reported as nested too deeply at one of
    its tokens, and in front of that nothing is reported but wrong types and numbers of arguments.
    Nothing else is reported behind it either if what is skipped from that token on leads to a place
    from which the text can be derived, the statement that is nested too deeply left out: the
    statement itself or the one inside of it for which the levels do not suffice. -/
theorem Parsed.exists_nestingTooDeep {ts : List Token} {eof : Token} (hdeep : Exceeds maxNesting ts)
    (heof : eof.kind = .eof) :
    ∃ noted t others,
      (Parsed.ofTokens (ts ++ [eof])).errors = noted ++ .nestingTooDeep maxNesting t.span :: others ∧
        Clean noted ∧ t ∈ ts ∧
          ∀ m front mid behind back, ts = front ++ (mid ++ behind) →
            Overdeep m front mid behind back →
              ∃ used t' after, mid ++ behind = used ++ t' :: after ∧ t'.span = t.span ∧
                ∀ skipped, t' :: after = skipped ++ back → SkippedBehind back used skipped →
                  Clean others := by
  obtain ⟨n, s, hs, hnarrow⟩ := hdeep
  have hcursor := ofTokens_append_eof heof hs.isCode eof
  have hne : ts ++ [eof] ≠ [] := by simp
  obtain ⟨last, p, d, es, hlast, hprogram, hparsed⟩ := exists_returns_program hne
  obtain rfl : eof = last := by simpa using hlast
  rw [hcursor] at hprogram
  have hreads := Cursor.reads_text ts eof
  have helse : (Cursor.mk ts.getLast? [] eof).peek.kind ≠ .keyword .elseKw := by
    simp [Cursor.peek, heof]
  have hover := overruns_program (hs.beginsStatement_peek hreads) (hs.overruns hnarrow hreads helse)
  obtain ⟨noted, t, others, hreports, hnoted, ht⟩ := hover.exists_reports
  rw [hprogram] at hreports
  have hes : es = noted ++ .nestingTooDeep maxNesting t.span :: others := hreports
  rw [hparsed]
  refine ⟨noted, t, others, hes, hnoted, ht, ?_⟩
  rintro m front mid behind back rfl x
  obtain ⟨noted', used, t', after, others', hsplit, hes', hnoted', hothers⟩ :=
    x.exists_errors heof hs.balanced hprogram
  obtain ⟨-, herror, rfl⟩ := Clean.append_cons_inj hnoted hnoted' rfl rfl (hes.symm.trans hes')
  exact ⟨used, t', after, hsplit, (ParseError.nestingTooDeep.inj herror).2.symm, hothers⟩

namespace Grammar

variable {n : Nat} {s : Statement} {ts : List Token}

/-- An operand with negations in front of it. -/
def negated (operand : Expr) : (k : Nat) → Expr
  | 0 => operand
  | k + 1 => .unary .logicalNot (negated operand k) .none

/-- The statement that is such an operand, if `ts` are the tokens of the operand. -/
def negatedTokens (k : Nat) (ts : List Token) : List Token :=
  List.replicate k ⟨.operator .logical .logicalNot, "!", .none⟩ ++
    (ts ++ [⟨.punctuation .semicolon, ";", .none⟩])

/-- A loop with its condition and the statements of its block. -/
def whileTokens (condition body : List Token) : List Token :=
  ⟨.keyword .whileKw, "while", .none⟩ :: ⟨.punctuation .lParen, "(", .none⟩ ::
    (condition ++ ⟨.punctuation .rParen, ")", .none⟩ :: ⟨.punctuation .lCurly, "\x7b", .none⟩ ::
      (body ++ [⟨.punctuation .rCurly, "\x7d", .none⟩]))

/-- Every negation takes one level more. -/
theorem factorDerives_negated {operand : Expr} (hoperand : FactorDerives n operand ts) (k : Nat) :
    FactorDerives (n + k) (negated operand k)
      (List.replicate k ⟨.operator .logical .logicalNot, "!", .none⟩ ++ ts) := by
  induction k with
  | zero => exact hoperand
  | succ k ih => exact .unary ⟨_, rfl, .inl rfl⟩ rfl ih

/-- As a statement, an operand with `k + 1` negations takes `k + 3` levels more. -/
theorem statementDerives_negated {operand : Expr} (hoperand : FactorDerives n operand ts) (k : Nat) :
    StatementDerives (n + (k + 1) + 2) (.simple (.expression (negated operand (k + 1))))
      (negatedTokens (k + 1) ts) := by
  have hexpression : ExpressionDerives (n + (k + 1) + 1) (negated operand (k + 1)) _ :=
    .factor (factorDerives_negated hoperand (k + 1))
  have hstatement : StatementDerives (n + (k + 1) + 2) _ _ :=
    .simple (.expression hexpression) (by simp [List.replicate_succ])
      (t := ⟨.punctuation .semicolon, ";", .none⟩) rfl
  rwa [List.append_assoc] at hstatement

/-- A loop takes one level more than its condition and two more than a statement of its body. -/
theorem statementDerives_whileTokens {condition : Expr} {statements : List Statement}
    {us : List Token} (hcondition : ExpressionDerives (n + 2) condition us)
    (hstatements : Items (StatementDerives (n + 1)) statements ts) :
    StatementDerives (n + 3) (.whileLoop condition (.mk statements .none) .none) (whileTokens us ts) :=
  StatementForm.whileLoop (.mk rfl rfl hcondition rfl (BlockForm.mk rfl hstatements rfl))

/-- The tokens are a statement that needs more levels than are allowed, for which `es` is
    reported. -/
structure ExceedsWith (ts : List Token) (es : List ParseError) : Prop where
  exceeds : Exceeds maxNesting ts
  errors : (Parsed.ofTokens (ts ++ [.eofAt .start])).errors = es

/-- Where another error is reported than wrong types and numbers of arguments, the levels that are
    allowed do not suffice. -/
theorem StatementDerives.exceedsWith {es : List ParseError} (hs : StatementDerives n s ts)
    (herrors : (Parsed.ofTokens (ts ++ [.eofAt .start])).errors = es)
    (hes : es.any ParseError.isSyntactic = true) : ExceedsWith ts es := by
  refine ⟨⟨n, s, hs, fun hnarrow => ?_⟩, herrors⟩
  obtain ⟨e, he, hsyntactic⟩ := List.any_eq_true.1 hes
  have hclean := hnarrow.clean_errors (rfl : (Token.eofAt .start).kind = .eof)
  rw [herrors] at hclean
  rw [hclean e he] at hsyntactic
  cases hsyntactic

end Grammar

open Grammar in
/-- In `while (1) { !…!1; 2; }` the number is reported, and recovery goes on behind its
    semicolon. -/
theorem Parsed.exists_nestingTooDeep_of_negated :
    let place : Span := ⟨⟨135, 0, 135⟩, ⟨136, 0, 136⟩⟩
    let front : List Token := [⟨.keyword .whileKw, "while", .none⟩, ⟨.punctuation .lParen, "(", .none⟩,
      ⟨.literal (.integer 1), "1", .none⟩, ⟨.punctuation .rParen, ")", .none⟩,
      ⟨.punctuation .lCurly, "\x7b", .none⟩]
    let mid := negatedTokens 124 [⟨.literal (.integer 1), "1", place⟩]
    let back : List Token := [⟨.literal (.integer 2), "2", .none⟩,
      ⟨.punctuation .semicolon, ";", .none⟩, ⟨.punctuation .rCurly, "\x7d", .none⟩]
    let ts := front ++ (mid ++ back)
    Exceeds maxNesting ts ∧
      ∃ noted t others, (Parsed.ofTokens (ts ++ [.eofAt .start])).errors =
        noted ++ .nestingTooDeep maxNesting t.span :: others ∧ Clean noted ∧ t ∈ ts ∧
          t.span = place ∧ Clean others := by
  intro place front mid back ts
  have hnumber : ∀ n i (span : Span), ExpressionDerives (n + 2) (.literal (.integer i) .none)
      [⟨.literal (.integer i), toString i, span⟩] := fun n i span => .factor (FactorForm.literal rfl)
  have hone : FactorDerives 1 (.literal (.integer 1) .none) [⟨.literal (.integer 1), "1", place⟩] :=
    FactorForm.literal rfl
  have hmid : StatementDerives 127 _ mid := statementDerives_negated hone 123
  have hlast : ∀ n, StatementDerives (n + 3) (.simple (.expression (.literal (.integer 2) .none)))
      [⟨.literal (.integer 2), "2", .none⟩, ⟨.punctuation .semicolon, ";", .none⟩] := fun n =>
    .simple (.expression (hnumber n 2 .none)) (by decide) rfl
  have hs : StatementDerives 129 _ ts :=
    statementDerives_whileTokens (hnumber 126 1 .none) (.cons hmid (.cons (hlast 124) .nil))
  have hdeep : ExceedsWith ts [.nestingTooDeep maxNesting place] :=
    hs.exceedsWith (by decide +kernel) rfl
  -- The loop and its block stand around the statement that is left out.
  have hitems : ItemsFrame (StatementDerives 126) (126 = 126) (StatementEncloses 126 126) [] _ :=
    .here rfl .nil (.cons (hlast 123) .nil)
  have hblock : BlockEncloses 126 127 _ _ :=
    BlockFrame.mk (t := ⟨.punctuation .lCurly, "\x7b", .none⟩)
      (u := ⟨.punctuation .rCurly, "\x7d", .none⟩) rfl hitems rfl
  have hheader : HeaderForm (ExpressionDerives 127) _ :=
    .whileLoop (t := ⟨.keyword .whileKw, "while", .none⟩) (u := ⟨.punctuation .lParen, "(", .none⟩)
      (v := ⟨.punctuation .rParen, ")", .none⟩) rfl rfl (hnumber 125 1 .none) rfl
  have hframe : ProgramEncloses 126 front back :=
    .inside .nil (StatementFrame.loop hheader hblock) .nil
  have heof : (Token.eofAt .start).kind = .eof := rfl
  have hnarrow : ∀ s, ¬ StatementDerives 126 s mid := fun s hs =>
    absurd (hs.clean_reports heof) (by decide +kernel)
  have hover : Overdeep 126 front mid back back := ⟨hframe, ⟨127, _, hmid, hnarrow _⟩, by decide⟩
  obtain ⟨noted, t, others, herrors, hnoted, ht, hothers⟩ :=
    Parsed.exists_nestingTooDeep hdeep.exceeds heof
  obtain ⟨rfl, hplace, -⟩ :=
    Clean.append_cons_inj Clean.nil hnoted rfl rfl (hdeep.errors.symm.trans herrors)
  have hplace : t.span = place := (ParseError.nestingTooDeep.inj hplace).2.symm
  obtain ⟨used, t', after, hsplit, hspan, hothers⟩ := hothers 126 front mid back back rfl hover
  -- No other token has the place that is reported.
  have helsewhere : ∀ u ∈ List.replicate 124 (⟨.operator .logical .logicalNot, "!", .none⟩ : Token) ++
      ⟨.punctuation .semicolon, ";", .none⟩ :: back, u.span ≠ place := by decide +kernel
  have hnot : ∀ u, u.span ≠ place → t' ≠ u := fun u hu heq => hu (heq ▸ hspan.trans hplace)
  obtain ⟨hbefore, hbehind⟩ := List.forall_mem_append.1 helsewhere
  obtain ⟨rfl, rfl, rfl⟩ := (List.append_cons_inj_of_notMem
    (fun hmem => hnot _ (hbefore _ hmem) rfl) (fun hmem => hnot _ (hbehind _ hmem) rfl)).1 hsplit
  have hskipped : SkippedBehind back (List.replicate 124 ⟨.operator .logical .logicalNot, "!", .none⟩)
      [⟨.literal (.integer 1), "1", place⟩, ⟨.punctuation .semicolon, ";", .none⟩] := by
    rw [List.replicate_succ']
    exact .later (by simp) (.token (by decide) (.semicolon rfl))
  exact ⟨hdeep.exceeds, [], t, others, herrors, hnoted, ht, hplace, hothers _ rfl hskipped⟩

open Grammar in
/-- Wrong types and numbers of arguments are reported in front of what is nested too deeply and
    behind it, two statements of a block may both be nested too deeply, and recovery may stop inside
    of the statement, at a name or behind a semicolon of its header. -/
theorem Parsed.errors_beside_nestingTooDeep :
    let one : List Token := [⟨.literal (.integer 1), "1", .none⟩]
    let deep : List Token := negatedTokens 124 one
    let circle : List Token := [⟨.reserved .circle, "circle", .none⟩, ⟨.punctuation .lParen, "(", .none⟩,
      ⟨.punctuation .rParen, ")", .none⟩]
    let declared : List Token := [⟨.dataType .int, "int", .none⟩, ⟨.identifier "a", "a", .none⟩,
      ⟨.operator .assignment .assign, "=", .none⟩, ⟨.literal (.string "s"), "s", .none⟩]
    let grouped : List Token := [⟨.punctuation .lParen, "(", .none⟩, ⟨.identifier "a", "a", .none⟩,
      ⟨.punctuation .rParen, ")", .none⟩]
    -- int a = "s", b = !…!1;
    ExceedsWith (declared ++ [⟨.punctuation .comma, ",", .none⟩, ⟨.identifier "b", "b", .none⟩,
        ⟨.operator .assignment .assign, "=", .none⟩] ++ negatedTokens 126 one)
      [.typeMismatch .int .string .none, .nestingTooDeep maxNesting .none] ∧
    -- while (circle()) { !…!1; }
    ExceedsWith (whileTokens circle deep)
      [.argumentCount .circle "1" 0 .none, .nestingTooDeep maxNesting .none] ∧
    -- while (1) { !…!1; int a = "s"; }
    ExceedsWith (whileTokens one (deep ++ (declared ++ [⟨.punctuation .semicolon, ";", .none⟩])))
      [.nestingTooDeep maxNesting .none, .typeMismatch .int .string .none] ∧
    -- while (1) { !…!1; !…!1; }
    ExceedsWith (whileTokens one (deep ++ deep))
      [.nestingTooDeep maxNesting .none, .nestingTooDeep maxNesting .none] ∧
    -- !…!(a);
    ExceedsWith (negatedTokens 124 grouped)
      [.nestingTooDeep maxNesting .none, .unexpectedToken "';'" "R_PARENTHESIS ')'" .none] ∧
    -- for (!…!1; 1; a++) { }
    ExceedsWith ([⟨.keyword .forKw, "for", .none⟩, ⟨.punctuation .lParen, "(", .none⟩] ++
        (negatedTokens 126 one ++ (one ++ [⟨.punctuation .semicolon, ";", .none⟩,
          ⟨.identifier "a", "a", .none⟩, ⟨.operator .unary .increment, "++", .none⟩,
          ⟨.punctuation .rParen, ")", .none⟩, ⟨.punctuation .lCurly, "\x7b", .none⟩,
          ⟨.punctuation .rCurly, "\x7d", .none⟩])))
      [.nestingTooDeep maxNesting .none, .unexpectedToken "';'" "R_PARENTHESIS ')'" .none] := by
  intro one deep circle declared grouped
  have hassign : Token.IsOperator ⟨.operator .assignment .assign, "=", .none⟩ .assign :=
    ⟨_, rfl, .inl rfl⟩
  have hone : FactorDerives 1 (.literal (.integer 1) .none) one := FactorForm.literal rfl
  have hdeep : StatementDerives 127 _ deep := statementDerives_negated hone 123
  have hcondition : ExpressionDerives 128 (.literal (.integer 1) .none) one :=
    .factor (FactorForm.literal rfl)
  have hdeclarator : ∀ n, DeclaratorForm (ExpressionDerives (n + 2))
      ⟨"a", none, some (.literal (.string "s") .none), .none⟩ declared.tail := fun n =>
    .mk (t := ⟨.identifier "a", "a", .none⟩) rfl .none
      (.some hassign (.factor (FactorForm.literal rfl)))
  have hnegated : ExpressionDerives 128 (negated (.literal (.integer 1) .none) 126) _ :=
    .factor (factorDerives_negated hone 126)
  refine ⟨?_, ?_, ?_, ?_, ?_, ?_⟩
  · have hdeclarator' : DeclaratorForm (ExpressionDerives 128) ⟨"b", none, some _, .none⟩ _ :=
      .mk (t := ⟨.identifier "b", "b", .none⟩) rfl .none (.some hassign hnegated)
    have hothers : Items (Led .comma (DeclaratorForm (ExpressionDerives 128))) _ _ :=
      .cons (.mk (t := ⟨.punctuation .comma, ",", .none⟩) rfl hdeclarator') .nil
    have hdeclaration : DeclarationForm (ExpressionDerives 128) ⟨.int, _, _, .none⟩ _ :=
      .mk (t := ⟨.dataType .int, "int", .none⟩) rfl (hdeclarator 126) hothers
    have hs : StatementDerives 129 _ _ :=
      StatementForm.declaration hdeclaration (t := ⟨.punctuation .semicolon, ";", .none⟩) rfl
    exact hs.exceedsWith (by decide +kernel) rfl
  · have hcall : ExpressionDerives 128 (.reserved .circle [] .none) circle :=
      .factor (FactorForm.reserved rfl (.none rfl rfl))
    have hloop := statementDerives_whileTokens hcall (.cons hdeep .nil)
    exact hloop.exceedsWith (by decide +kernel) rfl
  · have hdeclaration : DeclarationForm (ExpressionDerives 126) ⟨.int, _, [], .none⟩ _ :=
      .mk (t := ⟨.dataType .int, "int", .none⟩) rfl (hdeclarator 124) .nil
    have hs : StatementDerives 127 _ _ :=
      StatementForm.declaration hdeclaration (t := ⟨.punctuation .semicolon, ";", .none⟩) rfl
    have hloop := statementDerives_whileTokens hcondition (.cons hdeep (.cons hs .nil))
    exact hloop.exceedsWith (by decide +kernel) rfl
  · have hloop := statementDerives_whileTokens hcondition (.cons hdeep (.cons hdeep .nil))
    exact hloop.exceedsWith (by decide +kernel) rfl
  · have hpath : ExpressionDerives 2 (.path ⟨"a", [], .none⟩) [⟨.identifier "a", "a", .none⟩] :=
      .factor (FactorForm.path (.mk (t := ⟨.identifier "a", "a", .none⟩) rfl .nil))
    have hgrouped : FactorDerives 3 (.grouped _ .none) grouped := FactorForm.grouped rfl hpath rfl
    exact (statementDerives_negated hgrouped 123).exceedsWith (by decide +kernel) rfl
  · have hpath : PathForm ⟨"a", [], .none⟩ [⟨.identifier "a", "a", .none⟩] :=
      .mk (t := ⟨.identifier "a", "a", .none⟩) rfl .nil
    have hupdate : UpdateForm (ExpressionDerives 128)
        (.expression (.post .increment ⟨"a", [], .none⟩ .none)) _ :=
      .behind hpath (t := ⟨.operator .unary .increment, "++", .none⟩) ⟨_, rfl, .inl rfl⟩ rfl
    have hbody : BlockDerives 128 (.mk [] .none) _ :=
      BlockForm.mk (t := ⟨.punctuation .lCurly, "\x7b", .none⟩)
        (u := ⟨.punctuation .rCurly, "\x7d", .none⟩) rfl .nil rfl
    have hs : StatementDerives 129 (.forLoop _ _ _ _ .none) _ :=
      StatementForm.forLoop (.mk (t := ⟨.keyword .forKw, "for", .none⟩)
        (u := ⟨.punctuation .lParen, "(", .none⟩) (v := ⟨.punctuation .semicolon, ";", .none⟩)
        (w := ⟨.punctuation .semicolon, ";", .none⟩) (x := ⟨.punctuation .rParen, ")", .none⟩)
        rfl rfl (.simple (.expression hnegated)) rfl hcondition rfl hupdate rfl hbody)
    exact hs.exceedsWith (by decide +kernel) rfl

end GeoLang
