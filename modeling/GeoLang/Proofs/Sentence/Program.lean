import GeoLang.Proofs.Sentence.Statement
import GeoLang.Proofs.Spelling.Program

namespace GeoLang

namespace Grammar

/-- An attempt at a statement gives one. -/
inductive AttemptForm (statement : Language Statement) : Language (Option Statement)
  | mk {s : Statement} {ts : List Token} (hstatement : statement s ts) :
      AttemptForm statement (some s) ts

/-- Statements are attempts that succeed. -/
theorem Items.attempts {statement : Language Statement} {ss : List Statement} {ts : List Token}
    (hitems : Items statement ss ts) : Items (AttemptForm statement) (ss.map some) ts := by
  induction hitems with
  | nil => exact .nil
  | cons hitem _ ih => exact .cons ⟨hitem⟩ ih

theorem attemptForm_begins {statement : Language Statement} {first : Token → Prop}
    (hbegins : statement.Begins first) : (Language.Begins (AttemptForm statement)) first := by
  rintro s ts ⟨hs⟩
  exact hbegins _ _ hs

private theorem map_bare_reduceOption {attempts : List (Option Statement)} {ss : List Statement}
    (hsame : attempts.map (Option.map Statement.bare) = (ss.map some).map (Option.map Statement.bare)) :
    attempts.reduceOption.map Statement.bare = ss.map Statement.bare := by
  induction ss generalizing attempts with
  | nil =>
    cases attempts with
    | nil => rfl
    | cons => simp at hsame
  | cons s ss ih =>
    cases attempts with
    | nil => simp at hsame
    | cons x xs =>
      simp only [List.map_cons, List.cons.injEq] at hsame
      obtain ⟨hfirst, hrest⟩ := hsame
      cases x with
      | none => simp at hfirst
      | some y =>
        have hbare : y.bare = s.bare := by simpa using hfirst
        have htail := ih hrest
        rw [List.map_cons, ← hbare, ← htail]
        rfl

/-- An attempt reads what its rule reads. -/
theorem recovering_accepts {statement : Rule Statement} {language : Language Statement}
    {follows : Token → Prop} (hstatement : statement.Accepts Statement.bare language follows) :
    (recovering statement).Accepts (Option.map Statement.bare) (AttemptForm language) follows := by
  rintro c s ts d ⟨hs⟩ hreads hfollows
  obtain ⟨x, es, hreturns, hsame, hclean⟩ := hstatement _ _ _ _ hs hreads hfollows
  refine ⟨some x, es, returns_recovering_iff.2 (.read hreturns), ?_, hclean⟩
  rw [Option.map_some, Option.map_some, hsame]

/-- Statements are read up to a token at which no statement is attempted. -/
theorem exists_repeats_recovering {next? : Token → Option Unit} {statement : Rule Statement}
    {language : Language Statement} (hbegins : language.Begins BeginsStatement)
    (hnext : ∀ t, BeginsStatement t → next? t = some ())
    (hstatement : statement.Accepts Statement.bare language fun t => t.kind ≠ .keyword .elseKw)
    {c d : Cursor} {ss : List Statement} {ts : List Token} (hitems : Items language ss ts)
    (hreads : c.Reads ts d) (hend : next? d.peek = none) (helse : d.peek.kind ≠ .keyword .elseKw) :
    ∃ attempts es, Repeats next? (fun _ => recovering statement) c attempts d es ∧
      attempts.reduceOption.map Statement.bare = ss.map Statement.bare ∧ Clean es := by
  obtain ⟨attempts, es, hrepeats, hsame, hclean⟩ :=
    Repeats.of_items (attemptForm_begins hbegins) (fun t ht => ⟨hnext t ht, ht.notElse⟩)
      (recovering_accepts hstatement) hitems.attempts hreads hend helse
  exact ⟨attempts, es, hrepeats, map_bare_reduceOption hsame, hclean⟩

private theorem blockRule_accepts {statement : Rule Statement} {language : Language Statement}
    (hbegins : language.Begins BeginsStatement)
    (hstatement : statement.Accepts Statement.bare language fun t => t.kind ≠ .keyword .elseKw) :
    (blockRule statement).Accepts Block.bare (BlockForm language) fun _ => True := by
  rintro c b ts d ⟨hopen, hstatements, hclose⟩ hreads _
  obtain ⟨hinside, rfl⟩ := hreads.of_cons
  obtain ⟨c', hreadsStatements, hrest⟩ := hinside.of_append
  obtain ⟨rfl, rfl⟩ := hrest.of_singleton
  have hnext : ∀ t, BeginsStatement t → insideBlock t = some () := fun t ht =>
    insideBlock_eq_some_iff.2 ⟨ht.notEnd, ht.notEof⟩
  have hstop : insideBlock c'.peek = none := insideBlock_eq_none_iff.2 (.inl hclose)
  obtain ⟨attempts, es, hrepeats, hsame, hclean⟩ := exists_repeats_recovering hbegins hnext hstatement
    hstatements hreadsStatements hstop (by simp [hclose])
  refine ⟨_, es, returns_blockRule_iff.2 ⟨hopen, attempts, c', hrepeats, hclose, rfl, rfl⟩, ?_, hclean⟩
  rw [Block.bare, Block.bare, Statement.bareList_eq_map, Statement.bareList_eq_map, hsame]

theorem conditionalDerives_begins (n : Nat) :
    (ConditionalDerives n).Begins fun t => t.kind = .keyword .ifKw := by
  cases n with
  | zero => exact fun _ _ hx => hx.elim
  | succ n =>
    rintro x ts ⟨hword⟩
    exact ⟨_, _, rfl, hword⟩

theorem blockDerives_begins (n : Nat) :
    (BlockDerives n).Begins fun t => t.kind = .punctuation .lCurly := by
  cases n with
  | zero => exact fun _ _ hx => hx.elim
  | succ n =>
    rintro x ts ⟨hopen⟩
    exact ⟨_, _, rfl, hopen⟩

/-- A statement begins with a token that is no `else`, and ends neither a block nor the text. -/
theorem statementDerives_begins (n : Nat) : (StatementDerives n).Begins BeginsStatement := by
  cases n with
  | zero => exact fun _ _ hs => hs.elim
  | succ n => exact statementForm_begins (rowDerives_begins n 1) (conditionalDerives_begins n)

/-- Statements, conditionals and blocks that the grammar derives are read; behind the first two no
    `else` may follow, which they would take for their own. -/
theorem statement_and_parts_accept (n : Nat) :
    (statement n).Accepts Statement.bare (StatementDerives n) (fun t => t.kind ≠ .keyword .elseKw) ∧
      (conditional n).Accepts Conditional.bare (ConditionalDerives n)
        (fun t => t.kind ≠ .keyword .elseKw) ∧
      (block n).Accepts Block.bare (BlockDerives n) fun _ => True := by
  induction n with
  | zero =>
    exact ⟨fun _ _ _ _ hs => hs.elim, fun _ _ _ _ hx => hx.elim, fun _ _ _ _ hx => hx.elim⟩
  | succ n ih =>
    obtain ⟨hstatement, hconditional, hblock⟩ := ih
    have hexpression := expression_accepts n
    have hconditionals := conditionalDerives_begins n
    refine ⟨?_, ?_, blockRule_accepts (statementDerives_begins n) hstatement⟩
    · exact statementRule_accepts hexpression (rowDerives_begins n 1) (rowDerives_neverAssigns n 1)
        hconditional hconditionals hblock
    · exact conditionalRule_accepts hexpression hconditional hconditionals hblock
        (blockDerives_begins n)

/-- A program is read from the tokens that derive it, if nothing but the end of the text follows. -/
theorem exists_returns_of_programDerives {p : Program} {ts : List Token} {eof : Token}
    (hp : ProgramDerives p ts) (heof : eof.kind = .eof) :
    ∃ q d es, program.Returns ⟨none, ts, eof⟩ q d es ∧ d.rest = [] ∧ q.bare = p.bare ∧ Clean es := by
  have hreads : Cursor.Reads ⟨none, ts, eof⟩ ts ⟨ts.getLast?, [], eof⟩ :=
    ⟨by rw [List.append_nil], rfl, by rw [Option.or_none]⟩
  have hnext : ∀ t, BeginsStatement t → insideProgram t = some () := fun t ht =>
    insideProgram_eq_some_iff.2 ht.notEof
  have hpeek : (⟨ts.getLast?, [], eof⟩ : Cursor).peek = eof := rfl
  have hstop : insideProgram eof = none := insideProgram_eq_none_iff.2 heof
  obtain ⟨attempts, es, hrepeats, hsame, hclean⟩ := exists_repeats_recovering
    (statementDerives_begins maxNesting) hnext (statement_and_parts_accept maxNesting).1 hp hreads
    (by rw [hpeek, hstop]) (by rw [hpeek, heof]; simp)
  refine ⟨_, _, es, returns_program_iff.2 ⟨attempts, hrepeats, rfl⟩, rfl, ?_, hclean⟩
  rw [Program.bare, Program.bare, hsame]

/-- In front of the end of the text, tokens that derive a program are all that is read. -/
theorem ofTokens_append_eof {ts : List Token} {eof : Token} (heof : eof.kind = .eof)
    (hcode : ∀ t ∈ ts, t.kind ≠ .eof ∧ t.kind.isComment = false) (last : Token) :
    Cursor.ofTokens (ts ++ [eof]) last = ⟨none, ts, eof⟩ := by
  have hnot : ∀ t ∈ ts, t.kind.isEof = false := by
    intro t ht
    rw [← Bool.not_eq_true, TokenKind.isEof_iff]
    exact (hcode t ht).1
  have hend : eof.kind.isEof = true := TokenKind.isEof_iff.2 heof
  have htake : (ts ++ [eof]).takeWhile (!·.kind.isEof) = ts := by
    rw [List.takeWhile_append_of_pos (by simpa using hnot), List.takeWhile_cons_of_neg (by simp [hend]),
      List.append_nil]
  have hfilter : ts.filter (!·.kind.isComment) = ts :=
    List.filter_eq_self.2 fun t ht => by simp [(hcode t ht).2]
  have hfind : (ts ++ [eof]).find? (·.kind.isEof) = some eof := by
    rw [List.find?_append, List.find?_eq_none.2 (by simpa using hnot)]
    simp [hend]
  simp only [Cursor.ofTokens, code, endOfText, htake, hfilter, hfind, Option.getD_some]

end Grammar

open Grammar in
/-- The tokens of a program that the grammar derives, with the end of the text behind them, give
    back that program. The only errors that may be noted are literals of the wrong type and wrong
    numbers of arguments. -/
theorem Parsed.exists_of_programDerives {p : Program} {ts : List Token} {eof : Token}
    (hp : ProgramDerives p ts) (heof : eof.kind = .eof) :
    ∃ q, (Parsed.ofTokens (ts ++ [eof])).program = some q ∧ q.bare = p.bare ∧
      Clean (Parsed.ofTokens (ts ++ [eof])).errors := by
  obtain ⟨q, d, es, hreturns, hnil, hsame, hclean⟩ := exists_returns_of_programDerives hp heof
  obtain ⟨used, hused, hwritten⟩ := program_spells _ _ _ _ hreturns hclean heof
  have hts : ts = used := by simpa [hnil] using hused.rest
  have hcode : ∀ t ∈ ts, t.kind ≠ .eof ∧ t.kind.isComment = false := by
    intro t ht
    rw [hts] at ht
    obtain ⟨x, _, hfits⟩ := hwritten.exists_fits t ht
    exact ⟨hfits.kind_ne_eof, hfits.isComment_eq_false⟩
  have hlast : (ts ++ [eof]).getLast? = some eof := by simp
  rw [← ofTokens_append_eof heof hcode eof] at hreturns
  rw [parsed_of_returns hlast hreturns]
  exact ⟨q, rfl, hsame, hclean⟩

open Grammar in
/-- The tokens of `n = 1 + 2;`. -/
theorem Parsed.exists_of_sum :
    let ts : List Token := [⟨.identifier "n", "n", .none⟩, ⟨.operator .assignment .assign, "=", .none⟩,
      ⟨.literal (.integer 1), "1", .none⟩, ⟨.operator .arithmetic .plus, "+", .none⟩,
      ⟨.literal (.integer 2), "2", .none⟩, ⟨.punctuation .semicolon, ";", .none⟩]
    let sum : Expr := .binary (.literal (.integer 1) .none) .plus (.literal (.integer 2) .none) .none
    ∃ q, (Parsed.ofTokens (ts ++ [.eofAt .start])).program = some q ∧
      q.bare = ⟨[.simple (.assignment ⟨"n", [], .none⟩ .assign sum .none)]⟩ ∧
        Clean (Parsed.ofTokens (ts ++ [.eofAt .start])).errors := by
  intro ts sum
  have hn : PathForm ⟨"n", [], .none⟩ [⟨.identifier "n", "n", .none⟩] :=
    PathForm.mk (t := ⟨.identifier "n", "n", .none⟩) rfl .nil
  have hone : FactorDerives 126 (.literal (.integer 1) .none) [⟨.literal (.integer 1), "1", .none⟩] :=
    .literal rfl
  have htwo : FactorDerives 125 (.literal (.integer 2) .none) [⟨.literal (.integer 2), "2", .none⟩] :=
    .literal rfl
  have hplus : Token.IsOperator ⟨.operator .arithmetic .plus, "+", .none⟩ .plus := ⟨_, rfl, .inl rfl⟩
  have hsum : ExpressionDerives 127 sum [⟨.literal (.integer 1), "1", .none⟩,
      ⟨.operator .arithmetic .plus, "+", .none⟩, ⟨.literal (.integer 2), "2", .none⟩] :=
    RowForm.join rfl (by decide) (.factor hone) hplus (.factor htwo)
  have hassign : Token.IsOperator ⟨.operator .assignment .assign, "=", .none⟩ .assign :=
    ⟨_, rfl, .inl rfl⟩
  have hsimple : SimpleForm (ExpressionDerives 127) (.assignment ⟨"n", [], .none⟩ .assign sum .none)
      ts.dropLast :=
    .assignment (.mk hn hassign rfl hsum)
  have hstatement : StatementDerives maxNesting
      (.simple (.assignment ⟨"n", [], .none⟩ .assign sum .none)) ts :=
    StatementForm.simple hsimple (by decide) rfl
  have hprogram : ProgramDerives ⟨[.simple (.assignment ⟨"n", [], .none⟩ .assign sum .none)]⟩ ts :=
    Items.cons hstatement .nil
  exact Parsed.exists_of_programDerives hprogram rfl

end GeoLang
