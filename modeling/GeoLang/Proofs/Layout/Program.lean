import GeoLang.Analysis
import GeoLang.Proofs.Layout.Statement
import GeoLang.Proofs.Layout.Tree
import GeoLang.Proofs.Lexical.Tiling
import GeoLang.Proofs.Reading.Consumption

namespace GeoLang

open Grammar

/-- The tokens of a text that are read stand in the order of the text. -/
theorem Lexed.inSourceOrder_code (keepComments : Bool) (source : String) :
    InSourceOrder (code (Lexed.ofSource keepComments source).tokens) := by
  obtain ⟨body, eof, gaps, htiled⟩ := Lexed.exists_tiledBy keepComments source
  have hinside : ∀ t ∈ body, (!t.kind.isEof) = true := by
    intro t ht
    rw [Bool.not_eq_true', ← Bool.not_eq_true, TokenKind.isEof_iff]
    exact htiled.kind_body t ht
  have hstops : [eof].takeWhile (!·.kind.isEof) = [] := by
    simp [TokenKind.isEof_iff.2 htiled.kind_eof]
  have hbody : InSourceOrder body := ⟨htiled.length_body, htiled.body_ordered⟩
  refine hbody.of_sublist ?_
  rw [code, htiled.tokens_eq, List.takeWhile_append_of_pos hinside, hstops, List.append_nil]
  exact List.filter_sublist

/-- The statements of a program stand over the tokens that it was read from. -/
theorem Grammar.listOver_of_returns_program {c d : Cursor} {p : Program} {es : List ParseError}
    (hc : c.InOrder) (hcode : ∀ t ∈ c.rest, t.kind ≠ .eof)
    (hreturns : Grammar.program.Returns c p d es) : Statement.ListOver p.statements c.rest := by
  have hend := rest_eq_nil_of_returns_program hc.eof hcode hreturns
  obtain ⟨attempts, hattempts, rfl⟩ := returns_program_iff.1 hreturns
  have hstatement := (statement_and_parts_lay maxNesting).1
  obtain ⟨used, hused, hover⟩ := hattempts.lays_statements (.statement maxNesting) hstatement hc
  rwa [hused.rest, hend, List.append_nil]

/-- Whatever a text is read as, each statement stands over its own tokens, with all its parts in
    turn and with spans that bound theirs; in the listing of the program, therefore, parts lie
    inside of what they are parts of, and everything else that follows a node lies behind it. -/
theorem Analysis.listOver_of_program {config : AnalysisConfig} {source : String} {p : Program}
    (hprogram : (Analysis.ofSource config source).program = some p) :
    Statement.ListOver p.statements (code (Analysis.ofSource config source).tokens) ∧
      Row.Nested p.rows := by
  let tokens := (Lexed.ofSource config.keepComments source).tokens
  have hordered : InSourceOrder (code tokens) := Lexed.inSourceOrder_code _ _
  have hparsed : (Parsed.ofTokens tokens).program = some p := by
    unfold Analysis.ofSource Analysis.parseLexed at hprogram
    dsimp only at hprogram
    split at hprogram
    · exact hprogram
    · cases hprogram
  have hne : tokens ≠ [] := by
    intro hnil
    rw [hnil] at hparsed
    cases hparsed
  obtain ⟨last, q, d, es, _, hreturns, heq⟩ := exists_returns_program hne
  rw [heq] at hparsed
  obtain rfl : q = p := Option.some.inj hparsed
  have hover : Statement.ListOver q.statements (code tokens) :=
    listOver_of_returns_program ⟨kind_endOfText tokens last, hordered⟩
      (fun t ht => kind_ne_eof_of_mem_code ht) hreturns
  exact ⟨hover, (Statement.list_lies 0 q.statements _ hordered hover).nested⟩

/-- A text with a declaration that has no semicolon, a statement that fails in a block, a comment in
    front of `else` and a declaration in the header of a loop. -/
theorem Analysis.listOver_of_partial :
    let a := Analysis.ofSource ⟨true, true⟩
      "int a = -(1 + 2), b sq cm if (a) \x7b a ==; b += a; \x7d # c # else \x7b for (int i = 0; f(i); i++) \x7b\x7d \x7d ;"
    ∃ p, a.program = some p ∧ Statement.ListOver p.statements (code a.tokens) ∧
      Row.Nested p.rows := by
  intro a
  have hsome : a.program.isSome = true := by decide +kernel
  obtain ⟨p, hp⟩ := Option.isSome_iff_exists.1 hsome
  exact ⟨p, hp, Analysis.listOver_of_program hp⟩

end GeoLang
