import GeoLang.Lexical.Tokens
import GeoLang.Proofs.Reading.Consumption
import GeoLang.Proofs.Spelling.Statement

namespace GeoLang

namespace Grammar

/-- A program is read from the tokens that write it out, if no attempt fails: no token is lost, read
    twice or moved. -/
theorem program_spells : program.Spells Program.terminals := by
  intro c p d es hreturns hclean
  obtain ⟨statements, hstatements, rfl⟩ := returns_program_iff.1 hreturns
  have hstatement := (statement_and_parts_spell maxNesting).1
  rw [Program.terminals, flatMap_terminals_reduceOption]
  refine hstatements.spells ?_ hclean
  intro _ c s d fs _ hreturns hclean
  exact recovering_spells (.statement maxNesting) hstatement _ _ _ _ hreturns hclean

end Grammar

open Grammar in
/-- A list of tokens in which nothing makes a rule fail gives a program that is written out by the
    tokens read: each token of the text is there once, at its place, and there is no other.
    Literals of the wrong type and wrong numbers of arguments may be there. -/
theorem Parsed.exists_written {tokens : List Token} (hne : tokens ≠ [])
    (hclean : Clean (Parsed.ofTokens tokens).errors) :
    ∃ p, (Parsed.ofTokens tokens).program = some p ∧ Written p.terminals (code tokens) := by
  obtain ⟨last, p, d, es, _, hreturns, hparsed⟩ := exists_returns_program hne
  rw [hparsed] at hclean ⊢
  have heof := kind_endOfText tokens last
  have hnil := rest_eq_nil_of_returns_program heof (fun _ => kind_ne_eof_of_mem_code) hreturns
  obtain ⟨used, hused, hwritten⟩ := program_spells _ _ _ _ hreturns hclean heof
  have hrest := hused.rest
  rw [hnil, List.append_nil] at hrest
  rw [← hrest] at hwritten
  exact ⟨p, rfl, hwritten⟩

open Grammar in
/-- A literal of the wrong type, and no semicolon behind the declaration. -/
theorem Parsed.exists_written_unterminated :
    ∃ p, (Parsed.ofTokens (Lexed.ofSource false "int n = true n += 1;").tokens).program = some p ∧
      Written p.terminals (code (Lexed.ofSource false "int n = true n += 1;").tokens) :=
  Parsed.exists_written (by decide +kernel) (by decide +kernel)

end GeoLang
