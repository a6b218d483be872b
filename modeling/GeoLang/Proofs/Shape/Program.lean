import GeoLang.Proofs.Lexical.Segment
import GeoLang.Proofs.Shape.Statement

namespace GeoLang

open Grammar in
/-- Every program that is read has the right shape, at each of its nodes, in whatever order the
    tokens of texts stand and whatever errors there are. -/
theorem Parsed.exists_shaped {tokens : List Token} (hne : tokens ≠ [])
    (hlexed : ∀ t ∈ tokens, ∃ keepComments source, t ∈ (Lexed.ofSource keepComments source).tokens) :
    ∃ p, (Parsed.ofTokens tokens).program = some p ∧ p.Shaped := by
  obtain ⟨last, p, d, es, _, hreturns, hparsed⟩ := exists_returns_program hne
  have hsound : (Cursor.ofTokens tokens last).Sound := by
    refine ⟨kind_endOfText tokens last, ?_⟩
    intro t ht cls op hkind
    obtain ⟨keepComments, source, hmem⟩ := hlexed t (mem_of_mem_code ht)
    exact Lexed.mayHaveClass_of_mem_tokens hmem hkind
  exact ⟨p, by rw [hparsed], program_yields.holds _ _ _ _ hsound hreturns⟩

open Grammar in
/-- A text with a faulty declaration between two statements. -/
theorem Parsed.exists_shaped_of_faulty :
    ∃ p, (Parsed.ofTokens (Lexed.ofSource false "a = 1 - 2 - 3; int = ; b.c *= -2 ** 3;").tokens).program
      = some p ∧ p.Shaped :=
  Parsed.exists_shaped (by decide +kernel) fun _ ht => ⟨_, _, ht⟩

end GeoLang
