import GeoLang.Analysis
import GeoLang.Proofs.Extent.Statement
import GeoLang.Proofs.Lexical.Tiling
import GeoLang.Proofs.Source.Place

namespace GeoLang

/-- What is read from placed tokens is placed, and so are all errors. A list that does not say where
    its text ends ends behind its last token. -/
theorem Parsed.placed {good : Span → Prop} (hmerge : Grammar.MergesWell good) {tokens : List Token}
    (hend : ∀ last ∈ tokens.getLast?, good (.empty last.span.stop))
    (htokens : ∀ t ∈ tokens, good t.span) :
    (∀ p ∈ (Parsed.ofTokens tokens).program, p.Placed good) ∧
      ∀ e ∈ (Parsed.ofTokens tokens).errors, e.Placed good := by
  unfold Parsed.ofTokens
  split
  · constructor
    · rintro p ⟨⟩
    · intro e he
      obtain rfl := List.mem_singleton.1 he
      rintro s ⟨⟩
  · next last hlast =>
    have hstart : (Grammar.Cursor.ofTokens tokens last).Placed good := by
      refine ⟨fun t ht => htokens t (Grammar.mem_of_mem_code ht), ?_, by rintro t ⟨⟩⟩
      unfold Grammar.Cursor.ofTokens Grammar.endOfText
      cases hfind : tokens.find? (·.kind.isEof) with
      | none => exact hend last hlast
      | some t => exact htokens t (List.mem_of_find?_eq_some hfind)
    obtain ⟨-, herrors, hvalue, -⟩ := Grammar.Rule.Places.program hmerge _ hstart
    refine ⟨?_, herrors⟩
    intro p hp
    dsimp only at hp
    cases hresult : (Grammar.program (Grammar.Cursor.ofTokens tokens last)).result with
    | error e => simp [hresult, Except.toOption] at hp
    | ok q =>
      simp only [hresult, Except.toOption, Option.mem_some] at hp
      rw [← hp]
      exact hvalue q hresult

namespace Lexed

open Lexical in
/-- The pieces of a text are parts of it. -/
theorem exactIn_of_mem_place {source : String} {x : Segment × Span}
    (hx : x ∈ place .start (segments .operand source.toList)) : x.2.ExactIn source := by
  obtain ⟨s, span⟩ := x
  have hplaced : (s, span) ∈ place (Position.start.advanceBy []) (segments .operand source.toList) := hx
  obtain ⟨front, behind, hsplit, rfl⟩ := exists_split_of_mem_place hplaced
  rw [flatMap_chars_segments, List.nil_append] at hsplit
  refine Span.exactIn_of_le (Position.exactIn_advanceBy hsplit) ?_ ?_
  · rw [← Position.advanceBy_append]
    exact Position.exactIn_advanceBy (by rw [hsplit, List.append_assoc])
  · rw [Position.offset_advanceBy (Position.start.advanceBy front)]
    exact Nat.le_add_right _ _

/-- The span of every token is exact. -/
theorem exactIn_of_mem_tokens {keepComments : Bool} {source : String} {t : Token}
    (ht : t ∈ (Lexed.ofSource keepComments source).tokens) : t.span.ExactIn source := by
  obtain ht | ht := List.mem_append.1 ht
  · obtain ⟨x, hx, htoken⟩ := List.mem_filterMap.1 ht
    rw [Lexical.span_of_token? htoken]
    exact exactIn_of_mem_place hx
  · obtain rfl := List.mem_singleton.1 ht
    exact Span.exactIn_empty (Position.exactIn_advanceBy (by rw [List.append_nil]))

private theorem exactIn_of_mem_errors {keepComments : Bool} {source : String} {e : LexError}
    (he : e ∈ (Lexed.ofSource keepComments source).errors) : e.span.ExactIn source := by
  obtain ⟨x, hx, herror⟩ := List.mem_filterMap.1 he
  rw [Lexical.span_of_error? herror]
  exact exactIn_of_mem_place hx

end Lexed

namespace Analysis

/-- The spans of the tokens, of the lexical errors, of the nodes of the tree and of the errors in
    it. -/
def spans (a : Analysis) : List Span :=
  a.tokens.map Token.span ++ a.lexErrors.map LexError.span
    ++ (a.program.toList.flatMap Program.rows).map Row.span
    ++ a.parseErrors.filterMap ParseError.span?

private theorem placed_parseLexed (config : AnalysisConfig) (keepComments : Bool)
    (source : String) :
    let parsed := parseLexed config (Lexed.ofSource keepComments source)
    (∀ p ∈ parsed.program, p.Placed (Span.ExactIn · source)) ∧
      ∀ e ∈ parsed.errors, e.Placed (Span.ExactIn · source) := by
  have hmerge : Grammar.MergesWell (Span.ExactIn · source) := fun _ _ ha hb => ha.merge hb
  have htokens : ∀ t ∈ (Lexed.ofSource keepComments source).tokens, t.span.ExactIn source :=
    fun _ ht => Lexed.exactIn_of_mem_tokens ht
  have hend : ∀ last ∈ (Lexed.ofSource keepComments source).tokens.getLast?,
      (Span.empty last.span.stop).ExactIn source := fun last hlast =>
    Span.exactIn_empty (htokens last (List.mem_of_getLast? hlast)).stop
  intro parsed
  unfold parsed parseLexed
  split
  · exact Parsed.placed hmerge hend htokens
  · constructor
    · rintro p ⟨⟩
    · intro e he
      cases he

/-- Every span that the analysis of a text gives is exact, whatever is kept or forbidden and however
    many errors there are. -/
theorem exactIn_of_mem_spans (config : AnalysisConfig) (source : String) :
    ∀ s ∈ (Analysis.ofSource config source).spans, s.ExactIn source := by
  obtain ⟨hprogram, herrors⟩ := placed_parseLexed config config.keepComments source
  intro s hs
  simp only [spans, ofSource, List.mem_append] at hs
  obtain ((hs | hs) | hs) | hs := hs
  · obtain ⟨t, ht, rfl⟩ := List.mem_map.1 hs
    exact Lexed.exactIn_of_mem_tokens ht
  · obtain ⟨e, he, rfl⟩ := List.mem_map.1 hs
    exact Lexed.exactIn_of_mem_errors he
  · obtain ⟨row, hrow, rfl⟩ := List.mem_map.1 hs
    obtain ⟨p, hp, hmem⟩ := List.mem_flatMap.1 hrow
    exact hprogram p (Option.mem_toList.1 hp) row hmem
  · obtain ⟨e, he, hspan⟩ := List.mem_filterMap.1 hs
    exact herrors e he s hspan

/-- A missing expression in the second of two lines, both of which hold a character of two bytes. -/
theorem exactIn_of_missing_expression :
    let source := "s = \"é\";\nint é x = ;"
    let found : Span := ⟨⟨21, 1, 10⟩, ⟨22, 1, 11⟩⟩
    found ∈ (Analysis.ofSource {} source).spans ∧ found.ExactIn source := by
  intro source found
  have hfound : found ∈ (Analysis.ofSource {} source).spans := by decide +kernel
  exact ⟨hfound, exactIn_of_mem_spans _ _ found hfound⟩

end Analysis

end GeoLang
