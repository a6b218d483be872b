import GeoLang.Proofs.Errors.Statement
import GeoLang.Proofs.Extent.Analysis
import GeoLang.Proofs.Layout.Program

namespace GeoLang

open Grammar

/-- Exact positions are inside the source. -/
theorem Position.ExactIn.offset_le {p : Position} {source : String} (hexact : p.ExactIn source) :
    p.offset ≤ source.utf8ByteSize := by
  obtain ⟨front, behind, rfl, hbehind⟩ := hexact
  rw [hbehind.offset, String.utf8ByteSize_append]
  exact Nat.le_add_right _ _

/-- The tokens of a text are read in their order, and the end of the text stands behind them. -/
theorem Lexed.ordered_cursor (keepComments : Bool) (source : String) (last : Token) :
    (Cursor.ofTokens (Lexed.ofSource keepComments source).tokens last).Ordered := by
  obtain ⟨body, eof, gaps, htiled⟩ := Lexed.exists_tiledBy keepComments source
  have hend : endOfText (Lexed.ofSource keepComments source).tokens last = eof := by
    have hnone : body.find? (·.kind.isEof) = none := by
      refine List.find?_eq_none.2 fun t ht => ?_
      rw [TokenKind.isEof_iff]
      exact htiled.kind_body t ht
    have heof := TokenKind.isEof_iff.2 htiled.kind_eof
    rw [endOfText, htiled.tokens_eq, List.find?_append, hnone]
    simp [heof]
  refine ⟨⟨kind_endOfText _ last, Lexed.inSourceOrder_code keepComments source⟩, ?_, ?_⟩
  · change (endOfText _ last).span.start.offset ≤ (endOfText _ last).span.stop.offset
    rw [hend, htiled.start_eof, htiled.stop_eof]
  · intro t ht
    change t.span.stop.offset ≤ (endOfText _ last).span.start.offset
    rw [hend, htiled.start_eof]
    exact (Lexed.exactIn_of_mem_tokens (mem_of_mem_code ht)).stop.offset_le

/-- Of any two errors in a text the one listed later neither begins nor ends in front of the other,
    or both report numbers of arguments and the other's call stands inside of the later one's. -/
theorem Analysis.listed_parseErrors (config : AnalysisConfig) (source : String) :
    (Analysis.ofSource config source).parseErrors.Pairwise ParseError.ListedBefore := by
  let tokens := (Lexed.ofSource config.keepComments source).tokens
  have hlisted : (Parsed.ofTokens tokens).errors.Pairwise ParseError.ListedBefore := by
    unfold Parsed.ofTokens
    split
    · exact List.pairwise_singleton _ _
    · next last _ =>
      exact (Rule.KeepsOrder.program _ (Lexed.ordered_cursor config.keepComments source last)).listed
  unfold Analysis.ofSource Analysis.parseLexed
  dsimp only
  split
  · exact hlisted
  · exact .nil

/-- The call of `areaOf` begins in front of the call of `circle` inside of it, and is listed behind
    it. -/
theorem Analysis.not_sorted_parseErrors :
    ¬ ((Analysis.ofSource {} "areaOf(circle(1,2), 3);").parseErrors.filterMap
      ParseError.span?).Pairwise fun s t => s.start.offset ≤ t.start.offset := by
  decide +kernel

end GeoLang
