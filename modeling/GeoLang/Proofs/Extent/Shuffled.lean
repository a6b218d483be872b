import GeoLang.Proofs.Extent.Analysis

namespace GeoLang

/-- The ends of the span are in order. It begins where one of the tokens begins, or where the last
    of them ends, and it ends where one of them ends. -/
structure Span.EndsAmong (tokens : List Token) (s : Span) : Prop where
  ordered : s.start.offset ≤ s.stop.offset
  start : (∃ t ∈ tokens, s.start = t.span.start) ∨ ∃ last ∈ tokens.getLast?, s.start = last.span.stop
  stop : ∃ t ∈ tokens, s.stop = t.span.stop

namespace Span.EndsAmong

variable {tokens : List Token}

private theorem of_mem {t : Token} (ht : t ∈ tokens)
    (hordered : t.span.start.offset ≤ t.span.stop.offset) :
    t.span.EndsAmong tokens :=
  ⟨hordered, .inl ⟨t, ht, rfl⟩, ⟨t, ht, rfl⟩⟩

/-- Nothing at the end of the last token. -/
theorem empty {last : Token} (hlast : last ∈ tokens.getLast?) :
    (Span.empty last.span.stop).EndsAmong tokens :=
  ⟨Nat.le_refl _, .inr ⟨last, hlast, rfl⟩, ⟨last, List.mem_of_getLast? hlast, rfl⟩⟩

/-- Merging takes its ends from the two spans, the one further in front and the one further
    behind. -/
theorem merge {a b : Span} (ha : a.EndsAmong tokens) (hb : b.EndsAmong tokens) :
    (a.merge b).EndsAmong tokens where
  ordered := by
    have hle := ha.ordered
    rw [start_offset_merge, stop_offset_merge]
    omega
  start := by
    unfold Span.merge
    dsimp only
    split
    · exact hb.start
    · exact ha.start
  stop := by
    unfold Span.merge
    dsimp only
    split
    · exact hb.stop
    · exact ha.stop

end Span.EndsAmong

/-- The spans of the nodes of the tree and of the errors in it. -/
def Parsed.spans (parsed : Parsed) : List Span :=
  (parsed.program.toList.flatMap Program.rows).map Row.span
    ++ parsed.errors.filterMap ParseError.span?

/-- Every span that is read from tokens of one text has its ends in order and among those of the
    tokens, in whatever order they stand. -/
theorem Parsed.endsAmong_of_mem_spans {keepComments : Bool} {source : String} {tokens : List Token}
    (hne : tokens ≠ []) (hlexed : ∀ t ∈ tokens, t ∈ (Lexed.ofSource keepComments source).tokens) :
    (Parsed.ofTokens tokens).program.isSome ∧
      ∀ s ∈ (Parsed.ofTokens tokens).spans, s.EndsAmong tokens := by
  have hmerge : Grammar.MergesWell (Span.EndsAmong tokens) := fun _ _ ha hb => ha.merge hb
  have hend : ∀ last ∈ tokens.getLast?, (Span.empty last.span.stop).EndsAmong tokens :=
    fun _ hlast => .empty hlast
  have htokens : ∀ t ∈ tokens, t.span.EndsAmong tokens := fun t ht =>
    .of_mem ht (Lexed.exactIn_of_mem_tokens (hlexed t ht)).le
  obtain ⟨hprogram, herrors⟩ := Parsed.placed hmerge hend htokens
  obtain ⟨last, p, d, es, _, _, hparsed⟩ := Grammar.exists_returns_program hne
  refine ⟨by rw [hparsed]; rfl, ?_⟩
  intro s hs
  obtain hs | hs := List.mem_append.1 hs
  · obtain ⟨row, hrow, rfl⟩ := List.mem_map.1 hs
    obtain ⟨q, hq, hmem⟩ := List.mem_flatMap.1 hrow
    exact hprogram q (Option.mem_toList.1 hq) row hmem
  · obtain ⟨e, he, hspan⟩ := List.mem_filterMap.1 hs
    exact herrors e he s hspan

/-- The operands of a sum change places, and its operator comes twice, without the end of the
    text. -/
theorem Parsed.endsAmong_of_swapped :
    let lexed := (Lexed.ofSource false "c + b;").tokens
    let tokens := [2, 1, 1, 0, 3].filterMap (lexed[·]?)
    (Parsed.ofTokens tokens).program.isSome ∧
      ∀ s ∈ (Parsed.ofTokens tokens).spans, s.EndsAmong tokens := by
  intro lexed tokens
  have hlexed : ∀ t ∈ tokens, t ∈ lexed := by
    intro t ht
    obtain ⟨i, -, hi⟩ := List.mem_filterMap.1 ht
    exact List.mem_of_getElem? hi
  exact Parsed.endsAmong_of_mem_spans (by decide +kernel) hlexed

end GeoLang
