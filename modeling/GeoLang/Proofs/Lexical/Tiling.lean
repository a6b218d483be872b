import GeoLang.Proofs.Lexical.Segment
import GeoLang.Proofs.Source.Span

namespace GeoLang

/-- What may stand between tokens and errors. -/
inductive Skipped (keepComments : Bool) : List Char → Prop where
  | blank {c : Char} (hc : c ∈ [' ', '\t', '\n', '\x0b', '\r']) : Skipped keepComments [c]
  | writtenBlank {c : Char} (hc : c ∈ ['t', 'n', 'v']) : Skipped keepComments ['\\', c]
  | comment {cs : List Char} (hkeep : keepComments = false) (hclosed : Lexical.ClosedComment cs) :
      Skipped keepComments cs

/-- The tokens in `body`, the errors and the `gaps` tile `source` from end to end, and only `eof`
    follows the tokens. Each gap is one skipped piece of the text. -/
structure Lexed.TiledBy (lexed : Lexed) (keepComments : Bool) (source : String) (body : List Token)
    (eof : Token) (gaps : List Span) : Prop where
  tokens_eq : lexed.tokens = body ++ [eof]
  kind_body : ∀ t ∈ body, t.kind ≠ .eof
  kind_eof : eof.kind = .eof
  start_eof : eof.span.start.offset = source.utf8ByteSize
  stop_eof : eof.span.stop.offset = source.utf8ByteSize
  length_body : ∀ t ∈ body, 0 < t.span.length
  length_errors : ∀ e ∈ lexed.errors, 0 < e.span.length
  body_ordered : body.Pairwise fun a b => a.span.Before b.span
  errors_ordered : lexed.errors.Pairwise fun a b => a.span.Before b.span
  apart : (body.map Token.span ++ lexed.errors.map LexError.span).Pairwise Span.Apart
  skipped : ∀ g ∈ gaps, Skipped keepComments (g.covered source).toList
  covers : ∃ pieces,
    pieces.Perm ((body.map Token.span ++ lexed.errors.map LexError.span) ++ gaps) ∧
      Span.Tile .start pieces eof.span.start

namespace Lexical

/-- The span of a segment that is neither a token nor an error. -/
def gap? (keepComments : Bool) : Segment × Span → Option Span
  | (⟨_, .blank⟩, span) => some span
  | (⟨_, .comment _⟩, span) => if keepComments then none else some span
  | _ => none

/-- Only blanks, and comments that are not kept, are gaps. -/
theorem gap?_eq_some_iff {keepComments : Bool} {s : Segment} {span g : Span} :
    gap? keepComments (s, span) = some g ↔
      g = span ∧ (s.content = .blank ∨ keepComments = false ∧ ∃ body, s.content = .comment body) := by
  obtain ⟨chars, content⟩ := s
  cases content with
  | blank => simp [gap?, eq_comm]
  | comment body => cases keepComments <;> simp [gap?, eq_comm]
  | token kind lexeme => simp [gap?]
  | fault f => simp [gap?]

/-- Each segment is a token, an error or a gap, and only one of them. -/
theorem perm_map_span (keepComments : Bool) (placed : List (Segment × Span)) :
    (placed.map Prod.snd).Perm
      (((placed.filterMap (token? keepComments)).map Token.span
        ++ (placed.filterMap error?).map LexError.span) ++ placed.filterMap (gap? keepComments)) := by
  induction placed with
  | nil => exact .refl _
  | cons x rest ih =>
    obtain ⟨⟨chars, content⟩, span⟩ := x
    cases content with
    | blank =>
      exact (ih.cons span).trans List.perm_middle.symm
    | comment body =>
      cases keepComments with
      | true => exact ih.cons span
      | false => exact (ih.cons span).trans List.perm_middle.symm
    | token kind lexeme => exact ih.cons span
    | fault f =>
      refine (ih.cons span).trans ?_
      exact List.Perm.append_right _ List.perm_middle.symm

/-- Segments stand one behind the other, and each takes at least one byte. -/
theorem tile_place {lead : Lead} {cs : List Char} (p : Position) :
    Span.Tile p ((place p (segments lead cs)).map Prod.snd) (p.advanceBy cs) := by
  fun_induction segments lead cs generalizing p with
  | case1 => rfl
  | case2 lead c cs s rest ih =>
    have hsplit : c :: cs = (c :: cs.take s.extra) ++ rest := by
      rw [List.cons_append, List.take_append_drop]
    have hoffset := Position.offset_advanceBy p (c :: cs.take s.extra)
    have hpositive := c.utf8Size_pos
    rw [Text.byteSize_cons] at hoffset
    refine ⟨rfl, ?_, ?_⟩
    · simp only [Span.length]
      omega
    · rw [hsplit, Position.advanceBy_append]
      exact ih _

/-- A placed segment has the span of its text. -/
theorem exists_split_of_mem_place {before : List Char} {segs : List Segment} {s : Segment}
    {span : Span} (hs : (s, span) ∈ place (Position.start.advanceBy before) segs) :
    ∃ front behind, before ++ segs.flatMap Segment.chars = front ++ (s.chars ++ behind) ∧
      span = ⟨Position.start.advanceBy front, (Position.start.advanceBy front).advanceBy s.chars⟩ := by
  induction segs generalizing before with
  | nil => cases hs
  | cons t rest ih =>
    obtain hs | hs := List.mem_cons.1 hs
    · obtain ⟨rfl, rfl⟩ := Prod.mk.inj hs
      exact ⟨before, rest.flatMap Segment.chars, rfl, rfl⟩
    · rw [← Position.advanceBy_append] at hs
      obtain ⟨front, behind, hsplit, hspan⟩ := ih hs
      refine ⟨front, behind, ?_, hspan⟩
      rw [← hsplit, List.flatMap_cons, List.append_assoc]

private theorem covered_of_mem_place {lead : Lead} {source : String} {s : Segment} {span : Span}
    (hs : (s, span) ∈ place .start (segments lead source.toList)) :
    (span.covered source).toList = s.chars := by
  have hplaced : (s, span) ∈ place (Position.start.advanceBy []) (segments lead source.toList) := hs
  obtain ⟨front, behind, hsplit, rfl⟩ := exists_split_of_mem_place hplaced
  rw [flatMap_chars_segments, List.nil_append] at hsplit
  rw [Span.covered_advanceBy hsplit, String.toList_ofList]

private theorem skipped_of_gap? {keepComments afterValue : Bool} {chars : List Char}
    {content : Content}
    {span g : Span} (hpiece : Piece afterValue chars content)
    (hgap : gap? keepComments (⟨chars, content⟩, span) = some g) : Skipped keepComments chars := by
  obtain ⟨-, rfl | ⟨hkeep, body, rfl⟩⟩ := gap?_eq_some_iff.1 hgap
  · cases hpiece with
    | blank hc => exact .blank (by simpa [isBlankChar, or_assoc] using hc)
    | writtenBlank hc => exact .writtenBlank (by simpa [isBlankLetter, or_assoc] using hc)
  · cases hpiece with
    | comment hclosed => exact .comment hkeep hclosed

/-- A token has the span that its segment is placed at. -/
theorem span_of_token? {keepComments : Bool} {x : Segment × Span} {t : Token}
    (htoken : token? keepComments x = some t) : t.span = x.2 := by
  obtain ⟨_, _, _, rfl⟩ | ⟨_, _, _, rfl⟩ := token?_eq_some_iff.1 htoken
  · rfl
  · rfl

/-- So has an error. -/
theorem span_of_error? {x : Segment × Span} {e : LexError} (herror : error? x = some e) :
    e.span = x.2 := by
  obtain ⟨_, _, rfl⟩ := error?_eq_some_iff.1 herror
  rfl

/-- What is read off some of the tiles is not empty and keeps their order. -/
theorem ordered_filterMap {α : Type} {f : Segment × Span → Option α} {span : α → Span}
    (hspan : ∀ {x a}, f x = some a → span a = x.2) {placed : List (Segment × Span)}
    {p q : Position} (htile : Span.Tile p (placed.map Prod.snd) q) :
    (∀ a ∈ placed.filterMap f, 0 < (span a).length) ∧
      (placed.filterMap f).Pairwise fun a b => (span a).Before (span b) := by
  have hordered : placed.Pairwise fun x y => x.2.Before y.2 :=
    List.pairwise_map.1 htile.pairwise_before
  constructor
  · intro a ha
    obtain ⟨x, hx, hread⟩ := List.mem_filterMap.1 ha
    rw [hspan hread]
    exact (htile.bounds x.2 (List.mem_map_of_mem hx)).2
  · refine hordered.filterMap f ?_
    intro x y hbefore a ha b hb
    rw [hspan ha, hspan hb]
    exact hbefore

/-- No segment of a text is the end of the text. -/
theorem kind_ne_eof_of_token? {keepComments afterValue : Bool} {chars : List Char}
    {content : Content} {span : Span} {t : Token} (hpiece : Piece afterValue chars content)
    (htoken : token? keepComments (⟨chars, content⟩, span) = some t) : t.kind ≠ .eof := by
  obtain ⟨kind, lexeme, rfl, rfl⟩ | ⟨-, body, -, rfl⟩ := token?_eq_some_iff.1 htoken
  · cases hpiece with
    | token hkind => exact hkind.ne_eof
  · exact TokenKind.noConfusion

end Lexical

open Lexical in
/-- Nothing of a text gets lost between its tokens and its errors. -/
theorem Lexed.exists_tiledBy (keepComments : Bool) (source : String) :
    ∃ body eof gaps,
      (Lexed.ofSource keepComments source).TiledBy keepComments source body eof gaps := by
  let placed := place .start (segments .operand source.toList)
  let stop := Position.start.advanceBy source.toList
  have hpieces : ∀ x ∈ placed, ∃ afterValue, Piece afterValue x.1.chars x.1.content := fun _ hx =>
    exists_piece_of_mem_segments (mem_of_mem_place hx)
  have htile : Span.Tile .start (placed.map Prod.snd) stop := tile_place .start
  have hperm := perm_map_span keepComments placed
  have hstop : stop.offset = source.utf8ByteSize := by
    rw [← Text.byteSize_toList]
    exact Position.offset_start_advanceBy source.toList
  have htokens := ordered_filterMap (f := token? keepComments) span_of_token? htile
  have herrors := ordered_filterMap span_of_error? htile
  refine ⟨placed.filterMap (token? keepComments), .eofAt stop,
    placed.filterMap (gap? keepComments), ?_⟩
  exact {
    tokens_eq := rfl
    kind_body := by
      intro t ht
      obtain ⟨x, hx, htoken⟩ := List.mem_filterMap.1 ht
      obtain ⟨_, hpiece⟩ := hpieces x hx
      exact kind_ne_eof_of_token? hpiece htoken
    kind_eof := rfl
    start_eof := hstop
    stop_eof := hstop
    length_body := htokens.1
    length_errors := herrors.1
    body_ordered := htokens.2
    errors_ordered := herrors.2
    apart := (List.pairwise_append.1 (htile.pairwise_apart hperm)).1
    skipped := by
      intro g hg
      obtain ⟨x, hx, hgap⟩ := List.mem_filterMap.1 hg
      obtain ⟨rfl, -⟩ := gap?_eq_some_iff.1 hgap
      obtain ⟨_, hpiece⟩ := hpieces x hx
      rw [covered_of_mem_place hx]
      exact skipped_of_gap? hpiece hgap
    covers := ⟨placed.map Prod.snd, hperm, htile⟩ }

end GeoLang
