import GeoLang.Proofs.Lexical.Tiling

namespace GeoLang

/-- `t` stands at the beginning of the text, and the other tokens and the errors stand behind it. -/
structure Lexed.BeginsWith (lexed : Lexed) (t : Token) : Prop where
  head : lexed.tokens.head? = some t
  start : t.span.start = .start
  length : 0 < t.span.length
  tokens : ∀ u ∈ lexed.tokens.tail, t.span.stop.offset ≤ u.span.start.offset
  errors : ∀ e ∈ lexed.errors, t.span.stop.offset ≤ e.span.start.offset

/-- `e` stands at the beginning of the text, and the tokens and the other errors stand behind it. -/
structure Lexed.BeginsWithError (lexed : Lexed) (e : LexError) : Prop where
  head : lexed.errors.head? = some e
  start : e.span.start = .start
  length : 0 < e.span.length
  tokens : ∀ t ∈ lexed.tokens, e.span.stop.offset ≤ t.span.start.offset
  errors : ∀ f ∈ lexed.errors.tail, e.span.stop.offset ≤ f.span.start.offset

/-- What a text falls into that is one token from its beginning to its end. -/
def Lexed.oneToken (source : String) (kind : TokenKind) (lexeme : String) : Lexed :=
  let stop := Position.start.advanceBy source.toList
  ⟨[⟨kind, lexeme, ⟨.start, stop⟩⟩, .eofAt stop], []⟩

/-- What a text falls into that is one faulty piece from its beginning to its end. -/
def Lexed.oneError (source : String) (fault : LexFault) : Lexed :=
  let stop := Position.start.advanceBy source.toList
  ⟨[.eofAt stop], [⟨fault, ⟨.start, stop⟩⟩]⟩

/-- What tiles a text from `p` on ends nowhere in front of `p`. -/
theorem Span.Tile.offset_le {p q : Position} {spans : List Span} (htile : Span.Tile p spans q) :
    p.offset ≤ q.offset := by
  induction spans generalizing p with
  | nil => exact Nat.le_of_eq (congrArg Position.offset htile)
  | cons s rest ih =>
    obtain ⟨rfl, hlength, hrest⟩ := htile
    have hstop := ih hrest
    unfold Span.length at hlength
    omega

namespace Lexical

/-- The segments behind the first one, each with its span. -/
def placedBehind (c : Char) (cs : List Char) : List (Segment × Span) :=
  let s := scan .operand c cs
  let rest := cs.drop s.extra
  place (Position.start.advanceBy (c :: cs.take s.extra))
    (segments (Lead.next .operand s.content rest) rest)

/-- A text falls into its first segment and what stands behind that. -/
theorem place_segments_cons (c : Char) (cs : List Char) :
    place .start (segments .operand (c :: cs)) =
      (⟨c :: cs.take (scan .operand c cs).extra, (scan .operand c cs).content⟩,
        ⟨.start, Position.start.advanceBy (c :: cs.take (scan .operand c cs).extra)⟩) ::
        placedBehind c cs := by
  rw [segments]
  rfl

private theorem tile_placedBehind (c : Char) (cs : List Char) :
    let stop := Position.start.advanceBy (c :: cs.take (scan .operand c cs).extra)
    0 < (Span.mk .start stop).length ∧
      Span.Tile stop ((placedBehind c cs).map Prod.snd) (Position.start.advanceBy (c :: cs)) := by
  have htile : Span.Tile .start ((place .start (segments .operand (c :: cs))).map Prod.snd) _ :=
    tile_place .start
  rw [place_segments_cons] at htile
  exact htile.2

/-- Nothing stands behind a segment that takes up all of the text. -/
theorem placedBehind_eq_nil {c : Char} {cs : List Char} {content : Content}
    (hscan : scan .operand c cs = ⟨cs.length, content⟩) : placedBehind c cs = [] := by
  rw [placedBehind, hscan]
  dsimp only
  rw [List.drop_length, segments]
  rfl

/-- What is read off tiles behind `p` stands behind `p`. -/
theorem offset_le_of_mem_filterMap {α : Type} {f : Segment × Span → Option α} {span : α → Span}
    (hspan : ∀ {x a}, f x = some a → span a = x.2) {p q : Position} {placed : List (Segment × Span)}
    (htile : Span.Tile p (placed.map Prod.snd) q) :
    ∀ a ∈ placed.filterMap f, p.offset ≤ (span a).start.offset := by
  intro a ha
  obtain ⟨x, hx, hread⟩ := List.mem_filterMap.1 ha
  rw [hspan hread]
  exact (htile.bounds x.2 (List.mem_map_of_mem hx)).1

private theorem offset_le_of_mem_tokens (keepComments : Bool) {p q : Position}
    {placed : List (Segment × Span)} (htile : Span.Tile p (placed.map Prod.snd) q) :
    ∀ t ∈ placed.filterMap (token? keepComments) ++ [.eofAt q], p.offset ≤ t.span.start.offset := by
  intro t ht
  obtain ht | ht := List.mem_append.1 ht
  · exact offset_le_of_mem_filterMap span_of_token? htile t ht
  · obtain rfl := List.mem_singleton.1 ht
    exact htile.offset_le

/-- What is behind the first segment stands behind it, and the segment is not empty. -/
theorem offset_le_behind (keepComments : Bool) (c : Char) (cs : List Char) :
    let stop := Position.start.advanceBy (c :: cs.take (scan .operand c cs).extra)
    0 < (Span.mk .start stop).length ∧
      (∀ t ∈ (placedBehind c cs).filterMap (token? keepComments) ++
        [.eofAt (Position.start.advanceBy (c :: cs))], stop.offset ≤ t.span.start.offset) ∧
        ∀ e ∈ (placedBehind c cs).filterMap error?, stop.offset ≤ e.span.start.offset := by
  obtain ⟨hlength, htile⟩ := tile_placedBehind c cs
  exact ⟨hlength, offset_le_of_mem_tokens keepComments htile,
    offset_le_of_mem_filterMap span_of_error? htile⟩

end Lexical

open Lexical

section

variable {source : String} {c : Char} {cs : List Char} (hsource : source.toList = c :: cs) {n : Nat}
  {kind : TokenKind} {lexeme : String} {fault : LexFault} (keepComments : Bool)

include hsource

/-- A token that is scanned at the start of a text is the first one, and all else stands behind
    it. -/
theorem Lexed.beginsWith_of_scan (hscan : scan .operand c cs = ⟨n, .token kind lexeme⟩) :
    (Lexed.ofSource keepComments source).BeginsWith
      ⟨kind, lexeme, ⟨.start, Position.start.advanceBy (c :: cs.take n)⟩⟩ := by
  obtain ⟨hlength, htokens, herrors⟩ := offset_le_behind keepComments c cs
  have hplaced := place_segments_cons c cs
  rw [hscan] at hlength htokens herrors hplaced
  unfold Lexed.ofSource
  rw [hsource, hplaced]
  exact ⟨rfl, rfl, hlength, htokens, herrors⟩

/-- So is an error, and no token stands in front of it. -/
theorem Lexed.beginsWithError_of_scan (hscan : scan .operand c cs = ⟨n, .fault fault⟩) :
    (Lexed.ofSource keepComments source).BeginsWithError
      ⟨fault, ⟨.start, Position.start.advanceBy (c :: cs.take n)⟩⟩ := by
  obtain ⟨hlength, htokens, herrors⟩ := offset_le_behind keepComments c cs
  have hplaced := place_segments_cons c cs
  rw [hscan] at hlength htokens herrors hplaced
  unfold Lexed.ofSource
  rw [hsource, hplaced]
  exact ⟨rfl, rfl, hlength, htokens, herrors⟩

/-- A text that is scanned as one token to its end has that token and the end of the text. -/
theorem Lexed.ofSource_eq_oneToken (hscan : scan .operand c cs = ⟨cs.length, .token kind lexeme⟩) :
    Lexed.ofSource keepComments source = .oneToken source kind lexeme := by
  unfold Lexed.ofSource Lexed.oneToken
  rw [hsource, place_segments_cons, placedBehind_eq_nil hscan, hscan]
  dsimp only
  rw [List.take_length]
  rfl

/-- A text that is scanned as one fault to its end has that error and no token. -/
theorem Lexed.ofSource_eq_oneError (hscan : scan .operand c cs = ⟨cs.length, .fault fault⟩) :
    Lexed.ofSource keepComments source = .oneError source fault := by
  unfold Lexed.ofSource Lexed.oneError
  rw [hsource, place_segments_cons, placedBehind_eq_nil hscan, hscan]
  dsimp only
  rw [List.take_length]
  rfl

end

/-- A text has only one first token. -/
theorem Lexed.BeginsWith.eq {lexed : Lexed} {t u : Token} (ht : lexed.BeginsWith t)
    (hu : lexed.BeginsWith u) : t = u :=
  Option.some.inj (ht.head.symm.trans hu.head)

/-- A token and an error cannot both stand at the beginning. -/
theorem Lexed.BeginsWithError.not_beginsWith {lexed : Lexed} {e : LexError}
    (he : lexed.BeginsWithError e) (t : Token) : ¬ lexed.BeginsWith t := by
  intro ht
  have hstop := he.tokens t (List.mem_of_mem_head? ht.head)
  have hlength := he.length
  rw [ht.start] at hstop
  rw [Span.length, he.start] at hlength
  omega

end GeoLang
