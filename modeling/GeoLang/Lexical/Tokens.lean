import GeoLang.Lexical.Segment

namespace GeoLang

/-- What a source text falls into: its tokens, which end with one end-of-text token, and the
    errors, both in source order. -/
structure Lexed where
  tokens : List Token
  errors : List LexError
deriving DecidableEq, Repr

namespace Lexical

/-- Gives each segment its span, if the first one starts at `p`. -/
def place (p : Position) : List Segment → List (Segment × Span)
  | [] => []
  | s :: rest =>
    let q := p.advanceBy s.chars
    (s, ⟨p, q⟩) :: place q rest

/-- The segment as a token; comments are tokens only if they are kept. -/
def token? (keepComments : Bool) : Segment × Span → Option Token
  | (⟨_, .token kind lexeme⟩, span) => some ⟨kind, lexeme, span⟩
  | (⟨_, .comment body⟩, span) => if keepComments then some ⟨.comment body, body, span⟩ else none
  | _ => none

/-- The lexical error that a segment is. -/
def error? : Segment × Span → Option LexError
  | (⟨_, .fault fault⟩, span) => some ⟨fault, span⟩
  | _ => none

end Lexical

open Lexical in
/-- The tokens and errors of `source`. -/
def Lexed.ofSource (keepComments : Bool) (source : String) : Lexed :=
  let placed := place .start (segments .operand source.toList)
  { tokens := placed.filterMap (token? keepComments)
      ++ [.eofAt (Position.start.advanceBy source.toList)]
    errors := placed.filterMap error? }

end GeoLang
