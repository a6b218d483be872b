import GeoLang.Source.Position
import GeoLang.Text.Slice

namespace GeoLang

/-- A half-open range of a source text, given by its two ends. -/
structure Span where
  start : Position
  stop : Position
deriving DecidableEq, Repr

namespace Span

/-- The span of nothing at `p`. -/
def empty (p : Position) : Span := ⟨p, p⟩

/-- The least span around both; where two ends have one offset, that of `a` is taken. -/
def merge (a b : Span) : Span where
  start := if b.start.offset < a.start.offset then b.start else a.start
  stop := if a.stop.offset < b.stop.offset then b.stop else a.stop

/-- The number of bytes covered; none if the ends are in the wrong order. -/
def length (s : Span) : Nat := s.stop.offset - s.start.offset

/-- The part of `source` that the span covers, empty if its ends are not in order or not between
    characters of `source`. -/
def covered (s : Span) (source : String) : String :=
  ((Text.slice? s.start.offset s.stop.offset source.toList).map String.ofList).getD ""

/-- Both ends, as listings show a span. -/
def text (s : Span) : String := s.start.text ++ "-" ++ s.stop.text

@[simp] theorem merge_self (a : Span) : a.merge a = a := by simp [merge]

/-- A merged span starts where the first of the two starts. -/
theorem start_offset_merge (a b : Span) :
    (a.merge b).start.offset = min a.start.offset b.start.offset := by
  unfold merge
  dsimp only
  split <;> omega

/-- A merged span stops where the last of the two stops. -/
theorem stop_offset_merge (a b : Span) :
    (a.merge b).stop.offset = max a.stop.offset b.stop.offset := by
  unfold merge
  dsimp only
  split <;> omega

end Span

end GeoLang
