import GeoLang.Source.Span
import GeoLang.Text.Quoted

namespace GeoLang

/-- A source text under the name that reports give it. -/
structure SourceFile where
  name : String
  text : String
deriving DecidableEq, Repr

namespace SourceFile

/-- The file as a log shows it: its name and its size in bytes, without the text. -/
def summary (f : SourceFile) : String :=
  "SourceFile \x7b name: " ++ Text.quoted f.name ++ ", len: " ++ toString f.text.utf8ByteSize ++ " \x7d"

/-- A position as a log shows it, with line and column counted from one. -/
def locate (f : SourceFile) (p : Position) : String :=
  f.name ++ ":" ++ toString (p.line + 1) ++ ":" ++ toString (p.column + 1) ++ "@" ++ toString p.offset

/-- The line of a report that says where `s` is. Columns and lines count from one, and a span that
    ends on a later line shows only the column it begins at. -/
def reference (f : SourceFile) (s : Span) : String :=
  let columns :=
    if s.start.line = s.stop.line then
      toString (s.start.column + 1) ++ "-" ++ toString (s.stop.column + 1)
    else toString (s.start.column + 1)
  "File " ++ f.name ++ ", line " ++ toString (s.start.line + 1) ++ ", column " ++ columns

end SourceFile

end GeoLang
