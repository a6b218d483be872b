import GeoLang.Source.File

namespace GeoLang

/-- The bytes a report wants to show: `length` bytes from `offset`, with `before` lines in front of
    them and `after` lines behind. -/
structure ExcerptRequest where
  offset : Nat
  length : Nat
  before : Nat
  after : Nat
deriving DecidableEq, Repr

/-- A piece of the text: `start` is its offset, `line` and `column` say where it begins, and
    `lineCount` is the number of line ends that were read to find it. -/
structure Excerpt where
  bytes : List UInt8
  start : Nat
  line : Nat
  column : Nat
  lineCount : Nat
deriving DecidableEq, Repr

namespace Excerpt

/-- The text as a sequence of plain bytes and line ends. A line end is one byte or two. -/
inductive Mark where
  | plain
  | lineEnd (pair : Bool)
deriving DecidableEq, Repr

def carriageReturn : UInt8 := 13

def lineFeed : UInt8 := 10

/-- The characters of a text as far as its lines go: each byte is a plain one, or a line ends with
    it; a carriage return and the line feed behind it are one end. -/
def marks : List UInt8 → List Mark
  | [] => []
  | [b] => if b = carriageReturn ∨ b = lineFeed then [.lineEnd false] else [.plain]
  | b :: c :: bs =>
    if b = carriageReturn ∧ c = lineFeed then .lineEnd true :: marks bs
    else if b = carriageReturn ∨ b = lineFeed then .lineEnd false :: marks (c :: bs)
    else .plain :: marks (c :: bs)

/-- What is known after a part of the text has been read. `lineStarts` are the starts of the lines
    kept in front of the range, first line first, and `lineStart` is the start of the line being
    read. `reached` says that the end of the range was passed, `closing` that the line it is on has
    ended, and `linesAfter` counts the lines completed behind that one. -/
structure Progress where
  offset : Nat := 0
  lineCount : Nat := 0
  line : Nat := 0
  column : Nat := 0
  lineStarts : List Nat := []
  lineStart : Nat := 0
  linesAfter : Nat := 0
  reached : Bool := false
  closing : Bool := false
  finished : Bool := false
deriving DecidableEq, Repr

namespace Progress

/-- Keeps the line that has just ended as one in front of the range, and lets go of the first one if
    that makes too many. -/
def keepLine (p : Progress) (before : Nat) : Progress :=
  let starts := p.lineStarts ++ [p.lineStart]
  if before < starts.length then
    { p with column := 0, line := p.line + 1, lineStarts := starts.drop 1 }
  else { p with column := 0, lineStarts := starts }

/-- Counts the end of a line at or behind the end of the range. -/
def countLine (p : Progress) (after : Nat) : Progress :=
  let q : Progress :=
    if p.closing then { p with column := 0, linesAfter := p.linesAfter + 1 }
    else { p with column := 0, closing := true }
  { q with finished := after ≤ q.linesAfter }

/-- Reads a line end whose last byte is at `p.offset`. -/
def endLine (p : Progress) (r : ExcerptRequest) : Progress :=
  let q : Progress :=
    if p.offset < r.offset then p.keepLine r.before
    else if r.offset + (r.length - 1) ≤ p.offset ∧ p.reached then p.countLine r.after
    else p
  if q.finished then q else { q with lineStart := q.offset + 1 }

/-- Notes whether the byte just read is the last of the range or a later one. -/
def checkEnd (p : Progress) (r : ExcerptRequest) : Progress :=
  if r.offset + r.length - 1 ≤ p.offset then
    { p with reached := true, finished := p.finished || r.after ≤ p.linesAfter }
  else p

/-- What reading one more mark does to the progress; columns are counted up to the start of the
    range only. -/
def readMark (p : Progress) (r : ExcerptRequest) (m : Mark) : Progress :=
  let q : Progress := match m with
    | .plain => if p.offset < r.offset then { p with column := p.column + 1 } else p
    | .lineEnd pair =>
      { p with
        lineCount := p.lineCount + 1
        offset := if pair then p.offset + 1 else p.offset }.endLine r
  let q := if q.finished then q else q.checkEnd r
  { q with offset := q.offset + 1 }

/-- Reading stops as soon as the lines asked for behind the range are complete. -/
def readMarks (r : ExcerptRequest) : Progress → List Mark → Progress
  | p, [] => p
  | p, m :: ms => if p.finished then p else readMarks r (p.readMark r m) ms

end Progress

/-- The excerpt that `r` asks for, if its range lies within the text. -/
def ofBytes? (bytes : List UInt8) (r : ExcerptRequest) : Option Excerpt :=
  let p := Progress.readMarks r {} (marks bytes)
  if r.offset + r.length - 1 ≤ p.offset then
    let start := p.lineStarts.headD (if r.before = 0 then r.offset else 0)
    some {
      bytes := (bytes.drop start).take (p.offset - start)
      start := start
      line := p.line
      column := if r.before = 0 then p.column else 0
      lineCount := p.lineCount }
  else none

end Excerpt

/-- The excerpt of a file's text that `r` asks for. -/
def SourceFile.excerpt? (f : SourceFile) (r : ExcerptRequest) : Option Excerpt :=
  Excerpt.ofBytes? f.text.toUTF8.toList r

end GeoLang
