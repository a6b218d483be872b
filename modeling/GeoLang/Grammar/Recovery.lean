import GeoLang.Grammar.Rule
import GeoLang.Tree.Statement

namespace GeoLang.Grammar

/-- The number of braces still open after `t` was skipped. A brace that closes none counts for
    nothing. -/
def braceDepth (depth : Nat) (t : Token) : Nat :=
  if t.kind.isPunctuation .lCurly then depth + 1
  else if t.kind.isPunctuation .rCurly then depth - 1
  else depth

/-- A statement may begin at `t`, or a block end there, if `previous` was consumed last. -/
def isBoundary (previous : Option Token) (t : Token) : Bool :=
  previous.any (·.kind.isPunctuation .semicolon) || t.kind.isPunctuation .rCurly
    || t.kind.startsStatement

/-- Skips tokens up to the first boundary outside of the braces skipped so far. -/
def skipToBoundary (depth : Nat) (previous : Option Token) (eof : Token) : List Token → Cursor
  | [] => ⟨previous, [], eof⟩
  | t :: ts =>
    if depth = 0 ∧ isBoundary previous t then ⟨previous, t :: ts, eof⟩
    else skipToBoundary (braceDepth depth t) (some t) eof ts

/-- Where reading goes on after a statement failed at `c`. If the statement consumed nothing
    (`stuck`), its first token is skipped in any case. -/
def resume (stuck : Bool) (c : Cursor) : Cursor :=
  match stuck, c.rest with
  | true, t :: ts => skipToBoundary (braceDepth 0 t) (some t) c.eof ts
  | _, ts => skipToBoundary 0 c.previous c.eof ts

/-- A statement, or nothing if its rule fails; then its error is noted and reading goes on at the
    next boundary. -/
def recovering (statement : Rule Statement) : Rule (Option Statement) := fun c =>
  let x := statement c
  match x.result with
  | .ok s => ⟨.ok (some s), x.cursor, x.errors⟩
  | .error e =>
    ⟨.ok none, resume (x.cursor.remaining == c.remaining) x.cursor, x.errors ++ [e]⟩

end GeoLang.Grammar
