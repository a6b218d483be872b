import GeoLang.Grammar.Rule
import GeoLang.Tree.Expr

namespace GeoLang.Grammar

/-- One segment of a path. -/
def name (x : Expectation) : Rule String := do
  let t ← peek
  if t.kind.isName then
    advance
    pure t.lexeme
  else unexpected x

/-- A name behind a point. -/
def member : Rule String := do
  advance
  name .member

/-- A dotted path: a name, and the members selected from it. A name is an identifier, a keyword or a
    reserved word. -/
def path : Rule Path := do
  let t ← peek
  let head ← name .identifier
  let members ← many (markAt .dot) fun _ => member
  let span ← spanSince t.span
  pure ⟨head, members, span⟩

/-- The tokens begin with a path and an assignment operator behind it. -/
def assignsPath : List Token → Bool
  | t :: u :: ts =>
    t.kind.isName &&
      if u.kind.isPunctuation .dot then assignsPath ts else u.kind.assignment?.isSome
  | _ => false

/-- Looks ahead for a path with an assignment operator behind it. -/
def atAssignment : Rule Bool := fun c => ⟨.ok (assignsPath c.rest), c, []⟩

end GeoLang.Grammar
