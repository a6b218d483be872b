import GeoLang.Token.Basic

namespace GeoLang

/-- A name with the members selected from it, such as `a` or `a.b.c`. -/
structure Path where
  head : String
  members : List String
  span : Span
deriving DecidableEq, Repr

namespace Path

/-- The names of a path from the left, the head first. -/
def segments (p : Path) : List String := p.head :: p.members

/-- The path as it is written, with points between its names. -/
def text (p : Path) : String := ".".intercalate p.segments

end Path

/-- An expression. `post` is a step behind a path, as in `x++`; `unary` stands in front of its
    operand; `reserved` is a reserved word applied to arguments. -/
inductive Expr where
  | literal (value : Literal) (span : Span)
  | path (path : Path)
  | binary (lhs : Expr) (op : Operator) (rhs : Expr) (span : Span)
  | unary (op : Operator) (operand : Expr) (span : Span)
  | post (op : Operator) (operand : Path) (span : Span)
  | call (callee : Path) (args : List Expr) (span : Span)
  | grouped (inner : Expr) (span : Span)
  | reserved (word : ReservedWord) (args : List Expr) (span : Span)
deriving Repr

namespace Expr

/-- Any expression will do for the default that partial definitions ask for. -/
instance : Inhabited Expr := ⟨.literal (.boolean false) (.empty .start)⟩

/-- Where the expression stands; a path has its own span. -/
def span : Expr → Span
  | literal _ s => s
  | path p => p.span
  | binary _ _ _ s => s
  | unary _ _ s => s
  | post _ _ s => s
  | call _ _ s => s
  | grouped _ s => s
  | reserved _ _ s => s

/-- The literal that the expression consists of, if it is nothing else. -/
def literal? : Expr → Option Literal
  | literal v _ => some v
  | _ => none

end Expr

end GeoLang
