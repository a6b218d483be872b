import GeoLang.Grammar.Expression
import GeoLang.Tree.Statement

namespace GeoLang.Grammar

/-- The unit of measure at the token. -/
def unitAt (t : Token) : Option ReservedWord := t.kind.reserved?.filter ReservedWord.isUnit

/-- A unit of measure, perhaps squared, or nothing. -/
def unitSpecifier : Rule (Option UnitSpecifier) := do
  let t ← peek
  if t.kind.reserved? = some .sq then
    advance
    let u ← peek
    match unitAt u with
    | some unit =>
      advance
      let span ← spanSince t.span
      pure (some ⟨unit, true, span⟩)
    | none => unexpected .unit
  else
    match unitAt t with
    | some unit =>
      advance
      let span ← spanSince t.span
      pure (some ⟨unit, false, span⟩)
    | none => pure none

/-- Notes a literal that does not fit the declared type. -/
def checkInitializer (type : DataType) (e : Expr) : Rule Unit :=
  match e.literal? with
  | some v => if type.accepts v.kind then pure () else note (.typeMismatch type v.kind e.span)
  | none => pure ()

/-- `=` and an expression, or nothing. -/
def initializer (expression : Rule Expr) (type : DataType) : Rule (Option Expr) := do
  let t ← peek
  if t.kind.operator? = some .assign then
    advance
    let e ← expression
    checkInitializer type e
    pure (some e)
  else pure none

/-- A name, with its unit and its first value if they are there. Only an identifier can be
    declared. -/
def declarator (expression : Rule Expr) (type : DataType) : Rule Declarator := do
  let t ← peek
  match t.kind with
  | .identifier name =>
    advance
    let unit ← unitSpecifier
    let init ← initializer expression type
    let span ← spanSince t.span
    pure ⟨name, unit, init, span⟩
  | _ => unexpected .identifier

/-- Another name behind a comma. -/
def nextDeclarator (expression : Rule Expr) (type : DataType) : Rule Declarator := do
  advance
  declarator expression type

/-- A semicolon, if there is one and it belongs to the declaration. -/
def optionalTerminator (owned : Bool) : Rule Unit := do
  let t ← peek
  if owned && t.kind.isPunctuation .semicolon then advance else pure ()

/-- A data type and the variables it declares. `terminated` says that a semicolon behind it belongs
    to it; in the header of a loop it does not. -/
def declaration (expression : Rule Expr) (terminated : Bool) (type : DataType) :
    Rule Declaration := do
  let t ← peek
  advance
  let first ← declarator expression type
  let others ← many (markAt .comma) fun _ => nextDeclarator expression type
  optionalTerminator terminated
  let span ← spanSince t.span
  pure ⟨type, first, others, span⟩

end GeoLang.Grammar
