import GeoLang.Grammar.Error

namespace GeoLang.Grammar

/-- A place in a sequence of tokens: the token consumed last, the tokens still to come, and the end
    of the text that follows them. Neither comments nor ends of text are among the tokens to
    come. -/
structure Cursor where
  previous : Option Token
  rest : List Token
  eof : Token
deriving DecidableEq, Repr

namespace Cursor

/-- The current token. -/
def peek (c : Cursor) : Token := c.rest.headD c.eof

/-- The token behind the current one. -/
def second (c : Cursor) : Token := (c.rest.drop 1).headD c.eof

/-- Behind the current token; at the end of the text there is nothing to consume. -/
def advance (c : Cursor) : Cursor :=
  match c.rest with
  | [] => c
  | t :: ts => { c with previous := some t, rest := ts }

/-- How many tokens there are still to read. -/
def remaining (c : Cursor) : Nat := c.rest.length

/-- From `start` to the end of the token consumed last, if that is not in front of it. -/
def spanSince (c : Cursor) (start : Span) : Span :=
  match c.previous with
  | some t => if start.start.offset ≤ t.span.stop.offset then start.merge t.span else start
  | none => start

/-- Advancing leaves one token less, if one is left. -/
@[simp] theorem remaining_advance (c : Cursor) : c.advance.remaining = c.remaining - 1 := by
  unfold advance remaining
  split <;> simp_all

end Cursor

/-- What a rule gives: its value or the error it failed with, the place where it stopped, and the
    errors it noted. -/
structure Reply (α : Type) where
  result : Except ParseError α
  cursor : Cursor
  errors : List ParseError

/-- A rule reads tokens from a cursor. It gives a value or fails with an error; either way it says
    where it stopped and which errors it noted on the way. A rule never looks back, save at the last
    token it consumed. -/
def Rule (α : Type) : Type := Cursor → Reply α

namespace Rule

variable {α β : Type}

/-- The rule that gives a value and reads nothing. -/
protected def pure (a : α) : Rule α := fun c => ⟨.ok a, c, []⟩

/-- First `r`, then `f` from where `r` stopped, unless `r` failed. -/
protected def bind (r : Rule α) (f : α → Rule β) : Rule β := fun c =>
  let x := r c
  match x.result with
  | .error e => ⟨.error e, x.cursor, x.errors⟩
  | .ok a =>
    let y := f a x.cursor
    ⟨y.result, y.cursor, x.errors ++ y.errors⟩

instance : Monad Rule where
  pure := Rule.pure
  bind := Rule.bind

theorem pure_apply (a : α) (c : Cursor) : (pure a : Rule α) c = ⟨.ok a, c, []⟩ := rfl

/-- Behind a rule that succeeds the next one goes on, and notes its errors behind those noted
    before. -/
theorem bind_apply_ok {r : Rule α} {f : α → Rule β} {c : Cursor} {a : α}
    (hok : (r c).result = .ok a) :
    (r >>= f) c = ⟨(f a (r c).cursor).result, (f a (r c).cursor).cursor,
      (r c).errors ++ (f a (r c).cursor).errors⟩ := by
  change Rule.bind r f c = _
  simp only [Rule.bind, hok]

/-- A rule that fails ends the sequence; what it noted stays. -/
theorem bind_apply_error {r : Rule α} {f : α → Rule β} {c : Cursor} {e : ParseError}
    (herror : (r c).result = .error e) :
    (r >>= f) c = ⟨.error e, (r c).cursor, (r c).errors⟩ := by
  change Rule.bind r f c = _
  simp only [Rule.bind, herror]

end Rule

variable {α β : Type}

/-- The current token, which is not consumed. -/
def peek : Rule Token := fun c => ⟨.ok c.peek, c, []⟩

/-- The token behind the current one; neither is consumed. -/
def peekSecond : Rule Token := fun c => ⟨.ok c.second, c, []⟩

/-- Consumes the current token. -/
def advance : Rule Unit := fun c => ⟨.ok (), c.advance, []⟩

/-- The span from `start` to the last token consumed. -/
def spanSince (start : Span) : Rule Span := fun c => ⟨.ok (c.spanSince start), c, []⟩

/-- The rule that reads nothing and fails. -/
def fail (e : ParseError) : Rule α := fun c => ⟨.error e, c, []⟩

/-- Notes an error and goes on. -/
def note (e : ParseError) : Rule Unit := fun c => ⟨.ok (), c, [e]⟩

/-- Fails because the current token is not what the rule looks for. -/
def unexpected (x : Expectation) : Rule α := do
  let t ← peek
  fail (.unexpectedToken x.text t.describe t.span)

/-- Consumes the keyword and gives its span. -/
def keyword (word : Keyword) : Rule Span := do
  let t ← peek
  if t.kind.isKeyword word then
    advance
    pure t.span
  else unexpected (.keyword word)

/-- Consumes the punctuation mark and gives its span. -/
def mark (p : Punctuation) (x : Expectation) : Rule Span := do
  let t ← peek
  if t.kind.isPunctuation p then
    advance
    pure t.span
  else unexpected x

/-- The `)` of a parenthesis that is open. -/
def closeParenthesis : Rule Span := do
  let t ← peek
  if t.kind.isPunctuation .rParen then
    advance
    pure t.span
  else fail (.missingClosingParenthesis t.span)

/-- Runs `item` again and again, as long as `next?` finds something in the current token to run it
    on. A run that consumes no token is the last one. -/
def many (next? : Token → Option β) (item : β → Rule α) : Rule (List α) := fun c =>
  match next? c.peek with
  | none => ⟨.ok [], c, []⟩
  | some b =>
    let x := item b c
    match x.result with
    | .error e => ⟨.error e, x.cursor, x.errors⟩
    | .ok a =>
      if x.cursor.remaining < c.remaining then
        let y := many next? item x.cursor
        ⟨y.result.map (a :: ·), y.cursor, x.errors ++ y.errors⟩
      else ⟨.ok [a], x.cursor, x.errors⟩
termination_by c => c.remaining

/-- For `many`: the current token is the punctuation mark. -/
def markAt (p : Punctuation) (t : Token) : Option Unit :=
  if t.kind.isPunctuation p then some () else none

end GeoLang.Grammar
