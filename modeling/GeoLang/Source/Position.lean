namespace GeoLang

/-- A place in a source text. The offset counts bytes of the UTF-8 form; line and column count from
    zero, and the column counts characters. Only a line feed begins a new line. -/
structure Position where
  offset : Nat
  line : Nat
  column : Nat
deriving DecidableEq, Repr

namespace Position

/-- The position in front of the first character. -/
def start : Position := ⟨0, 0, 0⟩

/-- The position behind `c`, if `c` stands at `p`. -/
def advance (p : Position) (c : Char) : Position :=
  if c = '\n' then ⟨p.offset + c.utf8Size, p.line + 1, 0⟩
  else ⟨p.offset + c.utf8Size, p.line, p.column + 1⟩

/-- The position behind all of `cs`, if they stand at `p`. -/
def advanceBy (p : Position) (cs : List Char) : Position := cs.foldl advance p

/-- The position in `cs` at byte `offset`; the position behind the first character that ends there
    or later, or the end of the text. -/
def atOffset (offset : Nat) (p : Position) : List Char → Position
  | [] => p
  | c :: cs => if offset ≤ p.offset then p else atOffset offset (p.advance c) cs

/-- Offset, line and column, as listings show a position. -/
def text (p : Position) : String :=
  toString p.offset ++ ":" ++ toString p.line ++ ":" ++ toString p.column

@[simp] theorem advanceBy_nil (p : Position) : p.advanceBy [] = p := rfl

@[simp] theorem advanceBy_cons (p : Position) (c : Char) (cs : List Char) :
    p.advanceBy (c :: cs) = (p.advance c).advanceBy cs := rfl

theorem advanceBy_append (p : Position) (cs ds : List Char) :
    p.advanceBy (cs ++ ds) = (p.advanceBy cs).advanceBy ds := List.foldl_append

/-- Behind a character the offset has grown by the bytes of the character. -/
theorem offset_advance (p : Position) (c : Char) : (p.advance c).offset = p.offset + c.utf8Size := by
  unfold advance
  split <;> rfl

end Position

end GeoLang
