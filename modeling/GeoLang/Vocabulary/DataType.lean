import GeoLang.Vocabulary.Basic

namespace GeoLang

/-- The kinds of literal a program can write. -/
inductive LiteralKind where
  | integer
  | real
  | string
  | character
  | boolean
deriving DecidableEq, Repr

/-- The kind as messages and token tables name it. -/
def LiteralKind.name : LiteralKind → String
  | integer => "INTEGER"
  | real => "REAL_NUMBER"
  | string => "STRING_LITERAL"
  | character => "CHARACTER_LITERAL"
  | boolean => "BOOLEAN"

def LiteralKind.all : List LiteralKind := [integer, real, string, character, boolean]

/-- Types that take the same literals form a family. -/
inductive DataType.Family where
  | integral
  | floating
  | text
  | character
  | boolean
  | void
deriving DecidableEq, Repr

/-- The types that a variable can be declared with. -/
inductive DataType where
  | int | string | char | boolean | float | double | long | short | void | byte
deriving DecidableEq, Repr

namespace DataType

/-- The facts about one data type. -/
structure Entry where
  label : String
  spelling : String
  family : Family

/-- The facts about each data type. -/
def entry : DataType → Entry
  | int => ⟨"Int", "int", .integral⟩
  | string => ⟨"String", "String", .text⟩
  | char => ⟨"Char", "char", .character⟩
  | boolean => ⟨"Boolean", "boolean", .boolean⟩
  | float => ⟨"Float", "float", .floating⟩
  | double => ⟨"Double", "double", .floating⟩
  | long => ⟨"Long", "long", .integral⟩
  | short => ⟨"Short", "short", .integral⟩
  | void => ⟨"Void", "void", .void⟩
  | byte => ⟨"Byte", "byte", .integral⟩

/-- Every data type, in the order in which listings show them. -/
def all : List DataType := [int, string, char, boolean, float, double, long, short, void, byte]

def label (t : DataType) : String := t.entry.label

def spelling (t : DataType) : String := t.entry.spelling

def family (t : DataType) : Family := t.entry.family

def Family.label : Family → String
  | integral => "Integral"
  | floating => "Floating"
  | text => "Text"
  | character => "Character"
  | boolean => "Boolean"
  | void => "Void"

/-- A family takes the literals of its own kind; a floating type takes integers as well, and
    `void` takes nothing. -/
def Family.accepts : Family → LiteralKind → Bool
  | integral, .integer => true
  | floating, .integer => true
  | floating, .real => true
  | text, .string => true
  | character, .character => true
  | boolean, .boolean => true
  | _, _ => false

/-- A literal of kind `k` may initialise a variable of type `t`. -/
def accepts (t : DataType) (k : LiteralKind) : Bool := t.family.accepts k

def vocabulary : Vocabulary DataType where
  spelling := spelling
  all := all
  mem_all a := by cases a <;> decide
  distinct := by decide +kernel

/-- The data type spelled exactly `s`; case matters. -/
def ofSpelling? (s : String) : Option DataType := vocabulary.ofSpelling? s

end DataType

end GeoLang
