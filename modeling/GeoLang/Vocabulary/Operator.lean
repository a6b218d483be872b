import GeoLang.Vocabulary.Basic

namespace GeoLang

/-- On which side operands are joined first where operators of one strength meet. -/
inductive Associativity where
  | left
  | right
deriving DecidableEq, Repr

def Associativity.label : Associativity → String
  | left => "Left"
  | right => "Right"

/-- What an operator is used for. -/
inductive Operator.Class where
  | assignment
  | arithmetic
  | relational
  | logical
  | bitwise
  | unary
deriving DecidableEq, Repr

/-- All operators, the compound assignments and the steps among them. -/
inductive Operator where
  | plus | minus | multiply | divide | modulo | exponent
  | lessThan | greaterThan | lessThanOrEqual | greaterThanOrEqual | equalTo | notEqualTo
  | assign | plusAssign | minusAssign | multiplyAssign | divideAssign | moduloAssign
  | andAssign | xorAssign | shiftLeftAssign | shiftRightAssign
  | logicalAnd | logicalOr | logicalNot
  | bitAnd | bitOr | bitXor | bitNot | shiftLeft | shiftRight
  | increment | decrement
deriving DecidableEq, Repr

namespace Operator

/-- The facts about one operator. `strength` is how tightly it joins two operands, `none` for an
    operator that joins none; `leads` says that it may stand in front of an operand. -/
structure Entry where
  label : String
  spelling : String
  cls : Class
  strength : Option Nat
  associativity : Associativity
  leads : Bool

/-- The facts about each operator. -/
def entry : Operator → Entry
  | plus => ⟨"Plus", "+", .arithmetic, some 90, .left, true⟩
  | minus => ⟨"Minus", "-", .arithmetic, some 90, .left, true⟩
  | multiply => ⟨"Multiply", "*", .arithmetic, some 100, .left, false⟩
  | divide => ⟨"Divide", "/", .arithmetic, some 100, .left, false⟩
  | modulo => ⟨"Modulo", "%", .arithmetic, some 100, .left, false⟩
  | exponent => ⟨"Exponent", "**", .arithmetic, some 110, .right, false⟩
  | lessThan => ⟨"LessThan", "<", .relational, some 70, .left, false⟩
  | greaterThan => ⟨"GreaterThan", ">", .relational, some 70, .left, false⟩
  | lessThanOrEqual => ⟨"LessThanOrEqual", "<=", .relational, some 70, .left, false⟩
  | greaterThanOrEqual => ⟨"GreaterThanOrEqual", ">=", .relational, some 70, .left, false⟩
  | equalTo => ⟨"EqualTo", "==", .relational, some 60, .left, false⟩
  | notEqualTo => ⟨"NotEqualTo", "!=", .relational, some 60, .left, false⟩
  | assign => ⟨"Assign", "=", .assignment, none, .right, false⟩
  | plusAssign => ⟨"PlusAssign", "+=", .assignment, none, .right, false⟩
  | minusAssign => ⟨"MinusAssign", "-=", .assignment, none, .right, false⟩
  | multiplyAssign => ⟨"MultiplyAssign", "*=", .assignment, none, .right, false⟩
  | divideAssign => ⟨"DivideAssign", "/=", .assignment, none, .right, false⟩
  | moduloAssign => ⟨"ModuloAssign", "%=", .assignment, none, .right, false⟩
  | andAssign => ⟨"AndAssign", "&=", .assignment, none, .right, false⟩
  | xorAssign => ⟨"XorAssign", "^=", .assignment, none, .right, false⟩
  | shiftLeftAssign => ⟨"ShiftLeftAssign", "<<=", .assignment, none, .right, false⟩
  | shiftRightAssign => ⟨"ShiftRightAssign", ">>=", .assignment, none, .right, false⟩
  | logicalAnd => ⟨"And", "&&", .logical, some 20, .left, false⟩
  | logicalOr => ⟨"Or", "||", .logical, some 10, .left, false⟩
  | logicalNot => ⟨"Not", "!", .logical, none, .right, true⟩
  | bitAnd => ⟨"BitAnd", "&", .bitwise, some 50, .left, false⟩
  | bitOr => ⟨"BitOr", "|", .bitwise, some 30, .left, false⟩
  | bitXor => ⟨"BitXor", "^", .bitwise, some 40, .left, false⟩
  | bitNot => ⟨"BitNot", "~", .bitwise, none, .right, true⟩
  | shiftLeft => ⟨"ShiftLeft", "<<", .bitwise, some 80, .left, false⟩
  | shiftRight => ⟨"ShiftRight", ">>", .bitwise, some 80, .left, false⟩
  | increment => ⟨"Increment", "++", .unary, none, .right, true⟩
  | decrement => ⟨"Decrement", "--", .unary, none, .right, true⟩

/-- Every operator, in the order in which listings show them. -/
def all : List Operator :=
  [plus, minus, multiply, divide, modulo, exponent, lessThan, greaterThan, lessThanOrEqual,
    greaterThanOrEqual, equalTo, notEqualTo, assign, plusAssign, minusAssign, multiplyAssign,
    divideAssign, moduloAssign, andAssign, xorAssign, shiftLeftAssign, shiftRightAssign, logicalAnd,
    logicalOr, logicalNot, bitAnd, bitOr, bitXor, bitNot, shiftLeft, shiftRight, increment, decrement]

def label (o : Operator) : String := o.entry.label

def spelling (o : Operator) : String := o.entry.spelling

/-- The class of the operator away from its context; a sign in front of an operand is read as
    unary by the lexer whatever this says. -/
def cls (o : Operator) : Class := o.entry.cls

/-- How tightly the operator joins two operands. -/
def strength? (o : Operator) : Option Nat := o.entry.strength

def associativity (o : Operator) : Associativity := o.entry.associativity

/-- The operator may stand in front of an operand. -/
def leads (o : Operator) : Bool := o.entry.leads

/-- `++` or `--`, which may also stand behind a path. -/
def isStep : Operator → Bool
  | increment => true
  | decrement => true
  | _ => false

/-- A sign, the only operators whose class hangs on what stands in front of them. -/
def isSign : Operator → Bool
  | plus => true
  | minus => true
  | _ => false

def Class.label : Class → String
  | assignment => "Assignment"
  | arithmetic => "Arithmetic"
  | relational => "Relational"
  | logical => "Logical"
  | bitwise => "Bitwise"
  | unary => "Unary"

def vocabulary : Vocabulary Operator where
  spelling := spelling
  all := all
  mem_all a := by cases a <;> decide
  distinct := by decide +kernel

/-- The operator spelled exactly `s`. -/
def ofSpelling? (s : String) : Option Operator := vocabulary.ofSpelling? s

/-- The text spells an operator of more than one character. -/
def isCompound (s : String) : Bool := (ofSpelling? s).any fun o => 1 < o.spelling.length

end Operator

end GeoLang
