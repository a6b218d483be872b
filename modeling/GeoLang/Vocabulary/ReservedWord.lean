import GeoLang.Vocabulary.Basic

namespace GeoLang

inductive ReservedWord.Category where
  | geometry
  | shape
  | measurement
  | unit
  | unitModifier
  | fetch
  | setPrecision
  | cubic
deriving DecidableEq, Repr

/-- The form that a call of a reserved word takes in the tree. -/
inductive ReservedWord.Form where
  | geometricCalculation
  | shape
  | measurement
  | unit
  | fetch
  | setPrecision
  | cubic
deriving DecidableEq, Repr

/-- The argument counts that a form takes: from `least` to `most`, both included. -/
structure Arity where
  least : Nat
  most : Nat
deriving DecidableEq, Repr

/-- The form may be called with so many arguments. -/
def Arity.admits (a : Arity) (count : Nat) : Bool := a.least ≤ count && count ≤ a.most

/-- The range of an arity is closed at both ends. -/
theorem Arity.admits_iff {a : Arity} {count : Nat} :
    a.admits count = true ↔ a.least ≤ count ∧ count ≤ a.most := by
  simp [admits]

/-- The arity as an error message words it. -/
def Arity.text (a : Arity) : String :=
  if a.least = a.most then toString a.least else toString a.least ++ " to " ++ toString a.most

/-- The words of the built-in geometry, measurement and unit forms. In front of a parenthesis such a
    word is a call of its form; units may also follow the name in a declaration. -/
inductive ReservedWord where
  | areaOf | perimeterOf | volumeOf
  | circle | square | rectangle | triangle | sphere | cube
  | radius | circumference | length | height | width | side | base | distance
  | centimeter | meter | kilometer | millimeter | inch | foot
  | kilogram | pound | milligram | liter
  | sq | fetch | setPrecision | cubic
deriving DecidableEq, Repr

namespace ReservedWord

/-- The facts about one reserved word. -/
structure Entry where
  label : String
  spelling : String
  category : Category
  arity : Arity

/-- The facts about each reserved word. -/
def entry : ReservedWord → Entry
  | areaOf => ⟨"AreaOf", "areaOf", .geometry, ⟨1, 1⟩⟩
  | perimeterOf => ⟨"PerimeterOf", "perimeterOf", .geometry, ⟨1, 1⟩⟩
  | volumeOf => ⟨"VolumeOf", "volumeOf", .geometry, ⟨1, 1⟩⟩
  | circle => ⟨"Circle", "circle", .shape, ⟨1, 1⟩⟩
  | square => ⟨"Square", "square", .shape, ⟨1, 1⟩⟩
  | rectangle => ⟨"Rectangle", "rectangle", .shape, ⟨2, 2⟩⟩
  | triangle => ⟨"Triangle", "triangle", .shape, ⟨2, 3⟩⟩
  | sphere => ⟨"Sphere", "sphere", .shape, ⟨1, 1⟩⟩
  | cube => ⟨"Cube", "cube", .shape, ⟨1, 1⟩⟩
  | radius => ⟨"Radius", "radius", .measurement, ⟨1, 1⟩⟩
  | circumference => ⟨"Circumference", "circumference", .measurement, ⟨1, 1⟩⟩
  | length => ⟨"Length", "length", .measurement, ⟨1, 1⟩⟩
  | height => ⟨"Height", "height", .measurement, ⟨1, 1⟩⟩
  | width => ⟨"Width", "width", .measurement, ⟨1, 1⟩⟩
  | side => ⟨"Side", "side", .measurement, ⟨1, 1⟩⟩
  | base => ⟨"Base", "base", .measurement, ⟨1, 1⟩⟩
  | distance => ⟨"Distance", "distance", .measurement, ⟨2, 2⟩⟩
  | centimeter => ⟨"Centimeter", "cm", .unit, ⟨1, 1⟩⟩
  | meter => ⟨"Meter", "m", .unit, ⟨1, 1⟩⟩
  | kilometer => ⟨"Kilometer", "km", .unit, ⟨1, 1⟩⟩
  | millimeter => ⟨"Millimeter", "mm", .unit, ⟨1, 1⟩⟩
  | inch => ⟨"Inch", "in", .unit, ⟨1, 1⟩⟩
  | foot => ⟨"Foot", "ft", .unit, ⟨1, 1⟩⟩
  | kilogram => ⟨"Kilogram", "kg", .unit, ⟨1, 1⟩⟩
  | pound => ⟨"Pound", "lbs", .unit, ⟨1, 1⟩⟩
  | milligram => ⟨"Milligram", "mg", .unit, ⟨1, 1⟩⟩
  | liter => ⟨"Liter", "l", .unit, ⟨1, 1⟩⟩
  | sq => ⟨"Sq", "sq", .unitModifier, ⟨1, 1⟩⟩
  | fetch => ⟨"Fetch", "fetch", .fetch, ⟨0, 1⟩⟩
  | setPrecision => ⟨"SetPrecision", "setprecision", .setPrecision, ⟨2, 2⟩⟩
  | cubic => ⟨"Cubic", "cubic", .cubic, ⟨1, 1⟩⟩

/-- Every reserved word, in the order in which listings show them. -/
def all : List ReservedWord :=
  [areaOf, perimeterOf, volumeOf, circle, square, rectangle, triangle, sphere, cube, radius,
    circumference, length, height, width, side, base, distance, centimeter, meter, kilometer,
    millimeter, inch, foot, kilogram, pound, milligram, liter, sq, fetch, setPrecision, cubic]

def label (w : ReservedWord) : String := w.entry.label

def spelling (w : ReservedWord) : String := w.entry.spelling

def category (w : ReservedWord) : Category := w.entry.category

def arity (w : ReservedWord) : Arity := w.entry.arity

/-- A unit of measure; `sq` only modifies one. -/
def isUnit (w : ReservedWord) : Bool := w.category == .unit

def Category.label : Category → String
  | geometry => "Geometry"
  | shape => "Shape"
  | measurement => "Measurement"
  | unit => "Unit"
  | unitModifier => "UnitModifier"
  | fetch => "Fetch"
  | setPrecision => "SetPrecision"
  | cubic => "Cubic"

def Form.label : Form → String
  | geometricCalculation => "GeometricCalculation"
  | shape => "Shape"
  | measurement => "Measurement"
  | unit => "Unit"
  | fetch => "Fetch"
  | setPrecision => "SetPrecision"
  | cubic => "Cubic"

/-- A called `sq` counts as a unit form. -/
def Category.form : Category → Form
  | geometry => .geometricCalculation
  | shape => .shape
  | measurement => .measurement
  | unit => .unit
  | unitModifier => .unit
  | fetch => .fetch
  | setPrecision => .setPrecision
  | cubic => .cubic

/-- The form that a call of the word takes in the tree. -/
def form (w : ReservedWord) : Form := w.category.form

def vocabulary : Vocabulary ReservedWord where
  spelling := spelling
  all := all
  mem_all a := by cases a <;> decide
  distinct := by decide +kernel

/-- The reserved word spelled exactly `s`; case matters. -/
def ofSpelling? (s : String) : Option ReservedWord := vocabulary.ofSpelling? s

end ReservedWord

end GeoLang
