import GeoLang.Vocabulary.Basic

namespace GeoLang.Truth

/-- How a truth value is written. -/
def spelling : Bool → String
  | true => "true"
  | false => "false"

/-- Both truth values, in the order in which listings show them. -/
def all : List Bool := [true, false]

def vocabulary : Vocabulary Bool where
  spelling := spelling
  all := all
  mem_all b := by cases b <;> decide
  distinct := by decide +kernel

/-- The truth value spelled exactly `s`. -/
def ofSpelling? (s : String) : Option Bool := vocabulary.ofSpelling? s

end GeoLang.Truth
