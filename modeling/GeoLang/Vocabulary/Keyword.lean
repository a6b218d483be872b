import GeoLang.Vocabulary.Basic

namespace GeoLang

/-- What a keyword is for. -/
inductive Keyword.Category where
  | controlFlow
  | inputOutput
  | declaration
deriving DecidableEq, Repr

/-- The words with a fixed meaning. A keyword can also be a name, but only as part of a dotted path
    or of an expression. -/
inductive Keyword where
  | ifKw | elseKw | whileKw | forKw | doKw | eachKw | repeatKw | timesKw
  | switchKw | caseKw | defaultKw | breakKw | continueKw | returnKw
  | tryKw | catchKw | finallyKw | throwKw | throwsKw
  | printKw | printlnKw | inputKw
  | mainKw | defKw | classKw | importKw | packageKw | implementsKw | extendsKw
  | publicKw | protectedKw | privateKw | staticKw | constKw | newKw | thisKw
deriving DecidableEq, Repr

namespace Keyword

/-- The facts about one keyword. -/
structure Entry where
  label : String
  spelling : String
  category : Category
  startsStatement : Bool

/-- The facts about each keyword. -/
def entry : Keyword → Entry
  | ifKw => ⟨"If", "if", .controlFlow, true⟩
  | elseKw => ⟨"Else", "else", .controlFlow, false⟩
  | whileKw => ⟨"While", "while", .controlFlow, true⟩
  | forKw => ⟨"For", "for", .controlFlow, true⟩
  | doKw => ⟨"Do", "do", .controlFlow, false⟩
  | eachKw => ⟨"Each", "each", .controlFlow, false⟩
  | repeatKw => ⟨"Repeat", "repeat", .controlFlow, true⟩
  | timesKw => ⟨"Times", "times", .controlFlow, false⟩
  | switchKw => ⟨"Switch", "switch", .controlFlow, false⟩
  | caseKw => ⟨"Case", "case", .controlFlow, false⟩
  | defaultKw => ⟨"Default", "default", .controlFlow, false⟩
  | breakKw => ⟨"Break", "break", .controlFlow, false⟩
  | continueKw => ⟨"Continue", "continue", .controlFlow, false⟩
  | returnKw => ⟨"Return", "return", .controlFlow, false⟩
  | tryKw => ⟨"Try", "try", .controlFlow, false⟩
  | catchKw => ⟨"Catch", "catch", .controlFlow, false⟩
  | finallyKw => ⟨"Finally", "finally", .controlFlow, false⟩
  | throwKw => ⟨"Throw", "throw", .controlFlow, false⟩
  | throwsKw => ⟨"Throws", "throws", .controlFlow, false⟩
  | printKw => ⟨"Print", "print", .inputOutput, true⟩
  | printlnKw => ⟨"Println", "println", .inputOutput, true⟩
  | inputKw => ⟨"Input", "input", .inputOutput, true⟩
  | mainKw => ⟨"Main", "main", .declaration, false⟩
  | defKw => ⟨"Def", "def", .declaration, false⟩
  | classKw => ⟨"Class", "class", .declaration, false⟩
  | importKw => ⟨"Import", "import", .declaration, false⟩
  | packageKw => ⟨"Package", "package", .declaration, false⟩
  | implementsKw => ⟨"Implements", "implements", .declaration, false⟩
  | extendsKw => ⟨"Extends", "extends", .declaration, false⟩
  | publicKw => ⟨"Public", "public", .declaration, false⟩
  | protectedKw => ⟨"Protected", "protected", .declaration, false⟩
  | privateKw => ⟨"Private", "private", .declaration, false⟩
  | staticKw => ⟨"Static", "static", .declaration, false⟩
  | constKw => ⟨"Const", "const", .declaration, false⟩
  | newKw => ⟨"New", "new", .declaration, false⟩
  | thisKw => ⟨"This", "this", .declaration, false⟩

/-- Every keyword, in the order in which listings show them. -/
def all : List Keyword :=
  [ifKw, elseKw, whileKw, forKw, doKw, eachKw, repeatKw, timesKw, switchKw, caseKw, defaultKw,
    breakKw, continueKw, returnKw, tryKw, catchKw, finallyKw, throwKw, throwsKw, printKw, printlnKw,
    inputKw, mainKw, defKw, classKw, importKw, packageKw, implementsKw, extendsKw, publicKw,
    protectedKw, privateKw, staticKw, constKw, newKw, thisKw]

def label (k : Keyword) : String := k.entry.label

def spelling (k : Keyword) : String := k.entry.spelling

def category (k : Keyword) : Category := k.entry.category

/-- A statement rule begins with this keyword; recovery after an error stops in front of it. -/
def startsStatement (k : Keyword) : Bool := k.entry.startsStatement

def Category.label : Category → String
  | controlFlow => "ControlFlow"
  | inputOutput => "InputOutput"
  | declaration => "Declaration"

def vocabulary : Vocabulary Keyword where
  spelling := spelling
  all := all
  mem_all a := by cases a <;> decide
  distinct := by decide +kernel

/-- The keyword spelled exactly `s`; case matters. -/
def ofSpelling? (s : String) : Option Keyword := vocabulary.ofSpelling? s

end Keyword

end GeoLang
