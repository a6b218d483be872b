import GeoLang.Vocabulary.Basic

namespace GeoLang

inductive Punctuation.Category where
  | special
  | terminating
  | separating
  | parenthesis
  | accessor
deriving DecidableEq, Repr

/-- The marks that are no operators. No spelling of one is the spelling of an operator. -/
inductive Punctuation where
  | colon | at | dollar | backslash | semicolon | comma
  | lParen | rParen | lCurly | rCurly | lBracket | rBracket | dot
deriving DecidableEq, Repr

namespace Punctuation

/-- The facts about one punctuation mark. -/
structure Entry where
  label : String
  spelling : String
  category : Category

/-- The facts about each mark. -/
def entry : Punctuation → Entry
  | colon => ⟨"Colon", ":", .special⟩
  | .at => ⟨"At", "@", .special⟩
  | dollar => ⟨"Dollar", "$", .special⟩
  | backslash => ⟨"Backslash", "\\", .special⟩
  | semicolon => ⟨"Semicolon", ";", .terminating⟩
  | comma => ⟨"Comma", ",", .separating⟩
  | lParen => ⟨"LParen", "(", .parenthesis⟩
  | rParen => ⟨"RParen", ")", .parenthesis⟩
  | lCurly => ⟨"LCurly", "\x7b", .parenthesis⟩
  | rCurly => ⟨"RCurly", "\x7d", .parenthesis⟩
  | lBracket => ⟨"LBracket", "[", .parenthesis⟩
  | rBracket => ⟨"RBracket", "]", .parenthesis⟩
  | dot => ⟨"Dot", ".", .accessor⟩

/-- Every punctuation mark, in the order in which listings show them. -/
def all : List Punctuation :=
  [colon, .at, dollar, backslash, semicolon, comma, lParen, rParen, lCurly, rCurly, lBracket,
    rBracket, dot]

def label (p : Punctuation) : String := p.entry.label

def spelling (p : Punctuation) : String := p.entry.spelling

def category (p : Punctuation) : Category := p.entry.category

def Category.label : Category → String
  | special => "Special"
  | terminating => "Terminating"
  | separating => "Separating"
  | parenthesis => "Parenthesis"
  | accessor => "Accessor"

def vocabulary : Vocabulary Punctuation where
  spelling := spelling
  all := all
  mem_all a := by cases a <;> decide
  distinct := by decide +kernel

/-- The punctuation mark spelled exactly `s`. -/
def ofSpelling? (s : String) : Option Punctuation := vocabulary.ofSpelling? s

end Punctuation

end GeoLang
