import GeoLang.Grammar.Error
import GeoLang.Lexical.Error

namespace GeoLang

/-- Lexical and grammatical errors alike, as reports show them. -/
inductive Diagnostic where
  | lexical (error : LexError)
  | grammatical (error : ParseError)
deriving DecidableEq, Repr

/-- A text to put at a part of the source, given by offset and length in bytes. -/
structure Label where
  text : String
  offset : Nat
  length : Nat
deriving DecidableEq, Repr

namespace Diagnostic

def name : Diagnostic → String
  | lexical e => e.fault.name
  | grammatical e => e.name

def message : Diagnostic → String
  | lexical e => e.fault.message
  | grammatical e => e.message

/-- Where the report points; a text without tokens has no such place. -/
def span? : Diagnostic → Option Span
  | lexical e => some e.span
  | grammatical e => e.span?

def code : Diagnostic → String
  | lexical e => e.fault.code
  | grammatical e => e.code

/-- Advice on how to go on; only errors of the grammar come with it. -/
def help? : Diagnostic → Option String
  | lexical _ => none
  | grammatical e => e.help?

/-- The place of the error, marked with its name in small letters. -/
def label? (d : Diagnostic) : Option Label :=
  d.span?.map fun s => ⟨d.name.toLower, s.start.offset, s.length⟩

/-- The error in words, and below them the place in the file if it has one. -/
def render (d : Diagnostic) (file : SourceFile) : String :=
  let head := d.name ++ ": " ++ d.message
  match d.span? with
  | some s => head ++ "\n" ++ file.reference s
  | none => head

end Diagnostic

end GeoLang
