import GeoLang.CommandLine.Arguments
import GeoLang.CommandLine.Files
import GeoLang.Tree.Outline
import GeoLang.Version

namespace GeoLang.CommandLine

/-- What a run of the program puts out. -/
structure Outcome where
  exitCode : Nat
  stdout : String
  stderr : String
deriving DecidableEq, Repr

/-- The extension of source files, without the point. -/
def sourceExtension : String := "lit"

/-- Source files have at most this many bytes. -/
def maxSourceSize : Nat := 100 * 1024 * 1024

/-- Why a source file cannot be read. -/
inductive ReadFailure where
  | notSource
  | missing
  | throughFile
  | nameTooLong
  | tooLarge (size : Nat)
  | directory
  | notText
deriving DecidableEq, Repr

/-- The failure as it is reported for the file at `path`. -/
def ReadFailure.message (path : String) : ReadFailure → String
  | notSource => "Error: '" ++ path ++ "' is not a TanglawPL source file (expected a ."
      ++ sourceExtension ++ " extension)"
  | missing => "Cannot access file '" ++ path ++ "': No such file or directory (os error 2)"
  | throughFile => "Cannot access file '" ++ path ++ "': Not a directory (os error 20)"
  | nameTooLong => "Cannot access file '" ++ path ++ "': File name too long (os error 36)"
  | tooLarge size => "Source file '" ++ path ++ "' is too large (" ++ toString size
      ++ " bytes, max " ++ toString maxSourceSize ++ " bytes)"
  | directory => "Error reading file '" ++ path ++ "': Is a directory (os error 21)"
  | notText => "Error reading file '" ++ path ++ "': stream did not contain valid UTF-8"

/-- The text of the source file at `path`. The extension is judged first, so nothing is looked at
    under another one. -/
def sourceText (look : String → Found) (path : String) : Except ReadFailure String :=
  if extension? path != some sourceExtension then .error .notSource
  else match look path with
    | .missing => .error .missing
    | .throughFile => .error .throughFile
    | .nameTooLong => .error .nameTooLong
    | .directory => .error .directory
    | .file size content =>
      if maxSourceSize < size then .error (.tooLarge size)
      else match String.fromUTF8? (content ()) with
        | some text => .ok text
        | none => .error .notText

/-- The text, with blanks in front of it up to the width. -/
def alignRight (width : Nat) (s : String) : String :=
  String.ofList (List.replicate (width - s.length) ' ') ++ s

/-- The text, with blanks behind it up to the width. -/
def alignLeft (width : Nat) (s : String) : String :=
  s ++ String.ofList (List.replicate (width - s.length) ' ')

/-- A line of the token table: line and column counted from one, the category and the lexeme. -/
def tokenLine (t : Token) : String :=
  alignRight 4 (toString (t.span.start.line + 1)) ++ ":"
    ++ alignLeft 4 (toString (t.span.start.column + 1)) ++ " "
    ++ alignLeft 20 t.category.name ++ " " ++ t.lexeme ++ "\n"

/-- A diagnostic in full: its code in front of it, and advice behind it. -/
def richReport (file : SourceFile) (d : Diagnostic) : String :=
  d.code ++ "\n" ++ d.render file ++ "\n"
    ++ (match d.help? with
      | some help => "help: " ++ help ++ "\n"
      | none => "")

/-- A report without colours, with a blank line behind it. -/
def plainReport (file : SourceFile) (d : Diagnostic) : String := d.render file ++ "\n\n"

/-- The last line of a report on `count` errors. -/
def verdict (count : Nat) : String :=
  toString count ++ (if count = 1 then " error" else " errors") ++ " found\n"

/-- The outcome of a command that wrote `stdout` and found the errors given. -/
def report (plain : Bool) (file : SourceFile) (stdout : String) (ds : List Diagnostic) : Outcome :=
  if ds.isEmpty then ⟨0, stdout, ""⟩
  else
    let one := if plain then plainReport file else richReport file
    ⟨1, stdout, String.join (ds.map one) ++ verdict ds.length⟩

/-- The run of a command on the file that its arguments name; `look` says what there is at a
    path. -/
def runCommand (look : String → Found) (i : Invocation) : Outcome :=
  match sourceText look i.file with
  | .error failure => ⟨1, "", failure.message i.file ++ "\n"⟩
  | .ok text =>
    let file : SourceFile := ⟨i.file, text⟩
    match i.command with
    | .lex =>
      let lexed := Lexed.ofSource i.comments text
      report i.plain file (String.join (lexed.tokens.map tokenLine)) (lexed.errors.map .lexical)
    | .parse =>
      let a := Analysis.ofSource i.config text
      report i.plain file ((a.program.map (·.outline.text)).getD "") a.diagnostics

/-- How the program is called. -/
def usage : String := "Usage: " ++ programName ++ " [--plain] [--verbose] <lex|parse> <FILE>\n"

/-- The outcome of a run with the arguments given. -/
def run (look : String → Found) (args : List String) : Outcome :=
  match Request.ofArguments args with
  | .run i => runCommand look i
  | .showVersion => ⟨0, programName ++ " " ++ version ++ "\n", ""⟩
  | .showHelp => ⟨0, usage, ""⟩
  | .misuse => ⟨2, "", usage⟩

end GeoLang.CommandLine
