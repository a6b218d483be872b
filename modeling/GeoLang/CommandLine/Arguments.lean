import GeoLang.Analysis

namespace GeoLang.CommandLine

/-- What can be said besides the command and the file. -/
inductive Flag where
  | plain
  | verbose
  | comments
  | strict
  | version
  | help
deriving DecidableEq, Repr

/-- The flag with this name behind two dashes. -/
def Flag.ofLong? : String → Option Flag
  | "plain" => some plain
  | "verbose" => some verbose
  | "comments" => some comments
  | "strict" => some strict
  | "version" => some version
  | "help" => some help
  | _ => none

/-- The flag with this letter behind one dash. -/
def Flag.ofShort? : Char → Option Flag
  | 'v' => some verbose
  | 'V' => some version
  | 'h' => some help
  | _ => none

/-- An argument by its form. A flag that is not known stays in its place as nothing. -/
inductive Word where
  | separator
  | flags (flags : List (Option Flag))
  | value (text : String)
deriving DecidableEq, Repr

/-- Two hyphens and a name are a flag, one hyphen and letters are a flag each; a hyphen alone is a
    value. -/
def Word.ofArgument (s : String) : Word :=
  match s.toList with
  | ['-', '-'] => .separator
  | '-' :: '-' :: cs => .flags [Flag.ofLong? (String.ofList cs)]
  | '-' :: c :: cs => .flags ((c :: cs).map Flag.ofShort?)
  | _ => .value s

/-- What is to be printed of the file: its tokens or its tree. -/
inductive Command where
  | lex
  | parse
deriving DecidableEq, Repr

def Command.ofName? : String → Option Command
  | "lex" => some lex
  | "parse" => some parse
  | _ => none

/-- The flags that may stand behind a command. -/
def Command.allows : Command → Flag → Bool
  | _, .plain => true
  | _, .verbose => true
  | _, .help => true
  | _, .comments => true
  | lex, .strict => false
  | parse, .strict => true
  | _, .version => false

/-- The flags that may stand in front of the command. -/
def allowsInFront : Flag → Bool
  | .plain => true
  | .verbose => true
  | .version => true
  | .help => true
  | _ => false

/-- A command on a file. -/
structure Invocation where
  command : Command
  file : String
  plain : Bool
  verbose : Bool
  comments : Bool
  strict : Bool
deriving DecidableEq, Repr

/-- What the flags ask of the analysis. -/
def Invocation.config (i : Invocation) : AnalysisConfig where
  keepComments := i.comments
  parseOnLexErrors := !i.strict

/-- What the arguments ask for. -/
inductive Request where
  | run (invocation : Invocation)
  | showVersion
  | showHelp
  | misuse
deriving DecidableEq, Repr

/-- Adds flags to those seen on the same side of the command. None may stand there twice; a request
    for the version or for help is granted at once. -/
def takeFlags (allowed : Flag → Bool) (seen : List Flag) :
    List (Option Flag) → Except Request (List Flag)
  | [] => .ok seen
  | none :: _ => .error .misuse
  | some f :: fs =>
    if !allowed f || seen.contains f then .error .misuse
    else match f with
      | .version => .error .showVersion
      | .help => .error .showHelp
      | f => takeFlags allowed (f :: seen) fs

/-- The request of a command with the flags on both sides of it and its values, of which there must
    be one. -/
def Request.ofCommand (command : Command) (inFront behind : List Flag) : List String → Request
  | [file] =>
    if file.isEmpty then .misuse
    else .run {
      command := command
      file := file
      plain := inFront.contains .plain || behind.contains .plain
      verbose := inFront.contains .verbose || behind.contains .verbose
      comments := behind.contains .comments
      strict := behind.contains .strict }
  | _ => .misuse

/-- Reads what stands behind a command. An empty value and a second value are misuse as soon as they
    are met; behind a separator everything is a value. -/
def readBehind (command : Command) (inFront behind : List Flag) (values : List String) :
    List String → Request
  | [] => .ofCommand command inFront behind values
  | arg :: args =>
    match Word.ofArgument arg with
    | .separator => .ofCommand command inFront behind (values ++ args)
    | .flags fs =>
      match takeFlags command.allows behind fs with
      | .ok behind => readBehind command inFront behind values args
      | .error request => request
    | .value v =>
      if values.isEmpty && !v.isEmpty then readBehind command inFront behind [v] args else .misuse

/-- A request for help on at most one command. -/
def readHelp : List String → Request
  | [] => .showHelp
  | [name] => if name = "help" ∨ (Command.ofName? name).isSome then .showHelp else .misuse
  | _ => .misuse

/-- Reads the arguments up to the command. -/
def readInFront (inFront : List Flag) : List String → Request
  | [] => .misuse
  | arg :: args =>
    match Word.ofArgument arg with
    | .separator => .misuse
    | .flags fs =>
      match takeFlags allowsInFront inFront fs with
      | .ok inFront => readInFront inFront args
      | .error request => request
    | .value v =>
      match Command.ofName? v with
      | some command => readBehind command inFront [] [] args
      | none => if v = "help" then readHelp args else .misuse

/-- Arguments are read from the left, and the first one that settles the matter ends the reading. -/
def Request.ofArguments (args : List String) : Request := readInFront [] args

end GeoLang.CommandLine
