import GeoLang.CommandLine.Run

namespace GeoLang.CommandLine

/-- What the file system has at `path`. A directory and a path through a file are told apart by the
    number of the error; the only path that is refused for itself is one that is too long. -/
def lookAt (path : String) : IO Found := do
  match ← (IO.FS.readBinFile path).toBaseIO with
  | .ok bytes => pure (.file bytes.size fun _ => bytes)
  | .error (.inappropriateType _ code _) => pure (if code == 21 then .directory else .throughFile)
  | .error (.invalidArgument ..) => pure .nameTooLong
  | .error _ => pure .missing

end GeoLang.CommandLine

open GeoLang.CommandLine in
/-- The program looks at the file that its arguments name, and prints what the run puts out. -/
def main (args : List String) : IO UInt32 := do
  let found ← match Request.ofArguments args with
    | .run i => lookAt i.file
    | _ => pure .missing
  let outcome := run (fun _ => found) args
  IO.print outcome.stdout
  IO.eprint outcome.stderr
  pure outcome.exitCode.toUInt32
