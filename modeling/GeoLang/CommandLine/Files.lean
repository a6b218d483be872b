namespace GeoLang.CommandLine

/-- What there is at a path. The content of a file is only made when it is asked for. -/
inductive Found where
  | missing
  | throughFile
  | nameTooLong
  | directory
  | file (size : Nat) (content : Unit → ByteArray)

/-- The parts of a path that name something: neither empty nor the directory itself. -/
def pathNames (path : String) : List String :=
  (path.splitOn "/").filter fun s => !s.isEmpty && s != "."

/-- A name has at most this many bytes. -/
def maxNameSize : Nat := 255

/-- A path has at most this many bytes. -/
def maxPathSize : Nat := 4095

/-- What a path leads to from a directory of which nothing is known but that it holds none of the
    names that are looked for. The names after the first are never reached. -/
def lookOutside (parts : List String) : Found :=
  match parts.find? fun s => !s.isEmpty && s != "." && s != ".." with
  | none => .directory
  | some name => if maxNameSize < name.utf8ByteSize then .nameTooLong else .missing

/-- The last name of a path, unless the path ends by going up. -/
def fileName? (path : String) : Option String :=
  (pathNames path).getLast?.filter (· != "..")

/-- What follows the last point of the file name. A name without a point, or whose only point is its
    first character, has no extension. -/
def extension? (path : String) : Option String :=
  match fileName? path with
  | none => none
  | some name =>
    let reversed := name.toList.reverse
    let behind := reversed.takeWhile (· != '.')
    match reversed.drop behind.length with
    | [] => none
    | ['.'] => none
    | _ => some (String.ofList behind.reverse)

/-- A directory with all that it holds, given by the path of each entry. The directories on the way
    to an entry need no entry of their own. -/
structure FileTree where
  entries : List (List String × Found)

namespace FileTree

/-- Something lies below the path. -/
def hasBelow (t : FileTree) (names : List String) : Bool :=
  t.entries.any fun e => names.length < e.1.length && e.1.take names.length == names

/-- What there is at a path of names. -/
def find (t : FileTree) (names : List String) : Found :=
  if names.isEmpty || t.hasBelow names then .directory
  else ((t.entries.find? fun e => e.1 == names).map (·.2)).getD .missing

/-- Follows the parts of a path from the directory `here`. Only a directory leads on, be it to
    itself, so a name is only measured where it is looked up. -/
def follow (t : FileTree) (here : List String) : List String → Found
  | [] => t.find here
  | part :: parts =>
    match t.find here with
    | .directory =>
      if part.isEmpty || part == "." then t.follow here parts
      else if part == ".." then
        if here.isEmpty then lookOutside parts else t.follow here.dropLast parts
      else if maxNameSize < part.utf8ByteSize then .nameTooLong
      else t.follow (here ++ [part]) parts
    | .file _ _ => .throughFile
    | found => found

/-- What there is at a path that starts in the directory. The whole path is measured before any part
    of it is followed. -/
def look (t : FileTree) (path : String) : Found :=
  if path.isEmpty then .missing
  else if maxPathSize < path.utf8ByteSize then .nameTooLong
  else if path.startsWith "/" then lookOutside (path.splitOn "/")
  else t.follow [] (path.splitOn "/")

end FileTree

end GeoLang.CommandLine
