import GeoLang.Lexical.Scan
import GeoLang.Text.Blank

namespace GeoLang.Lexical

/-- What stands in front of the first `#`, if there is one. -/
def beforeHash? : List Char → Option (List Char)
  | [] => none
  | c :: cs => if c = '#' then some [] else (beforeHash? cs).map (c :: ·)

/-- What stands in front of the first `##`, if there is one. -/
def beforeHashes? : List Char → Option (List Char)
  | [] => none
  | c :: cs =>
    if c = '#' ∧ cs.head? = some '#' then some [] else (beforeHashes? cs).map (c :: ·)

/-- A comment that is closed after the characters of `body`; `marks` of its characters besides the
    first are marks. One that is not closed takes all of `cs`. -/
def Scan.ofComment (marks : Nat) (cs : List Char) : Option (List Char) → Scan
  | some body => ⟨marks + body.length, .comment (String.ofList (Text.trim body))⟩
  | none => ⟨cs.length, .fault .unclosedComment⟩

/-- The comment whose first `#` stands in front of `cs`. -/
def Scan.comment (cs : List Char) : Scan :=
  match cs with
  | '#' :: ds => Scan.ofComment 3 cs (beforeHashes? ds)
  | _ => Scan.ofComment 1 cs (beforeHash? cs)

end GeoLang.Lexical
