import SteppedLogo.Text.Blank

namespace SteppedLogo.Prompt

/-- A line without the backslash at its end, if it has one; blanks behind it are skipped. -/
def continued? (line : String) : Option String :=
  match (Text.trimRight line.toList).reverse with
  | '\\' :: rest => some (String.ofList rest.reverse)
  | _ => none

/-- Takes a line after the lines that await it: says whether the entry goes on, and what awaits
    the next line. A line that completes an entry is kept only behind others. -/
def addLine (waiting : List String) (line : String) : Bool × List String :=
  match continued? line with
  | some part => (true, waiting ++ [part])
  | none => (false, if waiting.isEmpty then [] else waiting ++ [Text.stripEnd line])

/-- The entry that a line completes: the line as it is, or the waiting parts joined by line
    ends. -/
def entry (parts : List String) (line : String) : String :=
  if parts.isEmpty then line else "\n".intercalate parts

end SteppedLogo.Prompt
