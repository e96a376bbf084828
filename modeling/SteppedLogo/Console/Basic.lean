import SteppedLogo.Program.Code
import SteppedLogo.Text.Escaped

namespace SteppedLogo

structure Console where
  json : Bool := false
  color : Bool := false

/-- What is written for a record. -/
inductive Printed
  | plain (s : String)
  /-- a line of styled fragments -/
  | styled (fragments : List Fragment)

namespace Console

/-- Unless it is settled, text is styled on a terminal only. -/
def ofTerminal (json : Bool) (color : Option Bool) (terminal : Bool) : Console :=
  { json, color := color.getD terminal }

/-- A JSON object of fields with their values, on a line of its own. -/
def jsonLine (fields : List (String × String)) : String :=
  "\x7b" ++ ", ".intercalate (fields.map fun (key, value) => Text.json key ++ ": " ++ value) ++
    "\x7d\n"

def jsonRecord (category : String) (seq : Option Nat) (text : String) : String :=
  jsonLine (("category", Text.json category) ::
    (seq.map fun n => ("seq", toString n)).toList ++ [("text", Text.json text)])

/-- Only errors are marked in plain text. -/
def plainMark (category : String) : String := if category = "error" then "error: " else ""

def line (c : Console) (category text : String) : Printed :=
  if c.json then .plain (jsonRecord category none text)
  else if c.color then .styled [("class:" ++ category, text)]
  else .plain (plainMark category ++ text ++ "\n")

def seqLabel (seq : Option Nat) : String := (seq.map fun n => "#" ++ toString n ++ " ").getD ""

/-- The text of a view, with its active node marked. -/
def markedText (root : Option ViewNode) : String := (root.map (·.toText true)).getD ""

def trace (c : Console) (seq : Option Nat) (root : Option ViewNode) : Printed :=
  if c.json then .plain (jsonRecord "trace" seq (markedText root))
  else if c.color then
    .styled (("class:trace", seqLabel seq) :: (root.map ViewNode.fragments).getD [])
  else .plain (seqLabel seq ++ markedText root ++ "\n")

/-- What a record looks like; a prompt is left to what reads the user's lines. -/
def print (c : Console) : Record → Printed
  | .line category text => c.line category text
  | .trace seq root => c.trace seq root
  | .text s => .plain s
  | .prompt => .plain ""

end Console

end SteppedLogo
