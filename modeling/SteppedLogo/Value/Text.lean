import SteppedLogo.Value.Basic
import SteppedLogo.Text.Quoted
import SteppedLogo.Decimal.Format

namespace SteppedLogo

def boolText (b : Bool) : String := if b then "True" else "False"

mutual

/-- The text of a value in which texts are quoted. -/
def Value.source : Value → String
  | .none => "None"
  | .bool b => boolText b
  | .int n _ => toString n
  | .float x _ => Decimal.shortestText x
  | .text s _ => Text.quoted s
  | .list l => "List.of(" ++ ", ".intercalate l.itemSources ++ ")"
  | .sequence _ items => "[" ++ ", ".intercalate (sourcesOf items) ++ "]"
  | .object _ name => "<" ++ name ++ ">"
  | .procedure _ name => "<procedure " ++ name ++ ">"

def LogoList.itemSources : LogoList → List String
  | .cons _ head tail => head.source :: tail.itemSources
  | .empty => []
  | .bare _ => []

def sourcesOf : List Value → List String
  | [] => []
  | x :: xs => x.source :: sourcesOf xs

end

mutual

/-- The text of a value as a program prints it: texts as they are, the items of a list in
    brackets with blanks between them. -/
def Value.display : Value → String
  | .text s _ => s
  | .list l => "[" ++ " ".intercalate l.itemDisplays ++ "]"
  | v => v.source

def LogoList.itemDisplays : LogoList → List String
  | .cons _ head tail => head.display :: tail.itemDisplays
  | .empty => []
  | .bare _ => []

end

/-- The text that a program prints, as a value: a text is its own, those of truth values are
    shared, and all others are objects of their own. -/
def Value.toText (fresh : Identity) : Value → Value
  | .text s id => .text s id
  | .bool b => .text (boolText b)
  | v => .text v.display fresh

/-- The text of a list as a program prints it. -/
def LogoList.display (l : LogoList) : String := "[" ++ " ".intercalate l.itemDisplays ++ "]"

/-- Several values as one text: items in round brackets, a comma behind a single one. -/
def tupleSource (xs : List Value) : String :=
  match xs with
  | [x] => "(" ++ x.source ++ ",)"
  | xs => "(" ++ ", ".intercalate (sourcesOf xs) ++ ")"

end SteppedLogo
