import SteppedLogo.Turtle.Basic
import SteppedLogo.Text.Table

namespace SteppedLogo

/-- The text of a value in a table; nothing stands for no value. -/
def cellText : Value → String
  | .none => ""
  | v => v.display

/-- Six significant digits of a coordinate, which has to be within the range of doubles. -/
def Coordinate.brief (c : Coordinate) : Except Complaint String :=
  c.toFloat.map Decimal.generalText

def Turtle.summary (t : Turtle) : Except Complaint Text.Table := do
  let x ← t.position.x.brief
  let y ← t.position.y.brief
  return {
    headers := ["field", "value"]
    rows := [
      ["x", x], ["y", y], ["heading", Decimal.generalText t.heading],
      ["pen", if t.penDown then "down" else "up"], ["color", cellText t.penColor],
      ["segments", toString t.segments.size]] }

end SteppedLogo
