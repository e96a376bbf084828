import SteppedLogo.Turtle.Basic

namespace SteppedLogo

/-- A method of the turtle under way. -/
abbrev TurtleM := ExceptT Complaint (StateM Turtle)

namespace TurtleM

/-- Headings are taken modulo a full circle. -/
def setHeading (degrees : Float) : TurtleM Unit :=
  modify fun t => { t with heading := Decimal.floorMod degrees 360 }

def setX (x : Float) : TurtleM Unit :=
  modify fun t => { t with position := { t.position with x := .real x } }

def setY (y : Float) : TurtleM Unit :=
  modify fun t => { t with position := { t.position with y := .real y } }

/-- Draws to a point, with the pen down. -/
def draw (stop : Point) : TurtleM Unit :=
  modify fun t =>
    if t.penDown then { t with segments := t.segments.push ⟨t.position, stop, t.penColor⟩ } else t

def moveTo (x y : Float) : TurtleM Unit := do
  let x := Turtle.snap x
  let y := Turtle.snap y
  draw ⟨.real x, .real y⟩
  setX x
  setY y

/-- Moves by `distance`, whose products with the sine and the cosine of the heading are added to
    the coordinates. -/
def advance (distance : Float → Except Complaint Float) : TurtleM Unit := do
  let t ← get
  let angle := Turtle.radians t.heading
  let x := (← distance angle.sin) + (← t.position.x.toFloat)
  let y := (← distance angle.cos) + (← t.position.y.toFloat)
  moveTo x y

def forward (distance : Float) : TurtleM Unit := advance fun s => .ok (distance * s)

def back (distance : Float) : TurtleM Unit := forward (-distance)

def right (degrees : Float) : TurtleM Unit := do setHeading ((← get).heading + degrees)

def left (degrees : Float) : TurtleM Unit := do setHeading ((← get).heading - degrees)

def up : TurtleM Unit := modify fun t => { t with penDown := false }

def down : TurtleM Unit := modify fun t => { t with penDown := true }

def setColor (color : Value) : TurtleM Unit := modify fun t => { t with penColor := color }

/-- Back to the start, without segments; the pen stays as it is. -/
def clearScreen : TurtleM Unit := do
  modify fun t => { t with segments := #[] }
  setX 0.0
  setY 0.0
  modify fun t => { t with heading := 0.0 }

end TurtleM

end SteppedLogo
