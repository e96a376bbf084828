import SteppedLogo.Turtle.Number

namespace SteppedLogo

/-- A coordinate is a double; only a starting one may be a whole number. -/
inductive Coordinate
  | whole (n : Int)
  | real (x : Float)

namespace Coordinate

def toFloat : Coordinate → Except Complaint Float
  | whole n => intToFloat n
  | real x => .ok x

def value : Coordinate → Value
  | whole n => .int n
  | real x => .float x

/-- The coordinate that a value gives; what is no number gives the origin. -/
def ofValue : Value → Coordinate
  | .int n _ => whole n
  | .float x _ => real x
  | _ => real 0.0

def text (c : Coordinate) : String := c.value.source

end Coordinate

structure Point where
  x : Coordinate
  y : Coordinate

/-- One move with the pen down. -/
structure Segment where
  start : Point
  stop : Point
  color : Value

structure Turtle where
  position : Point := ⟨.real 0.0, .real 0.0⟩
  penDown : Bool := true
  penColor : Value := .text "black"
  segments : Array Segment := #[]
  heading : Float := 0.0

namespace Turtle

/-- Nine decimal places remove the noise of sines and cosines; adding zero drops the sign of a
    negative zero. -/
def snap (x : Float) : Float := Decimal.roundPlaces 9 x + 0.0

def radiansPerDegree : Float := 3.141592653589793 / 180.0

def radians (degrees : Float) : Float := degrees * radiansPerDegree

end Turtle

end SteppedLogo
