import SteppedLogo.Turtle.Method

namespace SteppedLogo

inductive Move
  | forward (distance : Value)
  | back (distance : Value)
  | right (degrees : Value)
  | left (degrees : Value)
  | heading (degrees : Value)
  | setPos (x y : Value)
  | up
  | down
  | color (spec : Value)
  | clearScreen

/-- The move of a given name with its operands. -/
def Move.ofName? : (name : String) → (operands : List Value) → Option Move
  | "forward", [d] => some (.forward d)
  | "back", [d] => some (.back d)
  | "right", [d] => some (.right d)
  | "left", [d] => some (.left d)
  | "heading", [d] => some (.heading d)
  | "set_pos", [x, y] => some (.setPos x y)
  | "up", [] => some .up
  | "down", [] => some .down
  | "color", [c] => some (.color c)
  | "clear_screen", [] => some .clearScreen
  | _, _ => none

/-- The method that a move calls. -/
def Move.method : Move → TurtleM Unit
  | forward distance => TurtleM.advance (mulOperand distance)
  | back distance => do TurtleM.advance (mulOperand (← negOperand distance))
  | right degrees => do TurtleM.setHeading (← addOperand (← get).heading degrees)
  | left degrees => do TurtleM.setHeading (← subOperand (← get).heading degrees)
  | heading degrees => do TurtleM.setHeading (← toFloat degrees)
  | setPos x y => do TurtleM.moveTo (← toFloat x) (← toFloat y)
  | up => TurtleM.up
  | down => TurtleM.down
  | color spec => TurtleM.setColor spec
  | clearScreen => TurtleM.clearScreen

/-- What a move makes of the turtle, or why it is refused. -/
def Turtle.apply (t : Turtle) (m : Move) : Except Complaint Turtle :=
  match m.method.run.run t with
  | (.ok (), t) => .ok t
  | (.error c, _) => .error c

end SteppedLogo
