import SteppedLogo.Command.Table
import SteppedLogo.Turtle.Method
import SteppedLogo.World.Basic

namespace SteppedLogo

/-- A word under way. -/
abbrev WordM := ExceptT Complaint (StateM World)

namespace WordM

variable {α : Type}

def onTurtle (method : TurtleM α) : WordM α :=
  ExceptT.mk (modifyGet fun w =>
    let (result, turtle) := method.run.run w.turtle
    (result, { w with turtle }))

def print (category text : String) : WordM Unit := modify (·.print category text)

end WordM

open WordM

/-- Runs a word with its inputs and gives its value; a list takes its identities from those that
    are fresh. -/
def Primitive.body : Primitive → List Value → WordM Value
  | print, args => do
    WordM.print "output" (" ".intercalate (args.map Value.display))
    return .none
  | clearScreen, [] => do
    onTurtle TurtleM.clearScreen
    return .none
  | xcor, [] => return (← get).turtle.position.x.value
  | ycor, [] => return (← get).turtle.position.y.value
  | pos, [] => do
    let w ← get
    return .list (.ofList w.fresh [w.turtle.position.x.value, w.turtle.position.y.value])
  | setpos, [v] => do
    let (x, y) ← toPair v
    onTurtle (TurtleM.moveTo x y)
    return .none
  | heading, [] => return .float (← get).turtle.heading
  | seth, [v] => do
    onTurtle (TurtleM.setHeading (← toNumber v))
    return .none
  | forward, [v] => do
    onTurtle (TurtleM.forward (← toNumber v))
    return .none
  | back, [v] => do
    onTurtle (TurtleM.back (← toNumber v))
    return .none
  | right, [v] => do
    onTurtle (TurtleM.right (← toNumber v))
    return .none
  | left, [v] => do
    onTurtle (TurtleM.left (← toNumber v))
    return .none
  | up, [] => do
    onTurtle TurtleM.up
    return .none
  | down, [] => do
    onTurtle TurtleM.down
    return .none
  | color, [v] => do
    onTurtle (TurtleM.setColor (.text v.display))
    return .none
  | p, args => throw (p.signature.misfit args)

/-- Calls a word of the table. A call that returns sets two identities aside. -/
def World.callPrimitive (p : Primitive) (args : List Value) (w : World) : Except FaultId Value × World :=
  match (p.body args).run.run w with
  | (.ok v, w) => (.ok v, { w with fresh := w.fresh + 2 })
  | (.error c, w) => w.complain c

end SteppedLogo
