import SteppedLogo.Command.Registry
import SteppedLogo.Interpreter.Signature
import SteppedLogo.Turtle.Number

namespace SteppedLogo

/-- What the words of the language do. -/
inductive Primitive
  | print | clearScreen | xcor | ycor | pos | setpos | heading | seth
  | forward | back | right | left | up | down | color
  deriving DecidableEq, Repr

namespace Primitive

/-- The name under which a call of the primitive is announced. -/
def name : Primitive → String
  | print => "print_"
  | clearScreen => "clear_screen"
  | xcor => "xcor"
  | ycor => "ycor"
  | pos => "pos"
  | setpos => "setpos"
  | heading => "heading"
  | seth => "seth"
  | forward => "forward"
  | back => "back"
  | right => "right"
  | left => "left"
  | up => "up"
  | down => "down"
  | color => "color"

/-- The names of the inputs that a call takes; printing takes any number. -/
def inputs? : Primitive → Option (List String)
  | print => none
  | clearScreen | xcor | ycor | pos | heading | up | down => some []
  | setpos | seth => some ["value"]
  | forward | back => some ["dist"]
  | right | left => some ["deg"]
  | color => some ["spec"]

def signature (p : Primitive) : Signature :=
  { name := "build_command_table.<locals>." ++ p.name
    required := p.inputs?.getD []
    anyPositional := p.inputs?.isNone }

/-- The table in which the words are looked up. -/
def table : List (Command Primitive) :=
  [⟨"print", "Print the arguments separated by spaces", print, []⟩,
   ⟨"cs", "Clear the screen and home the turtle", clearScreen, ["clearscreen"]⟩,
   ⟨"xcor", "Report the turtle's x coordinate", xcor, []⟩,
   ⟨"ycor", "Report the turtle's y coordinate", ycor, []⟩,
   ⟨"pos", "Report the position as [x y]", pos, []⟩,
   ⟨"setpos", "Move the turtle to [x y]", setpos, []⟩,
   ⟨"heading", "Report the heading in degrees", heading, []⟩,
   ⟨"seth", "Set the heading in degrees", seth, ["setheading"]⟩,
   ⟨"forward", "Move forward", forward, ["fd"]⟩,
   ⟨"back", "Move backward", back, ["bk"]⟩,
   ⟨"right", "Turn clockwise", right, ["rt"]⟩,
   ⟨"left", "Turn counter-clockwise", left, ["lt"]⟩,
   ⟨"up", "Lift the pen", up, ["pu"]⟩,
   ⟨"down", "Lower the pen", down, ["pd"]⟩,
   ⟨"color", "Set the pen color", color, []⟩]

def registry : Registry Primitive := .ofCommands table

end Primitive

def notAList : Complaint := ⟨.validation, [.text "list must be a list"]⟩

def notAPair : Complaint := ⟨.validation, [.text "list must have two elements"]⟩

/-- The two numbers of a list of two. A chain that ends in a bare list cannot say whether it is
    at its end. -/
def toPair : Value → Except Complaint (Float × Float)
  | .list (.cons _ a (.cons _ b .empty)) => do
    let x ← toNumber a
    let y ← toNumber b
    return (x, y)
  | .list (.cons _ _ (.cons _ _ (.bare _))) => .error ⟨.unsupported, []⟩
  | .list _ => .error notAPair
  | _ => .error notAList

end SteppedLogo
