import SteppedLogo.Command.Table
import SteppedLogo.Text.Table

namespace SteppedLogo

inductive HostCommand
  | help | turtle | trace | interval | quit
  deriving DecidableEq

namespace HostCommand

/-- The mark in front of a command. -/
def mark : String := ":"

def all : List HostCommand := [help, turtle, trace, interval, quit]

def name : HostCommand → String
  | help => "help"
  | turtle => "turtle"
  | trace => "trace"
  | interval => "interval"
  | quit => "quit"

def description : HostCommand → String
  | help => "Show host and turtle commands"
  | turtle => "Show the turtle state"
  | trace => "Toggle the trace view"
  | interval => "Set the pacing interval"
  | quit => "Leave the REPL"

/-- What follows the name. -/
def inputs : HostCommand → String
  | trace => "on|off"
  | interval => "SECONDS"
  | help | turtle | quit => ""

def ofName? (name : String) : Option HostCommand := all.find? (·.name == name)

def usage (c : HostCommand) : String :=
  mark ++ c.name ++ (if c.inputs.isEmpty then "" else " " ++ c.inputs)

/-- The table of the host's commands. -/
def table : Text.Table :=
  { headers := ["host command", "description"]
    rows := all.map fun c => [c.usage, c.description] }

end HostCommand

/-- The table of the turtle's commands, each with all of its names. -/
def Primitive.help : Text.Table :=
  { headers := ["turtle command", "description"]
    rows := registry.commands.map fun c => [", ".intercalate c.keys, c.description] }

/-- What the prompt shows in front of each line. -/
def Prompt.message : String := "? "

/-- What the prompt completes. -/
def Prompt.completions : List String :=
  HostCommand.all.map (fun c => HostCommand.mark ++ c.name) ++ Primitive.registry.names

end SteppedLogo
