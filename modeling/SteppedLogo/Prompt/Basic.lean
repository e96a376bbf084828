import SteppedLogo.Host
import SteppedLogo.Prompt.Entry
import SteppedLogo.Prompt.HostCommand
import SteppedLogo.Turtle.Summary

namespace SteppedLogo.Prompt

/-- What the user does at the prompt. -/
inductive Keys
  | line (s : String)
  | interrupt
  | endOfInput
  deriving DecidableEq

/-- How a program is run; it gives the status to remember. -/
abbrev Runner := String → Work Int

/-- Runs a program as a host does. -/
def hostRunner : Runner := fun source => return (← Host.runProgram source).code

def complainOf (text : String) : Work Unit := Work.perform (.print "error" text)

def writeText (text : String) : Work Unit := Work.perform (.write (.text (text ++ "\n")))

/-- A complaint about the inputs of a command, with its usage. -/
def refuse (c : HostCommand) (text : String) : Work Unit :=
  complainOf (text ++ " (usage: " ++ c.usage ++ ")")

def showHelp : Work Unit := do
  writeText HostCommand.table.render
  writeText ""
  writeText Primitive.help.render

def showTurtle : Work Unit := do
  let t : Turtle ← Work.perform .turtle
  match t.summary with
  | .ok table => writeText table.render
  | .error c => Work.fail (.plain c)

def setTrace (on : Bool) : Work Unit := do
  Work.perform (.setTrace on)
  if !on then Work.perform .clearView
  writeText ("trace " ++ if on then "on" else "off")

def setInterval (text : String) : Work Unit := do
  match Decimal.read? text with
  | none => refuse .interval ("could not convert string to float: " ++ Text.quoted text)
  | some seconds =>
    let accepted : Except FaultId Unit ← Work.perform (.setPacing seconds)
    match accepted with
    | .ok () => do
      let interval : Float ← Work.perform .pacing
      writeText ("pacing interval " ++ Decimal.generalText interval ++ "s")
    | .error id => do
      let fault : Fault ← Work.perform (.describe id)
      refuse .interval fault.message

/-- Carries out a command of the host, and says whether the prompt goes on. -/
def runCommand (c : HostCommand) (args : List String) : Work Bool := do
  match c, args with
  | .help, _ => showHelp
  | .turtle, _ => showTurtle
  | .trace, ["on"] => setTrace true
  | .trace, ["off"] => setTrace false
  | .trace, _ => refuse .trace "expected on or off"
  | .interval, [text] => setInterval text
  | .interval, _ => refuse .interval "expected one value"
  | .quit, _ => pure ()
  return c != .quit

/-- Carries out the words behind the mark of a command. -/
def dispatchCommand : List String → Work Bool
  | [] => do
    complainOf ("Missing command after " ++ HostCommand.mark)
    return true
  | name :: args =>
    match HostCommand.ofName? name with
    | some c => runCommand c args
    | none => do
      complainOf ("Unknown command: " ++ HostCommand.mark ++ name)
      return true

/-- Carries out an entry, and says whether the prompt goes on. -/
def dispatch (run : Runner) (entry : String) : Work Bool := do
  let entry := Text.strip entry
  if entry.isEmpty then return true
  else if entry.startsWith HostCommand.mark then
    dispatchCommand (Text.words (entry.drop HostCommand.mark.length).toString)
  else
    Work.perform (.setStatus (← run entry))
    return true

/-- One turn of the prompt: what awaits the next line, or nothing when there is to be none. -/
def turn (run : Runner) (waiting : List String) : Keys → Work (Option (List String))
  | .interrupt | .endOfInput => do
    writeText ""
    return none
  | .line line => do
    let (goesOn, parts) := addLine waiting line
    if goesOn then return some parts
    else if ← dispatch run (entry parts line) then return some []
    else return none

/-- Prompts for lines until there is to be none; the user's input ends with the list. -/
def runFrom (run : Runner) : (waiting : List String) → List Keys → Work Unit
  | waiting, [] => do
    Work.perform (.write .prompt)
    let _ ← turn run waiting .endOfInput
  | waiting, keys :: rest => do
    Work.perform (.write .prompt)
    match ← turn run waiting keys with
    | some waiting => runFrom run waiting rest
    | none => pure ()

end SteppedLogo.Prompt
