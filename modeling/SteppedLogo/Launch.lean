import SteppedLogo.CommandLine.Options
import SteppedLogo.CommandLine.LogLevel
import SteppedLogo.Interpreter.Catalogue
import SteppedLogo.Console.Basic
import SteppedLogo.World.Run
import SteppedLogo.Prompt.Basic

namespace SteppedLogo

/-- What a start finds around it. -/
structure Surroundings where
  interpreter : Option String := none
  interval : Option String := none
  logLevel : Option String := none
  home : String
  /-- whether the log is set up already, and keeps its threshold -/
  logReady : Bool := false

/-- A bridge that is ready to run, with its surroundings. -/
structure Bridge where
  env : Env
  world : World

/-- What a start leads to. -/
inductive Start where
  | halted (h : Halt)
  /-- the interpreter cannot be loaded -/
  | unloadable (target : String) (why : Complaint)
  /-- a fault that is not expected of a factory -/
  | broken (why : Complaint)
  | ready (b : Bridge) (o : Options)

/-- What is run on a bridge: the program of the command line, or the prompt, which keeps its entries
    in a file. -/
inductive Mode where
  | program (source : String)
  | prompt (history : Path)

/-- How a start goes on. -/
inductive Conduct where
  | leaves (status : Int)
  | fails (why : Complaint)
  | runs (b : Bridge) (m : Mode)

/-- A start, with the threshold of the log where it came so far, and what was logged. -/
structure Launch where
  start : Start
  level : Option LogLevel := none
  log : List LogRecord := []

namespace Launch

def logger : String := "logo_dbg.cli"

def invalidInterval (text : String) : LogRecord :=
  { level := .warning, logger
    message := "ignoring invalid LOGO_DBG_INTERVAL=" ++ Text.quoted text }

/-- The interval of the surroundings, where it can be read. -/
def intervalFrom (s : Surroundings) : Float × List LogRecord :=
  match s.interval with
  | none => (defaultInterval, [])
  | some text =>
    if text.isEmpty then (defaultInterval, [])
    else match Decimal.read? text with
      | some seconds => (seconds, [])
      | none => (defaultInterval, [invalidInterval text])

/-- The settings without any flag. -/
def defaults (s : Surroundings) (interval : Float) : Options :=
  { interpreter := s.interpreter.map .value
    interval := .value interval
    logLevel := .value (s.logLevel.getD "WARNING")
    history := .value ((Path.ofText s.home).join ".logo-dbg-history") }

/-- The settings, and what is logged while they are read. -/
def options (s : Surroundings) (argv : List String) : Except Halt Options × List LogRecord :=
  let (interval, log) := intervalFrom s
  (CommandLine.parse (defaults s interval) argv, log)

/-- Faults that are expected of a factory. -/
def isLoadFault (k : FaultKind) : Bool :=
  k.isA .imports || k.isA .missingAttribute || k.isA .type || k.isA .value

/-- The listener that shows the trace at each step. -/
def traceListener : String := "console"

def react (listener : String) (event : StepEvent) : Reaction :=
  if listener = traceListener then Reaction.perform (.showTrace event) else pure ()

/-- A bridge for a loaded interpreter; an object that is none but offers the same runs nothing. -/
def bridge (interval : Float) (trace : Bool) (p : Product) (signals : Bool) :
    Except Complaint Bridge := do
  let world ← World.openSession interval trace false
  return {
    world := world.addListener traceListener
    env := {
      program := (p.interpreter.map Interpreter.program).getD fun _ => pure .none
      react
      signals } }

def setupFailed (why : Complaint) : LogRecord :=
  { level := .debug, logger, message := "interpreter setup failed"
    fault := some (Fault.ofComplaint why).summary }

/-- Loads what the settings ask for. -/
def load (c : Catalogue) (o : Options) (interval : Float) (target : String) (signals : Bool) :
    Start × List LogRecord :=
  match (do bridge interval (!o.noTrace) (← c.load target) signals) with
  | .ok b => (.ready b o, [])
  | .error why =>
    if isLoadFault why.kind then (.unloadable target why, [setupFailed why]) else (.broken why, [])

/-- A blank level has no name. -/
def blankLevel : Complaint :=
  ⟨.missingAttribute, [.text "'list' object has no attribute 'upper'"]⟩

/-- A blank interval is no number. -/
def blankInterval : Complaint := World.notComparable "list"

/-- A blank history is no path. -/
def blankHistory : Complaint :=
  ⟨.type, [.text "expected str, bytes or os.PathLike object, not list"]⟩

/-- The text of a setting, where it is given and not empty. -/
def given? : Option (Setting String) → Option String
  | some (.value text) => if text.isEmpty then none else some text
  | _ => none

/-- What the settings lead to, and what is logged on the way. The interpreter is asked for first,
    then the interval. -/
def begin (c : Catalogue) (o : Options) (signals : Bool) : Start × List LogRecord :=
  match given? o.interpreter, o.interval with
  | none, _ =>
    (.halted (.misuse "an interpreter is required (--interpreter or LOGO_DBG_INTERPRETER)"), [])
  | some _, .blank => (.broken blankInterval, [])
  | some target, .value interval =>
    if interval < 0.0 then (.halted (.misuse "--interval must not be negative"), [])
    else load c o interval target signals

/-- Sets the threshold of the log, unless the log is set up already. -/
def configure (s : Surroundings) (level : LogLevel) : Except Complaint Unit :=
  if s.logReady then .ok () else level.check.map fun _ => ()

/-- The start that a command line asks for. The log comes first: where its level is no threshold,
    nothing is loaded. -/
def ofArguments (c : Catalogue) (s : Surroundings) (signals : Bool) (argv : List String) : Launch :=
  let (read, log) := options s argv
  match read with
  | .error halt => { start := .halted halt, log }
  | .ok o =>
    match o.logLevel with
    | .blank => { start := .broken blankLevel, log }
    | .value name =>
      let level := LogLevel.ofName name
      match configure s level with
      | .error why => { start := .broken why, level := some level, log }
      | .ok () =>
        let (start, loading) := begin c o signals
        { start, level := some level, log := log ++ loading }

/-- What is told of an interpreter that cannot be loaded. -/
def loadError (target : String) (why : Complaint) : String :=
  "error: cannot load interpreter " ++ Text.quoted target ++ ": " ++
    (Fault.ofComplaint why).message ++ "\n"

/-- The status of a start whose interpreter cannot be loaded. -/
def loadStatus : Int := 2

/-- The program of the command line, if it holds one; an empty one is none. -/
def program? (o : Options) : Option String := given? o.command

/-- The status with which the program of the command line ends. -/
def runProgram (source : String) : Work Value := return .int (← Host.runProgram source).code

/-- The prompt, which always ends well. -/
def runPrompt (keys : List Prompt.Keys) : Work Value := do
  Prompt.runFrom Prompt.hostRunner [] keys
  return .int 0

/-- The prompt when the user interrupts it before its first line. -/
def leavePrompt : Work Value := do
  Prompt.writeText ""
  return .int 0

def homeless : Complaint := ⟨.runtime, [.text "Could not determine home directory."]⟩

/-- The file that keeps the entries of the prompt. -/
def historyFile (home : String) (o : Options) : Except Complaint Path :=
  match o.history with
  | .blank => .error blankHistory
  | .value path =>
    match path.expandHome home with
    | some path => .ok path
    | none => .error homeless

/-- The program of the command line is run, if it holds one, else the prompt. -/
def mode (home : String) (o : Options) : Except Complaint Mode :=
  match program? o with
  | some source => .ok (.program source)
  | none => (historyFile home o).map .prompt

/-- What is run, with what the user types at the prompt, unless he interrupts it before its first
    line. -/
def code (typed : Option (List Prompt.Keys)) : Mode → Work Value
  | .program source => runProgram source
  | .prompt _ => (typed.map runPrompt).getD leavePrompt

end Launch

/-- Nothing is run unless a bridge is ready. -/
def Start.conduct (home : String) : Start → Conduct
  | .halted h => .leaves h.code
  | .unloadable .. => .leaves Launch.loadStatus
  | .broken why => .fails why
  | .ready b o =>
    match Launch.mode home o with
    | .ok m => .runs b m
    | .error why => .fails why

end SteppedLogo
