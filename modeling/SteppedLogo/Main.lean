import SteppedLogo.Console.Style
import SteppedLogo.Interpreter.Builtin
import SteppedLogo.Launch

namespace SteppedLogo.Main

/-- What the running program writes with. -/
structure Terminal where
  console : Console
  output : IO.FS.Stream
  errors : IO.FS.Stream
  threshold : Int

/-- The rank of a level among the thresholds of the log. -/
def rank : Level → Int
  | .debug => 10
  | .info => 20
  | .warning => 30
  | .error => 40

def thresholdOf (level : LogLevel) : Int := (level.check.toOption.getD 30 : Nat)

/-- The time since the machine was started, in seconds and thousandths. -/
def timeText : IO String := do
  let passed ← IO.monoMsNow
  let rest := toString (passed % 1000)
  return toString (passed / 1000) ++ "," ++ "".pushn '0' (3 - rest.length) ++ rest

def Terminal.print (t : Terminal) (r : Record) : IO Unit := do
  match t.console.print r with
  | .plain s => t.output.putStr s
  | .styled fragments =>
    for (classes, text) in fragments do
      t.output.putStr ((Style.ofClasses classes).paint text)
    t.output.putStr "\n"
  t.output.flush

def Terminal.log (t : Terminal) (r : LogRecord) : IO Unit := do
  if t.threshold ≤ rank r.level then
    t.errors.putStrLn (LogLevel.line (← timeText) r.level.name r.logger r.message)
    if let some fault := r.fault then t.errors.putStrLn fault

/-- Writes what a bridge has recorded, and empties its records. -/
def Terminal.drain (t : Terminal) (w : World) : IO World := do
  for r in w.log do t.log r
  for r in w.output.records do t.print r
  return { w with log := #[], output := { w.output with records := #[] } }

/-- Runs a bridge until a future is settled, waiting in real time for its timers. -/
partial def drive (t : Terminal) (env : Env) (future : FutureId) (w : World) : IO World := do
  let w ← t.drain w
  if w.isDone future then return w
  else match w.tick? env with
    | some w => drive t env future w
    | none =>
      match w.loop.earliest? with
      | none => return w
      | some due =>
        IO.sleep ((due - w.loop.clock) * 1000.0).toUInt32
        drive t env future (w.setClock due)

/-- Runs code as a job, and gives what it ends with. -/
def run (t : Terminal) (env : Env) (code : Work Value) (w : World) : IO (Value × World) := do
  let (future, w) := w.addJob code
  let w ← drive t env future w
  match w.outcome? future with
  | some (.value v) => return (v, w)
  | some (.fault id) => throw (IO.userError (w.faults.summaryOf id))
  | _ => return (.none, w)

def statusOf : Value → UInt32
  | .int n _ => n.toNat.toUInt32
  | _ => 0

/-- Reads a line behind the prompt's message. -/
def readKeys (t : Terminal) : IO Prompt.Keys := do
  t.output.putStr Prompt.message
  t.output.flush
  let line ← (← IO.getStdin).getLine
  if line.isEmpty then return .endOfInput
  else return .line (if line.endsWith "\n" then (line.dropEnd 1).toString else line)

/-- Keeps a line in the history. -/
def remember (history : Path) : Prompt.Keys → IO Unit
  | .line line => do
    let file ← IO.FS.Handle.mk history.text .append
    file.putStrLn line
  | _ => pure ()

/-- Prompts for lines until there is to be none. -/
partial def prompt (t : Terminal) (env : Env) (history : Path) (waiting : List String)
    (w : World) : IO Unit := do
  let keys ← readKeys t
  remember history keys
  let turn : Work Value := do
    match ← Prompt.turn Prompt.hostRunner waiting keys with
    | some parts => return .sequence 0 (parts.map fun part => .text part)
    | none => return .none
  match ← run t env turn w with
  | (.sequence _ parts, w) => prompt t env history (parts.map Value.display) w
  | _ => pure ()

def serve (t : Terminal) (b : Bridge) : Mode → IO UInt32
  | .program source => return statusOf (← run t b.env (Launch.runProgram source) b.world).1
  | .prompt history => do
    IO.FS.createDirAll history.parent.text
    prompt t b.env history [] b.world
    return 0

def start (argv : List String) : IO UInt32 := do
  let output ← IO.getStdout
  let errors ← IO.getStderr
  let home := (← IO.getEnv "HOME").getD "/"
  let launch := Launch.ofArguments .builtin
    { interpreter := ← IO.getEnv "LOGO_DBG_INTERPRETER"
      interval := ← IO.getEnv "LOGO_DBG_INTERVAL"
      logLevel := ← IO.getEnv "LOGO_DBG_LOG"
      home } false argv
  let json := match launch.start with
    | .ready _ o => o.json
    | _ => false
  let t : Terminal :=
    { console := .ofTerminal json none (← output.isTty), output, errors
      threshold := (launch.level.map thresholdOf).getD 30 }
  for r in launch.log do t.log r
  match launch.start with
  | .halted h =>
    output.putStr h.output
    errors.putStr h.errors
  | .unloadable target why => errors.putStr (Launch.loadError target why)
  | .broken _ | .ready .. => pure ()
  match launch.start.conduct home with
  | .leaves status => return statusOf (.int status)
  | .fails why => throw (IO.userError (Fault.ofComplaint why).summary)
  | .runs b m => serve t b m

end SteppedLogo.Main

def main (argv : List String) : IO UInt32 := SteppedLogo.Main.start argv
