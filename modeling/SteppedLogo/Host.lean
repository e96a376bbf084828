import SteppedLogo.Program.Code

namespace SteppedLogo

/-- How a hosted program ended. -/
inductive Exit
  | ok
  | error
  | canceled
  deriving DecidableEq

def Exit.code : Exit → Int
  | ok => 0
  | error => 1
  | canceled => 130

/-- The reason for which an interrupt of the user cancels a run. -/
def stopReason : String := "stopped by user"

namespace Host

def logger : String := "logo_dbg.host"

/-- Has interrupts cancel the run, if they can be handled. -/
def hookInterrupt : Routine Bool := do
  let hooked : Except FaultId Unit ← Routine.perform (.hookInterrupt (.text stopReason))
  match hooked with
  | .ok () => return true
  | .error id =>
    let fault ← Routine.perform (.describe id)
    Routine.perform
      (.log .debug logger ("SIGINT handler unavailable: " ++ Fault.message fault) none)
    return false

/-- What is reported of a run that failed; cancellation of the host's own job is no report. -/
def report (id : FaultId) : Routine (Except FaultId Exit) := do
  let fault ← Routine.perform (.describe id)
  match Fault.kind fault, Fault.inner fault with
  | .cancellation, _ => do
    Routine.perform (.print "error" ("canceled: " ++ (Fault.reason fault).display))
    return .ok .canceled
  | .program, some inner => do
    let cause ← Routine.perform (.describe inner)
    Routine.perform (.log .debug logger "program failed" (some inner))
    Routine.perform (.print "error" (Fault.message cause))
    return .ok .error
  | _, _ => return .error id

/-- Echoes, runs and reports a program. -/
def runProgram (source : String) : Work Exit := ExceptT.mk do
  Routine.perform (.print "input" source)
  let started : Except FaultId FutureId ← Routine.perform (.start source)
  match started with
  | .error id => do
    let fault ← Routine.perform (.describe id)
    Routine.perform (.print "error" (Fault.message fault))
    return .ok .error
  | .ok future => do
    let hooked ← hookInterrupt
    let received ← Routine.wait future
    let exit ← match received with
      | .ok _ => pure (.ok .ok)
      | .error id => report id
    if hooked then Routine.perform .unhookInterrupt
    return exit

/-- Runs a program without reporting it. -/
def runSource (source : String) : Work Value := do
  let future ← Work.attempt (Routine.perform (.start source))
  Work.wait future

end Host

end SteppedLogo
