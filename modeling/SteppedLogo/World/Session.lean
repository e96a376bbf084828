import SteppedLogo.World.Gate

namespace SteppedLogo

def defaultInterval : Float := 0.1

namespace World

def sessionLogger : String := "logodbg.session"

def info (w : World) (message : String) : World := w.addLog .info sessionLogger message

def modifyRun (w : World) (id : RunId) (change : Run → Run) : World :=
  { w with session := w.session.modifyRun id change }

def runOf (w : World) (id : RunId) : Run := w.session.runs[id]?.getD {}

def stillActive (r : Run) : Complaint :=
  ⟨.busy, [.text ("run " ++ toString r.number ++ " is still " ++ r.status.name)]⟩

/-- Begins a run of `source`, whose job runs `program`; refused while another run is active. -/
def start (program : Work Value) (source : String) (w : World) :
    Except FaultId FutureId × World :=
  let current := w.session.run
  if current.status.isActive then w.complain (stillActive current)
  else
    let number := w.session.nextNumber
    let id := w.session.runs.size
    let w := { w with session :=
      { w.session with
        runs := w.session.runs.push { status := .running, number, source }
        nextNumber := number + 1 } }
    let w := w.resetGate
    let w := w.info
      ("run " ++ toString number ++ " started (" ++ toString source.length ++ " chars)")
    let (future, w) := w.addJob program (some id)
    (.ok future, w)

/-- Asks the current run to stop: its pending step is rejected, or else its next one. -/
def cancelRun (w : World) (reason : Value) : World :=
  let id := w.session.current
  let run := w.session.run
  if run.status = .running then
    let w := w.modifyRun id ({ · with status := .canceling, reason })
    let (pending, w) := w.cancelGate reason
    w.info ("run " ++ toString run.number ++
      (if pending then " canceled during step: " else " cancel deferred to next step: ") ++
      reason.display)
  else w

/-- Starts the pacing of a step of the run `id`. In a run that is to stop, the step is rejected
    before anyone can wait for it. -/
def installFor (id : RunId) (w : World) : Step × World :=
  let (step, w) := w.installStep
  let w := w.modifyRun id ({ · with steps := step.seq })
  let run := w.runOf id
  if run.status = .canceling then (step, (w.cancelStep step.id run.reason).2) else (step, w)

/-- The call boundary of the current run. -/
def hook (notify : Notify) (call : Call) (w : World) :
    Except FaultId Step × World :=
  let id := w.session.current
  let call := if w.session.traceOn then call else { call with body := .none }
  match w.announceStep notify call with
  | (.error fault, w) => (.error fault, w)
  | (.ok (), w) =>
    let (step, w) := w.installFor id
    (.ok step, w)

/-- Ends a run: nothing of its program stays at the gate or in the renderer. -/
def finish (w : World) (id : RunId) (status : Status) (error : Option FaultId) : World :=
  let run := w.runOf id
  let reason := if run.reason.truthy then run.reason else .text "session finished"
  let (_, w) := w.cancelGate reason
  let w := w.modifyTrace Trace.release
  let w := w.modifyRun id ({ · with status, error })
  let after := " after " ++ toString (w.runOf id).steps ++ " steps"
  let label := "run " ++ toString run.number
  match error with
  | none => w.info (label ++ " completed" ++ after)
  | some fault =>
    if w.faults.kindOf fault = .cancellation then
      w.info (label ++ " canceled" ++ after ++ ": " ++ (w.faults.reasonOf fault).display)
    else w.info (label ++ " failed" ++ after ++ ": " ++ w.faults.messageOf fault)

/-- Ends a run as its program ended, and gives what its job ends with: a deliberate stop that is
    behind the fault, or else the failure of the program. Cancellation of the job passes. What else
    is no error passes too, and leaves the run as it is. -/
def conclude (w : World) (id : RunId) : Option FaultId → Except FaultId Unit × World
  | none =>
    let run := w.runOf id
    let w :=
      if run.status = .canceling then
        w.info ("run " ++ toString run.number ++ " finished before its cancellation took effect")
      else w
    (.ok (), w.finish id .completed none)
  | some fault =>
    if w.faults.kindOf fault = .taskCancelled then
      (.error fault, w.finish id .failed (some fault))
    else if !(w.faults.kindOf fault).isError then (.error fault, w)
    else match w.faults.findCancellation fault with
      | some stop =>
        let w := w.finish id .failed (some stop)
        if stop = fault then (.error fault, w)
        else
          (.error stop, { w with faults := (w.faults.setCause stop (some fault)).raiseWhile fault stop })
      | none =>
        let w := w.finish id .failed (some fault)
        let inner := (w.faults.get? fault).getD { kind := .general }
        let (failure, w) := w.raise (.ofProgram fault inner)
        (.error failure,
          { w with faults :=
            (w.faults.setCause failure (some fault)).setContext failure (some fault) })

/-- Ends the run that a job was the job of, if there is one, and gives what the job ends with. -/
def endRun (w : World) (run : Option RunId) (result : Except FaultId Value) :
    Except FaultId Value × World :=
  match run with
  | none => (result, w)
  | some id =>
    let fault := match result with
      | .ok _ => none
      | .error fault => some fault
    let (ended, w) := w.conclude id fault
    (ended.map fun _ => .none, w)

def negativeInterval : Complaint :=
  ⟨.value, [.text "pacing interval must not be negative"]⟩

/-- What is no number is not compared with one. -/
def notComparable (typeName : String) : Complaint :=
  ⟨.type, [.text ("'<' not supported between instances of '" ++ typeName ++ "' and 'int'")]⟩

def setInterval (w : World) (seconds : Float) : World :=
  w.modifyGate ({ · with interval := seconds })

/-- Sets the pacing interval, which must not be negative. -/
def setPacing (w : World) (seconds : Float) : Except FaultId Unit × World :=
  if seconds < 0.0 then w.complain negativeInterval else (.ok (), w.setInterval seconds)

def setTrace (w : World) (on : Bool) : World :=
  { w with session := { w.session with traceOn := on } }

/-- An interrupt of the user cancels the run if one is handled at the moment. -/
def deliverInterrupt (w : World) : Bool × World :=
  match w.interrupt with
  | some reason => (true, w.cancelRun reason)
  | none => (false, w)

def noSignals : Complaint := ⟨.unsupported, [.text "no signals here"]⟩

def checkInterval (seconds : Float) : Except Complaint Float :=
  if seconds < 0.0 then .error negativeInterval else .ok seconds

/-- A bridge with a gate of its own. -/
def openGate (seconds : Float) : Except Complaint World := do
  let interval ← checkInterval seconds
  return { gate := { interval } }

/-- A bridge with a session, whose gate shows the trace in the host's view unless it is to keep
    a view of its own. -/
def openSession (seconds : Float) (traceOn ownView : Bool) : Except Complaint World := do
  let w ← openGate seconds
  return { w with
    session := { w.session with traceOn }
    hostView := if ownView then some {} else none }

end World

end SteppedLogo
