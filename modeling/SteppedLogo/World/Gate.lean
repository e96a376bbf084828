import SteppedLogo.World.Basic
import SteppedLogo.Value.Access

namespace SteppedLogo

/-- The name of what is called: a text itself, the name of a procedure, else the value's text. -/
def callName : Value → String
  | .none => ""
  | .text s _ => s
  | .procedure id name =>
    if name = "" then (Value.procedure id name).source else name
  | v => v.source

namespace World

def pacedStep? (w : World) (id : StepId) : Option PacedStep := w.gate.steps[id]?

def modifyGate (w : World) (change : Gate → Gate) : World := { w with gate := change w.gate }

def clearTimer (w : World) (id : StepId) : World :=
  w.modifyGate fun g => { g with steps := g.steps.modify id ({ · with timer := none }) }

/-- Stops the timer of a step, and takes the step off the gate if it is the pending one. -/
def retract (w : World) (id : StepId) : World :=
  let w := match (w.pacedStep? id).bind PacedStep.timer with
    | some timer => (w.cancelTimer timer).clearTimer id
    | none => w
  if w.gate.pending = some id then w.modifyGate ({ · with pending := none }) else w

def gateLogger : String := "logodbg.gate"

/-- Rejects a step that is still waiting, and says whether it was. -/
def cancelStep (w : World) (id : StepId) (reason : Value) : Bool × World :=
  match w.pacedStep? id with
  | none => (false, w)
  | some step =>
    if w.isDone step.future then (false, w)
    else
      let w := w.retract id
      let (fault, w) := w.raise (.cancellation reason)
      let w := w.settle step.future (.fault fault)
      (true, w.addLog .debug gateLogger
        ("step " ++ toString step.seq ++ " canceled: " ++ reason.display))

/-- Cancels the pending step, if there is one. -/
def cancelGate (w : World) (reason : Value) : Bool × World :=
  match w.gate.pending with
  | none => (false, w)
  | some id => w.cancelStep id reason

/-- The pacing of a step is over. -/
def elapse (w : World) (id : StepId) : World :=
  match w.pacedStep? id with
  | none => w
  | some step =>
    if w.isDone step.future then w
    else (w.retract id).settle step.future (.value .none)

/-- The trace follows a call that has a position. -/
def showCall (w : World) (call : Call) : World :=
  match call.body, call.cell with
  | .none, _ | _, .none => w
  | body, cell =>
    let rebuilt := !body.same w.trace.renderer.body
    let (trace, _, fresh) := w.trace.update w.fresh body cell
    let w := { w with trace, fresh }
    if rebuilt then
      w.addLog .debug "logodbg.trace"
        ("trace view rebuilt with " ++ toString trace.renderer.size ++ " nodes")
    else w

/-- Sets up a new step with its timer, and makes it the pending one. -/
def installStep (w : World) : Step × World :=
  let id := w.gate.steps.size
  let (future, w) := w.addFuture {}
  let (timer, w) := w.later w.gate.interval (.elapse id)
  let w := w.whenDone future (.retract id)
  let seq := w.gate.seq
  let w := w.modifyGate fun g =>
    { g with steps := g.steps.push { seq, future, timer := some timer }, pending := some id }
  (⟨id, seq, future⟩, w.addLog .debug gateLogger
    ("step " ++ toString seq ++ " waiting " ++ Decimal.fixedText 3 w.gate.interval ++ "s"))

def stillPending (seq : Nat) : Complaint :=
  ⟨.stepPending, [.text ("step " ++ toString seq ++ " is still pending")]⟩

/-- Tells the listeners of a step. What a listener raises that is no error stops it. -/
abbrev Notify := StepEvent → World → Except FaultId Unit × World

/-- Announces a step: counts it, shows it and tells the listeners. -/
def announceStep (notify : Notify) (call : Call) (w : World) :
    Except FaultId Unit × World :=
  match w.gate.pending with
  | some id => w.complain (stillPending (((w.pacedStep? id).map PacedStep.seq).getD 0))
  | none =>
    let w := w.modifyGate fun g => { g with seq := g.seq + 1 }
    let w := w.showCall call
    match call.args.items with
    | .error c => w.complain c
    | .ok args => notify ⟨w.gate.seq, callName call.func, args, call.cell⟩ w

/-- Takes a step: announces it, and starts its pacing. -/
def takeStep (notify : Notify) (call : Call) (w : World) :
    Except FaultId Step × World :=
  match w.announceStep notify call with
  | (.error fault, w) => (.error fault, w)
  | (.ok (), w) =>
    let (step, w) := w.installStep
    (.ok step, w)

def resetGate (w : World) : World := w.modifyGate ({ · with seq := 0 })

def addListener (w : World) (name : String) : World :=
  w.modifyGate fun g => { g with listeners := g.listeners ++ [name] }

/-- Removes the earliest registration of a listener. -/
def removeListener (w : World) (name : String) : World :=
  w.modifyGate fun g => { g with listeners := g.listeners.erase name }

end World

end SteppedLogo
