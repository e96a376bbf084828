import SteppedLogo.Program.Code
import SteppedLogo.Trace.Renderer

namespace SteppedLogo

abbrev JobId := Nat

/-- How a future was settled. -/
inductive Outcome
  | value (v : Value)
  | fault (id : FaultId)
  | cancelled

inductive Callback
  /-- takes up a job that has not begun, or has let the loop go round -/
  | run (job : JobId)
  /-- takes up a job whose future is settled -/
  | wake (job : JobId)
  /-- ends the pacing of a step -/
  | elapse (step : StepId)
  /-- removes a settled step from the gate -/
  | retract (step : StepId)
  /-- ends a nap -/
  | rouse (future : FutureId)
  | deed (d : Deed)

/-- A future, with the callbacks that are queued once it is settled. The future of a job names
    it, for to cancel it is to cancel the job. -/
structure Future where
  outcome : Option Outcome := none
  callbacks : List Callback := []
  job : Option JobId := none

/-- A routine under way: how it goes on, and the future that it waits for. The job of a run ends
    that run with it, once it has `begun`. -/
structure Job where
  future : FutureId
  resume : Except FaultId Value → Routine (Except FaultId Value)
  waiting : Option FutureId := none
  cancelRequested : Bool := false
  begun : Bool := false
  run : Option RunId := none

/-- A paced call boundary. -/
structure PacedStep where
  seq : Nat
  future : FutureId
  timer : Option TimerId

/-- The gate paces steps; at most one is meant to be pending. -/
structure Gate where
  interval : Float := 0.1
  pending : Option StepId := none
  seq : Nat := 0
  listeners : List String := []
  steps : Array PacedStep := #[]

inductive Status
  | idle | running | canceling | completed | failed
  deriving DecidableEq, Repr

namespace Status

def name : Status → String
  | idle => "idle"
  | running => "running"
  | canceling => "canceling"
  | completed => "completed"
  | failed => "failed"

def isActive : Status → Bool
  | running | canceling => true
  | idle | completed | failed => false

def all : List Status := [idle, running, canceling, completed, failed]

def ofName? (s : String) : Option Status := all.find? (·.name == s)

def unknown (s : String) : Complaint :=
  ⟨.value, [.text (Text.quoted s ++ " is not a valid SessionStatus")]⟩

end Status

/-- One run of a program, from its start to its end. -/
structure Run where
  status : Status := .idle
  number : Nat := 0
  source : String := ""
  steps : Nat := 0
  reason : Value := .none
  error : Option FaultId := none

/-- All runs of a session, the current one last; before the first there is an idle one. -/
structure Session where
  runs : Array Run := #[{}]
  nextNumber : Nat := 1
  traceOn : Bool := true

namespace Session

def current (s : Session) : RunId := s.runs.size - 1

def run (s : Session) : Run := s.runs.back?.getD {}

def isActive (s : Session) : Bool := s.run.status.isActive

def modifyRun (s : Session) (id : RunId) (change : Run → Run) : Session :=
  { s with runs := s.runs.modify id change }

end Session

structure LogRecord where
  level : Level
  logger : String
  message : String
  fault : Option String := none

/-- A record on a line of its own. -/
def LogRecord.text (r : LogRecord) : String :=
  r.level.name ++ " " ++ r.logger ++ ": " ++ r.message

/-- Where printed lines go. The sink may refuse any of its calls, which are counted. -/
structure Output where
  accepts : Nat → Bool := fun _ => true
  calls : Nat := 0
  records : Array Record := #[]

namespace Output

def lines (o : Output) : List (String × String) := Record.lines o.records.toList

/-- The texts of all lines of a category. -/
def texts (o : Output) (category : String) : List String :=
  (o.lines.filter (·.1 == category)).map Prod.snd

end Output

/-- What surrounds a bridge and never changes: the programs that an interpreter makes of source
    texts, the listeners, and whether interrupts of the user can be handled. -/
structure Env where
  program : String → Work Value
  react : String → StepEvent → Reaction
  signals : Bool := true

structure World where
  fresh : Identity := 0
  loop : Loop Callback := {}
  futures : Array Future := #[]
  jobs : Array Job := #[]
  faults : Faults := {}
  trace : Trace := {}
  gate : Gate := {}
  session : Session := {}
  turtle : Turtle := {}
  output : Output := {}
  /-- the host's own view, where the gate does not show its trace in it -/
  hostView : Option DebugView := none
  /-- the reason for which an interrupt cancels the run, while one is handled -/
  interrupt : Option Value := none
  log : Array LogRecord := #[]
  events : Array Event := #[]
  calls : Array (String × List Value) := #[]
  tracked : Array FutureId := #[]
  spent : List (String × Nat) := []
  lastStatus : Int := 0
  /-- futures that something tried to settle though they were settled -/
  resettled : Array FutureId := #[]

namespace World

def addLog (w : World) (level : Level) (logger message : String) (fault : Option String := none) :
    World :=
  { w with log := w.log.push { level, logger, message, fault } }

def logFault (w : World) (logger message : String) (id : FaultId) : World :=
  w.addLog .error logger message (some (w.faults.summaryOf id))

def addEvent (w : World) (e : Event) : World := { w with events := w.events.push e }

/-- Raises a new fault. -/
def raise (w : World) (f : Fault) : FaultId × World :=
  let (id, faults) := w.faults.add f
  (id, { w with faults })

def complain {α : Type} (w : World) (c : Complaint) : Except FaultId α × World :=
  let (id, w) := w.raise (.ofComplaint c)
  (.error id, w)

/-- Raises a fault as described. -/
def raiseSpec (w : World) (spec : FaultSpec) : FaultId × World :=
  let (id, faults) := spec.raise w.faults
  (id, { w with faults })

def soon (w : World) (c : Callback) : World := { w with loop := w.loop.soon c }

def later (w : World) (delay : Float) (c : Callback) : TimerId × World :=
  let (id, loop) := w.loop.later delay c
  (id, { w with loop })

def cancelTimer (w : World) (id : TimerId) : World := { w with loop := w.loop.cancel id }

def addFuture (w : World) (f : Future) : FutureId × World :=
  (w.futures.size, { w with futures := w.futures.push f })

def outcome? (w : World) (id : FutureId) : Option Outcome := w.futures[id]?.bind Future.outcome

def isDone (w : World) (id : FutureId) : Bool := (w.outcome? id).isSome

/-- Settles a future and queues its callbacks. One that is settled stays as it is, and the vain
    attempt is kept in the record. -/
def settle (w : World) (id : FutureId) (o : Outcome) : World :=
  match w.futures[id]? with
  | none => w
  | some f =>
    if f.outcome.isSome then { w with resettled := w.resettled.push id }
    else
      f.callbacks.foldl soon
        { w with futures := w.futures.modify id fun f => { f with outcome := some o, callbacks := [] } }

/-- Has a callback queued once a future is settled. -/
def whenDone (w : World) (id : FutureId) (c : Callback) : World :=
  if w.isDone id then w.soon c
  else { w with futures := w.futures.modify id fun f => { f with callbacks := f.callbacks ++ [c] } }

def modifyJob (w : World) (id : JobId) (change : Job → Job) : World :=
  { w with jobs := w.jobs.modify id change }

/-- Cancels a future that is not settled. To cancel the future of a job is to cancel what the job
    waits for, or, where that is not possible, to have the job cancelled when it goes on. -/
def cancelWithin : (fuel : Nat) → FutureId → World → Bool × World
  | 0, _, w => (false, w)
  | fuel + 1, id, w =>
    match w.futures[id]? with
    | none => (false, w)
    | some f =>
      if f.outcome.isSome then (false, w)
      else match f.job with
        | none => (true, w.settle id .cancelled)
        | some job =>
          match (w.jobs[job]?).bind Job.waiting with
          | none => (true, w.modifyJob job ({ · with cancelRequested := true }))
          | some awaited =>
            let (ok, w) := cancelWithin fuel awaited w
            (true, if ok then w else w.modifyJob job ({ · with cancelRequested := true }))

/-- A job waits for another one that is older, so that the chain is no longer than the list. -/
def cancelFuture (w : World) (id : FutureId) : Bool × World :=
  cancelWithin (w.jobs.size + 1) id w

/-- A new job, whose first turn is queued; it may be the job of a run. -/
def addJob (w : World) (code : Work Value) (run : Option RunId := none) : FutureId × World :=
  let job := w.jobs.size
  let (future, w) := w.addFuture { job := some job }
  let resume : Except FaultId Value → Routine (Except FaultId Value) := fun _ => code.run
  (future, { w with jobs := w.jobs.push { future, resume, run } }.soon (.run job))

def modifyTrace (w : World) (change : Trace → Trace) : World := { w with trace := change w.trace }

/-- The view that the host shows. -/
def shownView (w : World) : DebugView := w.hostView.getD w.trace.view

def modifyShownView (w : World) (change : DebugView → DebugView) : World :=
  match w.hostView with
  | some view => { w with hostView := some (change view) }
  | none => { w with trace := { w.trace with view := change w.trace.view } }

/-- Prints a line; a sink that refuses it is reported, and nothing else comes of that. -/
def print (w : World) (category text : String) : World :=
  let accepted := w.output.accepts w.output.calls
  let w := { w with output := { w.output with calls := w.output.calls + 1 } }
  if accepted then
    { w with output := { w.output with records := w.output.records.push (.line category text) } }
  else
    w.addLog .error "logodbg.context" ("output sink failed for " ++ category ++ " line")
      (some "OSError: sink is closed")

def write (w : World) (r : Record) : World :=
  { w with output := { w.output with records := w.output.records.push r } }

end World

end SteppedLogo
