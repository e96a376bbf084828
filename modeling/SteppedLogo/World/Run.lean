import SteppedLogo.World.Perform
import SteppedLogo.Listener.Basic

namespace SteppedLogo

/-- Where a routine stops: at its end, waiting for a future, or letting the loop go round. -/
inductive Stop (α : Type) where
  | finished (a : α)
  | parked (future : FutureId) (k : Except FaultId Value → Routine α)
  | paused (k : Except FaultId Value → Routine α)

namespace World

/-- What waiting for a settled future gives. -/
def receive (w : World) : Outcome → Except FaultId Value × World
  | .value v => (.ok v, w)
  | .fault id => (.error id, w)
  | .cancelled =>
    let (id, w) := w.raise { kind := .taskCancelled }
    (.error id, w)

end World

namespace Routine

variable {α : Type}

/-- Runs a routine until it has to wait; a future that is settled already is not waited for. -/
def run (env : Env) : Routine α → World → Stop α × World
  | done a, w => (.finished a, w)
  | op o k, w =>
    let (reply, w) := w.perform env o
    (k reply).run env w
  | await none k, w => (.paused k, w)
  | await (some future) k, w =>
    match w.outcome? future with
    | none => (.parked future k, w)
    | some outcome =>
      let (received, w) := w.receive outcome
      (k received).run env w

end Routine

namespace World

/-- What a job goes on with: a request to cancel it comes before everything but another one. -/
def resumption (w : World) (job : Job) (received : Except FaultId Value) :
    Except FaultId Value × World :=
  if job.cancelRequested then
    match received with
    | .error id =>
      if w.faults.kindOf id = .taskCancelled then (received, w)
      else w.receive .cancelled
    | .ok _ => w.receive .cancelled
  else (received, w)

/-- Has a job wait for a future; a request to cancel the job that came while it ran cancels the
    future at once. -/
def park (w : World) (id : JobId) (future : FutureId)
    (resume : Except FaultId Value → Routine (Except FaultId Value)) : World :=
  let w := w.modifyJob id ({ · with resume, waiting := some future })
  let w := w.whenDone future (.wake id)
  if ((w.jobs[id]?).map Job.cancelRequested).getD false then
    let (cancelled, w) := w.cancelFuture future
    if cancelled then w.modifyJob id ({ · with cancelRequested := false }) else w
  else w

/-- Settles the future of a job that has ended. A request to cancel a job that ends normally
    still cancels it. -/
def endJob (w : World) (id : JobId) (future : FutureId) : Except FaultId Value → World
  | .ok v =>
    if ((w.jobs[id]?).map Job.cancelRequested).getD false then w.settle future .cancelled
    else w.settle future (.value v)
  | .error fault =>
    if w.faults.kindOf fault = .taskCancelled then w.settle future .cancelled
    else w.settle future (.fault fault)

/-- What a job goes on with now that it is taken up, and the state in which it does. It begins
    unless it is to be cancelled. -/
def takeUp (w : World) (id : JobId) (job : Job) (received : Except FaultId Value) :
    Except FaultId Value × World :=
  let (received, w) := w.resumption job received
  let begun := job.begun || received.isOk
  (received, w.modifyJob id ({ · with waiting := none, cancelRequested := false, begun }))

/-- Leaves a job where its routine has stopped. -/
def putDown (w : World) (id : JobId) (job : Job) : Stop (Except FaultId Value) → World
  | .finished result =>
    let (result, w) := w.endRun job.run result
    w.endJob id job.future result
  | .parked future k => w.park id future k
  | .paused k => (w.modifyJob id ({ · with resume := k })).soon (.run id)

/-- Takes up a job with what it has received. One that is cancelled before it has begun ends
    without running any of its code. -/
def resume (env : Env) (w : World) (id : JobId) (received : Except FaultId Value) : World :=
  match w.jobs[id]? with
  | none => w
  | some job =>
    if w.isDone job.future then w
    else
      let (received, w) := w.takeUp id job received
      if job.begun || received.isOk then
        let (stop, w) := (job.resume received).run env w
        w.putDown id job stop
      else w.endJob id job.future received

/-- Takes up a job whose future is settled. -/
def wake (env : Env) (w : World) (id : JobId) : World :=
  match ((w.jobs[id]?).bind Job.waiting).bind w.outcome? with
  | none => w
  | some outcome =>
    let (received, w) := w.receive outcome
    w.resume env id received

/-- Ends a nap, unless it was cancelled. -/
def rouse (w : World) (future : FutureId) : World :=
  match w.outcome? future with
  | some .cancelled => w
  | _ => w.settle future (.value .none)

def runCallback (env : Env) (w : World) : Callback → World
  | .run id => w.resume env id (.ok .none)
  | .wake id => w.wake env id
  | .elapse id => w.elapse id
  | .retract id => w.retract id
  | .rouse future => w.rouse future
  | .deed d => (d.code.run.run (perform env) w).2

/-- Runs the next callback; nothing happens when there is none. -/
def tick? (env : Env) (w : World) : Option World :=
  match w.loop.next? with
  | none => none
  | some (none, loop) => some { w with loop }
  | some (some callback, loop) => some ({ w with loop }.runCallback env callback)

/-- Runs callbacks until none is ready and no timer is due, at most `fuel` of them. -/
def settleAll (env : Env) : (fuel : Nat) → World → World
  | 0, w => w
  | fuel + 1, w =>
    match w.tick? env with
    | none => w
    | some w => settleAll env fuel w

def setClock (w : World) (clock : Float) : World := { w with loop := w.loop.setClock clock }

/-- Moves the clock from one due time to the next, up to `target`, running what is due. -/
def advanceWithin (env : Env) (target : Float) : (fuel : Nat) → World → World
  | 0, w => w
  | fuel + 1, w =>
    let w := w.settleAll env (fuel + 1)
    match w.loop.earliest? with
    | none => w.setClock target
    | some due =>
      if due ≤ target then advanceWithin env target fuel (w.setClock due) else w.setClock target

/-- Lets time pass. -/
def advance (env : Env) (fuel : Nat) (seconds : Float) (w : World) : World :=
  w.advanceWithin env (w.loop.clock + seconds) fuel

/-- Runs the loop until a future is settled, moving the clock to the next timer whenever nothing
    is ready. -/
def driveUntil (env : Env) (future : FutureId) : (fuel : Nat) → World → World
  | 0, w => w
  | fuel + 1, w =>
    if w.isDone future then w
    else match w.tick? env with
      | some w => driveUntil env future fuel w
      | none =>
        match w.loop.earliest? with
        | none => w
        | some due => driveUntil env future fuel (w.setClock due)

/-- Runs code as a job of its own until it ends; how it ended is missing where it waits for what
    never comes. -/
def complete (env : Env) (fuel : Nat) (code : Work Value) (w : World) : Option Outcome × World :=
  let (future, w) := w.addJob code
  let w := w.driveUntil env future fuel
  (w.outcome? future, w)

end World

end SteppedLogo
