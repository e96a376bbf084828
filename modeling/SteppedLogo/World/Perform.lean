import SteppedLogo.World.Primitive
import SteppedLogo.World.Session

namespace SteppedLogo

namespace Code

variable {α : Type}

/-- Runs code to its end; `perform` answers its operations. -/
def run (perform : (o : Op) → World → o.Reply × World) : Code α → World → α × World
  | done a, w => (a, w)
  | op o k, w =>
    let (reply, w) := perform o w
    (k reply).run perform w

end Code

namespace World

def pendingSeq? (w : World) : Option Nat :=
  (w.gate.pending.bind w.pacedStep?).map PacedStep.seq

def stateEvent (w : World) : Event :=
  let run := w.session.run
  .state run.status.name run.status.isActive run.steps w.pendingSeq?

def activeLabel (w : World) : Option String :=
  (w.trace.renderer.active.bind w.trace.renderer.node?).map ViewNode.label

/-- Cancels one of the tracked jobs, the last one where none is named, and says whether it could
    still be cancelled. -/
def cancelTracked (w : World) (index : Option Nat) : Bool × World :=
  match w.tracked[index.getD (w.tracked.size - 1)]? with
  | some future => w.cancelFuture future
  | none => (false, w)

/-- What a word does, control words included. -/
def invoke (env : Env) (h : Handler) (args : List Value) (w : World) :
    Except FaultId Value × World :=
  match h, args with
  | .primitive p, args => w.callPrimitive p args
  | .halt, [reason] => (.ok .none, w.cancelRun reason)
  | .brk, [reason] => (.ok .none, w.cancelRun reason)
  | .fail, [v] => w.complain ⟨.runtime, [v]⟩
  | .again, [v] =>
    match w.start (env.program v.display) v.display with
    | (.ok _, w) => (.ok .none, w)
    | (.error fault, w) => (.error fault, w)
  | .untrace, [] => (.ok .none, w.setTrace false)
  | .retrace, [] => (.ok .none, w.setTrace true)
  | .quiet, [] => w.complain ⟨.value, []⟩
  | h, args => w.complain (h.signature.misfit args)

def newBody (w : World) (words : List String) : LogoList × World :=
  (.ofList w.fresh (words.map fun word => .text word), { w with fresh := w.fresh + words.length })

def nap (w : World) (delay : Float) : (FutureId × TimerId) × World :=
  let (future, w) := w.addFuture {}
  let (timer, w) := w.later delay (.rouse future)
  ((future, timer), w)

/-- Shows the trace on the console, unless tracing is off or the view is empty. -/
def showTrace (w : World) (e : StepEvent) : World :=
  let root := w.shownView.root
  if w.session.traceOn && root.isSome then w.write (.trace (some e.seq) root) else w

/-- Performs an operation; `notify` tells the listeners of a step. -/
def performWith (env : Env) (notify : Notify) :
    (o : Op) → World → o.Reply × World
  | .hook call, w => w.hook notify call
  | .step call, w => w.takeStep notify call
  | .cancelGate reason, w => w.cancelGate reason
  | .cancelStep step reason, w => w.cancelStep step reason
  | .resetGate, w => ((), w.resetGate)
  | .cancelRun reason, w => ((), w.cancelRun reason)
  | .requestBreak reason, w => ((), w.cancelRun reason)
  | .interrupt, w => w.deliverInterrupt
  | .setInterval seconds, w => ((), w.setInterval seconds)
  | .setPacing seconds, w => w.setPacing seconds
  | .setTrace on, w => ((), w.setTrace on)
  | .clearView, w => ((), w.modifyShownView DebugView.clear)
  | .release, w => ((), w.modifyTrace Trace.release)
  | .addListener name, w => ((), w.addListener name)
  | .removeListener name, w => ((), w.removeListener name)
  | .start source, w => w.start (env.program source) source
  | .track future, w => ((), { w with tracked := w.tracked.push future })
  | .cancelTracked index, w => w.cancelTracked index
  | .cancelFuture future, w => w.cancelFuture future
  | .report, w => ((), w.addEvent w.stateEvent)
  | .spend listener act, w =>
    (!w.spent.contains (listener, act), { w with spent := (listener, act) :: w.spent })
  | .defer none deed, w => ((), w.soon (.deed deed))
  | .defer (some delay) deed, w => ((), (w.later delay (.deed deed)).2)
  | .announce listener event, w => ((), w.addEvent (.announced listener event w.activeLabel))
  | .note event, w => ((), w.addEvent event)
  | .newBody words, w => w.newBody words
  | .invoke handler args, w => w.invoke env handler args
  | .recordCall word args, w => ((), { w with calls := w.calls.push (word, args) })
  | .raise spec, w => w.raiseSpec spec
  | .setCause id cause, w => ((), { w with faults := w.faults.setCause id (some cause) })
  | .raiseWhile handled id, w => ((), { w with faults := w.faults.raiseWhile handled id })
  | .describe id, w => ((w.faults.get? id).getD { kind := .general }, w)
  | .nap delay, w => w.nap delay
  | .dropTimer timer, w => ((), w.cancelTimer timer)
  | .isSettled future, w => (w.isDone future, w)
  | .print category text, w => ((), w.print category text)
  | .write record, w => ((), w.write record)
  | .showTrace event, w => ((), w.showTrace event)
  | .log level logger message fault, w =>
    ((), w.addLog level logger message (fault.map w.faults.summaryOf))
  | .hookInterrupt reason, w =>
    if env.signals then (.ok (), { w with interrupt := some reason })
    else w.complain noSignals
  | .unhookInterrupt, w => ((), { w with interrupt := none })
  | .setStatus status, w => ((), { w with lastStatus := status })
  | .pacing, w => (w.gate.interval, w)
  | .turtle, w => (w.turtle, w)

def listenerFailed : String := "step listener failed"

/-- Has each of the listeners react in turn. An error that one raises is reported, and the next one
    is told; anything else that it raises is passed on at once. -/
def tellEach (react : String → World → Except FaultId Unit × World) :
    List String → World → Except FaultId Unit × World
  | [], w => (.ok (), w)
  | name :: rest, w =>
    match react name w with
    | (.ok (), w) => tellEach react rest w
    | (.error fault, w) =>
      if (w.faults.kindOf fault).isError then
        tellEach react rest (w.logFault gateLogger listenerFailed fault)
      else (.error fault, w)

/-- Tells the listeners that are registered now, each in turn. -/
def notifyWith (env : Env) (perform : (o : Op) → World → o.Reply × World) : Notify :=
  fun event w => tellEach (fun name => (env.react name event).run.run perform) w.gate.listeners w

def tooDeep : Complaint := ⟨.recursion, [.text "maximum recursion depth exceeded"]⟩

/-- At the limit of nesting no listener runs: each of them fails. -/
def notifyNone : Notify :=
  fun _ w => tellEach (fun _ w => w.complain tooDeep) w.gate.listeners w

/-- Performs an operation in which steps may nest, listeners taking further steps, up to `depth`
    levels. -/
def performWithin (env : Env) : (depth : Nat) → (o : Op) → World → o.Reply × World
  | 0, o, w => performWith env notifyNone o w
  | depth + 1, o, w => performWith env (notifyWith env (performWithin env depth)) o w

def nesting : Nat := 200

def perform (env : Env) (o : Op) (w : World) : o.Reply × World := performWithin env nesting o w

end World

end SteppedLogo
