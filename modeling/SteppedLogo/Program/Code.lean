import SteppedLogo.Program.Handler
import SteppedLogo.Turtle.Basic
import SteppedLogo.Listener.Deed
import SteppedLogo.Schedule.Loop
import SteppedLogo.Trace.View

namespace SteppedLogo

abbrev FutureId := Nat
abbrev StepId := Nat
abbrev RunId := Nat

/-- One call boundary: what is called with which arguments, and where the program stands. -/
structure Call where
  func : Value
  args : Value := .sequence 0 []
  body : Value := .none
  cell : Value := .none

/-- A step in progress, and the future that it settles. -/
structure Step where
  id : StepId
  seq : Nat
  future : FutureId

/-- What a host writes to its console. -/
inductive Record
  | line (category text : String)
  | trace (seq : Option Nat) (root : Option ViewNode)
  | text (s : String)
  | prompt

/-- The lines among records. -/
def Record.lines (rs : List Record) : List (String × String) :=
  rs.filterMap fun
    | .line category s => some (category, s)
    | _ => none

/-- Cuts records at the prompts between them. -/
def Record.betweenPrompts : List Record → List (List Record)
  | [] => [[]]
  | .prompt :: rest => [] :: betweenPrompts rest
  | r :: rest =>
    match betweenPrompts rest with
    | [] => [[r]]
    | first :: others => (r :: first) :: others

inductive Level
  | debug | info | warning | error
  deriving DecidableEq

def Level.name : Level → String
  | debug => "DEBUG"
  | info => "INFO"
  | warning => "WARNING"
  | error => "ERROR"

/-- What running code may ask of the bridge. -/
inductive Op
  /-- makes a call boundary of the current run -/
  | hook (call : Call)
  /-- takes a step at the gate -/
  | step (call : Call)
  | cancelGate (reason : Value)
  /-- rejects a step, whichever it is -/
  | cancelStep (step : StepId) (reason : Value)
  /-- counts the steps from the beginning -/
  | resetGate
  | cancelRun (reason : Value)
  | requestBreak (reason : Value)
  /-- delivers an interrupt of the user -/
  | interrupt
  /-- sets the pacing interval, unchecked -/
  | setInterval (seconds : Float)
  /-- sets the pacing interval of the session, which must not be negative -/
  | setPacing (seconds : Float)
  | setTrace (on : Bool)
  | clearView
  | release
  | addListener (name : String)
  | removeListener (name : String)
  | start (source : String)
  /-- keeps a task for later reference -/
  | track (task : FutureId)
  | cancelTracked (index : Option Nat)
  /-- cancels a task, or what else a future stands for -/
  | cancelFuture (future : FutureId)
  | report
  /-- asks whether an act of a listener is done for the first time -/
  | spend (listener : String) (act : Nat)
  | defer (delay : Option Float) (deed : Deed)
  | announce (listener : String) (event : StepEvent)
  | note (event : Event)
  /-- a new list of words -/
  | newBody (words : List String)
  | invoke (handler : Handler) (args : List Value)
  | recordCall (word : String) (args : List Value)
  | raise (spec : FaultSpec)
  | setCause (id : FaultId) (cause : FaultId)
  /-- notes that a fault was raised while another one was being handled -/
  | raiseWhile (handled id : FaultId)
  | describe (id : FaultId)
  /-- a future that is settled after a delay, with its timer -/
  | nap (delay : Float)
  | dropTimer (timer : TimerId)
  | isSettled (future : FutureId)
  | print (category text : String)
  | write (record : Record)
  | showTrace (event : StepEvent)
  | log (level : Level) (logger message : String) (fault : Option FaultId)
  | hookInterrupt (reason : Value)
  | unhookInterrupt
  /-- remembers the status of the program that ended last -/
  | setStatus (status : Int)
  | pacing
  | turtle

/-- What the bridge answers. -/
def Op.Reply : Op → Type
  | hook _ | step _ => Except FaultId Step
  | cancelGate _ | cancelStep .. | interrupt | cancelTracked _ | cancelFuture _ | isSettled _ => Bool
  | setPacing _ => Except FaultId Unit
  | start _ => Except FaultId FutureId
  | spend .. => Bool
  | newBody _ => LogoList
  | invoke .. => Except FaultId Value
  | raise _ => FaultId
  | describe _ => Fault
  | nap _ => FutureId × TimerId
  | hookInterrupt _ => Except FaultId Unit
  | pacing => Float
  | turtle => Turtle
  | _ => Unit

/-- Code that runs to its end without waiting. -/
inductive Code (α : Type) : Type
  | done (a : α)
  | op (o : Op) (k : o.Reply → Code α)

/-- Code that may wait for a future, or let the loop go round once when it names none. -/
inductive Routine (α : Type) : Type
  | done (a : α)
  | op (o : Op) (k : o.Reply → Routine α)
  | await (future : Option FutureId) (k : Except FaultId Value → Routine α)

namespace Code

variable {α β : Type}

def bind : Code α → (α → Code β) → Code β
  | done a, f => f a
  | op o k, f => op o fun r => (k r).bind f

instance : Monad Code where
  pure := done
  bind := bind

def perform (o : Op) : Code o.Reply := op o done

def toRoutine : Code α → Routine α
  | done a => .done a
  | op o k => .op o fun r => (k r).toRoutine

end Code

namespace Routine

variable {α β : Type}

def bind : Routine α → (α → Routine β) → Routine β
  | done a, f => f a
  | op o k, f => op o fun r => (k r).bind f
  | await w k, f => await w fun r => (k r).bind f

instance : Monad Routine where
  pure := done
  bind := bind

def perform (o : Op) : Routine o.Reply := op o done

/-- Waits for a future and gives what it was settled with. -/
def wait (future : FutureId) : Routine (Except FaultId Value) := await (some future) done

/-- Lets the loop go round once. -/
def yield : Routine (Except FaultId Value) := await none done

end Routine

/-- Code of a listener: it may fail. -/
abbrev Reaction := ExceptT FaultId Code Unit

/-- A routine that may fail. -/
abbrev Work := ExceptT FaultId Routine

namespace Work

variable {α : Type}

def perform (o : Op) : Work o.Reply := ExceptT.lift (Routine.perform o)

/-- Goes on only where an operation is not refused. -/
def attempt (r : Routine (Except FaultId α)) : Work α := ExceptT.mk r

def wait (future : FutureId) : Work Value := ExceptT.mk (Routine.wait future)

def fail (spec : FaultSpec) : Work α := do throw (← perform (.raise spec))

end Work

end SteppedLogo
