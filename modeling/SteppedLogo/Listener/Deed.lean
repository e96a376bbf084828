import SteppedLogo.Fault.Basic

namespace SteppedLogo

/-- A fault to be raised, described. -/
inductive FaultSpec
  | plain (complaint : Complaint)
  | cancellation (reason : Value)
  | program (inner : FaultSpec)
  deriving Inhabited

/-- Raises a fault as described, inner faults first. -/
def FaultSpec.raise (fs : Faults) : FaultSpec → FaultId × Faults
  | plain c => fs.add (.ofComplaint c)
  | cancellation reason => fs.add (.cancellation reason)
  | program inner =>
    let (id, fs) := inner.raise fs
    fs.add (.ofProgram id ((fs.get? id).getD { kind := .general }))

/-- The announcement of a call: its number in the run, the name of what is called, its
    arguments, and the cell at which the program calls it. -/
structure StepEvent where
  seq : Nat
  name : String
  args : List Value
  cell : Value

inductive Deed
  | cancelGate (reason : Value)
  | cancelRun (reason : Value)
  | requestBreak (reason : Value)
  | raise (spec : FaultSpec)
  | add (listener : String)
  | remove (listener : String)
  | setInterval (seconds : Float)
  | setPacing (seconds : Float)
  | release
  | step (func : Value)
  | setTrace (on : Bool)
  | start (source : String)
  | interrupt
  | cancelTask (index : Option Nat)
  | report

inductive Timing
  | now
  | soon
  | later (delay : Float)

/-- A deed that a listener does at the event number `seq`, or at every event; `once` restricts it
    to the first time. -/
structure Act where
  deed : Deed
  timing : Timing := .now
  seq : Option Nat := none
  once : Bool := false

/-- What can be observed of a run besides its effects. -/
inductive Event
  | announced (listener : String) (event : StepEvent) (active : Option String)
  | cancel (result : Option Bool)
  | interrupt (handled : Bool)
  | state (status : String) (active : Bool) (steps : Nat) (pending : Option Nat)
  | result (word : String) (value : Value)
  | said (text : String)
  | caught (kind message : String)

end SteppedLogo
