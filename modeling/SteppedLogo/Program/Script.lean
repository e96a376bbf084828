import SteppedLogo.Listener.Basic

namespace SteppedLogo

/-- What the new fault is raised from when a script wraps the one that it handles. -/
inductive Wrapping
  | fromHandled
  | fromNothing
  | fromOther
  | plain
  deriving DecidableEq

/-- The wrapping of a given name. -/
def Wrapping.ofName? : String → Option Wrapping
  | "cause" => some fromHandled
  | "none" => some fromNothing
  | "other" => some fromOther
  | "context" => some plain
  | _ => none

inductive Instruction
  /-- makes a call boundary and waits for it -/
  | call (c : Call)
  /-- makes a call boundary without waiting for it -/
  | announce (c : Call)
  /-- calls a word behind a call boundary -/
  | invoke (word : String) (c : Call) (args : List Value)
  | say (text : String)
  | raise (spec : FaultSpec)
  | raiseFrom (spec cause : FaultSpec)
  | attempt (block : List Instruction)
  | attemptAll (block : List Instruction)
  | ensure (block cleanup : List Instruction)
  | wrap (how : Wrapping) (block : List Instruction)
  | sleep (seconds : Float)
  | act (a : Act)

instance : Inhabited Instruction := ⟨.say ""⟩

namespace Script

variable {α : Type}

/-- The faults that are being handled, the innermost first. -/
abbrev Handled := List FaultId

/-- Code of a script. Its state is the number of outermost faults being handled that are out of
    sight: they are not what a fault raised now points back at. -/
abbrev Course := ExceptT FaultId (StateT Nat Routine)

def perform (o : Op) : Course o.Reply := ExceptT.lift (StateT.lift (Routine.perform o))

/-- Goes on with what a routine gives, whether it failed or not. -/
def outcome (r : Routine (Except FaultId α)) : Course (Except FaultId α) :=
  ExceptT.lift (StateT.lift r)

/-- What a piece of a script ends with. -/
def ending (code : Course α) : Course (Except FaultId α) := ExceptT.lift code.run

/-- Raises a fault while others are being handled. -/
def raised (handled : Handled) (id : FaultId) : Course α := do
  match handled.take (handled.length - (← get)) with
  | [] => throw id
  | innermost :: _ => do
    perform (.raiseWhile innermost id)
    throw id

/-- Passes a result on; a fault counts as raised here. -/
def checked (handled : Handled) : Except FaultId α → Course α
  | .ok a => return a
  | .error id => raised handled id

/-- Passes on what a suspended script is taken up with. All that is being handled is in sight
    again, unless it is taken up with a fault: that one comes from outside and is raised here
    without a look at what is being handled. -/
def resumed (handled : Handled) : Except FaultId α → Course α
  | .ok a => do
    set 0
    return a
  | .error id => do
    set handled.length
    throw id

def makeFault (spec : FaultSpec) : Course FaultId := perform (.raise spec)

/-- Waits for a future; one that is settled does not suspend the script. -/
def wait (handled : Handled) (future : FutureId) : Course Value := do
  let settled : Bool ← perform (.isSettled future)
  let result ← outcome (Routine.wait future)
  if settled then checked handled result else resumed handled result

/-- Makes a call boundary. -/
def boundary (handled : Handled) (c : Call) : Course Step := do
  checked handled (← outcome (Routine.perform (.hook c)))

/-- Waits for a while; no time at all lets the loop go round once. -/
def sleep (handled : Handled) (seconds : Float) : Course Unit := do
  if seconds ≤ 0.0 then
    let _ ← resumed handled (← outcome Routine.yield)
  else
    let (future, timer) ← perform (.nap seconds)
    let result ← outcome (Routine.wait future)
    perform (.dropTimer timer)
    let _ ← resumed handled result

/-- Raises an error again as one of the language. -/
def rewrap (how : Wrapping) (handled : Handled) (id : FaultId) : Course Unit := do
  let fault ← perform (.describe id)
  if (Fault.kind fault).isError then
    let wrapped ← makeFault (.plain ⟨.logo, [.text ("stopped: " ++ Fault.message fault)]⟩)
    match how with
    | .fromHandled => perform (.setCause wrapped id)
    | .fromOther =>
      let other ← makeFault (.plain ⟨.value, [.text "other cause"]⟩)
      perform (.setCause wrapped other)
    | .fromNothing | .plain => pure ()
    raised (id :: handled) wrapped
  else throw id

/-- Leaves a cleanup that was entered with a fault. A fault of its own points back at that one,
    also where it was out of sight in the cleanup. -/
def leave (handled : Handled) (id : FaultId) (result : Except FaultId Unit) : Course Unit := do
  let hidden ← get
  set (min hidden handled.length)
  match result with
  | .ok () => throw id
  | .error later => do
    if handled.length < hidden then perform (.raiseWhile id later)
    throw later

mutual

/-- Runs one instruction. -/
def instruction (words : Words) (handled : Handled) : Instruction → Course Unit
  | .call c => do
    let step ← boundary handled c
    let _ ← wait handled step.future
  | .announce c => do
    let _ ← boundary handled c
  | .invoke word c args => do
    match words.lookup word with
    | none => raised handled (← makeFault (.plain ⟨.key, [.text word]⟩))
    | some handler =>
      let step ← boundary handled { c with func := handler.procedure }
      let _ ← wait handled step.future
      let v ← checked handled (← outcome (Routine.perform (.invoke handler args)))
      perform (.note (.result word v))
  | .say text => perform (.note (.said text))
  | .raise spec => do raised handled (← makeFault spec)
  | .raiseFrom spec cause => do
    let id ← makeFault spec
    let cause ← makeFault cause
    perform (.setCause id cause)
    raised handled id
  | .attempt b => do
    if let .error id ← ending (block words handled b) then
      let fault ← perform (.describe id)
      if (Fault.kind fault).isError then
        perform (.note (.caught (Fault.kind fault).name (Fault.message fault)))
      else throw id
  | .attemptAll b => do
    if let .error id ← ending (block words handled b) then
      let fault ← perform (.describe id)
      if Fault.kind fault = .taskCancelled then
        perform (.note (.caught (Fault.kind fault).name ""))
      else throw id
  | .ensure b cleanup => do
    match ← ending (block words handled b) with
    | .ok () => block words handled cleanup
    | .error id => leave handled id (← ending (block words (id :: handled) cleanup))
  | .wrap how b => do
    if let .error id ← ending (block words handled b) then rewrap how handled id
  | .sleep seconds => sleep handled seconds
  | .act a => do checked handled (← outcome (Code.toRoutine a.code.run))

/-- Runs instructions in turn. -/
def block (words : Words) (handled : Handled) : List Instruction → Course Unit
  | [] => pure ()
  | i :: rest => do
    instruction words handled i
    block words handled rest

end

/-- Runs the script that a source text names. -/
def execute (words : Words) (scripts : List (String × List Instruction)) (source : String) :
    Work Value := do
  match scripts.lookup source with
  | none => Work.fail (.plain ⟨.logo, [.text ("no program " ++ source)]⟩)
  | some script => do
    ExceptT.mk ((block words [] script).run.run' 0)
    return .none

end Script

end SteppedLogo
