import SteppedLogo.Program.Code

namespace SteppedLogo

namespace Reaction

def perform (o : Op) : ExceptT FaultId Code o.Reply := ExceptT.lift (Code.perform o)

/-- Goes on only where an operation is not refused. -/
def attempt {α : Type} (c : Code (Except FaultId α)) : ExceptT FaultId Code α := ExceptT.mk c

end Reaction

open Reaction in
/-- What is done for a deed. -/
def Deed.code : Deed → Reaction
  | cancelGate reason => do
    let cancelled ← perform (.cancelGate reason)
    perform (.note (.cancel (some cancelled)))
  | cancelRun reason => do
    perform (.cancelRun reason)
    perform (.note (.cancel none))
  | requestBreak reason => perform (.requestBreak reason)
  | raise spec => do throw (← perform (.raise spec))
  | add listener => perform (.addListener listener)
  | remove listener => perform (.removeListener listener)
  | setInterval seconds => perform (.setInterval seconds)
  | setPacing seconds => attempt (Code.perform (.setPacing seconds))
  | release => perform .release
  | step func => do
    let _ ← attempt (Code.perform (.step { func }))
  | setTrace on => perform (.setTrace on)
  | start source => do
    let future ← attempt (Code.perform (.start source))
    perform (.track future)
  | interrupt => do
    let handled ← perform .interrupt
    perform (.note (.interrupt handled))
  | cancelTask index => do
    let _ ← perform (.cancelTracked index)
  | report => perform .report

/-- Does a deed at once, or has it done later. -/
def Act.code (a : Act) : Reaction :=
  match a.timing with
  | .now => a.deed.code
  | .soon => Reaction.perform (.defer none a.deed)
  | .later delay => Reaction.perform (.defer (some delay) a.deed)

/-- The acts of a listener, numbered from `index`, at an event: each that concerns it, in turn. -/
def actsCode (listener : String) (event : StepEvent) : (index : Nat) → List Act → Reaction
  | _, [] => pure ()
  | index, a :: rest => do
    if a.seq.all (· == event.seq) then
      if a.once then
        let first : Bool ← Reaction.perform (.spend listener index)
        if first then a.code
      else a.code
    actsCode listener event (index + 1) rest

/-- A listener that notes each event, and then acts. -/
def listenerCode (listener : String) (acts : List Act) (event : StepEvent) : Reaction := do
  Reaction.perform (.announce listener event)
  actsCode listener event 0 acts

end SteppedLogo
