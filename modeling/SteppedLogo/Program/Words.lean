import SteppedLogo.Program.Code
import SteppedLogo.Text.Blank

namespace SteppedLogo

def unknownWord (word : String) : FaultSpec :=
  .plain ⟨.logo, [.text ("I don't know how to " ++ word)]⟩

def missingInputs (word : String) : FaultSpec :=
  .plain ⟨.logo, [.text ("not enough inputs to " ++ word)]⟩

/-- A call whose inputs are being read: `missing` of them are still to come. -/
structure OpenCall where
  word : String
  handler : Handler
  cell : Cell
  args : List Value := []
  missing : Nat

namespace Words

/-- The list that begins with a cell. -/
def listAt (c : Cell) : LogoList := .cons c.id c.head c.tail

/-- Makes the call boundary of a call, and waits for it. -/
def awaitBoundary (body : LogoList) (c : OpenCall) : Work Unit := do
  let step ← Work.attempt (Routine.perform
    (.hook { func := c.handler.procedure, args := .sequence 0 c.args, body := .list body,
             cell := .list (listAt c.cell) }))
  let _ ← Work.wait step.future

/-- Calls the handler, in a gated program behind its call boundary. -/
def callHandler (gated : Bool) (body : LogoList) (c : OpenCall) : Work Unit := do
  if gated then awaitBoundary body c
  Work.perform (.recordCall c.word c.args)
  let _ ← Work.attempt (Routine.perform (.invoke c.handler c.args))

/-- Goes through the cells of the body; `open_` is the call that is waiting for inputs. -/
def walk (words : Words) (gated : Bool) (body : LogoList) :
    (open_ : Option OpenCall) → List Cell → Work Unit
  | none, [] => pure ()
  | some c, [] => Work.fail (missingInputs c.word)
  | none, cell :: rest => do
    let word := cell.head.display
    match words.lookup word with
    | none => Work.fail (unknownWord word)
    | some handler =>
      let c : OpenCall := { word, handler, cell, missing := handler.arity }
      if c.missing = 0 then do
        callHandler gated body c
        walk words gated body none rest
      else walk words gated body (some c) rest
  | some c, cell :: rest => do
    let c := { c with args := c.args ++ [cell.head], missing := c.missing - 1 }
    if c.missing = 0 then do
      callHandler gated body c
      walk words gated body none rest
    else walk words gated body (some c) rest

/-- Runs a source text as a program of words. -/
def evaluate (words : Words) (gated : Bool) (source : String) : Work Value := do
  let body ← Work.perform (.newBody (Text.words source))
  walk words gated body none (LogoList.cells body)
  return .none

/-- Runs a source text as a program of words whose calls are gated. -/
def execute (words : Words) (source : String) : Work Value := evaluate words true source

/-- Like `execute`, but each error is raised again as one of the language, caused by it. -/
def executeWrapping (words : Words) (source : String) : Work Value := ExceptT.mk do
  match ← (execute words source).run with
  | .ok v => return .ok v
  | .error id =>
    let fault ← Routine.perform (.describe id)
    if fault.kind.isError then
      let wrapped ← Routine.perform
        (.raise (.plain ⟨.logo, [.text ("stopped: " ++ fault.message)]⟩))
      Routine.perform (.setCause wrapped id)
      Routine.perform (.raiseWhile id wrapped)
      return .error wrapped
    else return .error id

end Words

end SteppedLogo
