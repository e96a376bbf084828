import SteppedLogo.Fault.Kind

namespace SteppedLogo

abbrev FaultId := Nat

/-- A raised fault. A cancellation carries its reason, the failure of a program the fault that
    stopped it. -/
structure Fault where
  kind : FaultKind
  args : List Value := []
  reason : Value := .none
  inner : Option FaultId := none
  cause : Option FaultId := none
  context : Option FaultId := none

namespace Fault

def ofComplaint (c : Complaint) : Fault := { kind := c.kind, args := c.args }

/-- The text of a fault: nothing, its one argument, or all of them; a key is quoted. -/
def message (f : Fault) : String :=
  match f.kind, f.args with
  | _, [] => ""
  | .key, [arg] => arg.source
  | _, [arg] => arg.display
  | _, args => tupleSource args

/-- The kind and the text, as a log and the failure of a program show them. -/
def summary (f : Fault) : String := f.kind.name ++ ": " ++ f.message

/-- A deliberate stop of a run, for the given reason. -/
def cancellation (reason : Value) : Fault :=
  { kind := .cancellation, args := [.text reason.display], reason }

/-- The failure of a program, stopped by the fault `id`. -/
def ofProgram (id : FaultId) (f : Fault) : Fault :=
  { kind := .program, args := [.text f.summary], inner := some id }

/-- The fault to look at next in the search for a deliberate stop. -/
def next? (f : Fault) : Option FaultId := f.cause.or f.context

end Fault

/-- All faults raised so far, each at the index that is its identity. -/
structure Faults where
  all : Array Fault := #[]

namespace Faults

def get? (fs : Faults) (id : FaultId) : Option Fault := fs.all[id]?

def add (fs : Faults) (f : Fault) : FaultId × Faults := (fs.all.size, ⟨fs.all.push f⟩)

def modify (fs : Faults) (id : FaultId) (change : Fault → Fault) : Faults :=
  ⟨fs.all.modify id change⟩

def setCause (fs : Faults) (id : FaultId) (cause : Option FaultId) : Faults :=
  fs.modify id ({ · with cause })

def setContext (fs : Faults) (id : FaultId) (context : Option FaultId) : Faults :=
  fs.modify id ({ · with context })

def kindOf (fs : Faults) (id : FaultId) : FaultKind := ((fs.get? id).map Fault.kind).getD .general

def messageOf (fs : Faults) (id : FaultId) : String := ((fs.get? id).map Fault.message).getD ""

def summaryOf (fs : Faults) (id : FaultId) : String := ((fs.get? id).map Fault.summary).getD ""

def reasonOf (fs : Faults) (id : FaultId) : Value := ((fs.get? id).map Fault.reason).getD .none

/-- Cuts the link by which the chain of contexts from `at_` would lead to `id`. -/
def uncontext (id : FaultId) : (fuel : Nat) → (at_ : FaultId) → Faults → Faults
  | 0, _, fs => fs
  | fuel + 1, at_, fs =>
    match (fs.get? at_).bind Fault.context with
    | none => fs
    | some next => if next = id then fs.setContext at_ none else uncontext id fuel next fs

/-- Raising `id` while `handled` is being handled makes that one its context; a chain of contexts
    that would lead back to `id` is cut first. -/
def raiseWhile (fs : Faults) (handled id : FaultId) : Faults :=
  if handled = id then fs
  else (uncontext id fs.all.size handled fs).setContext id (some handled)

/-- What the search for a deliberate stop comes to at a fault: its answer, or the fault to go on to. -/
inductive Look
  | ends (found : Option FaultId)
  | goes (next : FaultId)

/-- Looks at a fault, which is the answer if it is a deliberate stop; any other one leads to its cause, or to its context
    where it has no cause. -/
def look (fs : Faults) (id : FaultId) : Look :=
  match fs.get? id with
  | none => .ends none
  | some f =>
    if f.kind = .cancellation then .ends (some id)
    else match f.next? with
      | none => .ends none
      | some next => .goes next

/-- Looks at one fault after the other; a fault that was `seen` ends the search. -/
def searchFrom (fs : Faults) : (fuel : Nat) → (seen : List FaultId) → FaultId → Option FaultId
  | 0, _, _ => none
  | fuel + 1, seen, id =>
    if seen.contains id then none
    else match fs.look id with
      | .ends found => found
      | .goes next => searchFrom fs fuel (id :: seen) next

/-- The deliberate stop behind a fault, if there is one. No search comes to as many different faults as there is fuel. -/
def findCancellation (fs : Faults) (id : FaultId) : Option FaultId :=
  fs.searchFrom (fs.all.size + 1) [] id

end Faults

end SteppedLogo
