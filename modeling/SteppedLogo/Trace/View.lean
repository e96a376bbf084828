import SteppedLogo.Trace.Node

namespace SteppedLogo

/-- A watched view tells its host of each change; `changes` counts these calls. -/
structure DebugView where
  root : Option ViewNode := none
  version : Nat := 0
  watched : Bool := false
  changes : Nat := 0

namespace DebugView

def touch (v : DebugView) : DebugView :=
  { v with version := v.version + 1, changes := if v.watched then v.changes + 1 else v.changes }

def replace (v : DebugView) (root : Option ViewNode) : DebugView := { v with root }.touch

def clear (v : DebugView) : DebugView := v.replace none

def toText (v : DebugView) (mark : Bool) : String := (v.root.map (·.toText mark)).getD ""

def fragments (v : DebugView) : List Fragment := (v.root.map (·.fragments)).getD []

end DebugView

end SteppedLogo
