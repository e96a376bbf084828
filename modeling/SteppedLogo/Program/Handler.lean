import SteppedLogo.Command.Table

namespace SteppedLogo

inductive Handler
  | primitive (p : Primitive)
  /-- cancels the run for the given reason -/
  | halt
  /-- requests a break for the given reason -/
  | brk
  /-- fails with the given text -/
  | fail
  /-- starts the given program -/
  | again
  /-- turns the trace off -/
  | untrace
  /-- turns the trace on -/
  | retrace
  /-- fails without a text -/
  | quiet
  deriving DecidableEq

namespace Handler

/-- The name under which a call is announced. -/
def name : Handler → String
  | primitive p => p.name
  | halt => "halt"
  | brk => "brk"
  | fail => "fail"
  | again => "again"
  | untrace => "untrace"
  | retrace => "retrace"
  | quiet => "quiet"

def signature : Handler → Signature
  | primitive p => p.signature
  | halt => { name := halt.name, required := ["reason"] }
  | brk => { name := brk.name, required := ["reason"] }
  | fail => { name := fail.name, required := ["text"] }
  | again => { name := again.name, required := ["source"] }
  | untrace => { name := untrace.name }
  | retrace => { name := retrace.name }
  | quiet => { name := quiet.name }

/-- How many words behind its own a call takes; printing takes one. -/
def arity (h : Handler) : Nat :=
  h.signature.required.length + if h.signature.anyPositional then 1 else 0

/-- The value that stands for the procedure when its call is announced. -/
def procedure (h : Handler) : Value := .procedure 0 h.name

end Handler

/-- The words bound in an interpreter's global scope. -/
abbrev Words := List (String × Handler)

/-- Gives words their meaning; a later meaning replaces an earlier one. -/
def Words.bind (known added : Words) : Words :=
  added.foldl (fun known (word, h) => (word, h) :: known.filter (·.1 != word)) known

/-- Handlers as words under their own names. -/
def Handler.words (hs : List Handler) : Words := hs.map fun h => (h.name, h)

/-- The words of the turtle. -/
def turtleWords : Words := Primitive.registry.bindings.map fun (word, p) => (word, .primitive p)

end SteppedLogo
