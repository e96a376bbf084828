import SteppedLogo.Value.Text

namespace SteppedLogo

inductive FaultKind
  | general
  | value | type | runtime | lookup | key | index | arithmetic | zeroDivision | overflow
  | unsupported | recursion | missingAttribute | os | imports | moduleMissing
  | logo | validation
  | bridge | busy | stepPending | cancellation | program
  | taskCancelled | interrupt
  deriving DecidableEq, Repr, Inhabited

namespace FaultKind

/-- The name under which a kind is reported. -/
def name : FaultKind → String
  | general => "Exception"
  | value => "ValueError"
  | type => "TypeError"
  | runtime => "RuntimeError"
  | lookup => "LookupError"
  | key => "KeyError"
  | index => "IndexError"
  | arithmetic => "ArithmeticError"
  | zeroDivision => "ZeroDivisionError"
  | overflow => "OverflowError"
  | unsupported => "NotImplementedError"
  | recursion => "RecursionError"
  | missingAttribute => "AttributeError"
  | os => "OSError"
  | imports => "ImportError"
  | moduleMissing => "ModuleNotFoundError"
  | logo => "LogoRuntimeError"
  | validation => "ValidationError"
  | bridge => "BridgeError"
  | busy => "SessionBusyError"
  | stepPending => "StepPendingError"
  | cancellation => "CancellationError"
  | program => "InterpreterError"
  | taskCancelled => "CancelledError"
  | interrupt => "KeyboardInterrupt"

def all : List FaultKind :=
  [general, value, type, runtime, lookup, key, index, arithmetic, zeroDivision, overflow,
   unsupported, recursion, missingAttribute, os, imports, moduleMissing, logo, validation, bridge,
   busy, stepPending, cancellation, program, taskCancelled, interrupt]

def ofName? (s : String) : Option FaultKind := all.find? (·.name == s)

/-- The next wider kind. Cancellation of a task and an interrupt stand apart: they are no errors,
    and what catches errors lets them pass. -/
def parent? : FaultKind → Option FaultKind
  | general | taskCancelled | interrupt => none
  | value | type | runtime | lookup | arithmetic | missingAttribute | os | imports => some general
  | key | index => some lookup
  | zeroDivision | overflow => some arithmetic
  | unsupported | recursion | logo | bridge => some runtime
  | validation => some type
  | moduleMissing => some imports
  | busy | stepPending | cancellation | program => some bridge

/-- How many steps lead from a kind to the widest one. -/
def depth : FaultKind → Nat
  | general | taskCancelled | interrupt => 0
  | value | type | runtime | lookup | arithmetic | missingAttribute | os | imports => 1
  | key | index | zeroDivision | overflow | unsupported | recursion | logo | bridge
  | validation | moduleMissing => 2
  | busy | stepPending | cancellation | program => 3

def lineageFrom : (steps : Nat) → FaultKind → List FaultKind
  | 0, k => [k]
  | steps + 1, k =>
    match k.parent? with
    | none => [k]
    | some p => k :: lineageFrom steps p

/-- A kind and all wider ones, the widest last. -/
def lineage (k : FaultKind) : List FaultKind := lineageFrom k.depth k

/-- Whether a kind counts as another. -/
def isA (k wider : FaultKind) : Bool := k.lineage.contains wider

/-- Whether faults of this kind are errors, which handlers of errors catch. -/
def isError (k : FaultKind) : Bool := k.isA general

/-- What is no error is the cancellation of a task or an interrupt. -/
theorem isError_eq_false_iff {k : FaultKind} : k.isError = false ↔ k = .taskCancelled ∨ k = .interrupt := by
  cases k <;> decide

end FaultKind

/-- What goes wrong in an operation, before it is raised anywhere. -/
structure Complaint where
  kind : FaultKind
  args : List Value := []
  deriving Inhabited

end SteppedLogo
