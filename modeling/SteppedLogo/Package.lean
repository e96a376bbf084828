
namespace SteppedLogo

def version : String := "0.1.0"

/-- The names that the package exports. -/
def exportedNames : List String :=
  ["List", "Empty", "Cons", "EMPTY", "BridgeError", "CancellationError", "InterpreterError",
   "SessionBusyError", "StepPendingError", "ValidationError", "TurtleState", "Segment",
   "HostContext", "BufferedOutput", "Command", "CommandRegistry", "build_command_table",
   "DebugView", "TraceRenderer", "ViewNode", "StepGate", "PendingStep", "StepEvent",
   "DEFAULT_PACING_INTERVAL", "ExecutionSession", "SessionConfig", "SessionState",
   "SessionStatus", "Interpreter", "load_interpreter"]

end SteppedLogo
