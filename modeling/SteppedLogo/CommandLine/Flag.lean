
namespace SteppedLogo

inductive Flag
  | help | interpreter | interval | noTrace | json | logLevel | command | history
  deriving DecidableEq

namespace Flag

/-- All spellings, in the order in which they are told. -/
def spellings : List (String × Flag) :=
  [("-h", help), ("--help", help), ("--interpreter", interpreter), ("--interval", interval),
   ("--no-trace", noTrace), ("--json", json), ("--log-level", logLevel), ("-c", command),
   ("--command", command), ("--history", history)]

def ofSpelling? (s : String) : Option Flag := spellings.lookup s

def takesValue : Flag → Bool
  | help | noTrace | json => false
  | interpreter | interval | logLevel | command | history => true

/-- The flag in a complaint: all of its spellings. -/
def title (f : Flag) : String :=
  "/".intercalate ((spellings.filter (·.2 = f)).map Prod.fst)

end Flag

namespace CommandLine

def programName : String := "logo-dbg"

def usage : String :=
  "usage: logo-dbg [-h] [--interpreter INTERPRETER] [--interval INTERVAL]\n" ++
  "                [--no-trace] [--json] [--log-level LOG_LEVEL] [-c COMMAND]\n" ++
  "                [--history HISTORY]\n"

def help : String :=
  usage ++
  "\nStep through Logo programs with a paced, cancelable trace\n" ++
  "\noptions:\n" ++
  "  -h, --help            show this help message and exit\n" ++
  "  --interpreter INTERPRETER\n" ++
  "                        Interpreter factory as module:attr (default\n" ++
  "                        $LOGO_DBG_INTERPRETER)\n" ++
  "  --interval INTERVAL   Pacing interval per call in seconds (default 0.1)\n" ++
  "  --no-trace            Do not render the executing body\n" ++
  "  --json                Emit JSON lines instead of styled text\n" ++
  "  --log-level LOG_LEVEL\n" ++
  "                        Logging level (default WARNING)\n" ++
  "  -c COMMAND, --command COMMAND\n" ++
  "                        Run a single program non-interactively (quote the\n" ++
  "                        program text)\n" ++
  "  --history HISTORY     Path to the prompt history file\n"

/-- What is told of a command line that cannot be used. -/
def misuse (message : String) : String := usage ++ programName ++ ": error: " ++ message ++ "\n"

end CommandLine

end SteppedLogo
