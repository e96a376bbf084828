import SteppedLogo.CommandLine.Flag
import SteppedLogo.CommandLine.Path
import SteppedLogo.Decimal.Reader
import SteppedLogo.Text.Quoted

namespace SteppedLogo

/-- What is set by a flag with a value. A separator in the place of the value leaves it blank. -/
inductive Setting (α : Type) where
  | blank
  | value (a : α)

def Setting.map {α β : Type} (f : α → β) : Setting α → Setting β
  | blank => blank
  | value a => value (f a)

/-- The settings of a start. -/
structure Options where
  interpreter : Option (Setting String) := none
  interval : Setting Float
  noTrace : Bool := false
  json : Bool := false
  logLevel : Setting String := .value "WARNING"
  command : Option (Setting String) := none
  history : Setting Path

/-- Why no settings come of a command line. -/
inductive Halt
  | help
  | misuse (message : String)
  deriving DecidableEq

def Halt.code : Halt → Int
  | help => 0
  | misuse _ => 2

def Halt.output : Halt → String
  | help => CommandLine.help
  | misuse _ => ""

def Halt.errors : Halt → String
  | help => ""
  | misuse message => CommandLine.misuse message

namespace CommandLine

/-- Divides flags from values. -/
def separator : String := "--"

/-- What an argument is. An unknown flag is kept as one, for it ends the values before it. The
    text attached to a flag stands behind an equals sign or directly behind a short spelling. -/
inductive Reading
  | value
  | separator
  | unknown
  | flag (f : Flag) (spelling : String) (attached : Option String)
  deriving DecidableEq

/-- The text in front of the first equals sign, and the text behind it. -/
def cutAtEquals (s : String) : String × Option String :=
  match s.toList.span (· != '=') with
  | (_, []) => (s, none)
  | (before, _ :: behind) => (String.ofList before, some (String.ofList behind))

/-- Long spellings may be cut short; a short one may have its text attached directly. -/
def candidates (s : String) : List (Flag × String × Option String) :=
  if s.startsWith "--" then
    let (start, behind) := cutAtEquals s
    (Flag.spellings.filter fun (spelling, _) => spelling.startsWith start).map
      fun (spelling, f) => (f, spelling, behind)
  else
    (Flag.spellings.filter fun (spelling, _) => spelling == (s.take 2).toString).map
      fun (spelling, f) => (f, spelling, some (s.drop 2).toString)

/-- Digits behind a minus sign, with a point or without one, are a number; a line end behind them
    is no part of it. -/
def isNegativeNumber (s : String) : Bool :=
  match s.toList with
  | '-' :: rest =>
    let rest := if rest.getLast? = some '\n' then rest.dropLast else rest
    let isDigit (c : Char) : Bool := (Text.digitValue? c).isSome
    match rest.span isDigit with
    | (digits, []) => !digits.isEmpty
    | (_, '.' :: digits) => !digits.isEmpty && digits.all isDigit
    | _ => false
  | _ => false

def ambiguous (s : String) (spellings : List String) : Halt :=
  .misuse ("ambiguous option: " ++ s ++ " could match " ++ ", ".intercalate spellings)

/-- Tells flags from values. What begins with a minus sign is a flag, unless it is a number or
    holds a blank and is no known flag. -/
def classify (s : String) : Except Halt Reading :=
  if !s.startsWith "-" then .ok .value
  else match Flag.ofSpelling? s with
    | some f => .ok (.flag f s none)
    | none =>
      if s.length = 1 then .ok .value
      else
        let (before, behind) := cutAtEquals s
        match behind, Flag.ofSpelling? before with
        | some text, some f => .ok (.flag f before (some text))
        | _, _ =>
          match candidates s with
          | [(f, spelling, attached)] => .ok (.flag f spelling attached)
          | [] => .ok (if isNegativeNumber s || s.toList.contains ' ' then .value else .unknown)
          | several => .error (ambiguous s (several.map (·.2.1)))

/-- Classifies the arguments; all behind a separator are values. -/
def classifyAll : List String → Except Halt (List (String × Reading))
  | [] => .ok []
  | s :: rest =>
    if s = separator then .ok ((s, .separator) :: rest.map ((·, .value)))
    else do
      let reading ← classify s
      return (s, reading) :: (← classifyAll rest)

def faulty (f : Flag) (message : String) : Halt :=
  .misuse ("argument " ++ f.title ++ ": " ++ message)

def ignored (f : Flag) (text : String) : Halt :=
  faulty f ("ignored explicit argument " ++ Text.quoted text)

/-- What one argument calls for: flags without values, then maybe one that takes its value from
    the text attached to it or from the next argument. -/
structure Bundle where
  switches : List Flag := []
  last : Option (Flag × Option String) := none

/-- Takes a flag apart: the text attached to a short flag without a value holds further short
    flags. -/
def unbundle (switches : List Flag) : (fuel : Nat) → Flag → String → Option String →
    Except Halt Bundle
  | 0, _, _, _ => .ok { switches }
  | fuel + 1, f, spelling, attached =>
    if f.takesValue then .ok { switches, last := some (f, attached) }
    else match attached.map String.toList with
      | none => .ok { switches := switches ++ [f] }
      | some [] => .error (ignored f "")
      | some (c :: rest) =>
        let next := String.ofList ['-', c]
        match (if spelling.startsWith "--" then none else Flag.ofSpelling? next) with
        | some g =>
          unbundle (switches ++ [f]) fuel g next
            (if rest.isEmpty then none else some (String.ofList rest))
        | none => .error (ignored f (String.ofList (c :: rest)))

/-- Takes a flag without a value. -/
def switch (o : Options) : Flag → Except Halt Options
  | .help => .error .help
  | .noTrace => .ok { o with noTrace := true }
  | .json => .ok { o with json := true }
  | _ => .ok o

/-- Takes a flag with the text of its value. -/
def assign (o : Options) (f : Flag) (text : String) : Except Halt Options :=
  let setting : Setting String := if text = separator then .blank else .value text
  match f with
  | .interpreter => .ok { o with interpreter := some setting }
  | .interval =>
    match setting with
    | .blank => .ok { o with interval := .blank }
    | .value text =>
      match Decimal.read? text with
      | some seconds => .ok { o with interval := .value seconds }
      | none => .error (faulty f ("invalid float value: " ++ Text.quoted text))
  | .logLevel => .ok { o with logLevel := setting }
  | .command => .ok { o with command := some setting }
  | .history => .ok { o with history := setting.map Path.ofText }
  | _ => .ok o

/-- Takes the arguments in order. `waiting` is a flag that needs the next argument as its value,
    behind the switches bundled with it; `strays` are the arguments that belong to no flag. -/
def take (o : Options) (strays : List String) :
    (waiting : Option (List Flag × Flag)) → List (String × Reading) →
    Except Halt (Options × List String)
  | none, [] => .ok (o, strays)
  | some (_, f), [] => .error (faulty f "expected one argument")
  | some (switches, f), (s, .value) :: rest => do
    let o ← switches.foldlM switch o
    take (← assign o f s) strays none rest
  | some (_, f), _ :: _ => .error (faulty f "expected one argument")
  | none, (_, .flag f spelling attached) :: rest => do
    let fuel := (attached.map String.length).getD 0 + 1
    let b ← unbundle [] fuel f spelling attached
    match b.last with
    | some (g, none) => take o strays (some (b.switches, g)) rest
    | some (g, some value) =>
      let o ← b.switches.foldlM switch o
      take (← assign o g value) strays none rest
    | none =>
      let o ← b.switches.foldlM switch o
      take o strays none rest
  | none, (s, _) :: rest => take o (strays ++ [s]) none rest

/-- The settings that a command line makes of the default ones. -/
def parse (defaults : Options) (argv : List String) : Except Halt Options := do
  let (o, strays) ← take defaults [] none (← classifyAll argv)
  if strays.isEmpty then return o
  else .error (.misuse ("unrecognized arguments: " ++ " ".intercalate strays))

end CommandLine

end SteppedLogo
