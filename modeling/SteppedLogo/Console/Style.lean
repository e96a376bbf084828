
namespace SteppedLogo

inductive Ink
  | red
  | shade (red green blue : Nat)
  deriving DecidableEq

structure Style where
  ink : Option Ink := none
  reverse : Bool := false
  bold : Bool := false
  deriving DecidableEq

namespace Style

def hexByte (n : Nat) : String :=
  String.ofList [(n / 16).digitChar, (n % 16).digitChar]

def inkText : Ink → String
  | .red => "ansired"
  | .shade r g b => "#" ++ hexByte r ++ hexByte g ++ hexByte b

/-- The attributes of a style by name. -/
def text (s : Style) : String :=
  " ".intercalate ((s.ink.map inkText).toList ++
    (if s.reverse then ["reverse"] else []) ++ (if s.bold then ["bold"] else []))

/-- The classes of output and how each looks. -/
def rules : List (String × Style) :=
  [("input", { ink := some (.shade 0x88 0x88 0x88) }),
   ("output", {}),
   ("error", { ink := some .red, bold := true }),
   ("trace", { ink := some (.shade 0x5f 0x87 0xaf) }),
   ("list", {}),
   ("active", { reverse := true, bold := true })]

/-- What the second style adds to the first. -/
def combine (s t : Style) : Style :=
  { ink := t.ink.or s.ink, reverse := s.reverse || t.reverse, bold := s.bold || t.bold }

/-- The style of a list of classes, each written with its mark and divided by blanks. -/
def ofClasses (classes : String) : Style :=
  (classes.splitOn " ").foldl (fun s name =>
    s.combine ((rules.lookup (name.dropPrefix "class:").toString).getD {})) {}

def inkCode : Ink → String
  | .red => ";31"
  | .shade r g b => ";38;2;" ++ toString r ++ ";" ++ toString g ++ ";" ++ toString b

/-- The text with the control sequences of the style around it. -/
def paint (s : Style) (text : String) : String :=
  if s = {} then text
  else
    "\x1b[0" ++ (if s.bold then ";1" else "") ++ (if s.reverse then ";7" else "") ++
      (s.ink.map inkCode).getD "" ++ "m" ++ text ++ "\x1b[0m"

end Style

end SteppedLogo
