import SteppedLogo.Fault.Kind
import SteppedLogo.Text.Quoted

namespace SteppedLogo

/-- What the name of a level stands for: a threshold, or something that is none. -/
inductive LogLevel
  | threshold (n : Nat)
  | format (layout : String)
  | styles (source : String)

namespace LogLevel

/-- Names in capitals, and what each stands for. -/
def settings : List (String × LogLevel) :=
  [("NOTSET", threshold 0), ("DEBUG", threshold 10), ("INFO", threshold 20), ("WARN", threshold 30),
   ("WARNING", threshold 30), ("ERROR", threshold 40), ("CRITICAL", threshold 50),
   ("FATAL", threshold 50), ("BASIC_FORMAT", format "%(levelname)s:%(name)s:%(message)s"),
   ("_STYLES", styles
     ("\x7b'%': (<class 'logging.PercentStyle'>, '%(levelname)s:%(name)s:%(message)s'), " ++
      "'\x7b': (<class 'logging.StrFormatStyle'>, '\x7blevelname\x7d:\x7bname\x7d:\x7bmessage\x7d'), " ++
      "'$': (<class 'logging.StringTemplateStyle'>, " ++
      "'$\x7blevelname\x7d:$\x7bname\x7d:$\x7bmessage\x7d')\x7d"))]

/-- The capitals of a letter, where they are ASCII letters that a name may hold. -/
def capitals (c : Char) : List Char :=
  if c = 'ı' then ['I'] else if c = 'ſ' then ['S'] else if c = 'ﬅ' || c = 'ﬆ' then ['S', 'T']
  else [c.toUpper]

/-- What a name in any case stands for; one that stands for nothing sets the threshold of warnings. -/
def ofName (name : String) : LogLevel :=
  (settings.lookup (String.ofList (name.toList.flatMap capitals))).getD (threshold 30)

/-- The threshold, if it is one. -/
def check : LogLevel → Except Complaint Nat
  | threshold n => .ok n
  | format layout => .error ⟨.value, [.text ("Unknown level: " ++ Text.quoted layout)]⟩
  | styles source =>
    .error ⟨.type, [.text ("Level not an integer or a valid string: " ++ source)]⟩

/-- A line of the log, behind the time at which it is written. -/
def line (time level logger message : String) : String :=
  time ++ " " ++ level ++ " " ++ logger ++ ": " ++ message

end LogLevel

end SteppedLogo
