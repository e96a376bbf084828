import SteppedLogo.Decimal.Reader
import SteppedLogo.Interpreter.Loadable
import SteppedLogo.Value.Hash

namespace SteppedLogo.Plain

open SteppedLogo.Decimal

def valueFault (text : String) : Complaint := ⟨.value, [.text text]⟩

def plural (n : Nat) : String := if n = 1 then "" else "s"

/-- The inputs of a type that counts its arguments before it looks at any; the first `ordered` of
    them have no names. -/
structure Inputs where
  type : String
  ordered : Nat := 0
  names : List String

namespace Inputs

def countFault? (s : Inputs) (args : Arguments) : Option Complaint :=
  let most := s.ordered + s.names.length
  let given := args.positional.length + args.named.length
  if given ≤ most then none
  else some (typeFault (s.type ++ "() takes at most " ++ toString most ++
    (if args.positional.isEmpty then " keyword" else "") ++ " argument" ++ plural most ++ " (" ++
    toString given ++ " given)"))

/-- An input that is given in order and by name too. -/
def doubleFault? (s : Inputs) (args : Arguments) : Option Complaint :=
  ((s.names.take (args.positional.length - s.ordered)).zipIdx (s.ordered + 1)).findSome?
    fun (name, position) =>
      if (args.named.lookup name).isNone then none
      else some (typeFault ("argument for " ++ s.type ++ "() given by name ('" ++ name ++
        "') and position (" ++ toString position ++ ")"))

def nameFault? (s : Inputs) (args : Arguments) : Option Complaint :=
  (args.named.find? fun (name, _) => !s.names.contains name).map fun (name, _) =>
    typeFault (Text.quoted name ++ " is an invalid keyword argument for " ++ s.type ++ "()")

/-- What each input is given. -/
def read (s : Inputs) (args : Arguments) : Except Complaint (List (Option Value)) :=
  match ((s.countFault? args).or (s.doubleFault? args)).or (s.nameFault? args) with
  | some c => .error c
  | none =>
    let ordered := (List.range s.ordered).map (args.positional[·]?)
    let named := s.names.zipIdx.map fun (name, i) =>
      (args.positional[s.ordered + i]?).or (args.named.lookup name)
    .ok (ordered ++ named)

end Inputs

/-- The value of a digit in the bases that have it. -/
def digitValue (c : Char) : Nat :=
  if c.isDigit then c.toNat - '0'.toNat
  else if c.isAlpha then c.toLower.toNat - 'a'.toNat + 10
  else 36

/-- Whether a text is made of digits of a base, with single underscores between them. -/
def areDigits (base : Nat) : (behindDigit : Bool) → List Char → Bool
  | behindDigit, [] => behindDigit
  | behindDigit, c :: rest =>
    if c = '_' then behindDigit && areDigits base false rest
    else digitValue c < base && areDigits base true rest

/-- The base that a mark at the start of a number names, and the number behind the mark, of which
    an underscore may divide it. -/
def markedBase? : List Char → Option (Nat × List Char)
  | '0' :: c :: rest =>
    (["x", "o", "b"].zip [16, 8, 2]).lookup (String.singleton c.toLower) |>.map fun base =>
      (base, match rest with
        | '_' :: rest => rest
        | rest => rest)
  | _ => none

/-- Whether a text is a whole number. Base 0 is the one that the mark of the number names, and
    without a mark ten, where no zero may be in front. -/
def isWhole (base : Nat) (s : String) : Bool :=
  let (_, cs) := readSign ((trimPadding s.toList).map asciiDigit)
  match markedBase? cs with
  | some (marked, rest) =>
    if base = 0 || base = marked then areDigits marked false rest else areDigits base false cs
  | none =>
    if base = 0 then
      areDigits 10 false cs && (cs.head? != some '0' || cs.all fun c => c = '0' || c = '_')
    else areDigits base false cs

def readText (base : Nat) (s : String) : Except Complaint Unit :=
  if isWhole base s then .ok ()
  else .error (valueFault ("invalid literal for int() with base " ++ toString base ++ ": " ++
    ((Text.quoted s).take 200).toString))

/-- The base of a number, which is a number itself. -/
def readBase (v : Value) : Except Complaint Nat :=
  let checked (n : Int) : Except Complaint Nat :=
    if n = 0 || (2 ≤ n && n ≤ 36) then .ok n.toNat
    else .error (valueFault "int() base must be >= 2 and <= 36, or 0")
  match v with
  | .bool b => checked (boolInt b)
  | .int n _ => checked n
  | v => .error (typeFault ("'" ++ v.typeName ++ "' object cannot be interpreted as an integer"))

/-- Whether a value has a whole number. -/
def readNumber : Value → Except Complaint Unit
  | .bool _ | .int .. => .ok ()
  | .float x _ =>
    match Binary.ofFloat x with
    | .nan => .error (valueFault "cannot convert float NaN to integer")
    | .infinite _ => .error ⟨.overflow, [.text "cannot convert float infinity to integer"]⟩
    | .finite .. => .ok ()
  | .text s _ => readText 10 s
  | v => .error (typeFault ("int() argument must be a string, a bytes-like object or a real " ++
      "number, not '" ++ v.typeName ++ "'"))

def wholeNumber : Maker := fun args => do
  match ← ({ type := "int", ordered := 1, names := ["base"] } : Inputs).read args with
  | [none, some _] => throw (typeFault "int() missing string argument")
  | [some v, none] => readNumber v
  | [some v, some base] =>
    let base ← readBase base
    match v with
    | .text s _ => readText base s
    | _ => throw (typeFault "int() can't convert non-string with explicit base")
  | _ => pure ()
  return { typeName := "int" }

/-- An input that has to be a text, where it is given. -/
def readName (name : String) : Option Value → Except Complaint Unit
  | none | some (.text ..) => .ok ()
  | some v =>
    let typeName := match v with
      | .none => "None"
      | v => v.typeName
    .error (typeFault ("str() argument '" ++ name ++ "' must be str, not " ++ typeName))

def text : Maker := fun args => do
  match ← ({ type := "str", names := ["object", "encoding", "errors"] } : Inputs).read args with
  | [object, encoding, errors] =>
    readName "encoding" encoding
    readName "errors" errors
    if encoding.isSome || errors.isSome then
      match object with
      | none => pure ()
      | some (.text ..) => throw (typeFault "decoding str is not supported")
      | some v =>
        throw (typeFault ("decoding to str: need a bytes-like object, " ++ v.typeName ++ " found"))
  | _ => pure ()
  return { typeName := "str" }

/-- The only argument in order, where there is one. -/
def single? (type : String) (args : Arguments) : Except Complaint (Option Value) :=
  if 1 < args.positional.length then
    .error (typeFault (type ++ " expected at most 1 argument, got " ++
      toString args.positional.length))
  else .ok args.positional.head?

def sequence : Maker := fun args => do
  if !args.named.isEmpty then throw (typeFault "list() takes no keyword arguments")
  if let some v ← single? "list" args then
    let _ ← v.items
  return { typeName := "list" }

/-- An entry of a dictionary, which is a pair with a key that can be looked up. -/
def readEntry (index : Nat) (v : Value) : Except Complaint Unit :=
  match v.items? with
  | none => .error (typeFault ("cannot convert dictionary update sequence element #" ++
      toString index ++ " to a sequence"))
  | some [key, _] => if key.hashKey?.isSome then .ok () else .error Value.unhashable
  | some items => .error (valueFault ("dictionary update sequence element #" ++ toString index ++
      " has length " ++ toString items.length ++ "; 2 is required"))

def dictionary : Maker := fun args => do
  if let some v ← single? "dict" args then
    for (item, i) in (← v.items).zipIdx do readEntry i item
  return { typeName := "dict" }

/-- The types by name. -/
def types : List (String × Loadable) :=
  [("dict", dictionary), ("list", sequence), ("int", wholeNumber), ("str", text)].map
    fun (name, make) => (name, .type name make [])

end SteppedLogo.Plain
