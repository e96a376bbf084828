import SteppedLogo.Fault.Kind

namespace SteppedLogo

/-- The arguments of a call: in order, and by name. -/
structure Arguments where
  positional : List Value := []
  named : List (String × Value) := []

/-- The inputs of a factory. The ones in `bound` are supplied before any argument, and take part
    in the count of a complaint only. -/
structure Signature where
  name : String
  bound : Nat := 0
  required : List String := []
  optional : List String := []
  anyPositional : Bool := false
  anyNamed : Bool := false

namespace Signature

def inputs (s : Signature) : List String := s.required ++ s.optional

def wrongCall (s : Signature) (text : String) : Complaint :=
  ⟨.type, [.text (s.name ++ "() " ++ text)]⟩

/-- An argument by name that no input has, or that an argument in order has taken already. -/
def namedFault? (s : Signature) (args : Arguments) : Option Complaint :=
  args.named.findSome? fun (name, _) =>
    if s.inputs.contains name then
      if (s.inputs.take args.positional.length).contains name then
        some (s.wrongCall ("got multiple values for argument '" ++ name ++ "'"))
      else none
    else if s.anyNamed then none
    else some (s.wrongCall ("got an unexpected keyword argument '" ++ name ++ "'"))

def countFault? (s : Signature) (args : Arguments) : Option Complaint :=
  let most := s.bound + s.inputs.length
  let least := s.bound + s.required.length
  let given := s.bound + args.positional.length
  if s.anyPositional || given ≤ most then none
  else
    let range :=
      if least = most then toString most else "from " ++ toString least ++ " to " ++ toString most
    some (s.wrongCall ("takes " ++ range ++ " positional argument" ++
      (if least = most && most = 1 then "" else "s") ++ " but " ++ toString given ++
      (if given = 1 then " was" else " were") ++ " given"))

/-- A list of names in running text. -/
def enumerate : List String → String
  | [] => ""
  | [a] => a
  | [a, b] => a ++ " and " ++ b
  | names => ", ".intercalate names.dropLast ++ ", and " ++ names.getLastD ""

def missingFault? (s : Signature) (args : Arguments) : Option Complaint :=
  match (s.required.drop args.positional.length).filter
      (fun name => (args.named.lookup name).isNone) with
  | [] => none
  | missing =>
    some (s.wrongCall ("missing " ++ toString missing.length ++ " required positional argument" ++
      (if missing.length = 1 then "" else "s") ++ ": " ++
      enumerate (missing.map Text.quoted)))

/-- What is wrong with the arguments, if anything is. Of several faults the one about names is told,
    then the one about their number, then the one about what is missing. -/
def fault? (s : Signature) (args : Arguments) : Option Complaint :=
  ((s.namedFault? args).or (s.countFault? args)).or (s.missingFault? args)

/-- The complaint about arguments in order that do not fit. -/
def misfit (s : Signature) (args : List Value) : Complaint :=
  (s.fault? { positional := args }).getD ⟨.type, []⟩

/-- Whether the arguments fit. -/
def check (s : Signature) (args : Arguments) : Except Complaint Unit :=
  match s.fault? args with
  | some c => .error c
  | none => .ok ()

end Signature

end SteppedLogo
