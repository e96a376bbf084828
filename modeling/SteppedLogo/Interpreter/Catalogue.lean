import SteppedLogo.Interpreter.Loadable

namespace SteppedLogo

/-- A module with its full name; a package may have further modules under its own name. -/
structure Module where
  name : String
  isPackage : Bool := false
  members : List (String × Loadable) := []

abbrev Catalogue := List Module

namespace Catalogue

def moduleMissing (name : String) (remark : String) : Complaint :=
  ⟨.moduleMissing, [.text ("No module named " ++ Text.quoted name ++ remark)]⟩

/-- Imports the parts of a module's name one after the other; `parent` is the package so far. -/
def importFrom (c : Catalogue) : (parent : Module) → List String → Except Complaint Module
  | parent, [] => .ok parent
  | parent, part :: rest =>
    let name := parent.name ++ "." ++ part
    if !parent.isPackage then
      .error (moduleMissing name ("; " ++ Text.quoted parent.name ++ " is not a package"))
    else match c.find? (·.name == name) with
      | none => .error (moduleMissing name "")
      | some m => importFrom c m rest

def relativeImport (name : String) : Complaint :=
  ⟨.type, [.text ("the 'package' argument is required to perform a relative import for " ++
    Text.quoted name)]⟩

def importModule (c : Catalogue) (name : String) : Except Complaint Module :=
  if name.startsWith "." then .error (relativeImport name)
  else match name.splitOn "." with
    | [] => .error (moduleMissing name "")
    | first :: rest =>
      match c.find? (·.name == first) with
      | none => .error (moduleMissing first "")
      | some m => importFrom c m rest

/-- The target's parts before and behind its first colon, neither of which may be empty. -/
def splitTarget? (target : String) : Option (String × String) :=
  match target.splitOn ":" with
  | [] | [_] => none
  | name :: rest =>
    let path := ":".intercalate rest
    if name.isEmpty || path.isEmpty then none else some (name, path)

def malformedTarget (target : String) : Complaint :=
  ⟨.value, [.text ("interpreter must look like 'module:factory', got " ++ Text.quoted target)]⟩

def notAnInterpreter (target typeName : String) : Complaint :=
  ⟨.type, [.text (target ++ " did not produce an interpreter (got " ++ typeName ++ ")")]⟩

/-- A target comes before all arguments, none of which may be named like it. -/
def loading : Signature :=
  { name := "load_interpreter", required := ["target"], anyPositional := true, anyNamed := true }

/-- Makes the interpreter that a target names. -/
def load (c : Catalogue) (target : String) (args : Arguments := {}) :
    Except Complaint Product := do
  loading.check { args with positional := .text target :: args.positional }
  match splitTarget? target with
  | none => .error (malformedTarget target)
  | some (name, path) =>
    let m ← c.importModule name
    let factory ← (Loadable.module m.name m.members).follow (path.splitOn ".")
    let product ← factory.call args
    if product.isInterpreter then .ok product
    else .error (notAnInterpreter target product.typeName)

end Catalogue

end SteppedLogo
