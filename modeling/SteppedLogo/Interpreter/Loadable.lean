import SteppedLogo.Interpreter.Basic
import SteppedLogo.Value.Access

namespace SteppedLogo

/-- What a call makes of its arguments. -/
abbrev Maker := Arguments → Except Complaint Product

/-- Something that a path can lead to. -/
inductive Loadable where
  | module (name : String) (members : List (String × Loadable))
  /-- a type, which is a factory of its objects -/
  | type (name : String) (make : Maker) (members : List (String × Loadable))
  | function (make : Maker)
  | object (typeName : String)

def typeFault (text : String) : Complaint := ⟨.type, [.text text]⟩

namespace Loadable

/-- A function whose arguments have to fit a signature. -/
def ofSignature (s : Signature) (make : Maker) : Loadable :=
  .function fun args => do
    s.check args
    make args

/-- A method of an object, which takes no arguments. -/
def method (name resultType : String) : Loadable :=
  .function fun args =>
    if !args.named.isEmpty then .error (typeFault (name ++ "() takes no keyword arguments"))
    else if !args.positional.isEmpty then
      .error (typeFault (name ++ "() takes no arguments (" ++ toString args.positional.length ++
        " given)"))
    else .ok { typeName := resultType }

/-- The members of a whole number. -/
def ofNumber? (name : String) : Option Loadable :=
  if ["real", "imag", "numerator", "denominator"].contains name then some (.object "int")
  else if ["bit_length", "bit_count", "conjugate"].contains name then
    some (method ("int." ++ name) "int")
  else none

/-- The texts that tell of an object. -/
def labels : Loadable → List String
  | .module .. => ["__name__", "__package__"]
  | .type .. | .function .. => ["__name__", "__qualname__", "__module__"]
  | .object .. => []

def noMember (owner name : String) : Complaint :=
  ⟨.missingAttribute, [.text (owner ++ " has no attribute '" ++ name ++ "'")]⟩

def member (e : Loadable) (name : String) : Except Complaint Loadable :=
  if e.labels.contains name then .ok (.object "str")
  else
    let (owner, found) : String × Option Loadable := match e with
      | .module owner members => ("module '" ++ owner ++ "'", members.lookup name)
      | .type owner _ members => ("type object '" ++ owner ++ "'", members.lookup name)
      | .function _ => ("'function' object", none)
      | .object typeName =>
        ("'" ++ typeName ++ "' object", if typeName = "int" then ofNumber? name else none)
    match found with
    | some e => .ok e
    | none => .error (noMember owner name)

/-- Follows a path of names. -/
def follow (e : Loadable) (path : List String) : Except Complaint Loadable := path.foldlM member e

def notCallable (typeName : String) : Complaint :=
  typeFault ("'" ++ typeName ++ "' object is not callable")

def call (e : Loadable) (args : Arguments) : Except Complaint Product :=
  match e with
  | .module .. => .error (notCallable "module")
  | .object typeName => .error (notCallable typeName)
  | .type _ make _ | .function make => make args

/-- A function of a type, which takes an object of the type first. -/
def unbound (owner name : String) (required optional : List String) (resultType : String) :
    String × Loadable :=
  (name, ofSignature { name := owner ++ "." ++ name, required := "self" :: required, optional }
    fun _ => .ok { typeName := resultType })

/-- A type of interpreters, made without arguments. All that it does but running a source is
    defined in the type `base`. -/
def interpreters (name base : String) (i : Interpreter) : Loadable :=
  .type name
    (fun args => do
      ({ name := base ++ ".__init__", bound := 1 } : Signature).check args
      return .ofInterpreter name i)
    [unbound base "__init__" [] [] "NoneType", unbound base "bind_values" ["values"] [] "NoneType",
     unbound base "request_break" [] ["reason"] "NoneType",
     unbound name "execute" ["source"] [] "coroutine"]

/-- A type of errors, which are made of any arguments in order. -/
def errors (name : String) : Loadable :=
  .type name
    (fun args =>
      if args.named.isEmpty then .ok { typeName := name }
      else .error (typeFault (name ++ "() takes no keyword arguments")))
    []

/-- A type of other objects, which are made without arguments. -/
def bareObjects (name : String) (members : List (String × Loadable) := []) : Loadable :=
  .type name
    (fun args =>
      if args.positional.isEmpty && args.named.isEmpty then .ok { typeName := name }
      else .error (typeFault (name ++ "() takes no arguments")))
    members

/-- Something that tells why it cannot be called. -/
def uncallable (why : String) : Loadable := .function fun _ => .error (typeFault why)

/-- A type that only describes another one. -/
def generic (name : String) : Loadable :=
  uncallable ("Type " ++ name ++ " cannot be instantiated; use " ++ name.toLower ++ "() instead")

/-- The type of the lists of the language. -/
def lists : Loadable :=
  let made (l : LogoList) : Except Complaint Product := .ok { typeName := (Value.list l).typeName }
  .type "List"
    (fun args =>
      if args.positional.isEmpty && args.named.isEmpty then made (.bare 0)
      else .error (typeFault "List() takes no arguments"))
    [("of", ofSignature { name := "List.of", anyPositional := true } fun args =>
        made (.ofList 0 args.positional)),
     ("from_iterable", ofSignature { name := "List.from_iterable", required := ["values"] }
        fun args => do
          made (← ((args.positional ++ args.named.map Prod.snd).headD .none).toList 0)),
     unbound "List" "is_empty" [] [] "bool", unbound "List" "cells" [] [] "generator",
     ("head", .object "property"), ("tail", .object "property")]

end Loadable

end SteppedLogo
