import SteppedLogo.Fault.Kind

namespace SteppedLogo

/-- A named handler with its other names. -/
structure Command (H : Type) where
  name : String
  description : String
  handler : H
  aliases : List String := []

namespace Command

variable {H : Type}

/-- The names under which a command is found, its own first. -/
def keys (c : Command H) : List String := c.name :: c.aliases

/-- The name in twelve columns and the description. -/
def help (c : Command H) : String :=
  c.name ++ String.ofList (List.replicate (12 - c.name.length) ' ') ++ " " ++ c.description

end Command

/-- Accepted commands in order, and the owner of each key in the order of first use. -/
structure Registry (H : Type) where
  commands : List (Command H) := []
  owners : List (String × Command H) := []

namespace Registry

variable {H : Type}

def get? (r : Registry H) (key : String) : Option (Command H) := r.owners.lookup key

/-- Gives a key an owner; a key that has one keeps its place. -/
def assign (key : String) (c : Command H) : List (String × Command H) → List (String × Command H)
  | [] => [(key, c)]
  | (k, d) :: rest => if k = key then (k, c) :: rest else (k, d) :: assign key c rest

def alreadyRegistered (key : String) : Complaint :=
  ⟨.value, [.text ("command " ++ Text.quoted key ++ " already registered")]⟩

end Registry

/-- A registration under way. -/
abbrev RegistryM (H : Type) := EStateM Complaint (Registry H)

namespace RegistryM

variable {H : Type}

/-- Refuses a key that has an owner. -/
def ensureFree (key : String) : RegistryM H Unit := do
  if ((← get).get? key).isSome then throw (Registry.alreadyRegistered key)

def addCommand (c : Command H) : RegistryM H Unit :=
  modify fun r => { r with commands := r.commands ++ [c] }

def giveKey (c : Command H) (key : String) : RegistryM H Unit :=
  modify fun r => { r with owners := Registry.assign key c r.owners }

/-- Adds a command. Each of its keys is looked at before the first one is given to it. -/
def register (c : Command H) : RegistryM H Unit := do
  c.keys.forM ensureFree
  addCommand c
  giveKey c c.name
  c.aliases.forM (giveKey c)

end RegistryM

namespace Registry

variable {H : Type}

/-- Adds a command unless one of its keys is taken. -/
def register (r : Registry H) (c : Command H) : Except Complaint (Registry H) :=
  match (RegistryM.register c).run r with
  | .ok () r => .ok r
  | .error complaint _ => .error complaint

/-- All keys, sorted by code point. -/
def names (r : Registry H) : List String := (r.owners.map Prod.fst).mergeSort (· ≤ ·)

/-- The handler behind each key. -/
def bindings (r : Registry H) : List (String × H) :=
  r.owners.map fun (key, c) => (key, c.handler)

/-- The registry of a list of commands; those that clash with an earlier one are left out. -/
def ofCommands (cs : List (Command H)) : Registry H :=
  cs.foldl (fun r c => (r.register c).toOption.getD r) {}

end Registry

end SteppedLogo
