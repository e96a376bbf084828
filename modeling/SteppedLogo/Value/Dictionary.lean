import SteppedLogo.Value.Hash

namespace SteppedLogo

structure Entry (α : Type) where
  key : Value
  hash : HashKey
  val : α

/-- Entries in the order in which their keys came first. -/
structure Dictionary (α : Type) where
  entries : List (Entry α) := []

namespace Dictionary

variable {α : Type}

def holds (key : Value) (hash : HashKey) (e : Entry α) : Bool :=
  e.key.same key || (e.hash.agrees hash && e.key.equal key)

def insertInto (key : Value) (hash : HashKey) (val : α) : List (Entry α) → List (Entry α)
  | [] => [⟨key, hash, val⟩]
  | e :: rest =>
    if holds key hash e then { e with val } :: rest else e :: insertInto key hash val rest

/-- Gives a key a value; a key that is there already keeps its place. A key without a hash key is
    refused. -/
def insert? (d : Dictionary α) (key : Value) (val : α) : Option (Dictionary α) :=
  key.hashKey?.map fun hash => ⟨insertInto key hash val d.entries⟩

/-- The outer option is empty when the key has no hash key. -/
def get? (d : Dictionary α) (key : Value) : Option (Option α) :=
  key.hashKey?.map fun hash => (d.entries.find? (holds key hash)).map Entry.val

def size (d : Dictionary α) : Nat := d.entries.length

def toList (d : Dictionary α) : List α := d.entries.map Entry.val

end Dictionary

end SteppedLogo
