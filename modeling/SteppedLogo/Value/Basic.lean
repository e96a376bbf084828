
namespace SteppedLogo

/-- Names one object: two objects are the same exactly when their identities agree. -/
abbrev Identity := Nat

mutual

/-- A dynamic value. A `sequence` is the host's own kind of list, no list of the language. A
    number or text of identity 0 is one object with all that are equal to it. -/
inductive Value
  | none
  | bool (b : Bool)
  | int (n : Int) (id : Identity := 0)
  | float (x : Float) (id : Identity := 0)
  | text (s : String) (id : Identity := 0)
  | list (l : LogoList)
  | sequence (id : Identity) (items : List Value)
  | object (id : Identity) (name : String)
  | procedure (id : Identity) (name : String)

/-- A chain of cells that ends in the empty list, or in a `bare` list, which has no items and is
    not the empty list either. -/
inductive LogoList
  | empty
  | bare (id : Identity)
  | cons (id : Identity) (head : Value) (tail : LogoList)

end

instance : Inhabited Value := ⟨.none⟩

instance : Inhabited LogoList := ⟨.empty⟩

/-- One cell of a list: its identity, its item, and the cells behind it. -/
structure Cell where
  id : Identity
  head : Value
  tail : LogoList

namespace LogoList

/-- The cells of a list, front to back. -/
def cells : LogoList → List Cell
  | cons id head tail => ⟨id, head, tail⟩ :: tail.cells
  | _ => []

/-- The items of a list, front to back. -/
def items : LogoList → List Value
  | cons _ head tail => head :: tail.items
  | _ => []

def length (l : LogoList) : Nat := l.items.length

/-- A list of the given items, whose cells take the identities from `fresh` on. -/
def ofList (fresh : Identity) : List Value → LogoList
  | [] => empty
  | x :: xs => cons fresh x (ofList (fresh + 1) xs)

/-- Whether two lists are one object; there is only one empty list. -/
def same : LogoList → LogoList → Bool
  | empty, empty => true
  | bare i, bare j => i == j
  | cons i _ _, cons j _ _ => i == j
  | _, _ => false

@[simp]
theorem items_ofList (fresh : Identity) (xs : List Value) : (ofList fresh xs).items = xs := by
  induction xs generalizing fresh with
  | nil => rfl
  | cons x xs ih => simp [ofList, items, ih]

theorem cells_map_head : (l : LogoList) → l.cells.map Cell.head = l.items
  | cons _ _ tail => by simp [cells, items, cells_map_head tail]
  | empty => rfl
  | bare _ => rfl

end LogoList

namespace Value

/-- Whether two values are one object. -/
def same : Value → Value → Bool
  | none, none => true
  | bool a, bool b => a == b
  | int a i, int b j => i == j && a == b
  | float a i, float b j => i == j && a.toBits == b.toBits
  | text a i, text b j => i == j && a == b
  | list a, list b => a.same b
  | sequence i _, sequence j _ => i == j
  | object i _, object j _ => i == j
  | procedure i _, procedure j _ => i == j
  | _, _ => false

/-- Small whole numbers, the empty text and texts of one character below 256 are one object each. -/
def isShared : Value → Bool
  | int n _ => -5 ≤ n && n ≤ 256
  | text s _ =>
    match s.toList with
    | [] => true
    | [c] => c.toNat < 256
    | _ => false
  | _ => false

/-- A number or text without an identity as an object of its own, unless it is shared. -/
def identified (id : Identity) (v : Value) : Value :=
  if v.isShared then v
  else match v with
    | int n 0 => int n id
    | float x 0 => float x id
    | text s 0 => text s id
    | v => v

/-- What counts as true: anything but nothing, zero, and what is empty. -/
def truthy : Value → Bool
  | none => false
  | bool b => b
  | int n _ => n != 0
  | float x _ => x != 0.0
  | text s _ => s != ""
  | list l => l.length != 0
  | sequence _ items => !items.isEmpty
  | object .. | procedure .. => true

/-- The name of a value's type, as messages give it. -/
def typeName : Value → String
  | none => "NoneType"
  | bool _ => "bool"
  | int .. => "int"
  | float .. => "float"
  | text .. => "str"
  | list .empty => "Empty"
  | list (.bare _) => "List"
  | list (.cons ..) => "Cons"
  | sequence .. => "list"
  | object .. => "Opaque"
  | procedure .. => "Fn"

/-- The items that a value gives when it is taken apart: the characters of a text, the items of
    a list or sequence. -/
def items? : Value → Option (List Value)
  | text s _ => some (s.toList.map fun c => text (String.singleton c))
  | list l => some l.items
  | sequence _ items => some items
  | _ => Option.none

end Value

end SteppedLogo
