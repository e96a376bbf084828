import SteppedLogo.Fault.Kind

namespace SteppedLogo

def immutableList : Complaint := ⟨.missingAttribute, [.text "list values are immutable"]⟩

namespace LogoList

/-- A bare list cannot say whether it is empty. -/
def isEmpty : LogoList → Except Complaint Bool
  | empty => .ok true
  | cons .. => .ok false
  | bare _ => .error ⟨.unsupported, []⟩

def head : LogoList → Except Complaint Value
  | empty => .error ⟨.value, [.text "empty list has no head"]⟩
  | cons _ head _ => .ok head
  | bare _ => .error ⟨.unsupported, []⟩

def tail : LogoList → Except Complaint LogoList
  | empty => .error ⟨.value, [.text "empty list has no tail"]⟩
  | cons _ _ tail => .ok tail
  | bare _ => .error ⟨.unsupported, []⟩

end LogoList

namespace Value

def notIterable (v : Value) : Complaint :=
  ⟨.type, [.text ("'" ++ v.typeName ++ "' object is not iterable")]⟩

def unhashable : Complaint := ⟨.type, [.text "unhashable type: 'list'"]⟩

/-- The list that a value has to be where one of its parts is asked for. -/
def listWith (part : String) : Value → Except Complaint LogoList
  | .list l => .ok l
  | v => .error ⟨.missingAttribute,
      [.text ("'" ++ v.typeName ++ "' object has no attribute '" ++ part ++ "'")]⟩

/-- Cell number `i` of a list, or of the list that is the head of a cell. -/
def cellOf (v : Value) (i : Nat) : Value :=
  match v with
  | .list l => ((l.cells[i]?).map fun c => .list (.cons c.id c.head c.tail)).getD .none
  | _ => .none

/-- Follows a path of cell numbers: each further one counts in the list at the head of the cell
    found so far. -/
def cellAt (v : Value) : List Nat → Value
  | [] => v
  | i :: rest =>
    rest.foldl (fun c k => match c with
      | .list (.cons _ head _) => head.cellOf k
      | _ => .none) (v.cellOf i)

/-- The items of a value that has any. -/
def items (v : Value) : Except Complaint (List Value) :=
  match v.items? with
  | some xs => .ok xs
  | Option.none => .error v.notIterable

/-- The number of items of a value that has any. -/
def size (v : Value) : Except Complaint Nat :=
  match v.items? with
  | some xs => .ok xs.length
  | Option.none => .error ⟨.type, [.text ("object of type '" ++ v.typeName ++ "' has no len()")]⟩

/-- The list of the items of a value, its cells numbered from `fresh` on. -/
def toList (fresh : Identity) (v : Value) : Except Complaint LogoList :=
  v.items.map fun xs => .ofList fresh (xs.mapIdx fun i x => x.identified (fresh + i))

/-- A cell in front of a list. -/
def cell (fresh : Identity) (head tail : Value) : Except Complaint LogoList :=
  match tail with
  | list tail => .ok (.cons fresh head tail)
  | _ => .error ⟨.type, [.text "tail must be a list"]⟩

end Value

end SteppedLogo
