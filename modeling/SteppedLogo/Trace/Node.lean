import SteppedLogo.Value.Text

namespace SteppedLogo

/-- A node of a view tree, with an identity of its own. -/
inductive ViewNode
  | node (id : Identity) (kind text : String) (active : Bool) (children : List ViewNode)

instance : Inhabited ViewNode := ⟨.node 0 "" "" false []⟩

/-- A style of text, by the classes that it names, and a text in this style. -/
abbrev Fragment := String × String

namespace ViewNode

def listKind : String := "list"

def atomKind : String := "atom"

def id : ViewNode → Identity
  | node id _ _ _ _ => id

def kind : ViewNode → String
  | node _ kind _ _ _ => kind

def label : ViewNode → String
  | node _ _ text _ _ => text

def isActive : ViewNode → Bool
  | node _ _ _ active _ => active

def children : ViewNode → List ViewNode
  | node _ _ _ _ children => children

/-- What is still to be written of a tree: a node with all that is in it, or a text. -/
inductive Piece
  | node (n : ViewNode)
  | text (s : String)

mutual

/-- How many pieces a node comes apart into, itself included. -/
def weight : ViewNode → Nat
  | node _ _ _ _ children => 2 + weightOf children

def weightOf : List ViewNode → Nat
  | [] => 0
  | n :: rest => n.weight + 1 + weightOf rest

end

def Piece.weight : Piece → Nat
  | node n => n.weight
  | text _ => 1

/-- How many pieces are written until none of these is left. -/
def Piece.weights : List Piece → Nat
  | [] => 0
  | p :: rest => p.weight + weights rest

theorem Piece.weights_append (front back : List Piece) : weights (front ++ back) = weights front + weights back := by
  induction front with
  | nil => exact (Nat.zero_add _).symm
  | cons p rest ih => rw [List.cons_append, weights, weights, ih, Nat.add_assoc]

/-- The children of a list with blanks between them. -/
def spaced (children : List ViewNode) : List Piece :=
  (children.map Piece.node).intersperse (.text " ")

theorem spaced_cons_cons (n m : ViewNode) (rest : List ViewNode) :
    spaced (n :: m :: rest) = .node n :: .text " " :: spaced (m :: rest) := rfl

theorem weights_spaced (children : List ViewNode) : Piece.weights (spaced children) ≤ weightOf children := by
  induction children with
  | nil => exact Nat.le_refl 0
  | cons n rest ih =>
    cases rest with
    | nil =>
      have hone : Piece.weights (spaced [n]) = n.weight := rfl
      rw [hone, weightOf]
      omega
    | cons m rest =>
      rw [spaced_cons_cons, weightOf, Piece.weights, Piece.weights, Piece.weight, Piece.weight]
      omega

/-- The marks around what an active node shows, where they are wanted. -/
def opening (mark active : Bool) : List String := if mark && active then [">>"] else []

def closing (mark active : Bool) : String := if mark && active then "<<" else ""

/-- Writes the pieces that are left, the first one first. A list is taken apart in front of the
    others, so that no nesting is too deep. -/
def written (mark : Bool) : List Piece → List String
  | [] => []
  | .text s :: rest => s :: written mark rest
  | .node (.node _ kind text active children) :: rest =>
    opening mark active ++
      if kind = listKind then
        "[" :: written mark (spaced children ++ .text ("]" ++ closing mark active) :: rest)
      else (text ++ closing mark active) :: written mark rest
termination_by pieces => Piece.weights pieces
decreasing_by
  · rw [Piece.weights, Piece.weight]
    omega
  · have hspaced := weights_spaced children
    rw [Piece.weights_append, Piece.weights, Piece.weights, Piece.weight, Piece.weight, ViewNode.weight]
    omega
  · rw [Piece.weights, Piece.weight, ViewNode.weight]
    omega

/-- The text of a tree; with `mark`, active nodes stand between marks. -/
def toText (mark : Bool) (n : ViewNode) : String := String.join (written mark [.node n])

/-- A style with one more class. -/
def addClass (style name : String) : String :=
  if style = "" then "class:" ++ name else style ++ " class:" ++ name

/-- The style inside a node: lists and active nodes add a class each. -/
def styleInside (style kind : String) (active : Bool) : String :=
  let style := if kind = listKind then addClass style "list" else style
  if active then addClass style "active" else style

/-- Writes the pieces that are left as styled fragments, each with the style that it is to have. What is in a list comes
    in front of the others, in the style inside the list. -/
def painted : List (Piece × String) → List Fragment
  | [] => []
  | (.text s, style) :: rest => (style, s) :: painted rest
  | (.node (.node _ kind text active children), style) :: rest =>
    let style := styleInside style kind active
    if kind = listKind then
      (style, "[") :: painted ((spaced children).map (·, style) ++ (.text "]", style) :: rest)
    else (style, text) :: painted rest
termination_by pieces => Piece.weights (pieces.map Prod.fst)
decreasing_by
  · rw [List.map_cons, Piece.weights, Piece.weight]
    omega
  · have hspaced := weights_spaced children
    have hpieces (style : String) : (((spaced children).map (·, style)).map Prod.fst) = spaced children := by
      rw [List.map_map]
      exact List.map_id _
    rw [List.map_append, hpieces, List.map_cons, List.map_cons, Piece.weights_append, Piece.weights, Piece.weights, Piece.weight,
      Piece.weight, ViewNode.weight]
    omega
  · rw [List.map_cons, Piece.weights, Piece.weight, ViewNode.weight]
    omega

/-- The tree as styled fragments; a node's classes reach everything inside it. -/
def fragments (n : ViewNode) : List Fragment := painted [(.node n, "")]

mutual

/-- Sets the marker of the node with the given identity. -/
def setActive (target : Identity) (value : Bool) : ViewNode → ViewNode
  | node id kind text active children =>
    node id kind text (if id = target then value else active)
      (setActiveAll target value children)

def setActiveAll (target : Identity) (value : Bool) : List ViewNode → List ViewNode
  | [] => []
  | n :: rest => n.setActive target value :: setActiveAll target value rest

end

mutual

/-- Puts a node behind the children of the node with the given identity. -/
def addChild : ViewNode → (parent : Identity) → (child : ViewNode) → ViewNode
  | node id kind text active children, parent, child =>
    let inside := addChildToAll children parent child
    node id kind text active (if id = parent then inside ++ [child] else inside)

def addChildToAll : List ViewNode → (parent : Identity) → (child : ViewNode) → List ViewNode
  | [], _, _ => []
  | n :: rest, parent, child => n.addChild parent child :: addChildToAll rest parent child

end

mutual

/-- The node with the given identity, if it is in the tree. -/
def find? (target : Identity) : ViewNode → Option ViewNode
  | node id kind text active children =>
    if id = target then some (node id kind text active children) else findIn? target children

def findIn? (target : Identity) : List ViewNode → Option ViewNode
  | [] => none
  | n :: rest => (n.find? target).or (findIn? target rest)

end

end ViewNode

end SteppedLogo
