import SteppedLogo.Trace.View

namespace SteppedLogo

/-- The node made for a cell. -/
structure CacheEntry where
  cell : Identity
  node : Identity
  deriving DecidableEq

/-- A cell that is still to be drawn, and the node of the list that it is in. -/
structure Undrawn where
  cell : Cell
  parent : Option Identity

/-- What has been drawn so far, an entry for each cell in the order in which they were drawn, and
    the first identity not used. -/
structure Drawing where
  tree : Option ViewNode := none
  entries : List CacheEntry := []
  next : Identity

namespace Drawing

/-- Enters the node made for a cell, and hangs it into the tree. -/
def place (d : Drawing) (u : Undrawn) (kind text : String) : Drawing :=
  let view := ViewNode.node d.next kind text false []
  { tree := match u.parent with
      | none => some view
      | some parent => d.tree.map (·.addChild parent view)
    entries := d.entries ++ [⟨u.cell.id, d.next⟩]
    next := d.next + 1 }

end Drawing

mutual

/-- The cells inside a value, each in front of those inside its item. A cell that is shared stands
    there as often as it occurs. -/
def Value.cellsWithin : Value → List Cell
  | .list l => l.cellsWithin
  | _ => []

def LogoList.cellsWithin : LogoList → List Cell
  | .cons id head tail => ⟨id, head, tail⟩ :: (head.cellsWithin ++ tail.cellsWithin)
  | .empty => []
  | .bare _ => []

end

/-- The cells that are drawn before the drawing gets behind a cell. -/
def Undrawn.cells (u : Undrawn) : List Cell := u.cell :: u.cell.head.cellsWithin

theorem cells_ofList (l : LogoList) (parent : Option Identity) :
    (l.cells.map (Undrawn.mk · parent)).flatMap Undrawn.cells = l.cellsWithin :=
  match l with
  | .cons _ _ tail => congrArg _ (cells_ofList tail parent)
  | .empty => rfl
  | .bare _ => rfl

/-- Draws the cells that are left, the first one first. The cells of a list come in front of the
    others, so that no nesting is too deep. -/
def draw : List Undrawn → Drawing → Drawing
  | [], d => d
  | ⟨⟨id, .list l, tail⟩, parent⟩ :: rest, d =>
    draw (l.cells.map (Undrawn.mk · (some d.next)) ++ rest)
      (d.place ⟨⟨id, .list l, tail⟩, parent⟩ ViewNode.listKind "")
  | u :: rest, d => draw rest (d.place u ViewNode.atomKind u.cell.head.display)
termination_by stack => (stack.flatMap Undrawn.cells).length
decreasing_by
  · rw [List.flatMap_append, cells_ofList, List.flatMap_cons, List.length_append, List.length_append]
    exact Nat.add_lt_add_right (Nat.lt_succ_self _) _
  · rw [List.flatMap_cons, List.length_append]
    exact Nat.lt_add_of_pos_left (Nat.succ_pos _)

/-- The body shown last, its tree, the node of each of its cells, and the marked node. -/
structure Renderer where
  body : Value := .none
  tree : Option ViewNode := none
  cache : List CacheEntry := []
  active : Option Identity := none

namespace Renderer

/-- The node made for the last occurrence of a cell. -/
def nodeOf? (r : Renderer) (cell : Identity) : Option Identity :=
  (r.cache.findRev? fun e => e.cell == cell).map CacheEntry.node

/-- The identity of the node of a value, if the value is a cell of the body. -/
def lookup? (r : Renderer) : Value → Option Identity
  | .list (.cons id _ _) => r.nodeOf? id
  | _ => none

/-- The node with the given identity in the tree rendered last. -/
def node? (r : Renderer) (id : Identity) : Option ViewNode := r.tree.bind (·.find? id)

/-- How many cells have a node; a cell that is shared counts once. -/
def size (r : Renderer) : Nat := (r.cache.map CacheEntry.cell).eraseDups.length

/-- Forgets the body and its cells; the view keeps what it shows. -/
def release (_ : Renderer) : Renderer := {}

/-- Renders `body` as the item of a cell of its own, whose identity is `fresh`. -/
def rebuild (fresh : Identity) (body : Value) : Renderer × Identity :=
  let anchor : Cell := ⟨fresh, body, .empty⟩
  let drawing := draw [⟨anchor, none⟩] { next := fresh + 1 }
  ({ body, tree := drawing.tree, cache := drawing.entries }, drawing.next)

end Renderer

/-- A renderer with the view in which it shows its trees. -/
structure Trace where
  renderer : Renderer := {}
  view : DebugView := {}
  deriving Inhabited

namespace Trace

/-- Sets or clears the marker of a node, in the rendered tree and where the view shows it. -/
def mark (t : Trace) (node : Identity) (value : Bool) : Trace :=
  { renderer := { t.renderer with tree := t.renderer.tree.map (·.setActive node value) }
    view := { t.view with root := t.view.root.map (·.setActive node value) } }

/-- Shows `body`, unless it is the very object rendered last. -/
def present (t : Trace) (fresh : Identity) (body : Value) : Trace × Identity :=
  if body.same t.renderer.body then (t, fresh)
  else
    let (renderer, next) := Renderer.rebuild fresh body
    ({ renderer, view := t.view.replace renderer.tree }, next)

/-- Moves the marker to a node of the rendered tree. -/
def moveMarker (t : Trace) (target : Identity) : Trace :=
  if t.renderer.active = some target then t
  else
    let t := match t.renderer.active with
      | some old => t.mark old false
      | none => t
    let t := t.mark target true
    { renderer := { t.renderer with active := some target }, view := t.view.touch }

/-- Shows `body` and marks the node of `cell`; a value that is no cell of the body leaves the
    marker where it is. Gives the marked node and the first identity not used. -/
def update (t : Trace) (fresh : Identity) (body cell : Value) :
    Trace × Option Identity × Identity :=
  let (t, next) := t.present fresh body
  match t.renderer.lookup? cell with
  | none => (t, none, next)
  | some target => (t.moveMarker target, some target, next)

def release (t : Trace) : Trace := { t with renderer := t.renderer.release }

end Trace

end SteppedLogo
