import SteppedLogo.Proofs.Trace.Drawn

namespace SteppedLogo.ViewNode

theorem written_nil (mark : Bool) : written mark [] = [] := by
  rw [written]

theorem written_text (mark : Bool) (s : String) (rest : List Piece) : written mark (.text s :: rest) =
    s :: written mark rest := by
  rw [written]

theorem written_node (mark : Bool) (i : Identity) (kind text : String) (active : Bool) (children : List ViewNode)
    (rest : List Piece) : written mark (.node (.node i kind text active children) :: rest) = opening mark active ++
      if kind = listKind then "[" :: written mark (spaced children ++ .text ("]" ++ closing mark active) :: rest)
      else (text ++ closing mark active) :: written mark rest := by
  rw [written]

/-- What stands on the stack is written piece by piece: the pieces in front do not look at those behind. -/
theorem written_append (mark : Bool) (front back : List Piece) :
    written mark (front ++ back) = written mark front ++ written mark back := by
  fun_induction written mark front with
  | case1 => rfl
  | case2 s rest ih => rw [List.cons_append, written_text, ih, List.cons_append]
  | case3 i kind text active children rest ihlist ihatom =>
    rw [List.cons_append, written_node, List.append_assoc]
    congr 1
    split
    · rw [← List.cons_append, ← List.append_assoc, ihlist, List.cons_append]
    · rw [ihatom, List.cons_append]

/-- The texts of the children of a list with blanks between them. -/
theorem join_written_spaced (mark : Bool) (children : List ViewNode) :
    String.join (written mark (spaced children)) = " ".intercalate (children.map (toText mark)) := by
  induction children with
  | nil => simp [spaced, written_nil]
  | cons n rest ih =>
    cases rest with
    | nil => simp [spaced, toText]
    | cons m rest =>
      have hsplit : spaced (n :: m :: rest) = [.node n] ++ ([.text " "] ++ spaced (m :: rest)) := rfl
      rw [hsplit, written_append, written_append, String.join_append, String.join_append, ih, written_text, written_nil]
      simp [toText, String.append_assoc]

/-- The text of a tree by recursion: a list shows its children in brackets, anything else its own text, and what an
    active node shows stands between marks. -/
theorem toText_node (mark : Bool) (i : Identity) (kind text : String) (active : Bool) (children : List ViewNode) :
    (node i kind text active children).toText mark = String.join (opening mark active) ++
      (if kind = listKind then "[" ++ " ".intercalate (children.map (toText mark)) ++ "]" else text) ++ closing mark active := by
  rw [toText, written_node, String.join_append]
  split
  · rw [written_append, written_text, written_nil]
    simp [join_written_spaced, String.append_assoc]
  · simp [written_nil, String.append_assoc]

/-- Marks do not show in the plain text. -/
@[simp]
theorem toText_setActive (target : Identity) (value : Bool) (n : ViewNode) :
    (n.setActive target value).toText false = n.toText false := by
  induction n using ofChildren with
  | node i kind text active children ih =>
    have hchildren : (children.map (setActive target value)).map (toText false) = children.map (toText false) := by
      rw [List.map_map]
      exact List.map_congr_left ih
    rw [setActive_node, toText_node, toText_node, hchildren]
    rfl

mutual

/-- The plain text of a rendering is the text of the value. -/
theorem toText_drawn (fresh : Identity) : (v : Value) → (v.drawn fresh).toText false = v.display
  | .list l => by
    rw [Value.drawn, toText_node, toText_drawnItems (fresh + 1) l, if_pos rfl, Value.display]
    simp [opening, closing]
  | .none | .bool _ | .int .. | .float .. | .text .. | .sequence .. | .object .. | .procedure .. => by
    rw [Value.drawn, toText_node, if_neg (by decide)]
    · simp [opening, closing]
    · intro l hlist
      cases hlist

theorem toText_drawnItems (fresh : Identity) : (l : LogoList) → (l.drawnItems fresh).map (toText false) = l.itemDisplays
  | .cons _ head tail => by
    rw [LogoList.drawnItems, List.map_cons, toText_drawn fresh head, toText_drawnItems _ tail, LogoList.itemDisplays]
  | .empty => rfl
  | .bare _ => rfl

end

mutual

/-- The nodes of a tree that its text shows, each in front of those inside it. -/
def shown : ViewNode → List ViewNode
  | node i kind text active children =>
    node i kind text active children :: if kind = listKind then shownOf children else []

def shownOf : List ViewNode → List ViewNode
  | [] => []
  | n :: rest => n.shown ++ shownOf rest

end

theorem shownOf_eq (ns : List ViewNode) : shownOf ns = ns.flatMap shown := by
  induction ns with
  | nil => rfl
  | cons n rest ih => simp [shownOf, ih]

theorem shown_node (i : Identity) (kind text : String) (active : Bool) (children : List ViewNode) :
    (node i kind text active children).shown =
      node i kind text active children :: if kind = listKind then children.flatMap shown else [] := by
  rw [shown, shownOf_eq]

theorem shown_setActive (target : Identity) (value : Bool) (n : ViewNode) :
    (n.setActive target value).shown = n.shown.map (setActive target value) := by
  induction n using ofChildren with
  | node i kind text active children ih =>
    rw [shown_node, setActive_node, shown_node, List.map_cons, setActive_node]
    congr 1
    split
    · rw [List.map_flatMap, List.flatMap_map]
      exact List.flatMap_congr ih
    · rfl

mutual

/-- The text of a rendering shows all its nodes, for an atom has none inside it. -/
theorem shown_drawn (fresh : Identity) : (v : Value) → (v.drawn fresh).shown = (v.drawn fresh).nodes
  | .list l => by rw [Value.drawn, shown_node, if_pos rfl, shown_drawnItems (fresh + 1) l, nodes_node]
  | .none | .bool _ | .int .. | .float .. | .text .. | .sequence .. | .object .. | .procedure .. => rfl

theorem shown_drawnItems (fresh : Identity) :
    (l : LogoList) → (l.drawnItems fresh).flatMap shown = (l.drawnItems fresh).flatMap nodes
  | .cons _ head tail => by
    rw [LogoList.drawnItems, List.flatMap_cons, List.flatMap_cons, shown_drawn fresh head, shown_drawnItems _ tail]
  | .empty => rfl
  | .bare _ => rfl

end

/-- The nodes that a piece shows. -/
def Piece.shown : Piece → List ViewNode
  | node n => n.shown
  | text _ => []

theorem shown_spaced (children : List ViewNode) : (spaced children).flatMap Piece.shown = children.flatMap shown := by
  induction children with
  | nil => rfl
  | cons n rest ih =>
    cases rest with
    | nil => rfl
    | cons m rest =>
      rw [spaced_cons_cons, List.flatMap_cons, List.flatMap_cons, ih, List.flatMap_cons]
      rfl

/-- Where nothing that is shown is active, there are no marks. -/
theorem written_of_none_active {pieces : List Piece} (h : (pieces.flatMap Piece.shown).filter isActive = []) :
    written true pieces = written false pieces := by
  fun_induction written true pieces with
  | case1 => rw [written_nil]
  | case2 s rest ih =>
    rw [ih h, written_text]
  | case3 i kind text active children rest ihlist ihatom =>
    rw [List.flatMap_cons, Piece.shown, shown_node, List.cons_append] at h
    have hactive : active = false := by
      cases active with
      | false => rfl
      | true =>
        rw [List.filter_cons_of_pos rfl] at h
        cases h
    subst hactive
    rw [List.filter_cons_of_neg (by simp [isActive])] at h
    rw [written_node]
    congr 1
    split
    · next hkind =>
      rw [if_pos hkind] at h
      refine congrArg _ (ihlist ?_)
      rw [List.flatMap_append, shown_spaced, List.flatMap_cons]
      exact h
    · next hkind =>
      rw [if_neg hkind] at h
      exact congrArg _ (ihatom h)

theorem toText_of_none_active {n : ViewNode} (h : n.shown.filter isActive = []) : n.toText true = n.toText false := by
  rw [toText, written_of_none_active (by simpa [Piece.shown] using h), toText]

/-- An active node stands between marks. -/
theorem toText_of_active {n : ViewNode} (hactive : n.isActive = true) (hinside : n.shown.tail.filter isActive = []) :
    n.toText true = ">>" ++ n.toText false ++ "<<" := by
  obtain ⟨i, kind, text, active, children⟩ := n
  obtain rfl : active = true := hactive
  rw [shown_node, List.tail_cons] at hinside
  have hchildren : kind = listKind → children.map (toText true) = children.map (toText false) := by
    intro hkind
    rw [if_pos hkind, List.filter_eq_nil_iff] at hinside
    refine List.map_congr_left fun n hn => toText_of_none_active (List.filter_eq_nil_iff.2 fun m hm => ?_)
    exact hinside m (List.mem_flatMap_of_mem hn hm)
  rw [toText_node, toText_node]
  split
  · next hkind => simp [opening, closing, hchildren hkind, String.append_assoc]
  · simp [opening, closing, String.append_assoc]

end SteppedLogo.ViewNode
