import SteppedLogo.Proofs.Program.Planned
import SteppedLogo.Proofs.Trace.Shown

namespace SteppedLogo

open LogoList (ofWords)

variable {fresh next anchor : Identity} {texts behind : List String} {place : Nat} {word : String} {t : Trace}

namespace LogoList

theorem cellsWithin_ofWords (fresh : Identity) (texts : List String) :
    (ofWords fresh texts).cellsWithin = (ofWords fresh texts).cells := by
  induction texts generalizing fresh with
  | nil => rfl
  | cons text rest ih => exact congrArg _ (ih (fresh + 1))

theorem ids_ofWords (fresh : Identity) (texts : List String) :
    (ofWords fresh texts).cells.map Cell.id = List.range' fresh texts.length := by
  induction texts generalizing fresh with
  | nil => rfl
  | cons text rest ih => exact congrArg _ (ih (fresh + 1))

theorem display_ofWords (fresh : Identity) (texts : List String) :
    (Value.list (ofWords fresh texts)).display = "[" ++ " ".intercalate texts ++ "]" := by
  have hitems : (ofWords fresh texts).itemDisplays = texts := by
    induction texts generalizing fresh with
    | nil => rfl
    | cons text rest ih => exact congrArg _ (ih (fresh + 1))
  rw [Value.display, hitems]

/-- The cell of a word, with the cells in front of it and behind it. -/
theorem cellsWithin_split (hplace : texts.drop place = word :: behind) : ∃ front back,
    (ofWords fresh texts).cellsWithin = front ++ ⟨fresh + place, .text word, ofWords (fresh + place + 1) behind⟩ :: back ∧
      front.length = place ∧ ∀ c ∈ back, c.id ≠ fresh + place := by
  refine ⟨(ofWords fresh texts).cells.take place, (ofWords (fresh + place + 1) behind).cells, ?_, ?_, fun c hc => ?_⟩
  · rw [cellsWithin_ofWords]
    conv_lhs => rw [← List.take_append_drop place (ofWords fresh texts).cells, drop_cells_ofWords, hplace]
    rfl
  · rw [List.length_take, length_cells_ofWords]
    have hlength := congrArg List.length hplace
    rw [List.length_drop, List.length_cons] at hlength
    omega
  · have hid := List.mem_map_of_mem (f := Cell.id) hc
    rw [ids_ofWords, List.mem_range'_1] at hid
    exact Nat.ne_of_gt hid.1

end LogoList

/-- The text of a body of words in which the one at `place` stands between marks. -/
def highlighted (texts : List String) (place : Nat) : String :=
  "[" ++ " ".intercalate (texts.mapIdx fun i text => if i = place then ">>" ++ text ++ "<<" else text) ++ "]"

/-- The words of a body as they are written once the node `target` is marked. -/
theorem toText_marked_words (first target fresh : Identity) (texts : List String) :
    ((ofWords fresh texts).drawnItems first).map (fun n => (n.setActive target true).toText true) =
      texts.mapIdx fun i text => if first + i = target then ">>" ++ text ++ "<<" else text := by
  induction texts generalizing first fresh with
  | nil => rfl
  | cons text rest ih =>
    have hrest := ih (first + 1) (fresh + 1)
    rw [List.mapIdx_cons]
    change _ :: ((ofWords (fresh + 1) rest).drawnItems (first + 1)).map _ = _
    rw [hrest]
    congr 1
    · change (((Value.text text).drawn first).setActive target true).toText true = _
      have hatom : (Value.text text).drawn first = .node first ViewNode.atomKind text false [] := rfl
      have hkind : ViewNode.atomKind ≠ ViewNode.listKind := by decide
      rw [hatom, ViewNode.setActive_node, ViewNode.toText_node, if_neg hkind]
      by_cases hfirst : first = target <;> simp [hfirst, ViewNode.opening, ViewNode.closing]
    · simp only [Nat.add_assoc, Nat.add_comm 1]

namespace Renderer

theorem toText_highlighted (anchor fresh : Identity) (texts : List String) (place : Nat) :
    (treeOf anchor (ofWords fresh texts) (some (anchor + 2 + place))).toText true = highlighted texts place := by
  have hlist : (Value.list (ofWords fresh texts)).drawn (anchor + 1) =
      .node (anchor + 1) ViewNode.listKind "" false ((ofWords fresh texts).drawnItems (anchor + 2)) := rfl
  have hne : anchor + 1 ≠ anchor + 2 + place := Nat.ne_of_lt (by omega)
  rw [treeOf, ViewNode.markedAt, hlist, ViewNode.setActive_node, ViewNode.toText_node, if_pos rfl, if_neg hne,
    List.map_map, highlighted]
  change _ ++ ("[" ++ " ".intercalate (((ofWords fresh texts).drawnItems (anchor + 2)).map fun n =>
    (n.setActive (anchor + 2 + place) true).toText true) ++ "]") ++ _ = _
  rw [toText_marked_words]
  simp only [Nat.add_left_cancel_iff, ViewNode.opening, ViewNode.closing, Bool.and_false]
  simp

end Renderer

namespace Trace

/-- The trace has rendered a body of words, its view shows that, and the marker is at the word at `place`. -/
def PointsAt (t : Trace) (fresh : Identity) (texts : List String) (place : Nat) : Prop :=
  ∃ anchor, fresh + texts.length ≤ anchor ∧
    t.renderer = .showing anchor (ofWords fresh texts) (some (anchor + 2 + place)) ∧
    t.view.root = some (Renderer.treeOf anchor (ofWords fresh texts) (some (anchor + 2 + place)))

/-- The body of words is rendered, the node that is active is that of its cell at `place`, and shows the word of that; the
view shows all words, and exactly that one between marks. -/
structure Highlights (t : Trace) (fresh : Identity) (texts : List String) (place : Nat) : Prop where
  body : t.renderer.body = .list (ofWords fresh texts)
  active : ∃ node, t.renderer.lookup? ((Value.list (ofWords fresh texts)).cellOf place) = some node ∧
    t.renderer.active = some node ∧ (t.renderer.node? node).map ViewNode.label = texts[place]?
  plain : t.view.toText false = "[" ++ " ".intercalate texts ++ "]"
  marked : t.view.toText true = highlighted texts place

/-- The marker goes to the word at `place` in a body that the renderer shows. -/
theorem pointsAt_moved {before : Option Identity} (hapart : fresh + texts.length ≤ anchor)
    (hrenderer : t.renderer = .showing anchor (ofWords fresh texts) before)
    (hroot : t.view.root = some (Renderer.treeOf anchor (ofWords fresh texts) before))
    (hplace : texts.drop place = word :: behind) :
    ((((t.renderer.lookup? ((Value.list (ofWords fresh texts)).cellOf place)).map t.moveMarker).getD t)).PointsAt
      fresh texts place := by
  obtain ⟨front, back, hsplit, hlength, hback⟩ := @LogoList.cellsWithin_split fresh texts behind place word hplace
  have hlookup := @Renderer.lookup?_of_last anchor _ before front back _ _ hsplit rfl hback
  rw [hlength, ← LogoList.cellOf_ofWords hplace] at hlookup
  obtain ⟨f, -, htree, hmoved, hview⟩ := follow hrenderer ((Value.list (ofWords fresh texts)).cellOf place)
  rw [hlookup] at htree hmoved hview
  rw [hrenderer, hlookup]
  refine ⟨anchor, hapart, hmoved, ?_⟩
  rw [hview, hroot, Option.map_some, htree, Option.some_or]

theorem update_eq (t : Trace) (next : Identity) (body cell : Value) : (t.update next body cell).1 =
    (((t.present next body).1.renderer.lookup? cell).map (t.present next body).1.moveMarker).getD
      (t.present next body).1 := by
  simp only [update]
  split
  · next hnone => rw [hnone]; rfl
  · next target hsome => rw [hsome]; rfl

/-- The body is rendered for the first word that the program comes to. -/
theorem pointsAt_first (hblank : t.renderer = {}) (hapart : fresh + texts.length ≤ next)
    (hplace : texts.drop place = word :: behind) :
    (t.update next (.list (ofWords fresh texts)) ((Value.list (ofWords fresh texts)).cellOf place)).1.PointsAt
      fresh texts place := by
  rw [update_eq, present_rendering (by rw [hblank]; simp [Value.same])]
  exact pointsAt_moved hapart rfl rfl hplace

/-- For any other one only the marker moves. -/
theorem PointsAt.update {before : Nat} (h : t.PointsAt fresh texts before) (next : Identity)
    (hplace : texts.drop place = word :: behind) :
    (t.update next (.list (ofWords fresh texts)) ((Value.list (ofWords fresh texts)).cellOf place)).1.PointsAt
      fresh texts place := by
  obtain ⟨anchor, hapart, hrenderer, hroot⟩ := h
  rw [update_eq, present_showing hrenderer]
  exact pointsAt_moved hapart hrenderer hroot hplace

theorem PointsAt.highlights (h : t.PointsAt fresh texts place) (hplace : texts.drop place = word :: behind) :
    t.Highlights fresh texts place := by
  obtain ⟨anchor, -, hrenderer, hroot⟩ := h
  obtain ⟨front, back, hsplit, hlength, hback⟩ := @LogoList.cellsWithin_split fresh texts behind place word hplace
  have hlookup := @Renderer.lookup?_of_last anchor _ (some (anchor + 2 + place)) front back _ _ hsplit rfl hback
  have hfound := @Renderer.find?_treeOf anchor _ (some (anchor + 2 + place)) front back _ hsplit
  rw [hlength] at hlookup hfound
  refine ⟨by rw [hrenderer]; rfl, ⟨anchor + 2 + place, ?_, ?_, ?_⟩, ?_, ?_⟩
  · rw [hrenderer, LogoList.cellOf_ofWords hplace]
    exact hlookup
  · rw [hrenderer]
    rfl
  · have hget : texts[place]? = some word := by rw [← List.head?_drop, hplace]; rfl
    rw [hrenderer, hget]
    change ((Renderer.treeOf anchor (ofWords fresh texts) (some (anchor + 2 + place))).find? (anchor + 2 + place)).map _ = _
    rw [hfound]
    rfl
  · rw [DebugView.toText, hroot, Option.map_some, Option.getD_some, Renderer.toText_treeOf, ← Renderer.display_list,
      LogoList.display_ofWords]
  · rw [DebugView.toText, hroot, Option.map_some, Option.getD_some, Renderer.toText_highlighted]

end Trace

end SteppedLogo
