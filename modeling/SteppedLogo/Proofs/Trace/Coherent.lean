import SteppedLogo.Program.Words
import SteppedLogo.Proofs.Trace.Panel

namespace SteppedLogo

open Words (listAt)

namespace ViewNode

theorem nodes_markedAt (n : ViewNode) (active : Option Identity) : (n.markedAt active).nodes =
    n.nodes.map (·.markedAt active) := by
  cases active with
  | none => simp [markedAt]
  | some target => exact nodes_setActive target true n

theorem find?_markedAt {n m : ViewNode} (hnodup : n.ids.Nodup) (hm : m ∈ n.nodes) (active : Option Identity) :
    (n.markedAt active).find? m.id = some (m.markedAt active) := by
  rw [← id_markedAt m active]
  refine find?_of_mem (by rwa [ids_markedAt]) ?_
  rw [nodes_markedAt]
  exact List.mem_map_of_mem hm

end ViewNode

namespace Renderer

variable {anchor : Identity} {body : LogoList} {active : Option Identity}

/-- The node of an occurrence of a cell is the rendering of its item, numbered by the cells in front of it. -/
theorem find?_treeOf {front back : List Cell} {c : Cell} (hsplit : body.cellsWithin = front ++ c :: back) :
    (treeOf anchor body active).find? (anchor + 2 + front.length) =
      some ((c.head.drawn (anchor + 2 + front.length)).markedAt active) := by
  have hmem : c.head.drawn (anchor + 2 + front.length) ∈ ((Value.list body).drawn (anchor + 1)).nodes := by
    rw [nodes_drawn, Value.cellsWithin, hsplit, List.zipIdx_append, List.zipIdx_cons]
    simp
  have hfound := ViewNode.find?_markedAt (nodup_ids_drawn (anchor + 1) (.list body)) hmem active
  rwa [id_drawn] at hfound

/-- A cell has the node of its last occurrence. -/
theorem lookup?_of_last {front back : List Cell} {c d : Cell} (hsplit : body.cellsWithin = front ++ c :: back)
    (hid : c.id = d.id)
    (hlast : ∀ e ∈ back, e.id ≠ d.id) :
    (showing anchor body active).lookup? (.list (listAt d)) = some (anchor + 2 + front.length) := by
  have hentries : (showing anchor body active).cache =
      entriesFrom (anchor + 1) ((⟨anchor, .list body, .empty⟩ :: front) ++ c :: back) :=
        by rw [List.cons_append, ← hsplit]; rfl
  rw [listAt, lookup?_list, hentries, ← hid, lastNode?_entriesFrom_of_last (hid ▸ hlast), List.length_cons,
    Nat.add_comm front.length, ← Nat.add_assoc]

/-- Only the cells of the body and the cell that holds the body have a node. -/
theorem lookup?_eq_none (v : Value) : (showing anchor body active).lookup? v = none ↔
    ∀ id head tail, v = .list (.cons id head tail) → id ≠ anchor ∧ ∀ c ∈ body.cellsWithin, c.id ≠ id := by
  have hcells (id : Identity) (head : Value) (tail : LogoList) : (showing anchor body active).lookup?
    (.list (.cons id head tail)) = none ↔
      id ≠ anchor ∧ ∀ c ∈ body.cellsWithin, c.id ≠ id := by
    rw [lookup?_list, showing, lastNode?_entriesFrom_eq_none, List.forall_mem_cons, ne_comm]
  constructor
  · rintro hnone id head tail rfl
    exact (hcells id head tail).1 hnone
  · intro hother
    cases v with
    | list l =>
      cases l with
      | cons id head tail => exact (hcells id head tail).2 (hother id head tail rfl)
      | empty | bare => rfl
    | _ => rfl

/-- There is one entry for each cell of the body, and one for the cell that holds the body. -/
theorem size_showing (hapart : ∀ c ∈ body.cellsWithin, c.id < anchor) :
    (showing anchor body active).size = (body.cellsWithin.map Cell.id).toFinset.card + 1 := by
  have hnew : anchor ∉ (body.cellsWithin.map Cell.id).toFinset := by
    rw [List.mem_toFinset]
    intro hmem
    obtain ⟨c, hc, hid⟩ := List.mem_map.1 hmem
    exact Nat.ne_of_lt (hapart c hc) hid
  rw [size, length_eraseDups]
  have hcells : (showing anchor body active).cache.map CacheEntry.cell = anchor :: body.cellsWithin.map Cell.id :=
    map_cell_entriesFrom _ _
  rw [hcells, List.toFinset_cons, Finset.card_insert_of_notMem hnew]

end Renderer

namespace Panel

/-- After `update` with a body that a reachable panel knows, and while updates with it alone follow (`Keeps`), the
renderer's tree is the drawing of the body, marked at most at one node, and is the one installed. `size` is the number of
different cells within the body and one more; `lookup?` gives each cell the node of its last occurrence, and nothing for
anything else. After `release` it gives nothing for all values, and `size` is 0. -/
theorem cache_follows_body {s s' : Panel} (h : s.Reachable) {body : LogoList} (hknows : s.Knows body) (cell : Value)
    (hkeeps : (s.update body cell).Keeps body s') :
    (∃ anchor active, (∀ c ∈ body.cellsWithin, c.id < anchor) ∧
      s'.trace.renderer.tree = some (((Value.list body).drawn (anchor + 1)).markedAt active) ∧
      s'.installed = some (body, ((Value.list body).drawn (anchor + 1)).markedAt active) ∧
      s'.trace.renderer.size = (body.cellsWithin.map Cell.id).toFinset.card + 1 ∧
      (∀ c ∈ body.cellsWithin, ∃ front d back, body.cellsWithin = front ++ d :: back ∧ d.id = c.id ∧
        (∀ e ∈ back, e.id ≠ c.id) ∧
        s'.trace.renderer.lookup? (.list (listAt c)) = some (anchor + 2 + front.length) ∧
        s'.trace.renderer.node? (anchor + 2 + front.length) =
          some ((d.head.drawn (anchor + 2 + front.length)).markedAt active)) ∧
      ∀ v, s'.trace.renderer.lookup? v = none ↔
        ∀ id head tail, v = .list (.cons id head tail) → id ≠ anchor ∧ ∀ c ∈ body.cellsWithin, c.id ≠ id) ∧
    (∀ v, s'.release.trace.renderer.lookup? v = none) ∧ s'.release.trace.renderer.size = 0 := by
  obtain ⟨⟨anchor, before, after, hupdated⟩, -⟩ := h.sound.updated hknows cell
  obtain ⟨-, active, hholds, hrenderer⟩ :=
    hkeeps.holds (h.sound.step (.update cell hknows)) hupdated.holds hupdated.renderer
  refine ⟨⟨anchor, active, hholds.apart, ?_, hholds.installed, ?_, fun c hc => ?_, fun v => ?_⟩, fun v => ?_, rfl⟩
  · rw [hrenderer]
    rfl
  · rw [hrenderer]
    exact Renderer.size_showing hholds.apart
  · obtain ⟨front, d, back, hsplit, hid, hlast⟩ := exists_last_of_mem hc
    rw [hrenderer]
    exact ⟨front, d, back, hsplit, hid, hlast, Renderer.lookup?_of_last hsplit hid hlast, Renderer.find?_treeOf hsplit⟩
  · rw [hrenderer]
    exact Renderer.lookup?_eq_none v
  · match v with
    | .list (.cons _ _ _) | .list .empty | .list (.bare _) => rfl
    | .none | .bool _ | .int .. | .float .. | .text .. | .sequence .. | .object .. | .procedure .. => rfl

/-- The cell that stands twice in the body is drawn twice, entered once, and has the node of its second occurrence. -/
theorem petal_has_last_node :
    let s := (blank.update rosette .none).update rosette (.list petal)
    s.trace.renderer.size = 4 ∧ (∃ anchor, s.trace.renderer.lookup? (.list petal) = some (anchor + 2 + 3)) ∧
      s.trace.renderer.lookup? (.list .empty) = none ∧ s.release.trace.renderer.size = 0 := by
  obtain ⟨⟨anchor, active, -, -, -, hsize, hlast, hother⟩, -, hreleased⟩ :=
    cache_follows_body blank_reachable blank_knows .none (.update (.list petal) .refl)
  refine ⟨hsize, ⟨anchor, ?_⟩, (hother _).2 (fun id head tail heq => by cases heq), hreleased⟩
  obtain ⟨front, d, back, hsplit, hid, hnone, hlookup, -⟩ := hlast ⟨1, .text "fd", .empty⟩ (by simp [rosette, petal,
    LogoList.cellsWithin, Value.cellsWithin])
  have hcells : front.map Cell.id ++ d.id :: back.map Cell.id = [2, 1, 0] ++ [1] := by
    rw [← List.map_cons, ← List.map_append, ← hsplit]
    rfl
  have hback : back = [] := by
    obtain hnil | ⟨init, e, rfl⟩ := List.eq_nil_or_concat back
    · exact hnil
    · rw [List.concat_eq_append, List.map_append, ← List.cons_append, ← List.append_assoc] at hcells
      exact absurd (List.singleton_inj.1 (List.append_inj_right' hcells rfl)) (hnone e (by simp))
  subst hback
  have hfront : front.length = 3 := by simpa using congrArg List.length hcells
  rwa [hfront] at hlookup

end Panel

end SteppedLogo
