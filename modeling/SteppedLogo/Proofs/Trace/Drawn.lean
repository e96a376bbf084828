import Mathlib.Data.Finset.Card
import Mathlib.Data.List.Nodup
import SteppedLogo.Proofs.Trace.Tree
import SteppedLogo.Trace.Renderer

namespace SteppedLogo

mutual

/-- The rendering of a value, its nodes numbered from `fresh` on: a list has a child for each of its items, and
    any other value is an atom that shows its text. -/
def Value.drawn (fresh : Identity) : Value → ViewNode
  | .list l => .node fresh ViewNode.listKind "" false (l.drawnItems (fresh + 1))
  | v => .node fresh ViewNode.atomKind v.display false []

def LogoList.drawnItems (fresh : Identity) : LogoList → List ViewNode
  | .cons _ head tail => head.drawn fresh :: tail.drawnItems (fresh + 1 + head.cellsWithin.length)
  | .empty => []
  | .bare _ => []

end

namespace Value

/-- Anything but a list is shown as an atom. -/
def IsAtom (v : Value) : Prop := ∀ l, v ≠ .list l

/-- A value is a list, or drawn as one leaf. -/
theorem list_or_isAtom (v : Value) : (∃ l, v = .list l) ∨ v.IsAtom := by
  cases v with
  | list l => exact .inl ⟨l, rfl⟩
  | _ => exact .inr fun _ hlist => by cases hlist

variable {v : Value}

/-- An atom is drawn as one leaf that bears its text. -/
theorem IsAtom.drawn (h : v.IsAtom) (fresh : Identity) : v.drawn fresh =
    .node fresh ViewNode.atomKind v.display false [] := by
  cases v with
  | list l => exact absurd rfl (h l)
  | _ => rfl

theorem IsAtom.cellsWithin (h : v.IsAtom) : v.cellsWithin = [] := by
  cases v with
  | list l => exact absurd rfl (h l)
  | _ => rfl

end Value

/-- The cells that are drawn one behind the other take the identities from `fresh` on. -/
def entriesFrom (fresh : Identity) (cells : List Cell) : List CacheEntry :=
  (cells.zipIdx fresh).map fun c => ⟨c.1.id, c.2⟩

theorem entriesFrom_cons (fresh : Identity) (c : Cell) (cells : List Cell) :
    entriesFrom fresh (c :: cells) = ⟨c.id, fresh⟩ :: entriesFrom (fresh + 1) cells := rfl

/-- The entries of two runs of cells are those of the first and, numbered on, those of the second. -/
theorem entriesFrom_append (fresh : Identity) (cells others : List Cell) :
    entriesFrom fresh (cells ++ others) = entriesFrom fresh cells ++ entriesFrom (fresh + cells.length) others := by
  simp [entriesFrom, List.zipIdx_append]

/-- The node of a value has the first identity that is free. -/
theorem id_drawn (fresh : Identity) (v : Value) : (v.drawn fresh).id = fresh := by
  cases v <;> rfl

mutual

/-- The nodes inside a list are the renderings of the items of its cells, in the order in which these are met. -/
theorem nodes_drawnItems (fresh : Identity) : (l : LogoList) →
    (l.drawnItems fresh).flatMap ViewNode.nodes = (l.cellsWithin.zipIdx fresh).map fun c => c.1.head.drawn c.2
  | .cons id head tail => by
    have hhead := nodes_drawn fresh head
    have htail := nodes_drawnItems (fresh + 1 + head.cellsWithin.length) tail
    rw [LogoList.drawnItems, LogoList.cellsWithin, List.flatMap_cons, hhead, htail, List.zipIdx_cons, List.map_cons,
      List.zipIdx_append, List.map_append]
    rfl
  | .empty => rfl
  | .bare _ => rfl

/-- The nodes of a value are its own and, in order, those drawn for the heads of the cells within it. -/
theorem nodes_drawn (fresh : Identity) : (v : Value) →
    (v.drawn fresh).nodes = v.drawn fresh :: (v.cellsWithin.zipIdx (fresh + 1)).map fun c => c.1.head.drawn c.2
  | .list l => by
    rw [Value.drawn, ViewNode.nodes_node, nodes_drawnItems (fresh + 1) l, Value.cellsWithin]
  | .none | .bool _ | .int .. | .float .. | .text .. | .sequence .. | .object .. | .procedure .. => rfl

end

/-- The identities of a rendering follow each other without a gap. -/
theorem ids_drawn (fresh : Identity) (v : Value) : (v.drawn fresh).ids = List.range' fresh (1 + v.cellsWithin.length) := by
  have hinside : ((v.cellsWithin.zipIdx (fresh + 1)).map fun c => c.1.head.drawn c.2).map ViewNode.id =
      List.range' (fresh + 1) v.cellsWithin.length := by
    rw [List.map_map, ← List.zipIdx_map_snd (fresh + 1) v.cellsWithin]
    exact List.map_congr_left fun c _ => id_drawn c.2 c.1.head
  rw [ViewNode.ids, nodes_drawn, List.map_cons, id_drawn, hinside, Nat.add_comm 1, List.range'_succ]

/-- No two nodes of a drawn value share an identity. -/
theorem nodup_ids_drawn (fresh : Identity) (v : Value) : (v.drawn fresh).ids.Nodup := by
  rw [ids_drawn]
  exact List.nodup_range'

/-- The identities of a drawn value are the free ones that follow each other, one for it and one for each cell within it. -/
theorem mem_ids_drawn {fresh i : Identity} {v : Value} :
    i ∈ (v.drawn fresh).ids ↔ fresh ≤ i ∧ i < fresh + (1 + v.cellsWithin.length) := by
  rw [ids_drawn, List.mem_range'_1]

/-- A drawn value has no marked node. -/
theorem plain_drawn (fresh : Identity) (v : Value) : (v.drawn fresh).Plain := by
  have hself (fresh : Identity) (v : Value) : (v.drawn fresh).isActive = false := by cases v <;> rfl
  intro m hm
  rw [nodes_drawn, List.mem_cons, List.mem_map] at hm
  obtain rfl | ⟨c, -, rfl⟩ := hm
  · exact hself fresh v
  · exact hself c.2 c.1.head

/-- The items of a list are numbered from the first identity on. -/
theorem fresh_le_of_mem_drawnItems {fresh i : Identity} {l : LogoList} {n : ViewNode} (hn : n ∈ l.drawnItems fresh)
    (hi : i ∈ n.ids) : fresh ≤ i := by
  have hids : ((l.drawnItems fresh).flatMap ViewNode.nodes).map ViewNode.id = List.range' fresh l.cellsWithin.length := by
    rw [nodes_drawnItems, List.map_map, ← List.zipIdx_map_snd fresh l.cellsWithin]
    exact List.map_congr_left fun c _ => id_drawn c.2 c.1.head
  have hmem : i ∈ ((l.drawnItems fresh).flatMap ViewNode.nodes).map ViewNode.id := by
    obtain ⟨m, hm, rfl⟩ := List.mem_map.1 hi
    exact List.mem_map_of_mem (List.mem_flatMap_of_mem hn hm)
  rw [hids, List.mem_range'_1] at hmem
  exact hmem.1

/-- The node of a list with the renderings of its items hung into it is the rendering of the list. -/
theorem addChildren_drawnItems (fresh : Identity) (l : LogoList) :
    (ViewNode.node fresh ViewNode.listKind "" false []).addChildren fresh (l.drawnItems (fresh + 1)) = (Value.list l).drawn fresh := by
  rw [ViewNode.addChildren_self fresh _ _ _ _ [] fun n hn => nomatch hn]
  · rfl
  · intro n hn hmem
    exact Nat.lt_irrefl fresh (fresh_le_of_mem_drawnItems hn hmem)

theorem draw_nil (d : Drawing) : draw [] d = d := by
  rw [draw]

/-- Drawing a cell whose head is a list places its node and goes on with the cells of that list. -/
theorem draw_list (id : Identity) (l tail : LogoList) (parent : Option Identity) (rest : List Undrawn) (d : Drawing) :
    draw (⟨⟨id, .list l, tail⟩, parent⟩ :: rest) d = draw (l.cells.map (Undrawn.mk · (some d.next)) ++ rest)
      (d.place ⟨⟨id, .list l, tail⟩, parent⟩ ViewNode.listKind "") := by
  rw [draw]

/-- Drawing a cell whose head is an atom places its leaf and goes on with the rest. -/
theorem draw_atom {id : Identity} {head : Value} (hatom : head.IsAtom) (tail : LogoList) (parent : Option Identity)
    (rest : List Undrawn) (d : Drawing) : draw (⟨⟨id, head, tail⟩, parent⟩ :: rest) d =
      draw rest (d.place ⟨⟨id, head, tail⟩, parent⟩ ViewNode.atomKind head.display) := by
  rw [draw]
  intro id l tail parent heq
  cases heq
  exact hatom l rfl

/-- A cell that is drawn goes into its parent with all that is in its item, and the drawing goes on behind that. -/
def ItemDrawn (head : Value) : Prop :=
  ∀ (id parent : Identity) (tail : LogoList) (tree : ViewNode) (entries : List CacheEntry) (next : Identity)
    (rest : List Undrawn),
    (∀ i ∈ tree.ids, i < next) →
      draw (⟨⟨id, head, tail⟩, some parent⟩ :: rest) ⟨some tree, entries, next⟩ =
        draw rest ⟨some (tree.addChild parent (head.drawn next)),
          entries ++ entriesFrom next (⟨id, head, tail⟩ :: head.cellsWithin), next + (1 + head.cellsWithin.length)⟩

/-- The cells of a list that are drawn go into their parent, each with all that is in its item. -/
def CellsDrawn (l : LogoList) : Prop :=
  ∀ (parent : Identity) (tree : ViewNode) (entries : List CacheEntry) (next : Identity) (rest : List Undrawn),
    (∀ i ∈ tree.ids, i < next) →
      draw (l.cells.map (Undrawn.mk · (some parent)) ++ rest) ⟨some tree, entries, next⟩ =
        draw rest ⟨some (tree.addChildren parent (l.drawnItems next)), entries ++ entriesFrom next l.cellsWithin,
          next + l.cellsWithin.length⟩

/-- The work list draws an atom as the recursion does. -/
theorem itemDrawn_atom {head : Value} (hatom : head.IsAtom) : ItemDrawn head := by
  intro id parent tail tree entries next rest _
  rw [draw_atom hatom, hatom.drawn, hatom.cellsWithin]
  rfl

/-- The cells of a list are put in front of what is left, so that the list is complete before anything else is drawn. -/
theorem itemDrawn_list {l : LogoList} (hcells : CellsDrawn l) : ItemDrawn (.list l) := by
  intro id parent tail tree entries next rest hids
  have hids' : ∀ i ∈ (tree.addChild parent (.node next ViewNode.listKind "" false [])).ids, i < next + 1 := by
    intro i hi
    obtain hi | hi := ViewNode.mem_ids_of_addChild hi
    · exact Nat.lt_succ_of_lt (hids i hi)
    · rw [ViewNode.mem_ids_node] at hi
      obtain rfl | ⟨n, hn, -⟩ := hi
      · exact Nat.lt_succ_self i
      · cases hn
  have hnew : next ∉ tree.ids := fun hmem => Nat.lt_irrefl next (hids next hmem)
  have htree : (tree.addChild parent (.node next ViewNode.listKind "" false [])).addChildren next (l.drawnItems (next + 1)) =
      tree.addChild parent ((Value.list l).drawn next) := by
    rw [← addChildren_drawnItems]
    exact ViewNode.addChildren_addChild hnew (l.drawnItems (next + 1))
  have hnext : next + 1 + l.cellsWithin.length = next + (1 + l.cellsWithin.length) := Nat.add_assoc ..
  rw [draw_list, Drawing.place]
  simp only [Option.map_some]
  rw [hcells next _ _ (next + 1) rest hids', htree, List.append_assoc, hnext]
  rfl

/-- Where the work list draws a head and a tail as the recursion does, it draws their cell so. -/
theorem cellsDrawn_cons {id : Identity} {head : Value} {tail : LogoList} (hhead : ItemDrawn head) (htail : CellsDrawn tail) :
    CellsDrawn (.cons id head tail) := by
  intro parent tree entries next rest hids
  have hids' : ∀ i ∈ (tree.addChild parent (head.drawn next)).ids, i < next + (1 + head.cellsWithin.length) := by
    intro i hi
    obtain hi | hi := ViewNode.mem_ids_of_addChild hi
    · exact Nat.lt_add_right _ (hids i hi)
    · exact (mem_ids_drawn.1 hi).2
  have hnext : next + 1 + head.cellsWithin.length = next + (1 + head.cellsWithin.length) := Nat.add_assoc ..
  have hlength : (LogoList.cons id head tail).cellsWithin.length =
    1 + head.cellsWithin.length + tail.cellsWithin.length := by
    simp only [LogoList.cellsWithin, List.length_cons, List.length_append]
    omega
  have hentries : entriesFrom next (LogoList.cons id head tail).cellsWithin =
      entriesFrom next (⟨id, head, tail⟩ :: head.cellsWithin) ++ entriesFrom
        (next + (1 + head.cellsWithin.length)) tail.cellsWithin := by
    rw [LogoList.cellsWithin, ← List.cons_append, entriesFrom_append, List.length_cons, Nat.add_comm 1]
  rw [LogoList.cells, List.map_cons, List.cons_append, hhead id parent tail tree entries next _ hids,
    htail parent _ _ _ rest hids', LogoList.drawnItems, ViewNode.addChildren_cons, hnext, hlength, hentries,
      List.append_assoc,
    Nat.add_assoc next]

mutual

/-- The work list draws every value as the recursion does. -/
theorem itemDrawn : (head : Value) → ItemDrawn head
  | .list l => itemDrawn_list (cellsDrawn l)
  | .none | .bool _ | .int .. | .float .. | .text .. | .sequence .. | .object .. | .procedure .. =>
    itemDrawn_atom fun _ hlist => nomatch hlist

/-- The work list draws the cells of every list as the recursion does. -/
theorem cellsDrawn : (l : LogoList) → CellsDrawn l
  | .cons _ head tail => cellsDrawn_cons (itemDrawn head) (cellsDrawn tail)
  | .empty | .bare _ => fun parent tree entries next rest _ => by
    simp [LogoList.cells, LogoList.drawnItems, LogoList.cellsWithin, ViewNode.addChildren, entriesFrom]

end

/-- Drawing a value with a stack gives the rendering of the value, and an entry for each cell on the way. -/
theorem draw_anchor (id : Identity) (body : Value) (tail : LogoList) (next : Identity) :
    draw [⟨⟨id, body, tail⟩, none⟩] { next } = ⟨some (body.drawn next),
      entriesFrom next (⟨id, body, tail⟩ :: body.cellsWithin),
      next + (1 + body.cellsWithin.length)⟩ := by
  obtain ⟨l, rfl⟩ | hatom := body.list_or_isAtom
  · have hids : ∀ i ∈ (ViewNode.node next ViewNode.listKind "" false []).ids, i < next + 1 := by
      intro i hi
      obtain rfl | ⟨n, hn, -⟩ := ViewNode.mem_ids_node.1 hi
      · exact Nat.lt_succ_self i
      · cases hn
    have hcells := cellsDrawn l next (.node next ViewNode.listKind "" false []) [⟨id, next⟩] (next + 1) [] hids
    rw [addChildren_drawnItems, draw_nil, Nat.add_assoc] at hcells
    rw [draw_list]
    exact hcells
  · rw [draw_atom hatom, draw_nil, hatom.drawn, hatom.cellsWithin]
    rfl

/-- The renderer shows the rendering of the body, in which each cell of the body has the node that is numbered by its place. -/
theorem Renderer.rebuild_eq (fresh : Identity) (body : Value) : Renderer.rebuild fresh body =
    ({ body, tree := some (body.drawn (fresh + 1)),
       cache := entriesFrom (fresh + 1) (⟨fresh, body, .empty⟩ :: body.cellsWithin) },
      fresh + (2 + body.cellsWithin.length)) := by
  have hnext : fresh + 1 + (1 + body.cellsWithin.length) = fresh + (2 + body.cellsWithin.length) := by
    rw [Nat.add_assoc, ← Nat.add_assoc 1 1]
  simp only [Renderer.rebuild, draw_anchor, hnext]

end SteppedLogo

namespace SteppedLogo

variable {fresh id : Identity} {cells : List Cell}

/-- The node that is on record for a cell: the one that was entered last. -/
def lastNode? (entries : List CacheEntry) (id : Identity) : Option Identity :=
  (entries.findRev? fun e => e.cell == id).map CacheEntry.node

/-- The node last entered for a cell is that of the later entries, if they have one. -/
theorem lastNode?_append (front back : List CacheEntry) (id : Identity) :
    lastNode? (front ++ back) id = (lastNode? back id).or (lastNode? front id) := by
  simp only [lastNode?, List.findRev?_eq_find?_reverse, List.reverse_append, List.find?_append]
  cases back.reverse.find? fun e => e.cell == id <;> rfl

/-- No node is found for a cell exactly if no entry is about it. -/
theorem lastNode?_eq_none (entries : List CacheEntry) (id : Identity) :
    lastNode? entries id = none ↔ ∀ e ∈ entries, e.cell ≠ id := by
  simp [lastNode?, List.findRev?_eq_find?_reverse]

/-- The entries are about the cells they were made from, in order. -/
theorem map_cell_entriesFrom (fresh : Identity) (cells : List Cell) :
    (entriesFrom fresh cells).map CacheEntry.cell = cells.map Cell.id := by
  rw [entriesFrom, List.map_map]
  conv_rhs => rw [← List.zipIdx_map_fst fresh cells, List.map_map]
  rfl

/-- Nothing but a cell that was drawn has a node. -/
theorem lastNode?_entriesFrom_eq_none : lastNode? (entriesFrom fresh cells) id = none ↔ ∀ c ∈ cells, c.id ≠ id := by
  rw [lastNode?_eq_none, ← List.forall_mem_map (f := CacheEntry.cell) (P := (· ≠ id)), map_cell_entriesFrom,
    List.forall_mem_map]

/-- The last occurrence of a cell is the one that counts. -/
theorem lastNode?_entriesFrom_of_last {front back : List Cell} {c : Cell} (hlast : ∀ d ∈ back, d.id ≠ c.id) :
    lastNode? (entriesFrom fresh (front ++ c :: back)) c.id = some (fresh + front.length) := by
  have hback : lastNode? (entriesFrom (fresh + front.length + 1) back) c.id = none := lastNode?_entriesFrom_eq_none.2 hlast
  have hself : lastNode? [⟨c.id, fresh + front.length⟩] c.id = some (fresh + front.length) := by
    simp [lastNode?, List.findRev?]
  rw [entriesFrom_append, entriesFrom_cons, ← List.singleton_append, lastNode?_append, lastNode?_append, hback, hself]
  rfl

/-- Every cell has a last occurrence. -/
theorem exists_last_of_mem {c : Cell} (hc : c ∈ cells) :
    ∃ front d back, cells = front ++ d :: back ∧ d.id = c.id ∧ ∀ e ∈ back, e.id ≠ c.id := by
  induction cells generalizing c with
  | nil => cases hc
  | cons first rest ih =>
    by_cases hlater : ∃ d ∈ rest, d.id = c.id
    · obtain ⟨d, hd, hdc⟩ := hlater
      obtain ⟨front, e, back, rfl, hed, hlast⟩ := ih hd
      exact ⟨first :: front, e, back, rfl, hed.trans hdc, fun x hx hxc => hlast x hx (hxc.trans hdc.symm)⟩
    · rw [not_exists] at hlater
      have hfirst : c = first := (List.mem_cons.1 hc).resolve_right fun hrest => hlater c ⟨hrest, rfl⟩
      exact ⟨[], first, rest, rfl, congrArg Cell.id hfirst.symm, fun e he hec => hlater e ⟨he, hec⟩⟩

/-- The nodes on record are those that were numbered. -/
theorem lastNode?_entriesFrom_bounds {i : Identity} (hi : lastNode? (entriesFrom fresh cells) id = some i) :
    fresh ≤ i ∧ i < fresh + cells.length := by
  obtain ⟨e, he, rfl⟩ := Option.map_eq_some_iff.1 hi
  rw [List.findRev?_eq_find?_reverse] at he
  have hmem : e ∈ entriesFrom fresh cells := List.mem_reverse.1 (List.mem_of_find?_eq_some he)
  obtain ⟨⟨c, j⟩, hc, rfl⟩ := List.mem_map.1 hmem
  exact ⟨List.le_snd_of_mem_zipIdx hc, List.snd_lt_add_of_mem_zipIdx hc⟩

/-- As many identities remain without repetitions as there are different ones. -/
theorem length_eraseDups (ids : List Identity) : ids.eraseDups.length = ids.toFinset.card := by
  induction h : ids.length using Nat.strong_induction_on generalizing ids with
  | h n ih =>
    cases ids with
    | nil => rfl
    | cons i rest =>
      have hshort : (rest.filter fun j => !j == i).length < n := by
        have hle := List.length_filter_le (fun j => !j == i) rest
        simp only [List.length_cons] at h
        omega
      have hrest := ih _ hshort (rest.filter fun j => !j == i) rfl
      have hset : (i :: rest).toFinset = insert i (rest.filter fun j => !j == i).toFinset := by
        ext j
        by_cases hj : j = i <;> simp [hj]
      rw [List.eraseDups_cons, List.length_cons, hrest, hset, Finset.card_insert_of_notMem (by simp)]

end SteppedLogo
