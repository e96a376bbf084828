import Mathlib.Data.List.Nodup
import SteppedLogo.Trace.Node

namespace SteppedLogo.ViewNode

/-- Whatever holds of a node as soon as it holds of its children holds of every tree. -/
@[elab_as_elim]
theorem ofChildren {P : ViewNode → Prop}
    (node : ∀ id kind text active children, (∀ n ∈ children, P n) → P (.node id kind text active children)) :
    ∀ n, P n
  | .node id kind text active children => node id kind text active children fun n _ => ofChildren node n

mutual

/-- The nodes of a tree, each in front of those inside it. -/
def nodes : ViewNode → List ViewNode
  | node id kind text active children => node id kind text active children :: nodesOf children

def nodesOf : List ViewNode → List ViewNode
  | [] => []
  | n :: rest => n.nodes ++ nodesOf rest

end

def ids (n : ViewNode) : List Identity := n.nodes.map id

/-- The nodes of a tree that are active. -/
def activeNodes (n : ViewNode) : List ViewNode := n.nodes.filter isActive

theorem nodesOf_eq (ns : List ViewNode) : nodesOf ns = ns.flatMap nodes := by
  induction ns with
  | nil => rfl
  | cons n rest ih => simp [nodesOf, ih]

theorem setActiveAll_eq (target : Identity) (value : Bool) (ns : List ViewNode) :
    setActiveAll target value ns = ns.map (setActive target value) := by
  induction ns with
  | nil => rfl
  | cons n rest ih => simp [setActiveAll, ih]

theorem addChildToAll_eq (parent : Identity) (child : ViewNode) (ns : List ViewNode) :
    addChildToAll ns parent child = ns.map (·.addChild parent child) := by
  induction ns with
  | nil => rfl
  | cons n rest ih => simp [addChildToAll, ih]

/-- The nodes of a tree are its root and those of its children, in order. -/
theorem nodes_node (i : Identity) (kind text : String) (active : Bool) (children : List ViewNode) :
    (node i kind text active children).nodes = node i kind text active children :: children.flatMap nodes := by
  rw [nodes, nodesOf_eq]

/-- Setting a mark goes through the root and all children. -/
theorem setActive_node (target : Identity) (value : Bool) (i : Identity) (kind text : String) (active : Bool)
    (children : List ViewNode) :
    (node i kind text active children).setActive target value =
      node i kind text (if i = target then value else active) (children.map (setActive target value)) := by
  rw [setActive, setActiveAll_eq]

/-- A child is added where its parent is, at the end of its children. -/
theorem addChild_node (parent : Identity) (child : ViewNode) (i : Identity) (kind text : String) (active : Bool)
    (children : List ViewNode) :
    (node i kind text active children).addChild parent child = node i kind text active
      (if i = parent then children.map (·.addChild parent child) ++ [child] else children.map
        (·.addChild parent child)) := by
  rw [addChild, addChildToAll_eq]

theorem self_mem_nodes (n : ViewNode) : n ∈ n.nodes := by
  cases n
  simp [nodes_node]

/-- A node of a child is a node of its parent. -/
theorem mem_nodes_of_mem_children {n m : ViewNode} (hn : n ∈ m.children) {x : ViewNode} (hx : x ∈ n.nodes) :
    x ∈ m.nodes := by
  cases m
  rw [nodes_node]
  exact List.mem_cons_of_mem _ (List.mem_flatMap_of_mem hn hx)

/-- A search gives the first node that has the identity. -/
theorem find?_eq (target : Identity) (n : ViewNode) : n.find? target = n.nodes.find? (·.id = target) := by
  induction n using ofChildren with
  | node i kind text active children ih =>
    have hinside : findIn? target children = (children.flatMap nodes).find? (·.id = target) := by
      induction children with
      | nil => rfl
      | cons n rest ihrest =>
        have hn := ih n List.mem_cons_self
        have hrest := ihrest fun m hm => ih m (List.mem_cons_of_mem n hm)
        rw [findIn?, hn, hrest, List.flatMap_cons, List.find?_append]
    rw [find?, hinside, nodes_node, List.find?_cons]
    by_cases hi : i = target <;> simp [id, hi]

@[simp]
theorem id_setActive (target : Identity) (value : Bool) (n : ViewNode) : (n.setActive target value).id = n.id := by
  cases n
  rfl

/-- Setting a mark changes that of the node it is set at, and no other. -/
theorem isActive_setActive (target : Identity) (value : Bool) (n : ViewNode) :
    (n.setActive target value).isActive = if n.id = target then value else n.isActive := by
  cases n
  rfl

/-- Setting a mark keeps the nodes in their order. -/
theorem nodes_setActive (target : Identity) (value : Bool) (n : ViewNode) :
    (n.setActive target value).nodes = n.nodes.map (setActive target value) := by
  induction n using ofChildren with
  | node i kind text active children ih =>
    rw [nodes_node, setActive_node, nodes_node, List.map_cons, List.map_flatMap, List.flatMap_map, setActive_node]
    refine congrArg _ (List.flatMap_congr fun n hn => ?_)
    exact ih n hn

/-- Setting a mark changes no identity. -/
theorem ids_setActive (target : Identity) (value : Bool) (n : ViewNode) : (n.setActive target value).ids = n.ids := by
  simp [ids, nodes_setActive, Function.comp_def]

/-- Only the last marking of a node counts. -/
theorem setActive_setActive (target : Identity) (first second : Bool) (n : ViewNode) :
    (n.setActive target first).setActive target second = n.setActive target second := by
  induction n using ofChildren with
  | node i kind text active children ih =>
    simp only [setActive_node, List.map_map]
    congr 1
    · split <;> rfl
    · exact List.map_congr_left fun n hn => ih n hn

/-- To mark a node that is as it should be changes nothing. -/
theorem setActive_of_forall {target : Identity} {value : Bool} {n : ViewNode}
    (h : ∀ m ∈ n.nodes, m.id = target → m.isActive = value) : n.setActive target value = n := by
  induction n using ofChildren with
  | node i kind text active children ih =>
    rw [setActive_node]
    congr 1
    · split
      · next hi => exact (h _ (self_mem_nodes _) hi).symm
      · rfl
    · conv_rhs => rw [← List.map_id children]
      refine List.map_congr_left fun n hn => ih n hn fun m hm => h m
        (mem_nodes_of_mem_children (m := node i kind text active children) hn hm)

/-- No node of a tree is active. -/
def Plain (n : ViewNode) : Prop := ∀ m ∈ n.nodes, m.isActive = false

/-- A plain tree has no marked node. -/
theorem Plain.activeNodes_eq {n : ViewNode} (h : n.Plain) : n.activeNodes = [] := by
  rw [activeNodes, List.filter_eq_nil_iff]
  intro m hm
  simp [h m hm]

/-- The marker that was set in a plain tree can be taken back. -/
theorem Plain.unmark {n : ViewNode} (h : n.Plain) (target : Identity) :
    (n.setActive target true).setActive target false = n := by
  rw [setActive_setActive]
  exact setActive_of_forall fun m hm _ => h m hm

/-- In a plain tree the node that is marked is the only active one. -/
theorem Plain.activeNodes_setActive {n m : ViewNode} (h : n.Plain) (hnodup : n.ids.Nodup) (hm : m ∈ n.nodes) :
    (n.setActive m.id true).activeNodes = [m.setActive m.id true] := by
  obtain ⟨before, after, hsplit⟩ := List.append_of_mem hm
  have hother (x : ViewNode) (hx : x ∈ before ∨ x ∈ after) : (x.setActive m.id true).isActive = false := by
    have hmem : x ∈ n.nodes := by rw [hsplit]; simp; tauto
    have hid : x.id ≠ m.id := by
      rw [ids, hsplit, List.map_append, List.map_cons, List.nodup_middle, List.nodup_cons, ← List.map_append] at hnodup
      exact fun hid => hnodup.1 (hid ▸ List.mem_map_of_mem (List.mem_append.2 hx))
    rw [isActive_setActive, if_neg hid, h x hmem]
  have hself : (m.setActive m.id true).isActive = true := by rw [isActive_setActive, if_pos rfl]
  have hnone (xs : List ViewNode) (hxs : ∀ x ∈ xs, (x.setActive m.id true).isActive = false) :
      (xs.map (setActive m.id true)).filter isActive = [] := by
    simpa [List.filter_eq_nil_iff] using hxs
  rw [activeNodes, nodes_setActive, hsplit, List.map_append, List.map_cons, List.filter_append,
    List.filter_cons_of_pos hself,
    hnone before fun x hx => hother x (.inl hx), hnone after fun x hx => hother x (.inr hx), List.nil_append]

/-- With one node for each identity, a search finds every node of the tree. -/
theorem find?_of_mem {n m : ViewNode} (hnodup : n.ids.Nodup) (hm : m ∈ n.nodes) : n.find? m.id = some m := by
  rw [find?_eq]
  obtain ⟨x, hx⟩ : ∃ x, n.nodes.find? (·.id = m.id) = some x :=
    Option.isSome_iff_exists.1 (List.find?_isSome.2 ⟨m, hm, by simp⟩)
  have hid : x.id = m.id := by simpa using List.find?_some hx
  rw [hx, List.inj_on_of_nodup_map hnodup (List.mem_of_find?_eq_some hx) hm hid]

/-- Nodes are hung into a tree one behind the other. -/
def addChildren (n : ViewNode) (parent : Identity) (children : List ViewNode) : ViewNode :=
  children.foldl (fun n child => n.addChild parent child) n

/-- Adding several children adds the first one, and then the others. -/
theorem addChildren_cons (n : ViewNode) (parent : Identity) (child : ViewNode) (rest : List ViewNode) :
    n.addChildren parent (child :: rest) = (n.addChild parent child).addChildren parent rest := rfl

/-- An identity is that of a tree's root or one of a child's. -/
theorem mem_ids_node {target i : Identity} {kind text : String} {active : Bool} {children : List ViewNode} :
    target ∈ (node i kind text active children).ids ↔ target = i ∨ ∃ n ∈ children, target ∈ n.ids := by
  simp only [ids, nodes_node, List.map_cons, List.mem_cons, List.map_flatMap, List.mem_flatMap]
  rfl

/-- Nothing is hung into a tree without the parent. -/
theorem addChild_of_not_mem {n : ViewNode} {parent : Identity} (hparent : parent ∉ n.ids) (child : ViewNode) :
    n.addChild parent child = n := by
  induction n using ofChildren with
  | node i kind text active children ih =>
    rw [mem_ids_node, not_or] at hparent
    rw [addChild_node, if_neg (Ne.symm hparent.1)]
    congr 1
    conv_rhs => rw [← List.map_id children]
    exact List.map_congr_left fun n hn => ih n hn fun hmem => hparent.2 ⟨n, hn, hmem⟩

/-- Adding a child brings no identities but the child's. -/
theorem mem_ids_of_addChild {n : ViewNode} {parent : Identity} {child : ViewNode} {i : Identity}
    (hi : i ∈ (n.addChild parent child).ids) : i ∈ n.ids ∨ i ∈ child.ids := by
  induction n using ofChildren with
  | node j kind text active children ih =>
    rw [addChild_node, mem_ids_node] at hi
    rw [mem_ids_node]
    obtain rfl | ⟨m, hm, him⟩ := hi
    · exact .inl (.inl rfl)
    · have hcases : m = child ∨ ∃ n ∈ children, n.addChild parent child = m := by
        split at hm
        · simpa [or_comm] using hm
        · exact .inr (List.mem_map.1 hm)
      obtain rfl | ⟨n, hn, rfl⟩ := hcases
      · exact .inr him
      · exact (ih n hn him).imp_left fun h => .inr ⟨n, hn, h⟩

/-- What is hung into a node that was hung into a tree might as well have been hung into the node before. -/
theorem addChild_addChild {n : ViewNode} {parent : Identity} {child grandchild : ViewNode} (hnew : child.id ∉ n.ids) :
    (n.addChild parent child).addChild child.id grandchild = n.addChild parent (child.addChild child.id grandchild) := by
  induction n using ofChildren with
  | node i kind text active children ih =>
    rw [mem_ids_node, not_or] at hnew
    have hinside : (children.map (·.addChild parent child)).map (·.addChild child.id grandchild) =
        children.map (·.addChild parent (child.addChild child.id grandchild)) := by
      rw [List.map_map]
      exact List.map_congr_left fun n hn => ih n hn fun hmem => hnew.2 ⟨n, hn, hmem⟩
    simp only [addChild_node, if_neg (Ne.symm hnew.1)]
    split <;> simp only [List.map_append, hinside, List.map_cons, List.map_nil]

@[simp]
theorem id_addChild (n : ViewNode) (parent : Identity) (child : ViewNode) : (n.addChild parent child).id = n.id := by
  cases n
  rfl

/-- Children may be added to a new child before or after it is added itself. -/
theorem addChildren_addChild {n : ViewNode} {parent : Identity} {child : ViewNode} (hnew : child.id ∉ n.ids)
    (grandchildren : List ViewNode) :
    (n.addChild parent child).addChildren child.id grandchildren = n.addChild parent
      (child.addChildren child.id grandchildren) := by
  induction grandchildren generalizing child with
  | nil => rfl
  | cons grandchild rest ih =>
    have hrest := @ih (child.addChild child.id grandchild) (by rwa [id_addChild])
    rw [id_addChild] at hrest
    rw [addChildren_cons, addChild_addChild hnew, hrest, addChildren_cons]

/-- A node takes the children that it is given. -/
theorem addChildren_self (i : Identity) (kind text : String) (active : Bool) {children : List ViewNode}
    (hother : ∀ n ∈ children, i ∉ n.ids) (before : List ViewNode) (hbefore : ∀ n ∈ before, i ∉ n.ids) :
    (node i kind text active before).addChildren i children = node i kind text active (before ++ children) := by
  induction children generalizing before with
  | nil => rw [List.append_nil]; rfl
  | cons child rest ih =>
    have hkept : before.map (·.addChild i child) = before := by
      conv_rhs => rw [← List.map_id before]
      exact List.map_congr_left fun n hn => addChild_of_not_mem (hbefore n hn) child
    rw [addChildren_cons, addChild_node, if_pos rfl, hkept,
      ih (fun n hn => hother n (List.mem_cons_of_mem child hn)) (before ++ [child]) ?_, List.append_assoc]
    · rfl
    · intro n hn
      obtain hn | hn := List.mem_append.1 hn
      · exact hbefore n hn
      · rw [List.mem_singleton.1 hn]
        exact hother child List.mem_cons_self

end SteppedLogo.ViewNode
