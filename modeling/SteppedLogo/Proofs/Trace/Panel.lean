import SteppedLogo.Proofs.Trace.Drawn

namespace SteppedLogo

/-- A tree with a mark at the given node, if one is given. -/
def ViewNode.markedAt (n : ViewNode) : Option Identity → ViewNode
  | none => n
  | some target => n.setActive target true

/-- The tree rendered for `body`, the item of the cell `anchor`. -/
def Renderer.treeOf (anchor : Identity) (body : LogoList) (active : Option Identity) : ViewNode :=
  ((Value.list body).drawn (anchor + 1)).markedAt active

/-- A renderer that has rendered `body` as the item of the cell `anchor`. -/
def Renderer.showing (anchor : Identity) (body : LogoList) (active : Option Identity) : Renderer where
  body := .list body
  tree := some (treeOf anchor body active)
  cache := entriesFrom (anchor + 1) (⟨anchor, .list body, .empty⟩ :: body.cellsWithin)
  active := active

/-- A renderer with its view, where the identities below `fresh` are taken. -/
structure Panel where
  trace : Trace
  fresh : Identity
  /-- the body that was rendered last, and its tree -/
  installed : Option (LogoList × ViewNode) := none

namespace Panel

/-- The panel after an update. -/
def update (s : Panel) (body : LogoList) (cell : Value) : Panel :=
  let (trace, _, fresh) := s.trace.update s.fresh (.list body) cell
  { trace, fresh, installed := trace.renderer.tree.map (body, ·) }

/-- The node that an update gives. -/
def marked? (s : Panel) (body : LogoList) (cell : Value) : Option Identity := (s.trace.update s.fresh (.list body) cell).2.1

/-- The panel after a release. -/
def release (s : Panel) : Panel := { s with trace := s.trace.release }

/-- The panel after the host has changed the view. -/
def onView (s : Panel) (change : DebugView → DebugView) : Panel := { s with trace := { s.trace with view := change s.trace.view } }

/-- A list that has been made by now: its cells have their identities, and if it is one object with the body that the
    renderer holds, it is that body. -/
structure Knows (s : Panel) (body : LogoList) : Prop where
  made : ∀ c ∈ body.cellsWithin, c.id < s.fresh
  same : ∀ l, s.trace.renderer.body = .list l → body.same l = true → body = l

/-- A tree that has been made by now: if its root is that of the tree installed last, it is that tree. -/
structure KnowsTree (s : Panel) (n : ViewNode) : Prop where
  made : ∀ i ∈ n.ids, i < s.fresh
  same : ∀ body tree, s.installed = some (body, tree) → n.id = tree.id → n = tree

/-- What may happen to a renderer and its view. -/
inductive Step (s : Panel) : Panel → Prop
  /-- other objects are made -/
  | make {fresh : Identity} : s.fresh ≤ fresh → Step s { s with fresh }
  | update {body : LogoList} (cell : Value) : s.Knows body → Step s (s.update body cell)
  | release : Step s s.release
  | clear : Step s (s.onView DebugView.clear)
  | touch : Step s (s.onView DebugView.touch)
  | replace {root : Option ViewNode} : (∀ n, root = some n → s.KnowsTree n) → Step s (s.onView (·.replace root))

/-- The panels that come of a new renderer on any view. -/
inductive Reachable : Panel → Prop
  | new {view : DebugView} {fresh : Identity} : (∀ n, view.root = some n → ∀ i ∈ n.ids, i < fresh) →
      Reachable { trace := { view }, fresh }
  | step {s s' : Panel} : Reachable s → Step s s' → Reachable s'

/-- What may happen to a panel while the renderer is not asked for any body but one, nor released: updates with that
    body, and whatever the host does. -/
inductive Keeps (body : LogoList) (s : Panel) : Panel → Prop
  | refl : Keeps body s s
  | update {s' : Panel} (cell : Value) : Keeps body s s' → Keeps body s (s'.update body cell)
  | make {s' : Panel} {fresh : Identity} : Keeps body s s' → s'.fresh ≤ fresh → Keeps body s { s' with fresh }
  | clear {s' : Panel} : Keeps body s s' → Keeps body s (s'.onView DebugView.clear)
  | touch {s' : Panel} : Keeps body s s' → Keeps body s (s'.onView DebugView.touch)
  | replace {s' : Panel} {root : Option ViewNode} : Keeps body s s' → (∀ n, root = some n → s'.KnowsTree n) →
      Keeps body s (s'.onView (·.replace root))

end Panel

namespace ViewNode

/-- Takes the mark from the node that has it, if any, and sets it at the target. -/
def remark (n : ViewNode) (active : Option Identity) (target : Identity) : ViewNode :=
  (match active with
    | some old => n.setActive old false
    | none => n).setActive target true

theorem id_remark (n : ViewNode) (active : Option Identity) (target : Identity) : (n.remark active target).id = n.id := by
  cases active <;> simp [remark]

/-- Moving the marker changes no identity of a tree. -/
theorem ids_remark (n : ViewNode) (active : Option Identity) (target : Identity) : (n.remark active target).ids = n.ids := by
  cases active <;> simp [remark, ids_setActive]

/-- Moving the marker of a tree that was plain gives the tree marked at the new node only. -/
theorem remark_markedAt {n : ViewNode} (hplain : n.Plain) (active : Option Identity) (target : Identity) :
    (n.markedAt active).remark active target = n.markedAt (some target) := by
  cases active with
  | none => rfl
  | some old => exact congrArg (setActive target true) (hplain.unmark old)

theorem id_markedAt (n : ViewNode) (active : Option Identity) : (n.markedAt active).id = n.id := by
  cases active <;> simp [markedAt]

/-- Marking a node changes no identity of a tree. -/
theorem ids_markedAt (n : ViewNode) (active : Option Identity) : (n.markedAt active).ids = n.ids := by
  cases active <;> simp [markedAt, ids_setActive]

end ViewNode

namespace Trace

variable {t : Trace}

/-- Moving the marker to the node that has it changes nothing. -/
theorem moveMarker_of_active {target : Identity} (h : t.renderer.active = some target) : t.moveMarker target = t := if_pos h

/-- The marker moves in the rendered tree and wherever the view shows its nodes. -/
theorem moveMarker_of_ne {target : Identity} (h : t.renderer.active ≠ some target) :
    (t.moveMarker target).renderer =
        { t.renderer with tree := t.renderer.tree.map (·.remark t.renderer.active target), active := some target } ∧
      (t.moveMarker target).view.root = t.view.root.map (·.remark t.renderer.active target) := by
  unfold moveMarker
  rw [if_neg h]
  cases t.renderer.active with
  | none => exact ⟨rfl, rfl⟩
  | some old => simp [mark, DebugView.touch, ViewNode.remark, Function.comp_def]

end Trace

namespace Renderer

variable {anchor : Identity} {body : LogoList} {active : Option Identity}

/-- The root of a body's tree has the identity that follows the anchor. -/
theorem id_treeOf : (treeOf anchor body active).id = anchor + 1 := by
  rw [treeOf, ViewNode.id_markedAt, id_drawn]

/-- The identities of a body's tree follow the anchor, one for the root and one for each cell within. -/
theorem mem_ids_treeOf {i : Identity} :
    i ∈ (treeOf anchor body active).ids ↔ anchor + 1 ≤ i ∧ i < anchor + (2 + body.cellsWithin.length) := by
  rw [treeOf, ViewNode.ids_markedAt, mem_ids_drawn, Value.cellsWithin, Nat.add_assoc anchor, ← Nat.add_assoc 1]

/-- Moving the marker within a body's tree gives the body's tree marked at the new node. -/
theorem remark_treeOf (target : Identity) : (treeOf anchor body active).remark active target =
    treeOf anchor body (some target) :=
  ViewNode.remark_markedAt (plain_drawn _ _) active target

/-- A cell is looked up as the node entered last for it. -/
theorem lookup?_list (r : Renderer) (id : Identity) (head : Value) (tail : LogoList) :
    r.lookup? (.list (.cons id head tail)) = lastNode? r.cache id := rfl

/-- What is looked up is a node of the tree. -/
theorem mem_ids_of_lookup? {v : Value} {i : Identity} (hi : (showing anchor body active).lookup? v = some i)
    (other : Option Identity) : i ∈ (treeOf anchor body other).ids := by
  rw [mem_ids_treeOf]
  match v, hi with
  | .list (.cons id _ _), hi =>
    obtain ⟨hle, hlt⟩ := lastNode?_entriesFrom_bounds (show lastNode? (entriesFrom (anchor + 1) _) id = some i from hi)
    rw [List.length_cons, Nat.add_assoc anchor, Nat.add_comm body.cellsWithin.length, ← Nat.add_assoc 1] at hlt
    exact ⟨hle, hlt⟩

/-- Rebuilding for a list shows its tree without a marker, and uses one identity for each node. -/
theorem rebuild_list (fresh : Identity) (body : LogoList) :
    rebuild fresh (.list body) = (showing fresh body none, fresh + (2 + body.cellsWithin.length)) :=
      rebuild_eq fresh (.list body)

end Renderer

namespace Trace

variable {t : Trace} {anchor : Identity} {body : LogoList} {before : Option Identity}

/-- The marker goes to the node of a cell of the body, and stays where it is for anything else. What happens to the
    rendered tree happens to whatever the view shows, and leaves the identities of its nodes alone. -/
theorem follow (h : t.renderer = .showing anchor body before) (cell : Value) :
    let target := (Renderer.showing anchor body before).lookup? cell
    let moved := (target.map t.moveMarker).getD t
    ∃ f : ViewNode → ViewNode, (∀ n, (f n).id = n.id ∧ (f n).ids = n.ids) ∧
      f (Renderer.treeOf anchor body before) = Renderer.treeOf anchor body (target.or before) ∧
      moved.renderer = .showing anchor body (target.or before) ∧ moved.view.root = t.view.root.map f := by
  intro target moved
  cases htarget : target with
  | none => exact ⟨(fun n => n), fun n => ⟨rfl, rfl⟩, rfl, by simpa [moved, htarget] using h, by simp [moved, htarget]⟩
  | some i =>
    have hmoved : moved = t.moveMarker i := by simp [moved, htarget]
    rw [hmoved]
    have hbefore : t.renderer.active = before := by rw [h]; rfl
    by_cases hactive : before = some i
    · rw [moveMarker_of_active (hbefore.trans hactive)]
      exact ⟨(fun n => n), fun n => ⟨rfl, rfl⟩, by rw [hactive]; rfl, by rw [h, hactive]; rfl, by simp⟩
    · obtain ⟨hrenderer, hroot⟩ := moveMarker_of_ne (hbefore ▸ hactive)
      refine ⟨(·.remark before i), fun n => ⟨n.id_remark before i, n.ids_remark before i⟩, Renderer.remark_treeOf i, ?_, ?_⟩
      · rw [hrenderer, hbefore, h]
        simp only [Renderer.showing, Option.map_some, Renderer.remark_treeOf, Option.some_or]
      · rw [hroot, hbefore]

theorem same_self (body : LogoList) : (Value.list body).same (.list body) = true := by
  cases body <;> simp [Value.same, LogoList.same]

/-- The body that was rendered last is not rendered anew. -/
theorem present_showing (h : t.renderer = .showing anchor body before) (fresh : Identity) :
    t.present fresh (.list body) = (t, fresh) := by
  refine if_pos ?_
  rw [h]
  exact same_self body

/-- The trace just after a body was rendered. -/
def rendering (t : Trace) (fresh : Identity) (body : LogoList) : Trace :=
  ⟨.showing fresh body none, t.view.replace (some (Renderer.treeOf fresh body none))⟩

/-- Any other body is rendered by new nodes. -/
theorem present_rendering (hnew : ¬ (Value.list body).same t.renderer.body = true) (fresh : Identity) :
    t.present fresh (.list body) = (t.rendering fresh body, fresh + (2 + body.cellsWithin.length)) := by
  rw [present, if_neg hnew, Renderer.rebuild_list]
  rfl

end Trace

namespace Panel

variable {s s' : Panel} {anchor : Identity} {body : LogoList} {active : Option Identity}

/-- The tree installed last is the rendering of a body, and the renderer holds it as long as it is not released. -/
structure Holds (s : Panel) (anchor : Identity) (body : LogoList) (active : Option Identity) : Prop where
  installed : s.installed = some (body, Renderer.treeOf anchor body active)
  renderer : s.trace.renderer = {} ∨ s.trace.renderer = .showing anchor body active
  numbered : anchor + (2 + body.cellsWithin.length) ≤ s.fresh
  apart : ∀ c ∈ body.cellsWithin, c.id < anchor
  mark : ∀ i, active = some i → i ∈ (Renderer.treeOf anchor body active).ids

/-- What holds of every renderer and its view: the invariant of all requests. -/
structure Sound (s : Panel) : Prop where
  holds : s.installed = none ∧ s.trace.renderer = {} ∨ ∃ anchor body active, s.Holds anchor body active
  root : ∀ n, s.trace.view.root = some n → s.KnowsTree n

/-- The view shows the tree that was installed last. -/
def Shows (s : Panel) (body : LogoList) : Prop := ∃ tree, s.installed = some (body, tree) ∧ s.trace.view.root = some tree

/-- A tree that is known stays known when identities are used up. -/
theorem KnowsTree.grow {n : ViewNode} (h : s.KnowsTree n) {fresh : Identity} (hle : s.fresh ≤ fresh) :
    KnowsTree { s with fresh } n := ⟨fun i hi => Nat.lt_of_lt_of_le (h.made i hi) hle, h.same⟩

/-- What an update does. A body that the renderer holds already stays installed, and the view shows it after the update
    if it did so before; any other body is installed, and the view shows it. Then the marker follows the cell. -/
structure Updated (s : Panel) (body : LogoList) (cell : Value) (anchor : Identity) (before after : Option Identity) : Prop where
  shown : s.trace.renderer = .showing anchor body before ∧ s.Holds anchor body before ∧
      ((s.update body cell).Shows body ↔ s.Shows body) ∨
    s.trace.renderer.body ≠ .list body ∧ anchor = s.fresh ∧ before = none ∧ (s.update body cell).Shows body
  marked : s.marked? body cell = (Renderer.showing anchor body before).lookup? cell
  moved : after = (s.marked? body cell).or before
  renderer : (s.update body cell).trace.renderer = .showing anchor body after
  holds : (s.update body cell).Holds anchor body after

/-- The trace of an update: the body is presented, and the marker follows the cell. -/
theorem update_eq (s : Panel) (body : LogoList) (cell : Value) :
    let shown := s.trace.present s.fresh (.list body)
    let target := shown.1.renderer.lookup? cell
    s.marked? body cell = target ∧ (s.update body cell).trace = (target.map shown.1.moveMarker).getD shown.1 ∧
      (s.update body cell).fresh = shown.2 ∧
      (s.update body cell).installed = (s.update body cell).trace.renderer.tree.map (body, ·) := by
  intro shown target
  have heq : s.trace.update s.fresh (.list body) cell = ((target.map shown.1.moveMarker).getD shown.1, target, shown.2) := by
    simp only [Trace.update]
    split
    · next hnone => simp only [target, shown, hnone, Option.map_none, Option.getD_none]
    · next i hsome => simp only [target, shown, hsome, Option.map_some, Option.getD_some]
  simp only [marked?, update, heq]
  exact ⟨trivial, trivial, trivial, trivial⟩

/-- The marker follows a cell in a panel that holds the rendering of a body. -/
theorem Holds.follow (h : s.Holds anchor body active) (hrenderer : s.trace.renderer = .showing anchor body active)
    (hroot : ∀ n, s.trace.view.root = some n → s.KnowsTree n) {cell : Value}
    (htarget : s'.trace = (((Renderer.showing anchor body active).lookup? cell).map s.trace.moveMarker).getD s.trace)
    (hfresh : s'.fresh = s.fresh) (hinstalled : s'.installed = s'.trace.renderer.tree.map (body, ·)) :
    let after := ((Renderer.showing anchor body active).lookup? cell).or active
    s'.trace.renderer = .showing anchor body after ∧ s'.Holds anchor body after ∧ (s'.Shows body ↔ s.Shows body) ∧
      ∀ n, s'.trace.view.root = some n → s'.KnowsTree n := by
  intro after
  obtain ⟨f, hids, htree, hmoved, hview⟩ := Trace.follow hrenderer cell
  rw [← htarget] at hmoved hview
  have hlast : s'.installed = some (body, Renderer.treeOf anchor body after) := by rw [hinstalled, hmoved]; rfl
  have hmark (i : Identity) (hi : after = some i) : i ∈ (Renderer.treeOf anchor body after).ids := by
    rw [Renderer.mem_ids_treeOf, ← @Renderer.mem_ids_treeOf _ _ active]
    obtain hi | ⟨-, hi⟩ := Option.or_eq_some_iff.1 hi
    · exact Renderer.mem_ids_of_lookup? hi active
    · exact h.mark i hi
  have hback (n : ViewNode) (hn : s.trace.view.root = some n) (hid : n.id = anchor + 1) : n =
    Renderer.treeOf anchor body active :=
    (hroot n hn).same body _ h.installed (hid.trans Renderer.id_treeOf.symm)
  refine ⟨hmoved, ⟨hlast, .inr hmoved, hfresh ▸ h.numbered, h.apart, hmark⟩, ⟨?_, ?_⟩, ?_⟩
  · rintro ⟨tree, heq, hshown⟩
    obtain rfl : Renderer.treeOf anchor body after = tree := (Prod.mk.inj (Option.some.inj (hlast.symm.trans heq))).2
    rw [hview] at hshown
    obtain ⟨n, hn, hfn⟩ := Option.map_eq_some_iff.1 hshown
    have hid : n.id = anchor + 1 := by rw [← (hids n).1, hfn, Renderer.id_treeOf]
    exact ⟨_, h.installed, hn.trans (congrArg some (hback n hn hid))⟩
  · rintro ⟨tree, heq, hshown⟩
    obtain rfl : Renderer.treeOf anchor body active = tree := (Prod.mk.inj (Option.some.inj (h.installed.symm.trans heq))).2
    exact ⟨_, hlast, by rw [hview, hshown, Option.map_some, htree]⟩
  · intro n hn
    rw [hview] at hn
    obtain ⟨m, hm, rfl⟩ := Option.map_eq_some_iff.1 hn
    refine ⟨fun i hi => ?_, fun b tree heq hid => ?_⟩
    · rw [(hids m).2] at hi
      exact hfresh ▸ (hroot m hm).made i hi
    · obtain ⟨rfl, rfl⟩ := Prod.mk.inj (Option.some.inj (hlast.symm.trans heq))
      rw [(hids m).1, Renderer.id_treeOf] at hid
      rw [hback m hm hid, htree]

/-- A body that the renderer holds is the very one that it has rendered. -/
theorem Sound.holds_of_same (h : s.Sound) (hknows : s.Knows body)
    (hsame : (Value.list body).same s.trace.renderer.body = true) :
    ∃ anchor active, s.Holds anchor body active ∧ s.trace.renderer = .showing anchor body active := by
  have hblank : s.trace.renderer ≠ {} := fun hblank => by rw [hblank] at hsame; cases hsame
  obtain ⟨-, hblank'⟩ | ⟨anchor, rendered, active, hholds⟩ := h.holds
  · exact absurd hblank' hblank
  · have hrenderer := hholds.renderer.resolve_left hblank
    rw [hrenderer] at hsame
    obtain rfl : body = rendered := hknows.same rendered (by rw [hrenderer]; rfl) hsame
    exact ⟨anchor, active, hholds, hrenderer⟩

/-- An update with the body that the renderer holds does not render it anew. -/
theorem Sound.update_again (h : s.Sound) (hholds : s.Holds anchor body active)
    (hrenderer : s.trace.renderer = .showing anchor body active) (cell : Value) :
    let after := (s.marked? body cell).or active
    s.marked? body cell = (Renderer.showing anchor body active).lookup? cell ∧
      (s.update body cell).trace.renderer = .showing anchor body after ∧ (s.update body cell).Holds anchor body after ∧
      ((s.update body cell).Shows body ↔ s.Shows body) ∧
      ∀ n, (s.update body cell).trace.view.root = some n → (s.update body cell).KnowsTree n := by
  obtain ⟨hmarked, htrace, hfresh, hinstalled⟩ := s.update_eq body cell
  rw [Trace.present_showing hrenderer] at hmarked htrace hfresh
  rw [hrenderer] at hmarked htrace
  rw [hmarked]
  exact ⟨rfl, hholds.follow hrenderer h.root htrace hfresh hinstalled⟩

/-- An update of a sound panel with a body that it knows leaves the body shown, and the tree known. -/
theorem Sound.updated (h : s.Sound) (hknows : s.Knows body) (cell : Value) :
    (∃ anchor before after, s.Updated body cell anchor before after) ∧
      ∀ n, (s.update body cell).trace.view.root = some n → (s.update body cell).KnowsTree n := by
  by_cases hsame : (Value.list body).same s.trace.renderer.body = true
  · obtain ⟨anchor, before, hholds, hrenderer⟩ := h.holds_of_same hknows hsame
    obtain ⟨hmarked, hafter, hheld, hshows, hroot⟩ := h.update_again hholds hrenderer cell
    exact ⟨⟨anchor, before, _, .inl ⟨hrenderer, hholds, hshows⟩, hmarked, rfl, hafter, hheld⟩, hroot⟩
  · -- a body that is new to the renderer: the marker follows the cell in a panel that has just installed it
    obtain ⟨hmarked, htrace, hfresh, hinstalled⟩ := s.update_eq body cell
    rw [Trace.present_rendering hsame] at hmarked htrace hfresh
    let installing : Panel :=
      ⟨s.trace.rendering s.fresh body, s.fresh + (2 + body.cellsWithin.length),
        some (body, Renderer.treeOf s.fresh body none)⟩
    have hholds : installing.Holds s.fresh body none :=
      ⟨rfl, .inr rfl, Nat.le_refl _, hknows.made, fun i hi => nomatch hi⟩
    have hknown (n : ViewNode) (hn : some (Renderer.treeOf s.fresh body none) = some n) : installing.KnowsTree n := by
      obtain rfl := Option.some.inj hn
      refine ⟨fun i hi => (Renderer.mem_ids_treeOf.1 hi).2, fun b tree heq _ => ?_⟩
      exact (Prod.mk.inj (Option.some.inj heq)).2
    obtain ⟨hafter, hheld, hshows, hroot⟩ := hholds.follow rfl hknown htrace hfresh hinstalled
    have hnew : s.trace.renderer.body ≠ .list body := by
      intro heq
      rw [heq] at hsame
      exact hsame (Trace.same_self body)
    exact ⟨⟨s.fresh, none, _, .inr ⟨hnew, rfl, rfl, hshows.2 ⟨_, rfl, rfl⟩⟩, hmarked,
      congrArg (·.or none) hmarked.symm, hafter, hheld⟩, hroot⟩

/-- A change of the view leaves what the renderer holds as it is. -/
theorem Holds.onView (h : s.Holds anchor body active) (change : DebugView → DebugView) :
    (s.onView change).Holds anchor body active :=
  ⟨h.installed, h.renderer, h.numbered, h.apart, h.mark⟩

/-- A change of the view keeps a panel sound, provided it shows no unknown tree. -/
theorem Sound.onView (h : s.Sound) {change : DebugView → DebugView}
    (hroot : ∀ n, (change s.trace.view).root = some n → s.KnowsTree n) : (s.onView change).Sound :=
  ⟨h.holds.imp_right fun ⟨anchor, body, active, hholds⟩ => ⟨anchor, body, active, hholds.onView change⟩,
    fun n hn => ⟨(hroot n hn).made, (hroot n hn).same⟩⟩

/-- A release leaves the view showing what it showed. -/
theorem Holds.release (h : s.Holds anchor body active) : s.release.Holds anchor body active :=
  ⟨h.installed, .inl rfl, h.numbered, h.apart, h.mark⟩

/-- Every step of a panel's owner keeps the panel sound. -/
theorem Sound.step (h : s.Sound) (hstep : s.Step s') : s'.Sound := by
  cases hstep with
  | make hle =>
    refine ⟨h.holds.imp_right fun ⟨anchor, body, active, hholds⟩ => ?_, fun n hn => (h.root n hn).grow hle⟩
    exact ⟨anchor, body, active, hholds.installed, hholds.renderer, Nat.le_trans hholds.numbered hle, hholds.apart,
      hholds.mark⟩
  | update cell hknows =>
    obtain ⟨⟨anchor, before, after, hupdated⟩, hroot⟩ := h.updated hknows cell
    exact ⟨.inr ⟨anchor, _, after, hupdated.holds⟩, hroot⟩
  | release =>
    have hholds : s.release.installed = none ∧ s.release.trace.renderer = {} ∨
      ∃ anchor body active, s.release.Holds anchor body active :=
      h.holds.imp (fun hnone => ⟨hnone.1, rfl⟩) fun ⟨anchor, body, active, hholds⟩ => ⟨anchor, body, active, hholds.release⟩
    exact ⟨hholds, fun n hn => ⟨(h.root n hn).made, (h.root n hn).same⟩⟩
  | clear => exact h.onView fun n hn => nomatch hn
  | touch => exact h.onView h.root
  | replace hknows => exact h.onView hknows

/-- Every reachable panel is sound. -/
theorem Reachable.sound (h : s.Reachable) : s.Sound := by
  induction h with
  | new hmade => exact ⟨.inl ⟨rfl, rfl⟩, fun n hn => ⟨hmade n hn, fun _ _ hnone => nomatch hnone⟩⟩
  | step _ hstep ih => exact ih.step hstep

/-- A body that the renderer holds is known. -/
theorem Holds.knows (h : s.Holds anchor body active) (hrenderer : s.trace.renderer = .showing anchor body active) :
    s.Knows body := by
  refine ⟨fun c hc => Nat.lt_of_lt_of_le (h.apart c hc) (Nat.le_trans (Nat.le_add_right _ _) h.numbered), fun l hl _ => ?_⟩
  rw [hrenderer] at hl
  exact Value.list.inj hl

/-- While the renderer is asked for no other body, it holds the one that it has rendered. -/
theorem Keeps.holds (h : s.Keeps body s') (hsound : s.Sound) (hholds : s.Holds anchor body active)
    (hrenderer : s.trace.renderer = .showing anchor body active) :
    s'.Sound ∧ ∃ after, s'.Holds anchor body after ∧ s'.trace.renderer = .showing anchor body after := by
  induction h with
  | refl => exact ⟨hsound, active, hholds, hrenderer⟩
  | update cell _ ih =>
    obtain ⟨hsound, after, hholds, hrenderer⟩ := ih
    obtain ⟨-, hagain, hheld, -, -⟩ := hsound.update_again hholds hrenderer cell
    exact ⟨hsound.step (.update cell (hholds.knows hrenderer)), _, hheld, hagain⟩
  | make _ hle ih =>
    obtain ⟨hsound, after, hholds, hrenderer⟩ := ih
    exact ⟨hsound.step (.make hle), after, ⟨hholds.installed, .inr hrenderer, Nat.le_trans hholds.numbered hle,
      hholds.apart, hholds.mark⟩,
      hrenderer⟩
  | clear _ ih =>
    obtain ⟨hsound, after, hholds, hrenderer⟩ := ih
    exact ⟨hsound.step .clear, after, hholds.onView _, hrenderer⟩
  | touch _ ih =>
    obtain ⟨hsound, after, hholds, hrenderer⟩ := ih
    exact ⟨hsound.step .touch, after, hholds.onView _, hrenderer⟩
  | replace _ hknows ih =>
    obtain ⟨hsound, after, hholds, hrenderer⟩ := ih
    exact ⟨hsound.step (.replace hknows), after, hholds.onView _, hrenderer⟩

def petal : LogoList := .cons 1 (.text "fd") .empty

def rosette : LogoList := .cons 2 (.list petal) (.cons 0 (.list petal) .empty)

/-- A new renderer with a view of its own, in a surrounding in which `rosette` has been made. -/
def blank : Panel := { trace := {}, fresh := 3 }

theorem blank_reachable : blank.Reachable := .new fun _ hnone => nomatch hnone

theorem blank_knows : blank.Knows rosette where
  made := by decide
  same _ hnone := nomatch hnone

end Panel

end SteppedLogo
