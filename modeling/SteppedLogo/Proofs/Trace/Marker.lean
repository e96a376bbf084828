import SteppedLogo.Proofs.Trace.Panel

namespace SteppedLogo

namespace Renderer

variable {anchor : Identity} {body : LogoList}

theorem activeNodes_treeOf_none : (treeOf anchor body none).activeNodes = [] := (plain_drawn _ _).activeNodes_eq

/-- The marked node is the only active one. -/
theorem activeNodes_treeOf_some {active : Option Identity} {i : Identity} (hi : i ∈ (treeOf anchor body active).ids) :
    ∃ node, (treeOf anchor body (some i)).activeNodes = [node] ∧ node.id = i := by
  rw [mem_ids_treeOf, ← @mem_ids_treeOf _ _ none] at hi
  obtain ⟨m, hm, rfl⟩ := List.mem_map.1 hi
  exact ⟨_, (plain_drawn _ _).activeNodes_setActive (nodup_ids_drawn _ _) hm, m.id_setActive m.id true⟩

end Renderer

namespace Panel

variable {s : Panel} {anchor : Identity} {body : LogoList} {active : Option Identity}

/-- The active node of the tree installed last is the marked one. -/
theorem Holds.active_node (h : s.Holds anchor body active) {i : Identity} (hi : active = some i) :
    ∃ tree node, s.installed = some (body, tree) ∧ tree.activeNodes = [node] ∧ node.id = i := by
  obtain ⟨node, hactive, hid⟩ := Renderer.activeNodes_treeOf_some (h.mark i hi)
  exact ⟨_, node, h.installed, hi ▸ hactive, hid⟩

theorem Holds.activeNodes_length (h : s.Holds anchor body active) :
    (Renderer.treeOf anchor body active).activeNodes.length ≤ 1 := by
  cases hactive : active with
  | none => rw [Renderer.activeNodes_treeOf_none]; exact Nat.zero_le 1
  | some i =>
    obtain ⟨node, hnode, -⟩ := Renderer.activeNodes_treeOf_some (h.mark i hactive)
    rw [hnode]
    exact Nat.le_refl 1

/-- An update with the body that is held and a cell that needs no other mark leaves everything as it is. -/
theorem Holds.update_eq_self (h : s.Holds anchor body active)
    (hrenderer : s.trace.renderer = .showing anchor body active) {cell : Value}
    (hstays : ∀ i, s.marked? body cell = some i → active = some i) : s.update body cell = s := by
  obtain ⟨hmarked, htrace, hfresh, hinstalled⟩ := s.update_eq body cell
  rw [Trace.present_showing hrenderer] at htrace hfresh hmarked
  rw [← hmarked] at htrace
  have hsame : (s.update body cell).trace = s.trace := by
    rw [htrace]
    cases hcell : s.marked? body cell with
    | none => rfl
    | some i =>
      have hactive : s.trace.renderer.active = some i := by
        rw [hrenderer]
        exact hstays i hcell
      rw [Option.map_some, Option.getD_some, Trace.moveMarker_of_active hactive]
  have hlast : (s.update body cell).installed = s.installed := by rw [hinstalled, hsame, hrenderer, h.installed]; rfl
  calc s.update body cell = ⟨(s.update body cell).trace, (s.update body cell).fresh, (s.update body cell).installed⟩ := rfl
    _ = ⟨s.trace, s.fresh, s.installed⟩ := by rw [hsame, hfresh, hlast]

theorem Sound.activeNodes_length (h : s.Sound) {tree : ViewNode} (hinstalled : s.installed = some (body, tree)) :
    tree.activeNodes.length ≤ 1 := by
  obtain ⟨hnone, -⟩ | ⟨anchor, rendered, active, hholds⟩ := h.holds
  · rw [hnone] at hinstalled
    cases hinstalled
  · rw [hholds.installed] at hinstalled
    obtain ⟨-, rfl⟩ := Prod.mk.inj (Option.some.inj hinstalled)
    exact hholds.activeNodes_length

/-- What the renderer calls active is the only active node of its tree. -/
theorem Sound.active_node (h : s.Sound) {i : Identity} (hi : s.trace.renderer.active = some i) :
    ∃ body tree node, s.installed = some (body, tree) ∧ s.trace.renderer.tree = some tree ∧ tree.activeNodes = [node] ∧
      node.id = i := by
  obtain ⟨-, hblank⟩ | ⟨anchor, body, active, hholds⟩ := h.holds
  · rw [hblank] at hi
    cases hi
  · obtain hblank | hrenderer := hholds.renderer
    · rw [hblank] at hi
      cases hi
    · obtain rfl : active = some i := by rw [hrenderer] at hi; exact hi
      obtain ⟨node, hactive, hid⟩ := Renderer.activeNodes_treeOf_some (hholds.mark i rfl)
      exact ⟨body, _, node, hholds.installed, by rw [hrenderer]; rfl, hactive, hid⟩

/-- The node that an update gives is the one that is marked. -/
theorem Sound.active_of_marked (h : s.Sound) (hknows : s.Knows body) {cell : Value} {i : Identity}
    (hi : s.marked? body cell = some i) : (s.update body cell).trace.renderer.active = some i ∧
      ∃ tree node, (s.update body cell).installed = some (body, tree) ∧ tree.activeNodes = [node] ∧ node.id = i := by
  obtain ⟨⟨anchor, before, after, hupdated⟩, -⟩ := h.updated hknows cell
  have hafter : after = some i := by rw [hupdated.moved, hi, Option.some_or]
  exact ⟨by rw [hupdated.renderer]; exact hafter, hupdated.holds.active_node hafter⟩

/-- An update that gives no node changes nothing, unless it installs a body that is new to the renderer. -/
theorem Sound.unmarked (h : s.Sound) (hknows : s.Knows body) {cell : Value} (hnone : s.marked? body cell = none) :
    (s.trace.renderer.body = .list body → s.update body cell = s) ∧
      (s.trace.renderer.body ≠ .list body → (s.update body cell).trace.renderer.active = none ∧
        ∃ tree, (s.update body cell).installed = some (body, tree) ∧ tree.activeNodes = []) := by
  obtain ⟨⟨anchor, before, after, hupdated⟩, -⟩ := h.updated hknows cell
  have hafter : after = before := by rw [hupdated.moved, hnone, Option.none_or]
  obtain ⟨hrenderer, hholds, -⟩ | ⟨hnew, -, rfl, -⟩ := hupdated.shown
  · refine ⟨fun _ => hholds.update_eq_self hrenderer fun i hi => ?_, fun hnew => absurd ?_ hnew⟩
    · rw [hnone] at hi
      cases hi
    · rw [hrenderer]
      rfl
  · subst hafter
    refine ⟨fun heq => absurd heq hnew, fun _ => ⟨by rw [hupdated.renderer]; rfl, _, hupdated.holds.installed, ?_⟩⟩
    exact Renderer.activeNodes_treeOf_none

/-- A body that is new to the renderer is shown by a tree of new nodes. -/
theorem Sound.installs (h : s.Sound) (hknows : s.Knows body) (hnew : s.trace.renderer.body ≠ .list body) (cell : Value) :
    ∃ tree, (s.update body cell).installed = some (body, tree) ∧ (s.update body cell).trace.view.root = some tree ∧
      (∀ i ∈ tree.ids, s.fresh ≤ i) ∧
      ∀ old lastTree, s.installed = some (old, lastTree) → ∀ i ∈ lastTree.ids, i < s.fresh := by
  obtain ⟨⟨anchor, before, after, hupdated⟩, -⟩ := h.updated hknows cell
  obtain ⟨hrenderer, -⟩ | ⟨-, rfl, -, tree, hinstalled, hroot⟩ := hupdated.shown
  · exact absurd (by rw [hrenderer]; rfl) hnew
  · refine ⟨tree, hinstalled, hroot, fun i hi => ?_, fun old lastTree hlast i hi => ?_⟩
    · rw [hupdated.holds.installed] at hinstalled
      obtain ⟨-, rfl⟩ := Prod.mk.inj (Option.some.inj hinstalled)
      exact Nat.le_of_succ_le (Renderer.mem_ids_treeOf.1 hi).1
    · obtain ⟨hnone, -⟩ | ⟨anchor, rendered, active, hholds⟩ := h.holds
      · rw [hnone] at hlast
        cases hlast
      · rw [hholds.installed] at hlast
        obtain ⟨-, rfl⟩ := Prod.mk.inj (Option.some.inj hlast)
        exact Nat.lt_of_lt_of_le (Renderer.mem_ids_treeOf.1 hi).2 hholds.numbered

/-- In every reachable panel: the tree installed last has at most one active node, and what the renderer calls active is a
node of it and its only one. `update` with a known body marks the node it gives and no other; where it gives none, it
changes nothing or installs the tree of a new body unmarked. `release` empties the renderer and leaves view and tree, and
the next `update` installs a tree of new nodes. -/
theorem single_marker (h : s.Reachable) :
    (∀ body tree, s.installed = some (body, tree) → tree.activeNodes.length ≤ 1) ∧
    (∀ i, s.trace.renderer.active = some i → ∃ body tree node, s.installed = some (body, tree) ∧
      s.trace.renderer.tree = some tree ∧ tree.activeNodes = [node] ∧ node.id = i) ∧
    (∀ body cell, s.Knows body →
      (∀ i, s.marked? body cell = some i → (s.update body cell).trace.renderer.active = some i ∧
        ∃ tree node, (s.update body cell).installed = some (body, tree) ∧ tree.activeNodes = [node] ∧ node.id = i) ∧
      (s.marked? body cell = none →
        (s.trace.renderer.body = .list body → s.update body cell = s) ∧
        (s.trace.renderer.body ≠ .list body → (s.update body cell).trace.renderer.active = none ∧
          ∃ tree, (s.update body cell).installed = some (body, tree) ∧ tree.activeNodes = []))) ∧
    (s.release.trace.renderer = {} ∧ s.release.trace.view = s.trace.view ∧ s.release.installed = s.installed) ∧
    (s.trace.renderer = {} → ∀ body cell, s.Knows body → ∃ tree, (s.update body cell).installed = some (body, tree) ∧
      (s.update body cell).trace.view.root = some tree ∧ (∀ i ∈ tree.ids, s.fresh ≤ i) ∧
      ∀ old lastTree, s.installed = some (old, lastTree) → ∀ i ∈ lastTree.ids, i < s.fresh) := by
  refine ⟨fun body tree => h.sound.activeNodes_length, fun i => h.sound.active_node, fun body cell hknows => ?_,
    ⟨rfl, rfl, rfl⟩, fun hblank body cell hknows => h.sound.installs hknows ?_ cell⟩
  · exact ⟨fun i => h.sound.active_of_marked hknows, h.sound.unmarked hknows⟩
  · rw [hblank]
    exact fun hnone => nomatch hnone

/-- The cell that stands twice is marked where it stands last; a text that is no cell moves nothing, and a release leaves
    the mark. -/
theorem rosette_single_marker :
    let s := blank.update rosette (.list petal)
    (s.trace.renderer.active = some 8 ∧
      ∃ tree node, s.installed = some (rosette, tree) ∧ tree.activeNodes = [node] ∧ node.id = 8) ∧
      s.update rosette (.text "fd") = s ∧ s.release.trace.view = s.trace.view ∧
      ∃ tree, (s.release.update rosette .none).trace.view.root = some tree ∧ ∀ i ∈ tree.ids, 9 ≤ i := by
  have hreachable := blank_reachable.step (.update (.list petal) blank_knows)
  have hfresh : (blank.update rosette (.list petal)).fresh = 9 := by decide +kernel
  have hbody : (blank.update rosette (.list petal)).trace.renderer.body = .list rosette := by cbv
  have hmade : ∀ c ∈ rosette.cellsWithin, c.id < (blank.update rosette (.list petal)).fresh := by
    rw [hfresh]
    decide
  obtain ⟨-, -, hupdate, -, -⟩ := single_marker blank_reachable
  obtain ⟨-, -, hagain, hrelease, -⟩ := single_marker hreachable
  obtain ⟨-, -, -, -, hinstalls⟩ := single_marker (hreachable.step .release)
  refine ⟨(hupdate rosette _ blank_knows).1 8 (by decide +kernel), ?_, hrelease.2.1, ?_⟩
  · refine ((hagain rosette (.text "fd") ⟨hmade, fun l hl _ => ?_⟩).2 (by decide +kernel)).1 hbody
    exact Value.list.inj (hbody.symm.trans hl)
  · obtain ⟨tree, -, hroot, hnew, -⟩ := hinstalls rfl rosette .none ⟨hmade, fun _ hnone => Value.noConfusion hnone⟩
    exact ⟨tree, hroot, hfresh ▸ hnew⟩

end Panel

end SteppedLogo
