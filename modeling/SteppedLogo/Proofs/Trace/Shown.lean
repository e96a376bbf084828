import SteppedLogo.Proofs.Trace.Coherent
import SteppedLogo.Proofs.Trace.Styled

namespace SteppedLogo

open Words (listAt)

namespace Renderer

variable {anchor : Identity} {body : LogoList} {active : Option Identity}

theorem display_list (body : LogoList) : (Value.list body).display = body.display := by
  rw [Value.display, LogoList.display]

/-- The tree of a body has the text of the body. -/
theorem toText_treeOf : (treeOf anchor body active).toText false = body.display := by
  rw [treeOf, ← display_list, ← ViewNode.toText_drawn (anchor + 1)]
  cases active with
  | none => rfl
  | some i => exact ViewNode.toText_setActive i true _

theorem shown_treeOf : (treeOf anchor body active).shown = (treeOf anchor body active).nodes := by
  cases active with
  | none => exact ViewNode.shown_drawn _ _
  | some i => rw [treeOf, ViewNode.markedAt, ViewNode.shown_setActive, ViewNode.shown_drawn, ViewNode.nodes_setActive]

/-- The marked node is in the tree, and its text stands between marks. -/
theorem toText_marked {i : Identity} (hi : i ∈ (treeOf anchor body active).ids) :
    ∃ node front back, (treeOf anchor body (some i)).find? i = some node ∧ node.isActive = true ∧
      (treeOf anchor body (some i)).toText false = front ++ node.toText false ++ back ∧
      (treeOf anchor body (some i)).toText true = front ++ (">>" ++ node.toText false ++ "<<") ++ back := by
  rw [mem_ids_treeOf, ← @mem_ids_treeOf _ _ none] at hi
  obtain ⟨m, hm, rfl⟩ := List.mem_map.1 hi
  have hone : (treeOf anchor body (some m.id)).shown.filter ViewNode.isActive = [m.setActive m.id true] := by
    rw [shown_treeOf]
    exact (plain_drawn _ _).activeNodes_setActive (nodup_ids_drawn _ _) hm
  obtain ⟨front, back, hplain, hmarked⟩ := ViewNode.toText_of_one_active hone
  refine ⟨m.setActive m.id true, front, back, ?_, ?_, hplain, hmarked⟩
  · exact ViewNode.find?_markedAt (nodup_ids_drawn (anchor + 1) (.list body)) hm (some m.id)
  · rw [ViewNode.isActive_setActive, if_pos rfl]

end Renderer

namespace Panel

variable {s : Panel} {body : LogoList}

/-- As long as the view shows the tree of a body, its text is that of the body. -/
theorem Sound.toText_of_shows (h : s.Sound) (hshows : s.Shows body) : s.trace.view.toText false = body.display := by
  obtain ⟨tree, hinstalled, hroot⟩ := hshows
  obtain ⟨hnone, -⟩ | ⟨anchor, rendered, active, hholds⟩ := h.holds
  · rw [hnone] at hinstalled
    cases hinstalled
  · rw [hholds.installed] at hinstalled
    obtain ⟨rfl, rfl⟩ := Prod.mk.inj (Option.some.inj hinstalled)
    rw [DebugView.toText, hroot, Option.map_some, Option.getD_some, Renderer.toText_treeOf]

/-- After an update the view shows the body if and only if the update has rendered it or the view showed it before. -/
theorem Sound.shows_update_iff (h : s.Sound) (hknows : s.Knows body) (cell : Value) :
    (s.update body cell).Shows body ↔ s.trace.renderer.body ≠ .list body ∨ s.Shows body := by
  obtain ⟨⟨anchor, before, after, hupdated⟩, -⟩ := h.updated hknows cell
  obtain ⟨hrenderer, -, hshows⟩ | ⟨hnew, -, -, hshows⟩ := hupdated.shown
  · have hheld : s.trace.renderer.body = .list body := by rw [hrenderer]; rfl
    rw [hshows, or_iff_right (not_not_intro hheld)]
  · exact ⟨fun _ => .inl hnew, fun _ => hshows⟩

/-- An update with a cell of the body gives the node of that cell. -/
theorem Sound.marked_of_mem (h : s.Sound) (hknows : s.Knows body) {c : Cell} (hc : c ∈ body.cellsWithin) :
    ∃ i, s.marked? body (.list (listAt c)) = some i := by
  obtain ⟨⟨anchor, before, after, hupdated⟩, -⟩ := h.updated hknows (.list (listAt c))
  rw [hupdated.marked]
  refine Option.ne_none_iff_exists'.1 fun hnone => ?_
  exact ((Renderer.lookup?_eq_none _).1 hnone c.id c.head c.tail rfl).2 c hc rfl

/-- A view that shows the body after an update shows the node of the cell between marks. -/
theorem Sound.marked_text (h : s.Sound) (hknows : s.Knows body) {c : Cell} (hc : c ∈ body.cellsWithin)
    (hshows : (s.update body (.list (listAt c))).Shows body) :
    let view := (s.update body (.list (listAt c))).trace.view
    ∃ i tree node front back, s.marked? body (.list (listAt c)) = some i ∧ view.root = some tree ∧ tree.find? i = some node ∧
      node.isActive = true ∧ view.toText false = front ++ node.toText false ++ back ∧
      view.toText true = front ++ (">>" ++ node.toText false ++ "<<") ++ back := by
  intro view
  obtain ⟨i, hi⟩ := h.marked_of_mem hknows hc
  obtain ⟨⟨anchor, before, after, hupdated⟩, -⟩ := h.updated hknows (.list (listAt c))
  have hafter : after = some i := by rw [hupdated.moved, hi, Option.some_or]
  obtain ⟨tree, hinstalled, hroot⟩ := hshows
  rw [hupdated.holds.installed] at hinstalled
  obtain ⟨-, rfl⟩ := Prod.mk.inj (Option.some.inj hinstalled)
  obtain ⟨node, front, back, hfind, hactive, hplain, hmarked⟩ := Renderer.toText_marked (hupdated.holds.mark i hafter)
  subst hafter
  have htext (mark : Bool) : view.toText mark = (Renderer.treeOf anchor body (some i)).toText mark := by
    rw [DebugView.toText, hroot, Option.map_some, Option.getD_some]
  exact ⟨i, _, node, front, back, hi, hroot, hfind, hactive, (htext false).trans hplain, (htext true).trans hmarked⟩

/-- `update` of a reachable panel with a known body: the tree installed last is the drawing of the body, and the view
shows it exactly if the body was not the renderer's or the view showed it before. Where it is shown its text is `display`
of the body, and a cell within the body that was given is the marked one, written between `>>` and `<<`. -/
theorem update_shows_body (h : s.Reachable) (hknows : s.Knows body) (cell : Value) :
    (∃ anchor active, (s.update body cell).installed = some (body, ((Value.list body).drawn (anchor + 1)).markedAt active)) ∧
    ((s.update body cell).Shows body ↔ s.trace.renderer.body ≠ .list body ∨ s.Shows body) ∧
    ((s.update body cell).Shows body → (s.update body cell).trace.view.toText false = body.display ∧
      ∀ c ∈ body.cellsWithin, cell = .list (listAt c) → ∃ i tree node front back, s.marked? body cell = some i ∧
        (s.update body cell).trace.view.root = some tree ∧ tree.find? i = some node ∧ node.isActive = true ∧
        (s.update body cell).trace.view.toText false = front ++ node.toText false ++ back ∧
        (s.update body cell).trace.view.toText true = front ++ (">>" ++ node.toText false ++ "<<") ++ back) := by
  obtain ⟨⟨anchor, before, after, hupdated⟩, -⟩ := h.sound.updated hknows cell
  refine ⟨⟨anchor, after, hupdated.holds.installed⟩, h.sound.shows_update_iff hknows cell, fun hshows => ⟨?_, ?_⟩⟩
  · exact (h.sound.step (.update cell hknows)).toText_of_shows hshows
  · rintro c hc rfl
    exact h.sound.marked_text hknows hc hshows

/-- The panel after the host has cleared a view that shows `rosette`. -/
def cleared : Panel := (blank.update rosette .none).onView DebugView.clear

theorem cleared_reachable : cleared.Reachable := (blank_reachable.step (.update .none blank_knows)).step .clear

theorem cleared_knows : cleared.Knows rosette where
  made := by
    have hfresh : cleared.fresh = 9 := by cbv
    rw [hfresh]
    decide
  same l hl _ := Value.list.inj ((show cleared.trace.renderer.body = .list rosette by cbv).symm.trans hl)

/-- In a cleared view nothing is shown by an update with the body that the renderer still holds, while a new body is. -/
theorem cleared_shows_nothing : ¬ (cleared.update rosette (.list petal)).Shows rosette ∧
    (blank.update rosette (.list petal)).Shows rosette := by
  have hbody : cleared.trace.renderer.body = .list rosette := by cbv
  refine ⟨fun hshows => ?_, ?_⟩
  · obtain hnew | ⟨tree, -, hroot⟩ := (update_shows_body cleared_reachable cleared_knows (.list petal)).2.1.1 hshows
    · exact hnew hbody
    · cases hroot
  · exact (update_shows_body blank_reachable blank_knows (.list petal)).2.1.2 (.inl Value.noConfusion)

/-- An update need not show its body: not in a cleared view, when the renderer still holds the body. -/
theorem not_shown_after_update : ¬ ∀ (s : Panel) (body : LogoList) (cell : Value), s.Reachable → s.Knows body →
    (s.update body cell).trace.view.toText false = body.display := by
  intro hall
  have htext := hall cleared rosette (.list petal) cleared_reachable cleared_knows
  have hempty : (cleared.update rosette (.list petal)).trace.view.toText false = "" := by cbv
  have hdisplay : rosette.display = "[[fd] [fd]]" := by cbv
  rw [hempty, hdisplay] at htext
  exact absurd htext (by decide)

/-- A body that is shown stays shown while the marker moves. -/
theorem Sound.shows_moved (h : s.Sound) {anchor : Identity} {active : Option Identity} (hholds : s.Holds anchor body active)
    (hrenderer : s.trace.renderer = .showing anchor body active) (hshows : s.Shows body) (cells : List Value) :
    (cells.foldl (fun t c => t.update body c) s).Sound ∧ (cells.foldl (fun t c => t.update body c) s).Shows body := by
  induction cells generalizing s active with
  | nil => exact ⟨h, hshows⟩
  | cons c rest ih =>
    obtain ⟨-, hrenderer', hholds', hkept, -⟩ := h.update_again hholds hrenderer c
    exact ih (h.step (.update c (hholds.knows hrenderer))) hholds' hrenderer' (hkept.2 hshows)

/-- For every body the text of the tree that `rebuild` makes is `display` of it. So is the text of the view of every
reachable panel that shows the body, after any number of updates with it, and after `release`. -/
theorem toText_eq_display (body : LogoList) :
    (∀ fresh, (Renderer.rebuild fresh (.list body)).1.tree.map (ViewNode.toText false) = some body.display) ∧
    (∀ s : Panel, s.Reachable → s.Shows body → s.trace.view.toText false = body.display) ∧
    ∀ s : Panel, s.Reachable → s.Knows body → s.trace.renderer.body ≠ .list body ∨ s.Shows body →
      ∀ (cell : Value) (cells : List Value),
        let moved := cells.foldl (fun t c => t.update body c) (s.update body cell)
        moved.Shows body ∧ moved.trace.view.toText false = body.display ∧
          moved.release.Shows body ∧ moved.release.trace.view.toText false = body.display := by
  refine ⟨fun fresh => ?_, fun s h hshows => h.sound.toText_of_shows hshows, fun s h hknows hshown cell cells => ?_⟩
  · rw [Renderer.rebuild_list]
    exact congrArg some Renderer.toText_treeOf
  · obtain ⟨⟨anchor, before, after, hupdated⟩, -⟩ := h.sound.updated hknows cell
    obtain ⟨hsound, hshows⟩ := (h.sound.step (.update cell hknows)).shows_moved hupdated.holds hupdated.renderer
      ((h.sound.shows_update_iff hknows cell).2 hshown) cells
    have hreleased : (cells.foldl (fun t c => t.update body c) (s.update body cell)).release.Shows body := hshows
    exact ⟨hshows, hsound.toText_of_shows hshows, hreleased, (hsound.step .release).toText_of_shows hreleased⟩

/-- The list that stands twice is drawn twice and printed twice. -/
theorem rosette_toText :
    ((blank.update rosette .none).update rosette (.list petal)).release.trace.view.toText false = rosette.display :=
  ((toText_eq_display rosette).2.2 blank blank_reachable blank_knows (.inl Value.noConfusion) .none [.list petal]).2.2.2

end Panel

end SteppedLogo
