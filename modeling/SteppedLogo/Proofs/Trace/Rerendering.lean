import SteppedLogo.Proofs.Trace.Marker
import SteppedLogo.Proofs.Trace.Written
import SteppedLogo.Value.Equality

namespace SteppedLogo

/-- A view has come of another one: its version has grown, and a host that watches it was told of every version. -/
def DebugView.Tells (v w : DebugView) : Prop :=
  w.watched = v.watched ∧ ∃ growth, w.version = v.version + growth ∧ w.changes = v.changes + if v.watched then growth else 0

namespace DebugView

variable {u v w : DebugView}

theorem Tells.refl (v : DebugView) : v.Tells v := ⟨rfl, 0, rfl, by simp⟩

theorem Tells.trans (huv : u.Tells v) (hvw : v.Tells w) : u.Tells w := by
  obtain ⟨hwatched, m, hversion, hchanges⟩ := huv
  obtain ⟨hwatched', n, hversion', hchanges'⟩ := hvw
  refine ⟨hwatched'.trans hwatched, m + n, by omega, ?_⟩
  rw [hchanges', hchanges, hwatched]
  split <;> omega

theorem tells_touch (v : DebugView) : v.Tells v.touch := by
  refine ⟨rfl, 1, rfl, ?_⟩
  rw [touch]
  split <;> rfl

theorem tells_replace (v : DebugView) (root : Option ViewNode) : v.Tells (v.replace root) :=
  tells_touch { v with root }

/-- A change of what the view shows is told of only when the view is touched. -/
theorem Tells.onRoot (h : v.Tells w) (root root' : Option ViewNode) : Tells { v with root } { w with root := root' } := h

end DebugView

namespace Trace

variable (t : Trace)

theorem tells_moveMarker (target : Identity) : t.view.Tells (t.moveMarker target).view := by
  unfold moveMarker
  split
  · exact .refl _
  · cases t.renderer.active <;> exact (DebugView.tells_touch _).onRoot _ _

/-- To move the marker to another node is one change. -/
theorem version_moveMarker {target : Identity} (h : t.renderer.active ≠ some target) :
    (t.moveMarker target).view.version = t.view.version + 1 := by
  unfold moveMarker
  rw [if_neg h]
  cases t.renderer.active <;> rfl

theorem tells_present (fresh : Identity) (body : Value) : t.view.Tells (t.present fresh body).1.view := by
  unfold present
  split
  · exact .refl _
  · exact DebugView.tells_replace _ _

/-- The view goes on showing the same object, and the marker does not show in its plain text. -/
theorem shown_moveMarker (target : Identity) :
    (t.moveMarker target).view.root.map ViewNode.id = t.view.root.map ViewNode.id ∧
      (t.moveMarker target).view.toText false = t.view.toText false := by
  by_cases hactive : t.renderer.active = some target
  · rw [moveMarker_of_active hactive]
    exact ⟨rfl, rfl⟩
  · obtain ⟨-, hroot⟩ := moveMarker_of_ne hactive
    have htext (n : ViewNode) : (n.remark t.renderer.active target).toText false = n.toText false := by
      cases t.renderer.active <;> simp [ViewNode.remark]
    rw [DebugView.toText, DebugView.toText, hroot]
    cases t.view.root with
    | none => exact ⟨rfl, rfl⟩
    | some n => exact ⟨congrArg some (n.id_remark _ target), htext n⟩

end Trace

namespace Panel

variable {s s' t : Panel} {anchor : Identity} {body : LogoList} {active : Option Identity}

theorem tells_update (s : Panel) (body : LogoList) (cell : Value) : s.trace.view.Tells (s.update body cell).trace.view := by
  obtain ⟨-, htrace, -, -⟩ := s.update_eq body cell
  have hpresent := s.trace.tells_present s.fresh (.list body)
  rw [htrace]
  cases (s.trace.present s.fresh (.list body)).1.renderer.lookup? cell with
  | none => exact hpresent
  | some i => exact hpresent.trans (Trace.tells_moveMarker _ i)

/-- Whatever happens to a panel. -/
theorem Step.tells (h : s.Step t) : s.trace.view.Tells t.trace.view := by
  cases h with
  | make | release => exact .refl _
  | update cell => exact s.tells_update _ cell
  | clear => exact DebugView.tells_replace _ _
  | touch => exact DebugView.tells_touch _
  | replace => exact DebugView.tells_replace _ _

theorem tells_of_steps (h : Relation.ReflTransGen Step s t) : s.trace.view.Tells t.trace.view := by
  induction h with
  | refl => exact .refl _
  | tail _ hstep ih => exact ih.trans hstep.tells

/-- Updates with one body, and the objects that are made between them. -/
inductive Repeats (body : LogoList) (s : Panel) : Panel → Prop
  | refl : Repeats body s s
  | update {t : Panel} (cell : Value) : Repeats body s t → Repeats body s (t.update body cell)
  | make {t : Panel} {fresh : Identity} : Repeats body s t → t.fresh ≤ fresh → Repeats body s { t with fresh }

theorem Repeats.keeps (h : s.Repeats body t) : s.Keeps body t := by
  induction h with
  | refl => exact .refl
  | update cell _ ih => exact ih.update cell
  | make _ hle ih => exact ih.make hle

/-- The trace after an update with the body that is held: the marker follows the cell. -/
theorem Holds.trace_update (hrenderer : s.trace.renderer = .showing anchor body active) (cell : Value) :
    s.marked? body cell = s.trace.renderer.lookup? cell ∧
      (s.update body cell).trace = ((s.trace.renderer.lookup? cell).map s.trace.moveMarker).getD s.trace := by
  obtain ⟨hmarked, htrace, -, -⟩ := s.update_eq body cell
  rw [Trace.present_showing hrenderer] at hmarked htrace
  exact ⟨hmarked, htrace⟩

/-- However often a body is shown again, it is the same object that the view shows, with the same text. -/
theorem Repeats.shows (h : s.Repeats body t) (hsound : s.Sound) (hholds : s.Holds anchor body active)
    (hrenderer : s.trace.renderer = .showing anchor body active) :
    t.trace.view.root.map ViewNode.id = s.trace.view.root.map ViewNode.id ∧
      t.trace.view.toText false = s.trace.view.toText false := by
  induction h with
  | refl => exact ⟨rfl, rfl⟩
  | make _ _ ih => exact ih
  | @update t cell hrepeats ih =>
    obtain ⟨-, after, -, hheld⟩ := hrepeats.keeps.holds hsound hholds hrenderer
    obtain ⟨-, htrace⟩ := Holds.trace_update hheld cell
    rw [htrace]
    cases t.trace.renderer.lookup? cell with
    | none => exact ih
    | some i =>
      obtain ⟨hroot, htext⟩ := t.trace.shown_moveMarker i
      exact ⟨hroot.trans ih.1, htext.trans ih.2⟩

/-- What the next update with a body does to a panel that holds it. -/
structure Minimal (t : Panel) (body : LogoList) (cell : Value) : Prop where
  gives : t.marked? body cell = t.trace.renderer.lookup? cell
  moves : ∀ i, t.trace.renderer.lookup? cell = some i → t.trace.renderer.active ≠ some i →
    (t.update body cell).trace.view.version = t.trace.view.version + 1 ∧ (t.update body cell).trace.renderer.active = some i
  stays : (∀ i, t.trace.renderer.lookup? cell = some i → t.trace.renderer.active = some i) → t.update body cell = t

theorem Holds.minimal (h : s.Holds anchor body active) (hrenderer : s.trace.renderer = .showing anchor body active)
    (cell : Value) :
    s.Minimal body cell := by
  obtain ⟨hgives, htrace⟩ := Holds.trace_update hrenderer cell
  refine ⟨hgives, fun i hi hmoves => ?_, fun hstays => h.update_eq_self hrenderer fun i hi => ?_⟩
  · rw [hi] at htrace
    obtain ⟨hmoved, -⟩ := Trace.moveMarker_of_ne hmoves
    rw [htrace]
    exact ⟨s.trace.version_moveMarker hmoves, by rw [Option.map_some, Option.getD_some, hmoved]⟩
  · have hactive := hstays i (hgives ▸ hi)
    rwa [hrenderer] at hactive

/-- An update that is repeated changes nothing and gives the same node. -/
theorem Sound.update_twice (h : s.Sound) (hknows : s.Knows body) (cell : Value) :
    (s.update body cell).update body cell = s.update body cell ∧
      (s.update body cell).marked? body cell = s.marked? body cell := by
  obtain ⟨⟨anchor, before, after, hupdated⟩, -⟩ := h.updated hknows cell
  have hgives := (Holds.trace_update hupdated.renderer cell).1
  rw [hupdated.renderer] at hgives
  have hsame : (s.update body cell).marked? body cell = s.marked? body cell := hgives.trans hupdated.marked.symm
  refine ⟨hupdated.holds.update_eq_self hupdated.renderer fun i hi => ?_, hsame⟩
  rw [hupdated.moved, ← hsame, hi, Option.some_or]

/-- A body that is not the very object rendered last is rendered by new nodes, and the view shows them. -/
theorem update_rebuilds (s : Panel) (cell : Value) (hnew : (Value.list body).same s.trace.renderer.body = false) :
    (s.update body cell).trace.renderer = .showing s.fresh body (s.marked? body cell) ∧
      (s.update body cell).trace.view.root = some (Renderer.treeOf s.fresh body (s.marked? body cell)) := by
  obtain ⟨hmarked, htrace, -, -⟩ := s.update_eq body cell
  rw [Trace.present_rendering (by simp [hnew])] at hmarked htrace
  let shown := s.trace.rendering s.fresh body
  obtain ⟨f, -, htree, hmoved, hroot⟩ := Trace.follow (show shown.renderer = .showing s.fresh body none from rfl) cell
  have hmark : s.marked? body cell = (Renderer.showing s.fresh body none).lookup? cell := hmarked
  rw [← hmark] at htree hmoved hroot
  rw [Option.or_none] at htree hmoved
  have hupdate : (s.update body cell).trace = ((s.marked? body cell).map shown.moveMarker).getD shown := by
    rw [htrace, ← hmarked]
  rw [hupdate]
  exact ⟨hmoved, hroot.trans (congrArg some htree)⟩

/-- `update` of a reachable panel with a known body, and any further updates with it: body, cache, root and text stay, and
the next `update` is `Minimal`: one change of the view if the cell has another node than the marked one, and else none. A
repeated `update` changes nothing and gives the same node; a body that is not the very object rendered last is rendered
anew. A watching host is told of each change of the version. -/
theorem rerendering_is_minimal (h : s.Reachable) (hknows : s.Knows body) (cell : Value) :
    (∀ t, (s.update body cell).Repeats body t →
      t.trace.renderer.body = .list body ∧ t.trace.renderer.cache = (s.update body cell).trace.renderer.cache ∧
      t.trace.view.root.map ViewNode.id = (s.update body cell).trace.view.root.map ViewNode.id ∧
      t.trace.view.toText false = (s.update body cell).trace.view.toText false ∧ ∀ next, t.Minimal body next) ∧
    ((s.update body cell).update body cell = s.update body cell ∧
      (s.update body cell).marked? body cell = s.marked? body cell) ∧
    ((Value.list body).same s.trace.renderer.body = false →
      (s.update body cell).trace.renderer = .showing s.fresh body (s.marked? body cell) ∧
      (s.update body cell).trace.view.root = some (Renderer.treeOf s.fresh body (s.marked? body cell))) ∧
    ∀ t, Relation.ReflTransGen Step s t → ∃ growth, t.trace.view.version = s.trace.view.version + growth ∧
      t.trace.view.changes = s.trace.view.changes + if s.trace.view.watched then growth else 0 := by
  obtain ⟨⟨anchor, before, after, hupdated⟩, -⟩ := h.sound.updated hknows cell
  have hsound := h.sound.step (.update cell hknows)
  refine ⟨fun t hrepeats => ?_, h.sound.update_twice hknows cell, s.update_rebuilds cell,
    fun t hsteps => (tells_of_steps hsteps).2⟩
  obtain ⟨-, active, hholds, hrenderer⟩ := hrepeats.keeps.holds hsound hupdated.holds hupdated.renderer
  obtain ⟨hroot, htext⟩ := hrepeats.shows hsound hupdated.holds hupdated.renderer
  refine ⟨?_, ?_, hroot, htext, hholds.minimal hrenderer⟩
  · rw [hrenderer]
    rfl
  · rw [hrenderer, hupdated.renderer]
    rfl

/-- A list that equals `rosette`, made of other cells. -/
def otherRosette : LogoList := .cons 12 (.list (.cons 11 (.text "fd") .empty)) (.cons 10 (.list (.cons 11 (.text "fd") .empty)) .empty)

/-- A panel that shows `rosette`, in a surrounding in which `otherRosette` has been made. -/
def rosetteShown : Panel := { blank.update rosette .none with fresh := 13 }

theorem rosetteShown_reachable : rosetteShown.Reachable := by
  have hfresh : (blank.update rosette .none).fresh = 9 := by decide +kernel
  refine (blank_reachable.step (.update .none blank_knows)).step (.make ?_)
  rw [hfresh]
  decide

theorem rosetteShown_knows : rosetteShown.Knows otherRosette where
  made := by decide
  same l hl hsame := by
    have hbody : rosetteShown.trace.renderer.body = .list rosette := by cbv
    obtain rfl := Value.list.inj (hbody.symm.trans hl)
    cases hsame

/-- The marker goes to the cell that stands twice, in one change, and once it is there nothing changes. The other list is
    rendered anew although it is equal. -/
theorem otherRosette_rebuilt :
    let s := blank.update rosette .none
    (s.update rosette (.list petal)).trace.view.version = s.trace.view.version + 1 ∧
      (s.update rosette (.list petal)).update rosette (.list petal) = s.update rosette (.list petal) ∧
      (Value.list otherRosette).equal (.list rosette) = true ∧
      (rosetteShown.update otherRosette .none).trace.renderer = .showing 13 otherRosette none := by
  intro s
  obtain ⟨hrepeats, -⟩ := rerendering_is_minimal blank_reachable blank_knows .none
  obtain ⟨-, -, -, -, hminimal⟩ := hrepeats s .refl
  obtain ⟨-, -, -, -, hagain⟩ := hrepeats (s.update rosette (.list petal)) (.update (.list petal) .refl)
  have hlookup : s.trace.renderer.lookup? (.list petal) = some 8 := by decide +kernel
  have hlookup' : (s.update rosette (.list petal)).trace.renderer.lookup? (.list petal) = some 8 := by decide +kernel
  have hunmarked : s.trace.renderer.active = none := by decide +kernel
  obtain ⟨hversion, hactive⟩ := (hminimal (.list petal)).moves 8 hlookup (by simp [hunmarked])
  obtain ⟨-, -, hrebuilt, -⟩ := rerendering_is_minimal rosetteShown_reachable rosetteShown_knows .none
  have hnone : rosetteShown.marked? otherRosette .none = none := by decide +kernel
  refine ⟨hversion, (hagain (.list petal)).stays fun i hi => ?_, by decide +kernel, ?_⟩
  · rw [hlookup'] at hi
    rw [hactive, hi]
  · have hrenderer := (hrebuilt (by cbv)).1
    rw [hnone] at hrenderer
    exact hrenderer

end Panel

end SteppedLogo
