import SteppedLogo.Proofs.Session.Boundary
import SteppedLogo.Proofs.Session.Ending
import SteppedLogo.Proofs.Session.Passes
import SteppedLogo.Proofs.World.Scene

namespace SteppedLogo

/-- What a job may do: that of a run makes its call boundaries through the hook, what others do
satisfies `P`. -/
def permitted (P : Op → Prop) : Option RunId → Op → Prop
  | none => P
  | some _ => Op.IsHookedOrQuiet

namespace World

variable {env : Env} {u v w : World} {id : JobId} {job : Job}

/-- A sound state in which the outstanding step, if there is one, is the pending one and belongs to a
run that is running, and in which no deed is queued that takes a step. -/
structure Governed (w : World) : Prop extends w.Sound where
  tidy : w.Tidy
  barred : w.session.run.status ≠ .running → w.Clear
  deed : ∀ d, w.loop.Queued (.deed d) → d.isStep = false

theorem Governed.subsides (hw : w.Governed) (hv : v.Sound) (hsubsides : w.Subsides v)
    (hdeed : ∀ d, v.loop.Queued (.deed d) → w.loop.Queued (.deed d) ∨ d.isStep = false) : v.Governed where
  toSound := hv
  tidy := hsubsides.eases.tidy hw.tidy
  barred hstatus := by
    obtain hbefore | hclear := hsubsides.clears hw.tidy hstatus
    · exact hsubsides.eases.clear (hw.barred hbefore)
    · exact hclear
  deed d hd := by
    obtain hd | hstep := hdeed d hd
    · exact hw.deed d hd
    · exact hstep

/-- What makes no call boundary keeps a session governed. -/
theorem Governed.touches (hw : w.Governed) (htouches : Touches env w v) : v.Governed :=
  hw.subsides (Changes.grows (Touches.changes htouches) hw.toSound).1 (htouches.subsides hw.toSound)
    (htouches.brings hw.toSound).deed

theorem governed_installFor (hw : w.Governed) (hclear : w.Clear) (hactive : w.session.isActive = true) :
    (w.installFor w.session.current).2.Governed := by
  have hsetUp := setUp_installFor hw.toSound hclear
  refine ⟨(grows_installFor w.session.current w hw.toSound).1, tidy_installFor hw.toSound hclear _,
    fun hstatus => ?_, fun d hd => ?_⟩
  · rw [hsetUp.status] at hstatus
    exact (hsetUp.rejected (canceling_of_active hactive hstatus)).1
  · have hleaves : w.Leaves none _ := leaves_installFor hw.toSound w.session.current
    obtain hd | hstep := hleaves.deed d hd
    · exact hw.deed d hd
    · exact hstep

theorem Governed.hook (henv : env.Confined) (hw : w.Governed) (hactive : w.session.isActive = true)
    (call : Call) : (w.perform env (.hook call)).2.Governed := by
  obtain ⟨u, htouches, huactive, -, ⟨fault, heq⟩ | ⟨-, hclear, heq⟩⟩ :=
    perform_hook_cases henv hw.toSound hw.tidy hactive call
  · rw [heq]
    exact hw.touches htouches
  · rw [heq]
    exact governed_installFor (hw.touches htouches) hclear huactive

/-- The hook of the active run brings up no job that its listeners do not. -/
theorem brings_hook (henv : env.Confined) (hw : w.Governed) (hactive : w.session.isActive = true)
    (call : Call) : w.Brings env (w.perform env (.hook call)).2 := by
  obtain ⟨u, htouches, -, -, ⟨fault, heq⟩ | ⟨-, -, heq⟩⟩ :=
    perform_hook_cases henv hw.toSound hw.tidy hactive call
  · rw [heq]
    exact htouches.brings hw.toSound
  · rw [heq]
    have hsound := (Changes.grows (Touches.changes htouches) hw.toSound).1
    exact (htouches.brings hw.toSound).trans (leaves_installFor hsound _).brings

/-- The job of a run that has its turn is the job of the active run. -/
theorem Up.active (hup : w.Up id job) (hw : w.Sound) {r : RunId} (hrun : job.run = some r) :
    r = w.session.current ∧ w.session.isActive = true := by
  obtain ⟨now, hnow, hfuture, hnowrun, -⟩ := hup.get
  refine (hw.active_of_open hnow (hnowrun.trans hrun) (.inl ?_)).2
  rw [hfuture]
  exact isDone_eq_false.2 hup.undone

/-- What may be performed: what makes no call boundary, and the hook while a run is active. -/
def Performs (env : Env) (w v : World) : Prop :=
  ∃ o, v = (w.perform env o).2 ∧ (o.IsQuiet ∨ ∃ call, o = .hook call ∧ w.session.isActive = true)

theorem Performs.governed (henv : env.Confined) (h : w.Performs env v) (hw : w.Governed) :
    v.Governed ∧ w.Brings env v ∧ w.Extends v := by
  obtain ⟨o, rfl, hquiet | ⟨call, rfl, hactive⟩⟩ := h
  · have htouches : Touches env w _ := perform_touches hquiet w
    exact ⟨hw.touches htouches, htouches.brings hw.toSound, (grows_perform env o w hw.toSound).2⟩
  · exact ⟨hw.hook henv hactive call, brings_hook henv hw hactive call, (grows_perform env _ w hw.toSound).2⟩

end World

end SteppedLogo
