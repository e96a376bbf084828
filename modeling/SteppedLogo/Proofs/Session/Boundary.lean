import SteppedLogo.Proofs.Gate.Outstanding

namespace SteppedLogo

/-- No listener makes call boundaries, and programs make theirs through the hook. -/
structure Env.Confined (env : Env) : Prop where
  listeners : ∀ name event, (env.react name event).run.All Op.IsQuiet
  programs : ∀ source, (env.program source).run.All Op.IsHookedOrQuiet

namespace World

variable {env : Env} {u v w : World} {i : StepId}

theorem run_modifyRun (hw : w.Sound) (change : Run → Run) :
    (w.modifyRun w.session.current change).session.run = change w.session.run := by
  have hlt : w.session.current < w.session.runs.size := Nat.sub_lt hw.nonempty Nat.one_pos
  obtain ⟨run, hrun⟩ : ∃ run : Run, w.session.runs[w.session.current]? = some run :=
    ⟨_, Array.getElem?_eq_getElem hlt⟩
  have hcurrent : (w.modifyRun w.session.current change).session.current = w.session.current := by
    rw [Session.current, Session.current]
    exact congrArg (· - 1) Array.size_modify
  have hget : (w.modifyRun w.session.current change).session.runs[w.session.current]? = some (change run) :=
    Array.getElem?_modify.trans (by rw [if_pos rfl, hrun]; rfl)
  rw [run_of_get hrun]
  exact run_of_get (by rw [hcurrent]; exact hget)

/-- An active run that is not running is to stop. -/
theorem canceling_of_active (hactive : w.session.isActive = true) (hstopped : w.session.run.status ≠ .running) :
    w.session.run.status = .canceling := by
  rw [Session.isActive] at hactive
  cases hstatus : w.session.run.status with
  | canceling => rfl
  | running => exact absurd hstatus hstopped
  | idle | completed | failed => rw [hstatus] at hactive; cases hactive

/-- A step being set up in the current run, before it is rejected if the run is to stop. -/
def numbered (w : World) : World :=
  w.installStep.2.modifyRun w.session.current ({ · with steps := w.installStep.1.seq })

theorem session_installStep (w : World) : w.installStep.2.session = w.session := by
  obtain ⟨message, heq⟩ := installStep_eq w
  rw [heq]
  rfl

theorem sound_numbered (hw : w.Sound) : w.numbered.Sound :=
  (grows_modifyRun w.installStep.2 w.session.current ({ · with steps := w.installStep.1.seq })
    (fun _ _ => ⟨rfl, .inl ⟨rfl, rfl⟩⟩) (grows_installStep w hw).1).1

theorem run_numbered (hw : w.Sound) :
    w.numbered.session.run = { w.session.run with steps := w.installStep.1.seq } := by
  have hmodify := run_modifyRun (grows_installStep w hw).1 ({ · with steps := w.installStep.1.seq })
  rw [session_installStep] at hmodify
  exact hmodify

theorem current_numbered (w : World) : w.numbered.session.current = w.session.current := by
  have hsize : w.numbered.session.runs.size = w.installStep.2.session.runs.size := Array.size_modify
  rw [Session.current, Session.current, hsize, session_installStep]

theorem runOf_current (hw : w.Sound) : w.runOf w.session.current = w.session.run := by
  have hlt : w.session.current < w.session.runs.size := Nat.sub_lt hw.nonempty Nat.one_pos
  have hget : w.session.runs[w.session.current]? = some w.session.runs[w.session.current] :=
    Array.getElem?_eq_getElem hlt
  rw [runOf_of_get hget, run_of_get hget]

/-- The pacing of a step of the current run starts, unless the run is to stop: then the step is
rejected as it is set up. -/
theorem installFor_current (hw : w.Sound) :
    (w.session.run.status ≠ .canceling ∧ w.installFor w.session.current = (w.installStep.1, w.numbered)) ∨
    (w.session.run.status = .canceling ∧ w.installFor w.session.current =
      (w.installStep.1, (w.numbered.cancelStep w.gate.steps.size w.session.run.reason).2)) := by
  have hrun : w.numbered.runOf w.session.current = w.numbered.session.run := by
    rw [← current_numbered w]
    exact runOf_current (sound_numbered hw)
  have hid : w.installStep.1.id = w.gate.steps.size := rfl
  obtain ⟨hstatus, heq⟩ | ⟨hstatus, heq⟩ := installFor_cases w.session.current w
  · change (w.numbered.runOf w.session.current).status ≠ _ at hstatus
    rw [hrun, run_numbered hw] at hstatus
    exact .inl ⟨hstatus, heq⟩
  · change (w.numbered.runOf w.session.current).status = _ at hstatus
    change _ = (_, (w.numbered.cancelStep _ (w.numbered.runOf w.session.current).reason).2) at heq
    rw [hrun, run_numbered hw] at hstatus heq
    exact .inr ⟨hstatus, heq⟩

/-- What becomes of a step that is set up in the active run while none is outstanding. -/
structure SetUp (w v : World) : Prop where
  status : v.session.run.status = w.session.run.status
  reason : v.session.run.reason = w.session.run.reason
  runs : v.session.runs.size = w.session.runs.size
  only : ∀ i, v.Outstanding i → i = w.gate.steps.size
  steps : v.gate.steps.size = w.gate.steps.size + 1
  rejected : w.session.run.status = .canceling →
    v.Clear ∧ v.Rejected w.gate.steps.size w.session.run.reason

theorem setUp_installFor (hw : w.Sound) (hclear : w.Clear) :
    w.SetUp (w.installFor w.session.current).2 := by
  have hnumbered := sound_numbered hw
  have hrun := run_numbered hw
  have hruns : w.numbered.session.runs.size = w.session.runs.size := by
    have hsize : w.numbered.session.runs.size = w.installStep.2.session.runs.size := Array.size_modify
    rw [hsize, session_installStep]
  have honly (i : StepId) (hi : w.numbered.Outstanding i) : i = w.gate.steps.size := by
    obtain hold | hnew := (outstanding_installStep hw.toWired).1 hi
    · exact absurd hold (hclear i)
    · exact hnew
  have hsteps : w.numbered.gate.steps.size = w.gate.steps.size + 1 := by
    obtain ⟨message, heq⟩ := installStep_eq w
    rw [numbered, heq]
    exact Array.size_push _
  obtain ⟨hstatus, heq⟩ | ⟨hstatus, heq⟩ := installFor_current hw
  · rw [heq]
    exact ⟨by rw [hrun], by rw [hrun], hruns, honly, hsteps, fun h => absurd h hstatus⟩
  · rw [heq]
    have hnew : w.numbered.Outstanding w.gate.steps.size :=
      (outstanding_installStep hw.toWired).2 (.inr rfl)
    have heases := eases_cancelStep hnumbered.toWired w.gate.steps.size w.session.run.reason
    have hcancelRuns := runs_cancelStep w.numbered w.gate.steps.size w.session.run.reason
    have hcancelRun : (w.numbered.cancelStep w.gate.steps.size w.session.run.reason).2.session.run =
        w.numbered.session.run := by rw [Session.run, hcancelRuns, Session.run]
    have hrejected := rejected_cancelStep hnumbered hnew w.session.run.reason
    refine ⟨by rw [hcancelRun, hrun], by rw [hcancelRun, hrun], by rw [hcancelRuns, hruns],
      fun i hi => honly i (hi.before heases.futures heases.steps), ?_, fun _ => ⟨fun i hi => ?_, hrejected⟩⟩
    · rw [heases.steps.size, hsteps]
    · obtain rfl := honly i (hi.before heases.futures heases.steps)
      obtain ⟨s, fault, f, hs, hout, -⟩ := hrejected
      obtain ⟨t, ht, hopen⟩ := hi
      rw [hs] at ht
      cases ht
      rw [isDone_eq_false, hout] at hopen
      cases hopen

/-- The future of a step that is set up is the one that its call boundary is waited for with. -/
theorem future_installFor (hw : w.Sound) : ∃ s : PacedStep,
    (w.installFor w.session.current).2.gate.steps[w.gate.steps.size]? = some s ∧
      s.future = (w.installFor w.session.current).1.future := by
  have hnew : ∃ s : PacedStep, w.numbered.gate.steps[w.gate.steps.size]? = some s ∧
      s.future = w.installStep.1.future := by
    obtain ⟨message, heq⟩ := installStep_eq w
    rw [numbered, heq]
    exact ⟨_, Array.getElem?_push_size, rfl⟩
  obtain ⟨s, hs, hfuture⟩ := hnew
  obtain ⟨-, heq⟩ | ⟨-, heq⟩ := installFor_current hw
  · rw [heq]
    exact ⟨s, hs, hfuture⟩
  · rw [heq]
    obtain ⟨t, ht, hst⟩ := (eases_cancelStep (sound_numbered hw).toWired w.gate.steps.size
      w.session.run.reason).steps.get hs
    exact ⟨t, ht, hst.trans hfuture⟩

/-- Announcing a step to listeners that make no call boundaries. -/
theorem announceStep_touches (henv : env.Confined) (call : Call) (w : World) :
    Touches env w (w.announceStep (notify env) call).2 := by
  refine announceStep_keeps (I := Touches env w) (fun _ _ haside hu => hu.tail (.aside haside))
    (fun event u hu => ?_) call .refl
  exact notifyWith_keeps (fun o ho v hv => Relation.ReflTransGen.trans hv (performWithin_touches _ ho v))
    (fun _ _ _ _ _ hv => hv.tail (.aside (aside_addLog ..))) (henv.listeners · event) hu

/-- The hook of the active run announces a step, and unless that fails sets the step up. -/
theorem perform_hook_cases (henv : env.Confined) (hw : w.Sound) (htidy : w.Tidy)
    (hactive : w.session.isActive = true) (call : Call) :
    ∃ u, Touches env w u ∧ u.session.isActive = true ∧ u.session.runs.size = w.session.runs.size ∧
      ((∃ fault, w.perform env (.hook call) = (.error fault, u)) ∨
        w.Clear ∧ u.Clear ∧ w.perform env (.hook call) =
          (.ok (u.installFor u.session.current).1, (u.installFor u.session.current).2)) := by
  obtain ⟨shown, hcall⟩ := hook_cases (notify env) call w
  have htouches := announceStep_touches henv shown w
  have hextends := (Changes.grows (Touches.changes htouches) hw).2
  have hsize := hextends.current hactive
  have hcurrent : (w.announceStep (notify env) shown).2.session.current = w.session.current := by
    rw [Session.current, hsize, Session.current]
  refine ⟨_, htouches, hextends.isActive hactive, hsize, ?_⟩
  rw [perform_eq]
  obtain ⟨fault, u, hannounced, heq⟩ | ⟨u, hannounced, heq⟩ := hcall
  · rw [hannounced]
    exact .inl ⟨fault, heq⟩
  · have hpending : w.gate.pending = none := by
      obtain ⟨id, -, hrefused⟩ | ⟨hpending, -⟩ := announceStep_cases (notify env) shown w
      · rw [hannounced] at hrefused
        cases hrefused
      · exact hpending
    have hclear := htidy.clear hpending
    have hu := (htouches.eases hw).clear hclear
    rw [hannounced] at hcurrent hu ⊢
    refine .inr ⟨hclear, hu, ?_⟩
    change u.session.current = _ at hcurrent
    rw [hcurrent]
    exact heq

end World

end SteppedLogo
