import SteppedLogo.Proofs.Gate.Eases

namespace SteppedLogo.World

variable {env : Env} {u v w : World} {r : RunId}

structure Subsides (w v : World) : Prop where
  eases : w.Eases v
  faults : w.faults.Keeps v.faults
  run : ∀ (r : RunId) (run : Run), w.session.runs[r]? = some run →
    ∃ run' : Run, v.session.runs[r]? = some run' ∧
      (run.status ≠ .running → run'.status ≠ .running ∧ run'.reason = run.reason)
  clears : w.Tidy → v.session.run.status ≠ .running → w.session.run.status ≠ .running ∨ v.Clear

/-- Where the runs stay, it is enough that the steps ease. -/
theorem subsides_of_runs (heases : w.Eases v) (hfaults : w.faults.Keeps v.faults)
    (hruns : v.session.runs = w.session.runs) : w.Subsides v where
  eases := heases
  faults := hfaults
  run _ run hrun := ⟨run, hruns ▸ hrun, fun h => ⟨h, rfl⟩⟩
  clears _ h := by
    rw [Session.run, hruns] at h
    exact .inl h

theorem Subsides.refl (w : World) : w.Subsides w := subsides_of_runs (.refl w) (.refl _) rfl

theorem Subsides.trans (huv : u.Subsides v) (hvw : v.Subsides w) : u.Subsides w where
  eases := huv.eases.trans hvw.eases
  faults := huv.faults.trans hvw.faults
  run r run hrun := by
    obtain ⟨run', hrun', hstays⟩ := huv.run r run hrun
    obtain ⟨run'', hrun'', hstays'⟩ := hvw.run r run' hrun'
    refine ⟨run'', hrun'', fun hstatus => ?_⟩
    obtain ⟨hstatus', hreason⟩ := hstays hstatus
    obtain ⟨hstatus'', hreason'⟩ := hstays' hstatus'
    exact ⟨hstatus'', hreason'.trans hreason⟩
  clears htidy hstatus := by
    obtain hv | hclear := hvw.clears (huv.eases.tidy htidy) hstatus
    · exact (huv.clears htidy hv).imp_right hvw.eases.clear
    · exact .inr hclear

/-- What happens aside lets the steps subside. -/
theorem Aside.subsides (h : w.Aside v) : w.Subsides v := subsides_of_runs h.eases h.faults h.runs

/-- Settling a future lets the steps subside. -/
theorem subsides_settle (w : World) (id : FutureId) (o : Outcome) : w.Subsides (w.settle id o) :=
  subsides_of_runs (eases_settle w id o) (by rw [settle_faults]; exact .refl _) (by rw [settle_session])

theorem subsides_modifyJob (w : World) (id : JobId) (change : Job → Job) :
    w.Subsides (w.modifyJob id change) := subsides_of_runs (eases_modifyJob w id change) (.refl _) rfl

/-- Cancelling a step changes no run. -/
theorem runs_cancelStep (w : World) (id : StepId) (reason : Value) :
    (w.cancelStep id reason).2.session.runs = w.session.runs := by
  obtain ⟨heq, -⟩ | ⟨s, -, -, heq⟩ := cancelStep_cases w id reason
  · rw [heq]
  · rw [heq]
    exact (congrArg Session.runs settle_session).trans (light_retract w id).runs

theorem runs_cancelGate (w : World) (reason : Value) :
    (w.cancelGate reason).2.session.runs = w.session.runs :=
  cancelGate_keeps (K := fun v => v.session.runs = w.session.runs) rfl fun id => runs_cancelStep w id reason

/-- Cancelling a step of a sound state lets the steps subside. -/
theorem subsides_cancelStep (hw : w.Sound) (id : StepId) (reason : Value) :
    w.Subsides (w.cancelStep id reason).2 :=
  subsides_of_runs (eases_cancelStep hw.toWired id reason) (grows_cancelStep w id reason hw).2.faults
    (runs_cancelStep w id reason)

theorem subsides_cancelGate (hw : w.Sound) (reason : Value) : w.Subsides (w.cancelGate reason).2 :=
  subsides_of_runs (eases_cancelGate hw.toWired reason) (grows_cancelGate w reason hw).2.faults
    (runs_cancelGate w reason)

/-- A run that is stopped in a state stays so, for the same reason, in a state that extends it. -/
theorem Extends.stays_stopped (h : w.Extends v) {r : RunId} {run : Run} (hrun : w.session.runs[r]? = some run) :
    ∃ run', v.session.runs[r]? = some run' ∧
      (run.status ≠ .running → run'.status ≠ .running ∧ run'.reason = run.reason) := by
  obtain ⟨run', hrun', -, ⟨hstatus, hreason⟩ | ⟨hstatus, -⟩⟩ := h.run r run hrun
  · exact ⟨run', hrun', fun hstopped => ⟨hstatus ▸ hstopped, hreason⟩⟩
  · exact ⟨run', hrun', fun hstopped => absurd hstatus hstopped⟩

/-- Cancelling the run of a sound state changes the status and the reason of the run, and rejects its step. -/
theorem subsides_cancelRun (hw : w.Sound) (reason : Value) : w.Subsides (w.cancelRun reason) := by
  obtain ⟨-, heq⟩ | ⟨hrunning, message, heq⟩ := cancelRun_cases w reason
  · rw [heq]
    exact .refl w
  · have hgrows := (grows_cancelRun w reason hw).2
    have hsound := (grows_canceling hrunning reason hw).1
    refine ⟨eases_cancelRun hw reason, hgrows.faults, fun _ _ => hgrows.stays_stopped, fun htidy _ => .inr ?_⟩
    rw [heq]
    have htidy := (eases_modifyRun w w.session.current ({ · with status := .canceling, reason })).tidy htidy
    exact (aside_addLog ..).eases.clear (htidy.clear_cancelGate hsound.toWired reason)

/-- A start of a sound state leaves the runs before. -/
theorem subsides_start (program : Work Value) (source : String) (hw : w.Sound) :
    w.Subsides (w.start program source).2 := by
  have hgrows := (grows_start program source w hw).2
  refine ⟨eases_start program source w, hgrows.faults, fun _ _ => hgrows.stays_stopped, fun _ hstatus => ?_⟩
  obtain ⟨-, heq⟩ | ⟨-, number, nextNumber, message, heq⟩ := start_cases program source w
  · rw [heq] at hstatus
    exact .inl hstatus
  · rw [heq] at hstatus
    exfalso
    apply hstatus
    change ((w.session.runs.push { status := .running, number, source }).back?.getD {}).status = .running
    rw [Array.back?_push, Option.getD_some]

theorem Cancels.subsides (h : Cancels w v) : w.Subsides v := by
  cases h with
  | plain => exact subsides_settle w _ _
  | request => exact subsides_modifyJob w _ _

/-- Cancelling a future lets the steps subside. -/
theorem subsides_cancelFuture (w : World) (id : FutureId) : w.Subsides (w.cancelFuture id).2 :=
  cancelFuture_keeps (K := w.Subsides) (.refl w) (fun _ _ hu hstep => hu.trans hstep.subsides) id

theorem Touch.subsides (h : Touch env w v) (hw : w.Sound) : w.Subsides v := by
  have heases := h.eases hw
  have hfaults := (h.grows hw).2.faults
  cases h with
  | aside haside => exact haside.subsides
  | cancelRun => exact subsides_cancelRun hw _
  | start => exact subsides_start _ _ hw
  | cancelStep => exact subsides_cancelStep hw _ _
  | cancels hcancels => exact hcancels.subsides
  | defer | deferLater | nap | dropTimer => exact subsides_of_runs heases hfaults rfl

/-- What makes no call boundary lets the steps of a sound state subside. -/
theorem Touches.subsides (h : Touches env w v) (hw : w.Sound) : w.Subsides v := by
  induction h with
  | refl => exact .refl w
  | tail hbefore htouch ih => exact ih.trans (htouch.subsides (Changes.grows (Touches.changes hbefore) hw).1)

/-- Taking a job up lets the steps subside. -/
theorem subsides_takeUp (w : World) (id : JobId) (job : Job) (received : Except FaultId Value) :
    w.Subsides (w.takeUp id job received).2 :=
  (w.aside_resumption job received).subsides.trans (subsides_modifyJob _ _ _)

theorem subsides_endJob (w : World) (id : JobId) (future : FutureId) (result : Except FaultId Value) :
    w.Subsides (w.endJob id future result) := by
  obtain ⟨o, heq⟩ := endJob_eq w id future result
  rw [heq]
  exact subsides_settle w future o

theorem subsides_whenDone (w : World) (future : FutureId) (id : JobId) :
    w.Subsides (w.whenDone future (.wake id)) := by
  have hsame : (w.whenDone future (.wake id)).gate = w.gate ∧
      (w.whenDone future (.wake id)).session = w.session := by
    unfold whenDone
    split <;> exact ⟨rfl, rfl⟩
  have hlight := light_whenDone w future id
  exact subsides_of_runs (hlight.eases (by rw [hsame.1])) hlight.faults (by rw [hsame.2])

/-- A job that comes to wait lets the steps subside. -/
theorem subsides_park (w : World) (id : JobId) (future : FutureId)
    (k : Except FaultId Value → Routine (Except FaultId Value)) : w.Subsides (w.park id future k) := by
  have hwait := (subsides_modifyJob w id ({ · with resume := k, waiting := some future })).trans
    (subsides_whenDone _ future id)
  unfold park
  dsimp only
  split
  · have hcancel := hwait.trans (subsides_cancelFuture _ future)
    split
    · exact hcancel.trans (subsides_modifyJob _ _ _)
    · exact hcancel
  · exact hwait

/-- A run ends with no step outstanding; the reason for which it was to stop stays what it was. -/
theorem subsides_conclude (hw : w.Sound) (id : RunId) (fault : Option FaultId) :
    w.Subsides (w.conclude id fault).2 := by
  obtain ⟨e, -, -, hstays⟩ | ⟨-, u, reason, status, error, hu, hstatus, hv⟩ := conclude_eq w id fault
  · rw [hstays]
    exact .refl w
  have hsound := (hu.light.grows hw).1
  have hcancel := (hu.subsides.trans (subsides_cancelGate hsound reason)).trans
    (aside_modifyTrace _ Trace.release).subsides
  have hover : status ≠ .running := by
    obtain rfl | rfl := hstatus <;> simp
  refine ⟨eases_conclude hw.toWired id fault, hcancel.faults.trans hv.faults, fun r run hrun => ?_,
    fun htidy _ => .inr ?_⟩
  · obtain ⟨run', hrun', hstays⟩ := hcancel.run r run hrun
    rw [hv.runs]
    by_cases h : id = r
    · refine ⟨{ run' with status, error }, ?_, fun hstatus => ⟨hover, (hstays hstatus).2⟩⟩
      exact Array.getElem?_modify.trans (by rw [if_pos h, hrun']; rfl)
    · exact ⟨run', Array.getElem?_modify.trans (by rw [if_neg h, hrun']), hstays⟩
  · have hclear := (hu.eases.tidy htidy).clear_cancelGate hsound.toWired reason
    exact hv.eases.clear ((eases_modifyRun _ id _).clear ((aside_modifyTrace _ _).eases.clear hclear))

/-- However a job of a sound state leaves off, the steps subside; its run may end with it. -/
theorem subsides_putDown (hw : w.Sound) (id : JobId) (job : Job) (stop : Stop (Except FaultId Value)) :
    w.Subsides (w.putDown id job stop) := by
  cases stop with
  | finished result =>
    change w.Subsides ((w.endRun job.run result).2.endJob id job.future (w.endRun job.run result).1)
    refine Subsides.trans ?_ (subsides_endJob _ id job.future _)
    cases job.run with
    | none => exact .refl w
    | some r =>
      obtain ⟨fault, heq, -⟩ := endRun_some w r result
      rw [heq]
      exact subsides_conclude hw r fault
  | parked future k => exact subsides_park w id future k
  | paused k => exact subsides_of_runs ⟨.refl w, .of_eq rfl, fun _ h => .inl h⟩ (.refl _) rfl

/-- A step that elapses in a sound state subsides. -/
theorem subsides_elapse (hw : w.Sound) (id : StepId) : w.Subsides (w.elapse id) := by
  have heases := eases_elapse hw.toWired id
  obtain ⟨heq, -⟩ | ⟨s, -, -, heq⟩ := elapse_cases w id
  · rw [heq]
    exact .refl w
  · rw [heq] at heases ⊢
    refine subsides_of_runs heases ?_ ?_
    · rw [settle_faults]
      exact (light_retract w id).faults
    · rw [settle_session]
      exact (light_retract w id).runs

theorem subsides_next {l : Loop Callback} {c : Option Callback} (hw : w.Sound)
    (hnext : w.loop.next? = some (c, l)) : w.Subsides { w with loop := l } :=
  subsides_of_runs ((light_next hw hnext).eases rfl) (.refl _) rfl

/-- A step that is settled may be taken off the gate. -/
theorem subsides_retract (w : World) {id : StepId}
    (hdone : ∀ s : PacedStep, w.gate.steps[id]? = some s → w.isDone s.future = true) :
    w.Subsides (w.retract id) :=
  subsides_of_runs (eases_retract w hdone) (light_retract w id).faults (light_retract w id).runs

/-- What each operation keeps, and all that lets no step come up, are kept by a turn. -/
theorem resume_keeps {I : World → Prop} (hsubsides : ∀ u v, u.Subsides v → I u → I v)
    (hop : ∀ o u, u.Sound → I u → I (u.perform env o).2) (hw : w.Sound) {id : JobId}
    (received : Except FaultId Value) (hI : I w) : I (w.resume env id received) := by
  obtain ⟨heq, -⟩ | ⟨job, hjob, hopen, ⟨hbegun, heq⟩ | ⟨hbegun, heq⟩⟩ := resume_cases env w id received
  · rwa [heq]
  · rw [heq]
    exact hsubsides _ _ ((subsides_takeUp w id job received).trans (subsides_endJob _ id job.future _)) hI
  · rw [heq]
    have hsound := (proceeds_takeUp hjob hopen received hw).1
    have hrun := (job.resume (w.takeUp id job received).1).run_keeps (I := fun u => u.Sound ∧ I u)
      (fun o _ u hu => ⟨(grows_perform env o u hu.1).1, hop o u hu.1 hu.2⟩)
      (fun u v haside hu => ⟨(haside.light.grows hu.1).1, hsubsides u v haside.subsides hu.2⟩)
      (Routine.all_true _) ⟨hsound, hsubsides _ _ (subsides_takeUp w id job received) hI⟩
    exact hsubsides _ _ (subsides_putDown hrun.1 id job _) hrun.2

/-- What is kept where steps subside, and by each operation in a sound state, is kept by a tick of the loop. -/
theorem tick_keeps {I : World → Prop} (hsubsides : ∀ u v, u.Subsides v → I u → I v)
    (hop : ∀ o u, u.Sound → I u → I (u.perform env o).2) (hw : w.Sound)
    (htick : w.tick? env = some v) (hI : I w) : I v := by
  obtain ⟨l, ⟨hnext, rfl⟩ | ⟨c, hnext, rfl⟩⟩ := tick?_eq_some htick
  · exact hsubsides _ _ (subsides_next hw hnext) hI
  · have hsound := ((light_next hw hnext).grows hw).1
    have htaken := hsubsides _ _ (subsides_next hw hnext) hI
    have hqueueable := hw.queued c ((Loop.Queued.of_next? hnext).2 c rfl)
    cases c with
    | run id => exact resume_keeps hsubsides hop hsound _ htaken
    | wake id =>
      change I (World.wake env { w with loop := l } id)
      unfold wake
      split
      · exact htaken
      · next outcome _ =>
        have haside := World.aside_receive { w with loop := l } outcome
        exact resume_keeps hsubsides hop (haside.light.grows hsound).1 _ (hsubsides _ _ haside.subsides htaken)
    | elapse id => exact hsubsides _ _ (subsides_elapse hsound id) htaken
    | retract id =>
      refine hsubsides _ _ (subsides_retract _ fun s hs => ?_) htaken
      obtain ⟨t, ht, hdone⟩ := hqueueable
      have hs : w.gate.steps[id]? = some s := hs
      rw [ht] at hs
      cases hs
      exact hdone
    | rouse id => exact rouse_keeps htaken (hsubsides _ _ (subsides_settle _ id _) htaken)
    | deed d =>
      exact (Code.run_keeps (I := fun u => u.Sound ∧ I u)
        (fun o _ u hu => ⟨(grows_perform env o u hu.1).1, hop o u hu.1 hu.2⟩)
        (Code.all_true _) ⟨hsound, htaken⟩).2

end SteppedLogo.World
