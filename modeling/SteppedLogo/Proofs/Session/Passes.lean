import SteppedLogo.Proofs.Session.Subsides
import SteppedLogo.Proofs.World.Brings
import SteppedLogo.Proofs.World.Spares

namespace SteppedLogo.World

variable {env : Env} {u v w : World} {id : JobId} {job : Job} {mine : Option JobId}

/-- No job ends, except perhaps one. -/
def KeepsOwned (mine : Option JobId) (w v : World) : Prop :=
  ∀ (id : FutureId) (f : Future) (j : JobId), w.futures[id]? = some f → f.job = some j → mine ≠ some j →
    v.outcome? id = w.outcome? id

theorem KeepsOwned.of_eq (hfutures : v.futures = w.futures) : KeepsOwned mine w v :=
  fun _ _ _ _ _ _ => by rw [outcome?, outcome?, hfutures]

/-- A light change ends no job. -/
theorem Light.keepsOwned (h : w.Light v) : KeepsOwned mine w v :=
  fun id f j hf hj _ => h.owned id f hf (by rw [hj]; exact Option.some_ne_none j)

/-- Two changes that end no job but one, the first of which keeps the futures, end no job but that one. -/
theorem KeepsOwned.trans (huv : KeepsOwned mine u v) (hkeeps : KeepsFutures u v) (hvw : KeepsOwned mine v w) :
    KeepsOwned mine u w := by
  intro id f j hf hj hne
  obtain ⟨g, hg, hgj, -⟩ := hkeeps id f hf
  exact (hvw id g j hg (hgj.trans hj) hne).trans (huv id f j hf hj hne)

/-- Settling a future ends no job but the one that is set apart, provided the future is that job's or no job's. -/
theorem keepsOwned_settle (w : World) (id : FutureId) (o : Outcome)
    (howner : ∀ (f : Future) (j : JobId), w.futures[id]? = some f → f.job = some j → mine = some j) :
    KeepsOwned mine w (w.settle id o) := by
  intro other f j hf hj hne
  refine outcome?_settle_of_ne (fun h => ?_) o
  subst h
  exact hne (howner f j hf hj)

/-- Cancellations of futures end no job: that of a job is told to it. -/
theorem Cancels.keepsOwned (h : Cancels w v) : KeepsOwned mine w v := by
  cases h with
  | plain hf _ hjob =>
    refine keepsOwned_settle w _ _ fun g j hg hj => ?_
    rw [hf] at hg
    cases hg
    rw [hjob] at hj
    cases hj
  | request => exact .of_eq rfl

/-- A change that asks no run to stop, and queues no deed that takes a step. -/
structure Calm (w v : World) : Prop where
  subsides : w.Subsides v
  spares : w.Spares v
  deed : ∀ d, v.loop.Queued (.deed d) → w.loop.Queued (.deed d) ∨ d.isStep = false
  canceling : v.session.run.status = .canceling → w.session.run.status = .canceling

/-- A calm change in which all jobs go on as they would have, except perhaps one. -/
structure Passes (mine : Option JobId) (w v : World) : Prop where
  leaves : w.Leaves mine v
  subsides : w.Subsides v
  spares : w.Spares v
  owned : KeepsOwned mine w v
  canceling : v.session.run.status = .canceling → w.session.run.status = .canceling

/-- A change in which all jobs go on as they would have is calm. -/
theorem Passes.calm (h : w.Passes mine v) : w.Calm v := ⟨h.subsides, h.spares, h.leaves.deed, h.canceling⟩

theorem Passes.trans (huv : u.Passes mine v) (hvw : v.Passes mine w) : u.Passes mine w :=
  ⟨huv.leaves.trans hvw.leaves, huv.subsides.trans hvw.subsides, huv.spares.trans hvw.spares,
    huv.owned.trans huv.subsides.eases.futures hvw.owned, fun h => huv.canceling (hvw.canceling h)⟩

/-- A change that leaves the runs as they are and the jobs going on is a calm one, provided it keeps what is paced and ends
no other job. -/
theorem passes_of_runs (hsubsides : w.Subsides v) (hleaves : w.Leaves mine v) (hspares : w.Spares v)
    (howned : KeepsOwned mine w v) (hruns : v.session.runs = w.session.runs) : w.Passes mine v :=
  ⟨hleaves, hsubsides, hspares, howned, fun h => by rwa [Session.run, hruns] at h⟩

theorem Passes.refl (w : World) : w.Passes mine w := passes_of_runs (.refl w) (.refl w) (.refl w) (.of_eq rfl) rfl

/-- A change that sets no job apart may set any one apart. -/
theorem Passes.set_apart (h : w.Passes none v) : w.Passes mine v := by
  refine ⟨⟨h.leaves.deed, fun j job hj => ?_⟩, h.subsides, h.spares, fun id f j hf hj _ => ?_, h.canceling⟩
  · obtain ⟨old, hold, hfuture, hrun, hsame⟩ := h.leaves.job j job hj
    exact ⟨old, hold, hfuture, hrun, fun _ => hsame (Option.some_ne_none _).symm⟩
  · exact h.owned id f j hf hj (Option.some_ne_none j).symm

/-- The other jobs do not end. -/
theorem Passes.ended (h : w.Passes mine v) (hw : w.Wired) (hjob : w.jobs[id]? = some job) (hne : mine ≠ some id) :
    v.outcome? job.future = w.outcome? job.future := by
  obtain ⟨f, hf, howner⟩ := hw.job_future id job hjob
  exact h.owned job.future f id hf howner hne

/-- Adding a job asks no run to stop and queues no deed. -/
theorem calm_addJob (w : World) (code : Work Value) : w.Calm (w.addJob code).2 where
  subsides := subsides_of_runs (eases_addJob w code none) (.refl _) rfl
  spares := spares_addJob w code none
  deed d hd := by
    obtain hd | hd := Loop.queued_soon.1 hd
    · exact .inl hd
    · cases hd
  canceling h := h

/-- Receiving an outcome is a calm change. -/
theorem passes_receive (w : World) (o : Outcome) : w.Passes mine (w.receive o).2 := by
  have haside := w.aside_receive o
  exact passes_of_runs haside.subsides haside.leaves (spares_receive w o) (.of_eq haside.futures) haside.runs

/-- A future of no step and no job may be settled. -/
theorem passes_settle (hw : w.Wired) {future : FutureId} {f : Future} (hf : w.futures[future]? = some f)
    (hplain : f.job = none)
    (hother : ∀ (i : StepId) (s : PacedStep), w.gate.steps[i]? = some s → s.future ≠ future) (o : Outcome) :
    w.Passes mine (w.settle future o) := by
  refine passes_of_runs (subsides_settle w future o) (leaves_settle hw future o)
    (spares_settle w future fun i s hs h => absurd h (hother i s hs))
    (keepsOwned_settle w future o fun g j hg hj => ?_) (by rw [settle_session])
  rw [hf] at hg
  cases hg
  rw [hplain] at hj
  cases hj

/-- Taking the next callback off the queue of a sound world is a calm change. -/
theorem passes_next {l : Loop Callback} {c : Option Callback} (hw : w.Sound)
    (hnext : w.loop.next? = some (c, l)) : w.Passes mine { w with loop := l } :=
  passes_of_runs (subsides_next hw hnext)
    (leaves_of_jobs (fun _ hd => .inl ((Loop.Queued.of_next? hnext).1 _ hd)) rfl) (spares_loop w l) (.of_eq rfl) rfl

/-- Moving the clock is a calm change. -/
theorem passes_setClock (w : World) (clock : Float) : w.Passes mine (w.setClock clock) :=
  passes_of_runs (subsides_of_runs ⟨.refl w, .of_eq rfl, fun _ h => .inl h⟩ (.refl _) rfl)
    (leaves_of_jobs (fun _ h => .inl h) rfl) (spares_loop w _) (.of_eq rfl) rfl

/-- Retracting a step that is done is a calm change. -/
theorem passes_retract (w : World) {id : StepId}
    (hdone : ∀ s : PacedStep, w.gate.steps[id]? = some s → w.isDone s.future = true) :
    w.Passes mine (w.retract id) :=
  passes_of_runs (subsides_retract w hdone) (leaves_retract w id) (spares_retract w id)
    (light_retract w id).keepsOwned (light_retract w id).runs

/-- The end of a step's time changes no run. -/
theorem runs_elapse (w : World) (id : StepId) : (w.elapse id).session.runs = w.session.runs := by
  obtain ⟨heq, -⟩ | ⟨s, -, -, heq⟩ := elapse_cases w id
  · rw [heq]
  · rw [heq, settle_session]
    exact (light_retract w id).runs

/-- To settle the future of a step ends no job. -/
theorem keepsOwned_settle_step (hw : w.Wired) {i : StepId} {s : PacedStep} (hs : w.gate.steps[i]? = some s)
    (hu : w.Light u) (o : Outcome) : KeepsOwned mine w (u.settle s.future o) := by
  refine hu.keepsOwned.trans hu.futures (keepsOwned_settle u _ o fun g j hg hj => ?_)
  obtain ⟨f, hf, hplain⟩ := hw.step_future i s hs
  obtain ⟨g', hg', hsame, -⟩ := hu.futures _ f hf
  rw [hg] at hg'
  cases hg'
  rw [hsame, hplain] at hj
  cases hj

/-- The end of a step's time in a sound world is a calm change. -/
theorem passes_elapse (hw : w.Sound) (id : StepId) : w.Passes mine (w.elapse id) := by
  refine passes_of_runs (subsides_elapse hw id) (leaves_elapse hw id) (spares_elapse hw.toWired id) ?_
    (runs_elapse w id)
  obtain ⟨heq, -⟩ | ⟨s, hs, -, heq⟩ := elapse_cases w id
  · rw [heq]
    exact .of_eq rfl
  · rw [heq]
    exact keepsOwned_settle_step hw.toWired hs (light_retract w id) _

/-- Taking a job up changes no other job. -/
theorem passes_takeUp (w : World) (id : JobId) (job : Job) (received : Except FaultId Value) :
    w.Passes (some id) (w.takeUp id job received).2 := by
  have haside := w.aside_resumption job received
  exact passes_of_runs (subsides_takeUp w id job received)
    (haside.leaves.trans (leaves_modifyJob _ id _ (fun _ => rfl) (fun _ => rfl) fun h => absurd rfl h))
    (spares_takeUp w id job received) (.of_eq haside.futures) haside.runs

/-- The job that ends is the one that is set apart. -/
theorem passes_endJob (hw : w.Wired) {future : FutureId} {f : Future} (hf : w.futures[future]? = some f)
    (howner : f.job = some id) (result : Except FaultId Value) :
    w.Passes (some id) (w.endJob id future result) := by
  have hspares := spares_endJob hw hf (by rw [howner]; exact Option.some_ne_none id) id result
  obtain ⟨o, heq⟩ := endJob_eq w id future result
  rw [heq] at hspares ⊢
  refine passes_of_runs (subsides_settle w future o) (leaves_settle hw future o) hspares
    (keepsOwned_settle w future o fun g j hg hj => ?_) (by rw [settle_session])
  rw [hf] at hg
  cases hg
  exact howner.symm.trans hj

/-- Cancelling the gate of a wired world ends no job. -/
theorem keepsOwned_cancelGate (hw : w.Wired) (reason : Value) : KeepsOwned mine w (w.cancelGate reason).2 := by
  unfold cancelGate
  split
  · exact .of_eq rfl
  · next i _ =>
    obtain ⟨heq, -⟩ | ⟨s, hs, -, heq⟩ := cancelStep_cases w i reason
    · rw [heq]
      exact .of_eq rfl
    · rw [heq]
      exact keepsOwned_settle_step hw hs ((light_retract w i).trans (aside_raise _ _).light) _

/-- Concluding a run of a wired world ends no job: its own job ends only afterwards. -/
theorem keepsOwned_conclude (hw : w.Wired) (r : RunId) (fault : Option FaultId) :
    KeepsOwned mine w (w.conclude r fault).2 := by
  obtain ⟨e, -, -, hstays⟩ | ⟨-, u, reason, status, error, hu, -, hv⟩ := conclude_eq w r fault
  · rw [hstays]
    exact .of_eq rfl
  · have hcancel : KeepsOwned mine w (u.cancelGate reason).2 :=
      (KeepsOwned.of_eq hu.futures).trans hu.light.futures (keepsOwned_cancelGate (hw.aside hu) reason)
    intro id f j hf hj hne
    rw [← hcancel id f j hf hj hne, outcome?, hv.futures]
    rfl

/-- The end of a run is no request to stop it. -/
theorem passes_conclude (hw : w.Sound) (r : RunId) (fault : Option FaultId) :
    w.Passes mine (w.conclude r fault).2 := by
  refine ⟨leaves_conclude hw r fault, subsides_conclude hw r fault, spares_conclude hw.toWired r fault,
    keepsOwned_conclude hw.toWired r fault, fun hcanceling => ?_⟩
  obtain ⟨e, -, -, hstays⟩ | ⟨-, u, reason, status, error, hu, hstatus, hv⟩ := conclude_eq w r fault
  · rwa [hstays] at hcanceling
  have hruns : (u.cancelGate reason).2.session.runs = w.session.runs := (runs_cancelGate u reason).trans hu.runs
  have hover : status ≠ .canceling := by
    obtain rfl | rfl := hstatus <;> simp
  rw [Session.run, hv.runs] at hcanceling
  change ((((u.cancelGate reason).2.session.runs.modify r ({ · with status, error })).back?).getD {}).status = _
    at hcanceling
  rw [hruns, Array.back?, Array.getElem?_modify, Array.size_modify] at hcanceling
  rw [Session.run, Array.back?]
  split at hcanceling
  · cases hget : w.session.runs[w.session.runs.size - 1]? with
    | none =>
      rw [hget] at hcanceling
      cases hcanceling
    | some run =>
      rw [hget] at hcanceling
      exact absurd hcanceling hover
  · exact hcanceling

/-- Having a job woken by a future is a calm change. -/
theorem passes_whenDone (w : World) (future : FutureId) (id : JobId) :
    w.Passes mine (w.whenDone future (.wake id)) :=
  passes_of_runs (subsides_whenDone w future id) (leaves_whenDone w future id) (spares_whenDone w future _)
    (light_whenDone w future id).keepsOwned (light_whenDone w future id).runs

/-- Cancelling a future changes no run. -/
theorem runs_cancelFuture (w : World) (id : FutureId) :
    (w.cancelFuture id).2.session.runs = w.session.runs := by
  refine cancelFuture_keeps (K := fun v => v.session.runs = w.session.runs) rfl (fun u v hu hstep => Eq.trans ?_ hu) id
  cases hstep with
  | plain => rw [settle_session]
  | request => rfl

/-- Cancelling a future ends no job. -/
theorem keepsOwned_cancelFuture (w : World) (id : FutureId) : KeepsOwned mine w (w.cancelFuture id).2 :=
  (cancelFuture_keeps (K := fun v => KeepsFutures w v ∧ KeepsOwned mine w v) ⟨.refl w, .of_eq rfl⟩
    (fun _ _ hu hstep => ⟨hu.1.trans hstep.eases.futures, hu.2.trans hu.1 hstep.keepsOwned⟩) id).2

/-- Cancelling a future of a sound world is a calm change. -/
theorem passes_cancelFuture (hw : w.Sound) (id : FutureId) : w.Passes mine (w.cancelFuture id).2 :=
  passes_of_runs (subsides_cancelFuture w id) (leaves_cancelFuture hw id) (spares_cancelFuture w id)
    (keepsOwned_cancelFuture w id) (runs_cancelFuture w id)

/-- The job that is put down is the one that is changed. -/
theorem passes_modifyJob (w : World) (id : JobId) (change : Job → Job)
    (hfuture : ∀ job : Job, (change job).future = job.future)
    (hrun : ∀ job : Job, (change job).run = job.run) : w.Passes (some id) (w.modifyJob id change) :=
  passes_of_runs (subsides_modifyJob w id change)
    (leaves_modifyJob w id change hfuture hrun fun h => absurd rfl h) (spares_modifyJob w id change) (.of_eq rfl) rfl

/-- What a job that is parked goes on with. -/
theorem passes_parked (hw : w.Sound) (hoff : id ∉ w.loop.turns) (future : FutureId)
    (k : Except FaultId Value → Routine (Except FaultId Value)) :
    (w.modifyJob id ({ · with resume := k, waiting := some future })).Passes mine (w.park id future k) := by
  have hset := proceeds_modifyJob w id ({ · with resume := k, waiting := some future }) (fun _ => rfl)
    (fun _ => rfl) (fun _ hturn => absurd hturn hoff) (fun _ _ _ => rfl) hw
  have hsound := ((light_whenDone _ future id).grows hset.1).1
  have hwait : Passes mine _ _ :=
    passes_whenDone (w.modifyJob id ({ · with resume := k, waiting := some future })) future id
  unfold park
  dsimp only
  split
  · have hcancel := hwait.trans (passes_cancelFuture hsound future)
    split
    · exact hcancel.trans (passes_of_runs (subsides_modifyJob _ id _) (leaves_request _ id false)
        (spares_modifyJob _ id _) (.of_eq rfl) rfl)
    · exact hcancel
  · exact hwait

/-- Parking the job that has its turn changes no other job. -/
theorem passes_park (hw : w.Sound) (hoff : id ∉ w.loop.turns) (future : FutureId)
    (k : Except FaultId Value → Routine (Except FaultId Value)) :
    w.Passes (some id) (w.park id future k) :=
  (passes_modifyJob w id ({ · with resume := k, waiting := some future }) (fun _ => rfl) fun _ => rfl).trans
    (passes_parked hw hoff future k)

/-- The end of a run of a sound world is a calm change. -/
theorem passes_endRun (hw : w.Sound) (run : Option RunId) (result : Except FaultId Value) :
    w.Passes mine (w.endRun run result).2 := by
  cases run with
  | none => exact .refl w
  | some r =>
    obtain ⟨fault, heq, -⟩ := endRun_some w r result
    rw [heq]
    exact passes_conclude hw r fault

/-- Putting the job that has its turn down, parked or ended, changes no other job. -/
theorem passes_putDown (hw : w.Sound) (hup : w.Up id job) (stop : Stop (Except FaultId Value)) :
    w.Passes (some id) (w.putDown id job stop) := by
  cases stop with
  | finished result =>
    have hended : w.Passes (some id) (w.endRun job.run result).2 := passes_endRun hw job.run result
    obtain ⟨now, hnow, hfuture, -⟩ := hup.get
    obtain ⟨f, hf, howner⟩ := hw.job_future id now hnow
    obtain ⟨g, hg, hsame, -⟩ := hended.subsides.eases.futures now.future f hf
    rw [hfuture] at hg
    exact hended.trans (passes_endJob (wired_endRun hw job.run result) hg (hsame.trans howner) _)
  | parked future k => exact passes_park hw hup.off future k
  | paused k =>
    refine (passes_modifyJob w id ({ · with resume := k }) (fun _ => rfl) fun _ => rfl).trans ?_
    exact passes_of_runs (subsides_of_runs ⟨.refl _, .of_eq rfl, fun _ h => .inl h⟩ (.refl _) rfl)
      (leaves_soon _ fun d hd => by cases hd) (spares_loop _ _) (.of_eq rfl) rfl

end SteppedLogo.World
