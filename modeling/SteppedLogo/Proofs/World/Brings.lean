import SteppedLogo.Proofs.World.Move

namespace SteppedLogo.World

variable {env : Env} {u v w : World} {mine : Option JobId}

/-- Each deed that is queued was so before, or takes no step; each job was there before, and goes on
as it would have unless it is the one that is set apart. -/
structure Leaves (mine : Option JobId) (w v : World) : Prop where
  deed : ∀ d, v.loop.Queued (.deed d) → w.loop.Queued (.deed d) ∨ d.isStep = false
  job : ∀ (j : JobId) (job : Job), v.jobs[j]? = some job → ∃ old : Job, w.jobs[j]? = some old ∧
    job.future = old.future ∧ job.run = old.run ∧
      (mine ≠ some j → job.resume = old.resume ∧ job.waiting = old.waiting)

/-- Each job goes on as it would have, or runs the program of a new run. -/
def KeepsJobs (env : Env) (w v : World) : Prop :=
  ∀ (j : JobId) (job : Job), v.jobs[j]? = some job →
    (∃ old : Job, w.jobs[j]? = some old ∧ job.future = old.future ∧ job.run = old.run ∧
      job.resume = old.resume ∧ job.waiting = old.waiting) ∨
    job.waiting = none ∧ ∃ r source, job.run = some r ∧ job.resume = fun _ => (env.program source).run

/-- The jobs are kept, and each deed that is queued was so before, or takes no step. -/
structure Brings (env : Env) (w v : World) : Prop where
  deed : ∀ d, v.loop.Queued (.deed d) → w.loop.Queued (.deed d) ∨ d.isStep = false
  job : KeepsJobs env w v

/-- A change that leaves the table of jobs as it is leaves the jobs going on, provided it queues no deed that takes a step.
-/
theorem leaves_of_jobs (hdeed : ∀ d, v.loop.Queued (.deed d) → w.loop.Queued (.deed d) ∨ d.isStep = false)
    (hjobs : v.jobs = w.jobs) : w.Leaves mine v :=
  ⟨hdeed, fun _ job hj => ⟨job, hjobs ▸ hj, rfl, rfl, fun _ => ⟨rfl, rfl⟩⟩⟩

theorem Leaves.refl (w : World) : w.Leaves mine w := leaves_of_jobs (fun _ h => .inl h) rfl

theorem Leaves.trans (huv : u.Leaves mine v) (hvw : v.Leaves mine w) : u.Leaves mine w := by
  refine ⟨fun d hd => ?_, fun j job hj => ?_⟩
  · obtain hd | hstep := hvw.deed d hd
    · exact huv.deed d hd
    · exact .inr hstep
  · obtain ⟨old, hold, hfuture, hrun, hsame⟩ := hvw.job j job hj
    obtain ⟨older, holder, hfuture', hrun', hsame'⟩ := huv.job j old hold
    exact ⟨older, holder, hfuture.trans hfuture', hrun.trans hrun', fun h =>
      ⟨(hsame h).1.trans (hsame' h).1, (hsame h).2.trans (hsame' h).2⟩⟩

/-- A change of what stands beside the loop leaves every job going on. -/
theorem Aside.leaves (h : w.Aside v) : w.Leaves mine v :=
  leaves_of_jobs (fun _ hd => .inl (h.loop ▸ hd)) h.jobs

/-- Settling a future of a wired world leaves every job going on and queues no deed that takes a step. -/
theorem leaves_settle (hw : w.Wired) (id : FutureId) (o : Outcome) : w.Leaves mine (w.settle id o) := by
  refine leaves_of_jobs (fun d hd => ?_) settle_jobs
  obtain hd | ⟨f, hf, -, hd⟩ := queued_settle hd
  · exact .inl hd
  · cases hw.attached id f _ hf hd

theorem leaves_cancelTimer (w : World) (id : TimerId) : w.Leaves mine (w.cancelTimer id) :=
  leaves_of_jobs (fun _ hd => .inl hd.of_cancel) rfl

/-- Retracting a step leaves every job going on. -/
theorem leaves_retract (w : World) (id : StepId) : w.Leaves mine (w.retract id) :=
  retract_keeps (K := w.Leaves mine) (.refl w)
    (fun timer => (leaves_cancelTimer w timer).trans (leaves_of_jobs (fun _ h => .inl h) rfl))
    fun _ hu => hu.trans (leaves_of_jobs (fun _ h => .inl h) rfl)

/-- Rejecting a step of a sound world leaves every job going on. -/
theorem leaves_cancelStep (hw : w.Sound) (id : StepId) (reason : Value) :
    w.Leaves mine (w.cancelStep id reason).2 := by
  obtain ⟨heq, -⟩ | ⟨s, -, -, heq⟩ := cancelStep_cases w id reason
  · rw [heq]
    exact .refl w
  · rw [heq]
    have hraise := (grows_retract w id).trans (aside_raise _ (.cancellation reason)).light.grows
    exact (((leaves_retract w id).trans (aside_raise _ _).leaves).trans
      (leaves_settle (hraise hw).1.toWired _ _)).trans (aside_addLog ..).leaves

/-- Cancelling the gate of a sound world leaves every job going on. -/
theorem leaves_cancelGate (hw : w.Sound) (reason : Value) : w.Leaves mine (w.cancelGate reason).2 :=
  cancelGate_keeps (K := w.Leaves mine) (.refl w) fun id => leaves_cancelStep hw id reason

/-- A change of a run's record touches no job. -/
theorem leaves_modifyRun (w : World) (id : RunId) (change : Run → Run) :
    w.Leaves mine (w.modifyRun id change) := leaves_of_jobs (fun _ h => .inl h) rfl

/-- Asking the current run of a sound world to stop leaves every job going on. -/
theorem leaves_cancelRun (hw : w.Sound) (reason : Value) : w.Leaves mine (w.cancelRun reason) := by
  refine cancelRun_keeps (K := w.Leaves mine) (.refl w) fun _ hrunning => ?_
  have hsound := (grows_canceling hrunning reason hw).1
  exact ((leaves_modifyRun w _ _).trans (leaves_cancelGate hsound reason)).trans (aside_addLog ..).leaves

/-- A job may be changed apart from its future and its run. -/
theorem leaves_modifyJob (w : World) (id : JobId) (change : Job → Job)
    (hfuture : ∀ job : Job, (change job).future = job.future)
    (hrun : ∀ job : Job, (change job).run = job.run)
    (hsame : mine ≠ some id → ∀ job : Job, (change job).resume = job.resume ∧ (change job).waiting = job.waiting) :
    w.Leaves mine (w.modifyJob id change) := by
  refine ⟨fun _ h => .inl h, fun j job hj => ?_⟩
  rw [modifyJob_get] at hj
  split at hj
  · next h =>
    subst h
    obtain ⟨old, hold, rfl⟩ := Option.map_eq_some_iff.1 hj
    exact ⟨old, hold, hfuture old, hrun old, fun h => hsame h old⟩
  · exact ⟨job, hj, rfl, rfl, fun _ => ⟨rfl, rfl⟩⟩

/-- Noting in a job that it is to be cancelled leaves what it does next as it is. -/
theorem leaves_request (w : World) (id : JobId) (b : Bool) :
    w.Leaves mine (w.modifyJob id ({ · with cancelRequested := b })) :=
  leaves_modifyJob w id _ (fun _ => rfl) (fun _ => rfl) fun _ _ => ⟨rfl, rfl⟩

/-- Queueing a callback leaves every job going on, provided it is no deed that takes a step. -/
theorem leaves_soon (w : World) {c : Callback} (hc : ∀ d, c = .deed d → d.isStep = false) :
    w.Leaves mine (w.soon c) := by
  refine leaves_of_jobs (fun d hd => ?_) rfl
  obtain hd | hd := Loop.queued_soon.1 hd
  · exact .inl hd
  · exact .inr (hc d hd.symm)

/-- Setting a timer leaves every job going on, provided its callback is no deed that takes a step. -/
theorem leaves_later (w : World) (delay : Float) {c : Callback} (hc : ∀ d, c = .deed d → d.isStep = false) :
    w.Leaves mine (w.later delay c).2 := by
  refine leaves_of_jobs (fun d hd => ?_) rfl
  obtain hd | hd := Loop.queued_later.1 hd
  · exact .inl hd
  · exact .inr (hc d hd.symm)

/-- Cancellations of futures in a wired world leave every job going on. -/
theorem Cancels.leaves (h : Cancels w v) (hw : w.Wired) : w.Leaves mine v := by
  cases h with
  | plain => exact leaves_settle hw _ _
  | request => exact leaves_request w _ true

/-- Setting up a pending step leaves every job going on. -/
theorem leaves_installStep (w : World) : w.Leaves mine w.installStep.2 := by
  obtain ⟨message, heq⟩ := installStep_eq w
  rw [heq]
  refine leaves_of_jobs (fun d hd => ?_) rfl
  obtain hd | hd := Loop.queued_later.1 hd
  · exact .inl hd
  · cases hd

/-- Setting up the step of a run of a sound world leaves every job going on, also where the step is rejected at once. -/
theorem leaves_installFor (hw : w.Sound) (id : RunId) : w.Leaves mine (w.installFor id).2 := by
  have hmodify : w.Leaves mine (w.installStep.2.modifyRun id ({ · with steps := w.installStep.1.seq })) :=
    (leaves_installStep w).trans (leaves_modifyRun _ id _)
  obtain ⟨-, heq⟩ | ⟨-, heq⟩ := installFor_cases id w
  · rw [heq]
    exact hmodify
  · rw [heq]
    have hsound := (grows_modifyRun w.installStep.2 id ({ · with steps := w.installStep.1.seq })
      (fun run _ => ⟨rfl, .inl ⟨rfl, rfl⟩⟩) (grows_installStep w hw).1).1
    exact hmodify.trans (leaves_cancelStep hsound _ _)

/-- Cancelling a future of a sound world leaves what every job does next as it is. -/
theorem leaves_cancelFuture (hw : w.Sound) (id : FutureId) : w.Leaves mine (w.cancelFuture id).2 :=
  (cancelFuture_keeps (K := fun v => v.Sound ∧ w.Leaves mine v) ⟨hw, .refl w⟩
    (fun _ _ hu hstep => ⟨(hstep.grows hu.1).1, hu.2.trans (hstep.leaves hu.1.toWired)⟩) id).2

/-- Having a job woken by a future leaves every job going on. -/
theorem leaves_whenDone (w : World) (future : FutureId) (id : JobId) :
    w.Leaves mine (w.whenDone future (.wake id)) := by
  unfold whenDone
  split
  · exact leaves_soon w fun d hd => by cases hd
  · exact leaves_of_jobs (fun _ h => .inl h) rfl

/-- Concluding a run of a sound world leaves every job going on. -/
theorem leaves_conclude (hw : w.Sound) (id : RunId) (fault : Option FaultId) :
    w.Leaves mine (w.conclude id fault).2 := by
  obtain ⟨e, -, -, hstays⟩ | ⟨-, u, reason, status, error, hu, -, hv⟩ := conclude_eq w id fault
  · rw [hstays]
    exact .refl w
  · have hcancel : w.Leaves mine (u.cancelGate reason).2 :=
      hu.leaves.trans (leaves_cancelGate (hu.light.grows hw).1 reason)
    exact ((hcancel.trans (aside_modifyTrace _ _).leaves).trans (leaves_modifyRun _ id _)).trans hv.leaves

/-- The end of a step's time in a sound world leaves every job going on. -/
theorem leaves_elapse (hw : w.Sound) (id : StepId) : w.Leaves mine (w.elapse id) := by
  obtain ⟨heq, -⟩ | ⟨s, -, -, heq⟩ := elapse_cases w id
  · rw [heq]
    exact .refl w
  · rw [heq]
    exact (leaves_retract w id).trans (leaves_settle (grows_retract w id hw).1.toWired _ _)

/-- A change that sets no job apart keeps all jobs. -/
theorem Leaves.brings (h : w.Leaves none v) : w.Brings env v := by
  refine ⟨h.deed, fun j job hj => .inl ?_⟩
  obtain ⟨old, hold, hfuture, hrun, hsame⟩ := h.job j job hj
  exact ⟨old, hold, hfuture, hrun, hsame nofun⟩

theorem Brings.refl (w : World) : w.Brings env w := (Leaves.refl w).brings

theorem KeepsJobs.trans (huv : KeepsJobs env u v) (hvw : KeepsJobs env v w) : KeepsJobs env u w := by
  intro j job hj
  obtain ⟨old, hold, hfuture, hrun, hresume, hwaiting⟩ | hnew := hvw j job hj
  · obtain ⟨older, holder, hfuture', hrun', hresume', hwaiting'⟩ | ⟨hwaiting', r, source, hrun', hresume'⟩ :=
      huv j old hold
    · exact .inl ⟨older, holder, hfuture.trans hfuture', hrun.trans hrun', hresume.trans hresume',
        hwaiting.trans hwaiting'⟩
    · exact .inr ⟨hwaiting.trans hwaiting', r, source, hrun.trans hrun', hresume.trans hresume'⟩
  · exact .inr hnew

theorem Brings.trans (huv : u.Brings env v) (hvw : v.Brings env w) : u.Brings env w := by
  refine ⟨fun d hd => ?_, huv.job.trans hvw.job⟩
  obtain hd | hstep := hvw.deed d hd
  · exact huv.deed d hd
  · exact .inr hstep

/-- A start keeps the jobs, or adds the one that runs the program of the new run. -/
theorem brings_start (source : String) (w : World) :
    w.Brings env (w.start (env.program source) source).2 := by
  obtain ⟨-, heq⟩ | ⟨-, number, nextNumber, message, heq⟩ := start_cases (env.program source) source w
  · rw [heq]
    exact (aside_complain w _).leaves.brings
  · rw [heq]
    refine ⟨fun d hd => ?_, fun j job hj => ?_⟩
    · obtain hd | hd := Loop.queued_soon.1 hd
      · exact .inl hd
      · cases hd
    · obtain hj | ⟨-, rfl⟩ := getElem?_push_eq_some.1 hj
      · exact .inl ⟨job, hj, rfl, rfl, rfl, rfl⟩
      · exact .inr ⟨rfl, _, source, rfl, rfl⟩

/-- An operation of a program keeps the jobs of a sound world, or adds the job of a new run. -/
theorem Touch.brings (h : Touch env w v) (hw : w.Sound) : w.Brings env v := by
  cases h with
  | aside haside => exact haside.leaves.brings
  | defer hstep => exact (leaves_soon w fun d hd => by cases hd; exact hstep).brings
  | deferLater delay hstep => exact (leaves_later w delay fun d hd => by cases hd; exact hstep).brings
  | nap delay =>
    have hadd : w.Leaves none (w.addFuture {}).2 := leaves_of_jobs (fun _ h => .inl h) rfl
    exact (hadd.trans (leaves_later _ delay fun d hd => by cases hd)).brings
  | dropTimer => exact (leaves_cancelTimer w _).brings
  | cancelStep => exact (leaves_cancelStep hw _ _).brings
  | cancels hcancels => exact (hcancels.leaves hw.toWired).brings
  | cancelRun => exact (leaves_cancelRun hw _).brings
  | start => exact brings_start _ w

/-- A sequence of operations keeps the jobs of a sound world, or adds the jobs of new runs. -/
theorem Touches.brings (h : Touches env w v) (hw : w.Sound) : w.Brings env v := by
  induction h with
  | refl => exact .refl w
  | tail hbefore htouch ih => exact ih.trans (htouch.brings (Changes.grows (Touches.changes hbefore) hw).1)

/-- One change of a sound world keeps the jobs, or adds the job of a new run. -/
theorem Change.keepsJobs (h : Change env w v) (hw : w.Sound) : KeepsJobs env w v := by
  cases h with
  | touch htouch => exact (htouch.brings hw).job
  | defer | deferLater => exact fun j job hj => .inl ⟨job, hj, rfl, rfl, rfl, rfl⟩
  | install => exact (leaves_installStep w).brings.job
  | installFor id => exact (leaves_installFor hw id).brings.job

/-- Whatever is performed, each job goes on as it would have, or runs the program of a new run. -/
theorem Changes.keepsJobs (h : Changes env w v) (hw : w.Sound) : KeepsJobs env w v := by
  induction h with
  | refl => exact (Brings.refl w).job
  | tail hbefore hchange ih => exact ih.trans (hchange.keepsJobs (Changes.grows hbefore hw).1)

end SteppedLogo.World
