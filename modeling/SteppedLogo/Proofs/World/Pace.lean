import SteppedLogo.Proofs.World.Scene

namespace SteppedLogo

/-- Operations that neither announce a step, nor defer a deed, nor set the interval. -/
def Op.LeavesPace : Op → Prop
  | hook _ | step _ | setInterval _ | setPacing _ | defer .. => False
  | _ => True

namespace World

variable {env : Env} {u v w : World}

/-- A deed that is queued, or will be once a future is settled. -/
def Defers (w : World) (d : Deed) : Prop :=
  w.loop.Queued (.deed d) ∨ ∃ (i : FutureId) (f : Future), w.futures[i]? = some f ∧ Callback.deed d ∈ f.callbacks

/-- The interval is as before; deeds are awaited, and jobs go on, as before, but for new programs. -/
structure KeepsPace (env : Env) (w v : World) : Prop where
  interval : v.gate.interval = w.gate.interval
  deed : ∀ d, v.Defers d → w.Defers d
  job : ∀ (j : JobId) (job : Job), v.jobs[j]? = some job →
    (∃ old : Job, w.jobs[j]? = some old ∧ job.resume = old.resume) ∨
      ∃ source, job.resume = fun _ => (env.program source).run

theorem KeepsPace.refl (w : World) : KeepsPace env w w := ⟨rfl, fun _ h => h, fun _ job hj => .inl ⟨job, hj, rfl⟩⟩

/-- What keeps the pace twice keeps it. -/
theorem KeepsPace.trans (huv : KeepsPace env u v) (hvw : KeepsPace env v w) : KeepsPace env u w where
  interval := hvw.interval.trans huv.interval
  deed d hd := huv.deed d (hvw.deed d hd)
  job j job hj := by
    obtain ⟨old, hold, hresume⟩ | hnew := hvw.job j job hj
    · obtain ⟨older, holder, hresume'⟩ | ⟨source, hnew⟩ := huv.job j old hold
      · exact .inl ⟨older, holder, hresume.trans hresume'⟩
      · exact .inr ⟨source, hresume.trans hnew⟩
    · exact .inr hnew

/-- The pace is kept where the interval, the deeds that are awaited and the jobs are. -/
theorem KeepsPace.of_jobs (hinterval : v.gate.interval = w.gate.interval) (hdeed : ∀ d, v.Defers d → w.Defers d)
    (hjobs : v.jobs = w.jobs) : KeepsPace env w v :=
  ⟨hinterval, hdeed, fun _ job hj => .inl ⟨job, hjobs ▸ hj, rfl⟩⟩

/-- What happens aside keeps the pace if it leaves the interval. -/
theorem Aside.keepsPace (h : w.Aside v) (hinterval : v.gate.interval = w.gate.interval) : KeepsPace env w v :=
  .of_jobs hinterval (fun _ hd => by rwa [Defers, h.loop, h.futures] at hd) h.jobs

/-- A change of the loop that queues no deed keeps the pace. -/
theorem keepsPace_loop {l : Loop Callback} (hloop : ∀ d, l.Queued (.deed d) → w.loop.Queued (.deed d)) :
    KeepsPace env w { w with loop := l } := .of_jobs rfl (fun d hd => hd.imp_left (hloop d)) rfl

/-- A callback may be queued that is no deed. -/
theorem keepsPace_soon (w : World) {c : Callback} (hc : ∀ d, c ≠ .deed d) : KeepsPace env w (w.soon c) :=
  keepsPace_loop fun d hd => (Loop.queued_soon.1 hd).resolve_right (hc d ·.symm)

theorem keepsPace_later (w : World) (delay : Float) {c : Callback} (hc : ∀ d, c ≠ .deed d) :
    KeepsPace env w (w.later delay c).2 :=
  keepsPace_loop fun d hd => (Loop.queued_later.1 hd).resolve_right (hc d ·.symm)

theorem keepsPace_cancelTimer (w : World) (id : TimerId) : KeepsPace env w (w.cancelTimer id) :=
  keepsPace_loop fun _ hd => hd.of_cancel

/-- A future may be made that no deed waits for. -/
theorem keepsPace_addFuture (w : World) {f : Future} (hf : ∀ d, Callback.deed d ∉ f.callbacks) :
    KeepsPace env w (w.addFuture f).2 := by
  refine .of_jobs rfl (fun d hd => hd.imp_right ?_) rfl
  rintro ⟨i, g, hg, hmem⟩
  obtain hg | ⟨-, rfl⟩ := getElem?_push_eq_some.1 hg
  · exact ⟨i, g, hg, hmem⟩
  · exact (hf d hmem).elim

/-- Settling a future queues only what was to be queued then. -/
theorem keepsPace_settle (w : World) (id : FutureId) (o : Outcome) : KeepsPace env w (w.settle id o) := by
  refine .of_jobs (congrArg Gate.interval settle_gate) (fun d hd => ?_) settle_jobs
  obtain hd | ⟨i, f, hf, hd⟩ := hd
  · obtain hd | ⟨f, hf, -, hd⟩ := queued_settle hd
    · exact .inl hd
    · exact .inr ⟨id, f, hf, hd⟩
  · rw [settle_get] at hf
    split at hf
    · obtain ⟨g, hg, rfl⟩ := Option.map_eq_some_iff.1 hf
      split at hd
      · cases hd
      · exact .inr ⟨i, g, hg, hd⟩
    · exact .inr ⟨i, f, hf, hd⟩

theorem keepsPace_whenDone (w : World) (id : FutureId) {c : Callback} (hc : ∀ d, c ≠ .deed d) :
    KeepsPace env w (w.whenDone id c) := by
  unfold whenDone
  split
  · exact keepsPace_soon w hc
  · refine .of_jobs rfl (fun d hd => hd.imp_right ?_) rfl
    rintro ⟨i, f, hf, hd⟩
    rw [Array.getElem?_modify] at hf
    split at hf
    · obtain ⟨g, hg, rfl⟩ := Option.map_eq_some_iff.1 hf
      obtain hd | hd := List.mem_append.1 hd
      · exact ⟨i, g, hg, hd⟩
      · exact (hc d (List.mem_singleton.1 hd).symm).elim
    · exact ⟨i, f, hf, hd⟩

/-- A job may change that goes on as before. -/
theorem keepsPace_modifyJob (w : World) (id : JobId) {change : Job → Job}
    (hresume : ∀ job : Job, (change job).resume = job.resume) : KeepsPace env w (w.modifyJob id change) := by
  refine ⟨rfl, fun _ h => h, fun j job hj => .inl ?_⟩
  rw [modifyJob_get] at hj
  split at hj
  · obtain ⟨old, hold, rfl⟩ := Option.map_eq_some_iff.1 hj
    exact ⟨old, hold, hresume old⟩
  · exact ⟨job, hj, rfl⟩

theorem Cancels.keepsPace (h : Cancels w v) : KeepsPace env w v := by
  cases h with
  | plain => exact keepsPace_settle w _ _
  | request => exact keepsPace_modifyJob w _ fun _ => rfl

/-- Cancelling a future keeps the pace. -/
theorem keepsPace_cancelFuture (w : World) (id : FutureId) : KeepsPace env w (w.cancelFuture id).2 :=
  cancelFuture_keeps (K := KeepsPace env w) (.refl w) (fun _ _ hu hstep => hu.trans hstep.keepsPace) id

theorem keepsPace_modifyGate (w : World) {change : Gate → Gate} (h : (change w.gate).interval = w.gate.interval) :
    KeepsPace env w (w.modifyGate change) := .of_jobs h (fun _ hd => hd) rfl

/-- Taking a step off the gate keeps the pace. -/
theorem keepsPace_retract (w : World) (id : StepId) : KeepsPace env w (w.retract id) :=
  retract_keeps (K := KeepsPace env w) (.refl w) (fun timer => (keepsPace_cancelTimer w timer).trans
    (keepsPace_modifyGate _ rfl))
    fun u hu => hu.trans (keepsPace_modifyGate u rfl)

/-- Cancelling a step keeps the pace. -/
theorem keepsPace_cancelStep (w : World) (id : StepId) (reason : Value) : KeepsPace env w (w.cancelStep id reason).2 := by
  obtain ⟨heq, -⟩ | ⟨s, -, -, heq⟩ := cancelStep_cases w id reason
  · rw [heq]
    exact .refl w
  · rw [heq]
    have hraise : KeepsPace env (w.retract id) ((w.retract id).raise (.cancellation reason)).2 :=
      (aside_raise _ _).keepsPace rfl
    exact (((keepsPace_retract w id).trans hraise).trans (keepsPace_settle _ _ _)).trans ((aside_addLog ..).keepsPace rfl)

/-- Cancelling the gate keeps the pace. -/
theorem keepsPace_cancelGate (w : World) (reason : Value) : KeepsPace env w (w.cancelGate reason).2 :=
  cancelGate_keeps (K := KeepsPace env w) (.refl w) fun id => keepsPace_cancelStep w id reason

/-- The end of a step's time keeps the pace. -/
theorem keepsPace_elapse (w : World) (id : StepId) : KeepsPace env w (w.elapse id) := by
  obtain ⟨heq, -⟩ | ⟨s, -, -, heq⟩ := elapse_cases w id <;> rw [heq]
  · exact .refl w
  · exact (keepsPace_retract w id).trans (keepsPace_settle _ _ _)

theorem keepsPace_modifyRun (w : World) (id : RunId) (change : Run → Run) : KeepsPace env w (w.modifyRun id change) :=
  .of_jobs rfl (fun _ hd => hd) rfl

/-- Cancelling the run keeps the pace. -/
theorem keepsPace_cancelRun (w : World) (reason : Value) : KeepsPace env w (w.cancelRun reason) :=
  cancelRun_keeps (K := KeepsPace env w) (.refl w) fun _ _ =>
    ((keepsPace_modifyRun w _ _).trans (keepsPace_cancelGate _ reason)).trans ((aside_addLog ..).keepsPace rfl)

/-- Setting up a step keeps the pace, for its timer ends the pacing and does no deed. -/
theorem keepsPace_installStep (w : World) : KeepsPace env w w.installStep.2 := by
  obtain ⟨message, heq⟩ := installStep_eq w
  rw [heq]
  have hfuture : KeepsPace env w (w.addFuture { callbacks := [.retract w.gate.steps.size] }).2 :=
    keepsPace_addFuture w fun d hd => by cases List.mem_singleton.1 hd
  have htimer := hfuture.trans (keepsPace_later _ w.gate.interval (c := .elapse w.gate.steps.size) nofun)
  exact htimer.trans (.of_jobs rfl (fun _ hd => hd) rfl)

/-- Setting up the step of a run keeps the pace. -/
theorem keepsPace_installFor (w : World) (id : RunId) : KeepsPace env w (w.installFor id).2 := by
  have hstep : KeepsPace env w w.installStep.2 := keepsPace_installStep w
  have hcounted := hstep.trans (keepsPace_modifyRun _ id ({ · with steps := w.installStep.1.seq }))
  unfold installFor
  dsimp only
  split
  · exact hcounted.trans (keepsPace_cancelStep _ _ _)
  · exact hcounted

/-- A new job queues its turn, and no deed. -/
theorem defers_addJob {code : Work Value} {run : Option RunId} {d : Deed} (h : (w.addJob code run).2.Defers d) :
    w.Defers d := by
  obtain hqueued | ⟨i, f, hf, hmem⟩ := h
  · obtain hqueued | heq := Loop.queued_soon.1 hqueued
    · exact .inl hqueued
    · cases heq
  · obtain hf | ⟨-, rfl⟩ := getElem?_push_eq_some.1 hf
    · exact .inr ⟨i, f, hf, hmem⟩
    · cases hmem

/-- A new job may run a program. -/
theorem keepsPace_addJob (w : World) (source : String) (run : Option RunId) :
    KeepsPace env w (w.addJob (env.program source) run).2 := by
  refine ⟨rfl, fun _ => defers_addJob, fun j job hj => ?_⟩
  obtain hj | ⟨-, rfl⟩ := getElem?_push_eq_some.1 hj
  · exact .inl ⟨job, hj, rfl⟩
  · exact .inr ⟨source, rfl⟩

/-- A start keeps the pace: its job runs a program. -/
theorem keepsPace_start (w : World) (source title : String) : KeepsPace env w (w.start (env.program source) title).2 := by
  obtain ⟨-, heq⟩ | ⟨-, number, nextNumber, message, heq⟩ := start_cases (env.program source) title w <;> rw [heq]
  · exact (aside_complain w _).keepsPace rfl
  · refine KeepsPace.trans ?_ (keepsPace_addJob _ source _)
    exact .of_jobs rfl (fun _ hd => hd) rfl

/-- Finishing a run keeps the pace. -/
theorem keepsPace_finish (w : World) (id : RunId) (status : Status) (error : Option FaultId) :
    KeepsPace env w (w.finish id status error) := by
  obtain ⟨reason, message, heq⟩ := finish_eq w id status error
  rw [heq]
  have htrace (u : World) : KeepsPace env u (u.modifyTrace Trace.release) := (aside_modifyTrace u _).keepsPace rfl
  exact (((keepsPace_cancelGate w reason).trans (htrace _)).trans (keepsPace_modifyRun _ id _)).trans
    ((aside_addLog ..).keepsPace rfl)

/-- The end of a run keeps the pace. -/
theorem keepsPace_conclude (w : World) (id : RunId) (fault : Option FaultId) :
    KeepsPace env w (w.conclude id fault).2 := by
  have hfaults (u : World) (faults : Faults) : KeepsPace env u { u with faults } := .of_jobs rfl (fun _ hd => hd) rfl
  cases fault with
  | none =>
    dsimp only [conclude]
    split
    · exact KeepsPace.trans ((aside_addLog ..).keepsPace rfl) (keepsPace_finish _ _ _ _)
    · exact keepsPace_finish _ _ _ _
  | some fault =>
    have hfinish (f : FaultId) : KeepsPace env w (w.finish id .failed (some f)) := keepsPace_finish w id .failed (some f)
    dsimp only [conclude]
    split
    · exact hfinish fault
    · split
      · exact .refl w
      · split
        · next stop _ =>
          split
          · exact hfinish stop
          · exact (hfinish stop).trans (hfaults _ _)
        · exact ((hfinish fault).trans ((aside_raise _ _).keepsPace rfl)).trans (hfaults _ _)

/-- The end of a run keeps the pace. -/
theorem keepsPace_endRun (w : World) (run : Option RunId) (result : Except FaultId Value) :
    KeepsPace env w (w.endRun run result).2 := by
  cases run with
  | none => exact .refl w
  | some r =>
    obtain ⟨fault, heq, -⟩ := endRun_some w r result
    rw [heq]
    exact keepsPace_conclude w r fault

theorem keepsPace_endJob (w : World) (id : JobId) (future : FutureId) (result : Except FaultId Value) :
    KeepsPace env w (w.endJob id future result) := by
  obtain ⟨o, heq⟩ := endJob_eq w id future result
  rw [heq]
  exact keepsPace_settle w future o

theorem keepsPace_receive (w : World) (o : Outcome) : KeepsPace env w (w.receive o).2 := by
  cases o <;> exact (aside_receive w _).keepsPace rfl

/-- Taking a job up keeps the pace. -/
theorem keepsPace_takeUp (w : World) (id : JobId) (job : Job) (received : Except FaultId Value) :
    KeepsPace env w (w.takeUp id job received).2 := by
  have hresumption : KeepsPace env w (w.resumption job received).2 := by
    unfold resumption
    split
    · split
      · split
        · exact .refl w
        · exact keepsPace_receive w .cancelled
      · exact keepsPace_receive w .cancelled
    · exact .refl w
  rw [takeUp_eq]
  exact hresumption.trans (keepsPace_modifyJob _ id fun _ => rfl)

/-- No word sets the interval or defers a deed, and one that starts a run has a program run. -/
theorem keepsPace_invoke (h : Handler) (args : List Value) (w : World) : KeepsPace env w (w.invoke env h args).2 := by
  unfold invoke
  split
  · rw [callPrimitive_eq]
    split
    · exact (aside_complain w _).keepsPace rfl
    · next e _ =>
      obtain ⟨_, _, _, _, heq⟩ := carryOut_frame w e
      rw [heq]
      exact .of_jobs rfl (fun _ hd => hd) rfl
  · exact keepsPace_cancelRun w _
  · exact keepsPace_cancelRun w _
  · exact (aside_complain w _).keepsPace rfl
  · next v =>
    have hstart : KeepsPace env w (w.start (env.program v.display) v.display).2 := keepsPace_start w _ _
    split <;> next heq => rw [heq] at hstart; exact hstart
  · exact .of_jobs rfl (fun _ hd => hd) rfl
  · exact .of_jobs rfl (fun _ hd => hd) rfl
  · exact (aside_complain w _).keepsPace rfl
  · exact (aside_complain w _).keepsPace rfl

/-- A nap keeps the pace. -/
theorem keepsPace_nap (w : World) (delay : Float) : KeepsPace env w (w.nap delay).2 :=
  (keepsPace_addFuture w fun _ => List.not_mem_nil).trans (keepsPace_later _ delay (c := .rouse w.futures.size) nofun)

theorem interval_modifyShownView (w : World) (change : DebugView → DebugView) :
    (w.modifyShownView change).gate.interval = w.gate.interval := by
  unfold modifyShownView
  split <;> rfl

/-- An operation that neither announces a step, nor defers a deed, nor sets the interval. -/
theorem performWith_keepsPace (notify : Notify) {o : Op} (ho : o.LeavesPace) (w : World) :
    KeepsPace env w (performWith env notify o w).2 := by
  cases o with
  | hook | step | setInterval | setPacing | defer => cases ho
  | cancelGate reason => exact keepsPace_cancelGate w reason
  | cancelStep step reason => exact keepsPace_cancelStep w step reason
  | cancelRun reason | requestBreak reason => exact keepsPace_cancelRun w reason
  | interrupt =>
    exact deliverInterrupt_keeps (K := KeepsPace env w) (.refl w) fun reason => keepsPace_cancelRun w reason
  | start source => exact keepsPace_start w source source
  | cancelTracked index =>
    change KeepsPace env w (w.cancelTracked index).2
    unfold cancelTracked
    split
    · exact keepsPace_cancelFuture w _
    · exact .refl w
  | cancelFuture future => exact keepsPace_cancelFuture w future
  | invoke handler args => exact keepsPace_invoke handler args w
  | nap delay => exact keepsPace_nap w delay
  | dropTimer timer => exact keepsPace_cancelTimer w timer
  | clearView => exact (aside_modifyShownView w _).keepsPace (interval_modifyShownView w _)
  | print category text =>
    obtain ⟨calls, records, log, heq⟩ := print_frame w category text
    exact (aside_print w category text).keepsPace (by rw [heq])
  | showTrace event =>
    change KeepsPace env w (w.showTrace event)
    unfold showTrace
    dsimp only
    split
    · exact (aside_write w _).keepsPace rfl
    · exact .refl w
  | hookInterrupt reason =>
    change KeepsPace env w (if env.signals then (.ok (), { w with interrupt := some reason })
      else w.complain noSignals : Except FaultId Unit × World).2
    split
    · exact .of_jobs rfl (fun _ hd => hd) rfl
    · exact (aside_complain w _).keepsPace rfl
  | resetGate | setTrace | release | addListener | removeListener | track | report | spend | announce | note | newBody
  | recordCall | raise | setCause | raiseWhile | describe | isSettled | write | log | unhookInterrupt | setStatus | pacing
  | turtle => exact .of_jobs rfl (fun _ hd => hd) rfl

/-- The trace is shown, and nothing else becomes of a call that is to be announced. -/
theorem keepsPace_showCall (w : World) (call : Call) : KeepsPace env w (w.showCall call) := by
  refine (aside_showCall w call).keepsPace ?_
  unfold showCall
  split
  · rfl
  · rfl
  · dsimp only
    split <;> rfl

end World

end SteppedLogo
