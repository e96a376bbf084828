import SteppedLogo.Proofs.Fault.Search
import SteppedLogo.Proofs.World.Grows
import SteppedLogo.World.Run

namespace SteppedLogo

variable {α : Type} {env : Env} {P : Op → Prop} {I : World → Prop} {u v w : World}

theorem World.aside_receive (w : World) (o : Outcome) : w.Aside (w.receive o).2 := by
  cases o with
  | value | fault => exact .refl w
  | cancelled => exact aside_raise w _

/-- What every operation keeps is kept by a routine. -/
theorem Routine.run_keeps {r : Routine α} (hop : ∀ o, P o → ∀ w, I w → I (w.perform env o).2)
    (haside : ∀ w v, w.Aside v → I w → I v) (hr : r.All P) (hw : I w) : I (r.run env w).2 := by
  induction r generalizing w with
  | done a => exact hw
  | op o k ih => exact ih _ (hr.2 _) (hop o hr.1 w hw)
  | await future k ih =>
    cases future with
    | none => exact hw
    | some future =>
      unfold Routine.run
      split
      · exact hw
      · exact ih _ (hr _) (haside _ _ (w.aside_receive _) hw)

/-- The part of a routine that runs at once comes down to changes. -/
theorem Routine.run_changes (env : Env) (r : Routine α) (w : World) :
    World.Changes env w (r.run env w).2 :=
  r.run_keeps (I := World.Changes env w) (fun o _ _ hu => Relation.ReflTransGen.trans hu (World.perform_changes o _))
    (fun _ _ haside hu => hu.tail (.touch (.aside haside))) r.all_true .refl

namespace World

/-- A job that has its turn: it has begun and not ended, and neither waits nor has another turn
queued. -/
structure Up (w : World) (id : JobId) (job : Job) : Prop where
  get : ∃ now : Job, w.jobs[id]? = some now ∧ now.future = job.future ∧ now.run = job.run ∧
    now.begun = true ∧ now.waiting = none
  undone : w.outcome? job.future = none
  off : id ∉ w.loop.turns

variable {id : JobId} {job : Job}

/-- A job that has its turn is open. -/
theorem Up.outcome?_get (hup : w.Up id job) {now : Job} (hnow : w.jobs[id]? = some now) :
    w.outcome? now.future = none := by
  obtain ⟨before, hbefore, hfuture, -⟩ := hup.get
  rw [hnow] at hbefore
  cases hbefore
  rw [hfuture]
  exact hup.undone

/-- A job that has its turn keeps it while code runs. -/
theorem Extends.up (h : w.Extends v) (hup : w.Up id job) : v.Up id job := by
  obtain ⟨now, hnow, hfuture, hrun, hbegun, hwaiting⟩ := hup.get
  obtain ⟨b, hb⟩ := h.job id now hnow
  refine ⟨⟨_, hb, hfuture, hrun, hbegun, hwaiting⟩, ?_, fun hturn => ?_⟩
  · rw [← hfuture, h.owned id now hnow, hfuture, hup.undone]
  · obtain hturn | hsize := h.turn id hturn
    · exact hup.off hturn
    · exact absurd (Array.getElem?_eq_some_iff.1 hnow).1 (Nat.not_lt.2 hsize)

/-- What jobs and futures keep from one turn to the next. -/
structure Follows (w v : World) : Prop where
  futures : KeepsFutures w v
  job : ∀ (j : JobId) (job : Job), w.jobs[j]? = some job → ∃ now : Job, v.jobs[j]? = some now ∧
    now.future = job.future ∧ now.run = job.run ∧
      (w.isDone job.future = true ∨ job.begun = true → now.begun = job.begun)
  runs : w.session.runs.size ≤ v.session.runs.size
  faults : w.faults.Keeps v.faults

theorem Follows.refl (w : World) : w.Follows w :=
  ⟨.refl w, fun _ job hj => ⟨job, hj, rfl, rfl, fun _ => rfl⟩, Nat.le_refl _, .refl _⟩

/-- A job that has begun has begun for good. -/
theorem Follows.begun (h : w.Follows v) {j : JobId} {old job : Job} (hold : w.jobs[j]? = some old)
    (hj : v.jobs[j]? = some job)
    (hbegun : old.begun = true) : job.begun = true := by
  obtain ⟨now, hnow, -, -, hsame⟩ := h.job j old hold
  rw [hj] at hnow
  cases hnow
  exact (hsame (.inr hbegun)).trans hbegun

theorem Follows.trans (huv : u.Follows v) (hvw : v.Follows w) : u.Follows w := by
  refine ⟨huv.futures.trans hvw.futures, fun j job hj => ?_, Nat.le_trans huv.runs hvw.runs,
    huv.faults.trans hvw.faults⟩
  obtain ⟨now, hnow, hfuture, hrun, hbegun⟩ := huv.job j job hj
  obtain ⟨later, hlater, hfuture', hrun', hbegun'⟩ := hvw.job j now hnow
  refine ⟨later, hlater, hfuture'.trans hfuture, hrun'.trans hrun, fun hstays => ?_⟩
  have hsame := hbegun hstays
  rw [hbegun' ?_, hsame]
  rw [hfuture, hsame]
  exact hstays.imp_left huv.futures.isDone

theorem Extends.runs_size_le (h : w.Extends v) : w.session.runs.size ≤ v.session.runs.size :=
  size_le_of_get fun r run hrun => (h.run r run hrun).imp fun _ hnow => hnow.1

/-- What running code does is one way to go from turn to turn. -/
theorem Extends.follows (h : w.Extends v) : w.Follows v where
  futures := h.futures
  job j job hj := by
    obtain ⟨b, hb⟩ := h.job j job hj
    exact ⟨_, hb, rfl, rfl, fun _ => rfl⟩
  runs := h.runs_size_le
  faults := h.faults

/-- A change of a sound state that leaves it sound, as a turn or a part of one does. -/
def Proceeds (w v : World) : Prop := w.Sound → v.Sound ∧ w.Follows v

theorem Proceeds.refl (w : World) : w.Proceeds w := fun hw => ⟨hw, .refl w⟩

theorem Proceeds.trans (huv : u.Proceeds v) (hvw : v.Proceeds w) : u.Proceeds w := by
  intro hu
  obtain ⟨hv, huv⟩ := huv hu
  obtain ⟨hw, hvw⟩ := hvw hv
  exact ⟨hw, huv.trans hvw⟩

/-- What leaves a sound state sound while code runs leaves it so between turns. -/
theorem Grows.proceeds (h : w.Grows v) : w.Proceeds v := fun hw => ⟨(h hw).1, (h hw).2.follows⟩

/-- A job keeps its future and its run, and begins only once. -/
theorem follows_modifyJob (w : World) (id : JobId) (change : Job → Job)
    (hfuture : ∀ job : Job, (change job).future = job.future)
    (hrun : ∀ job : Job, (change job).run = job.run)
    (hbegun : ∀ job : Job, w.jobs[id]? = some job → w.isDone job.future = true ∨ job.begun = true →
      (change job).begun = job.begun) : w.Follows (w.modifyJob id change) := by
  refine ⟨.refl w, fun j job hj => ?_, Nat.le_refl _, .refl _⟩
  rw [modifyJob_get, hj]
  by_cases h : id = j
  · subst h
    exact ⟨change job, by rw [if_pos rfl]; rfl, hfuture job, hrun job, hbegun job hj⟩
  · exact ⟨job, by rw [if_neg h], rfl, rfl, fun _ => rfl⟩

/-- A job may change what it goes on with and what it waits for while its turn is not queued. -/
theorem proceeds_modifyJob (w : World) (id : JobId) (change : Job → Job)
    (hfuture : ∀ job : Job, (change job).future = job.future)
    (hrun : ∀ job : Job, (change job).run = job.run)
    (hwaiting : ∀ job : Job, id ∈ w.loop.turns → job.waiting = none → (change job).waiting = none)
    (hbegun : ∀ job : Job, w.jobs[id]? = some job → w.isDone job.future = true ∨ job.begun = true →
      (change job).begun = job.begun) : w.Proceeds (w.modifyJob id change) := fun hw =>
  ⟨hw.modifyJob id change hfuture hrun hwaiting fun job hj hdone => hbegun job hj (.inl hdone),
    follows_modifyJob w id change hfuture hrun hbegun⟩

/-- Settling a future keeps a state wired, whichever future it is. -/
theorem Wired.settle (hw : w.Wired) (id : FutureId) (o : Outcome) : (w.settle id o).Wired :=
  hw.mono (keepsFutures_settle w id o) (.of_eq (by rw [settle_gate]))
    (fun j job hj => .inl ⟨job, by rwa [settle_jobs] at hj, rfl⟩)
    (fun i hi => by rwa [settle_gate] at hi) (fun _ hc => hw.queued_settle hc) (attached_settle w id o)

/-- Settling a future of a wired state queues the turns of the jobs that wait for it, each of them once. -/
theorem Scheduled.settle (hw : w.Scheduled) (hwired : w.Wired) (id : FutureId) (o : Outcome) :
    (w.settle id o).Scheduled :=
  hw.mono (fun t ht => hw.timers t (by rwa [settle_timers] at ht))
    (by rw [hwired.turns_settle])
    fun j job hj => ⟨job, by rwa [settle_jobs], rfl⟩

/-- How the end of a job leaves the run `r` of it: over, or active as it was, where the job has not
begun or an interrupt stopped it. -/
inductive Settles (w v : World) (job : Job) (r : RunId) : Prop
  | ends (hbegun : job.begun = true) {run : Run} (hrun : v.session.runs[r]? = some run)
    (hended : run.status = .completed ∨ run.status = .failed) (hanswered : v.Answered job.future)
  | still (hrun : v.session.runs[r]? = w.session.runs[r]?)
    (hwhy : job.begun = false ∨ w.isDone job.future = false ∧ v.Interrupted job.future)

/-- A job ends, and with it its run, unless the job has not begun or an interrupt stops it. -/
theorem Accounted.ended (hw : w.Accounted) {id : JobId} {job : Job} (hjob : w.jobs[id]? = some job)
    (hjobs : v.jobs = w.jobs) (hfaults : w.faults.Keeps v.faults)
    (hsame : ∀ (i : JobId) (other : Job), w.jobs[i]? = some other → i ≠ id →
      v.outcome? other.future = w.outcome? other.future)
    (hself : v.isDone job.future = true) (hsize : v.session.runs.size = w.session.runs.size)
    (hruns : ∀ r, job.run ≠ some r → v.session.runs[r]? = w.session.runs[r]?)
    (hends : ∀ r, job.run = some r → w.Settles v job r) : v.Accounted where
  nonempty := by
    rw [hsize]
    exact hw.nonempty
  active_current r run hrun hactive := by
    have hget : w.session.runs[r]? = some run := by
      by_cases hr : job.run = some r
      · cases hends r hr with
        | ends _ hrun' hended =>
          rw [hrun] at hrun'
          cases hrun'
          obtain h | h := hended <;> rw [h] at hactive <;> cases hactive
        | still hsame => rw [← hsame, hrun]
      · rw [← hruns r hr, hrun]
    rw [Session.current, hsize]
    exact hw.active_current r run hget hactive
  job_unique := by
    rw [hjobs]
    exact hw.job_unique
  job_run j other r hj hr := by
    rw [hjobs] at hj
    by_cases h : j = id
    · subst h
      rw [hjob] at hj
      cases hj
      rw [hself]
      cases hends r hr with
      | ends hbegun hrun hended hanswered =>
        refine ⟨_, hrun, fun _ _ => .inl ⟨hended, hanswered⟩, fun hnot => ?_⟩
        rw [hbegun] at hnot
        obtain hnot | hnot := hnot <;> cases hnot
      | still hstill hwhy =>
        obtain ⟨run, hrun, -, hactive⟩ := hw.job_run j job r hjob hr
        have hrunning := hactive (hwhy.symm.imp_left And.left)
        refine ⟨run, hstill.trans hrun, fun _ hbegun => .inr ⟨hrunning, ?_⟩, fun _ => hrunning⟩
        obtain hnot | ⟨-, hinterrupted⟩ := hwhy
        · rw [hbegun] at hnot
          cases hnot
        · exact hinterrupted
    · have hother : job.run ≠ some r := fun hjr => h (hw.job_unique j id other job r hj hjob hr hjr)
      have hfuture := hsame j other hj h
      obtain ⟨run, hrun, hover, hactive⟩ := hw.job_run j other r hj hr
      rw [isDone, hfuture, ← isDone, hruns r hother]
      exact ⟨run, hrun, fun hd hb => (hover hd hb).imp (And.imp_right fun h => h.mono hfuture hfaults)
        (And.imp_right fun h => h.mono hfuture hfaults), hactive⟩

/-- Two jobs have two futures. -/
theorem Wired.job_future_ne (hw : w.Wired) {i j : JobId} {job other : Job} (hi : w.jobs[i]? = some job)
    (hj : w.jobs[j]? = some other) (hne : j ≠ i) : job.future ≠ other.future := by
  intro hsame
  obtain ⟨f, hf, hfi⟩ := hw.job_future i job hi
  obtain ⟨g, hg, hgj⟩ := hw.job_future j other hj
  rw [hsame, hg] at hf
  cases hf
  rw [hfi] at hgj
  exact hne (Option.some.inj hgj).symm

/-- A job that is settled has ended. -/
theorem isDone_settle_self (hw : w.Wired) {id : JobId} {job : Job} (hjob : w.jobs[id]? = some job)
    (o : Outcome) : (w.settle job.future o).isDone job.future = true := by
  obtain ⟨f, hf, -⟩ := hw.job_future id job hjob
  cases ho : f.outcome with
  | none => exact isDone_iff.2 ⟨o, outcome?_settle_of_open hf ho o⟩
  | some p => exact isDone_iff.2 ⟨p, outcome?_settle_of_some (by rw [outcome?_of_get hf, ho]) _ _⟩

/-- Settling a future leaves the outcomes that are there. -/
theorem follows_settle (w : World) (id : FutureId) (o : Outcome) : w.Follows (w.settle id o) where
  futures := keepsFutures_settle w id o
  job _ job hj := ⟨job, by rwa [settle_jobs], rfl, rfl, fun _ => rfl⟩
  runs := Nat.le_of_eq (by rw [settle_session])
  faults := by
    rw [settle_faults]
    exact .refl _

/-- A job ends by settling its future. -/
theorem endJob_eq (w : World) (id : JobId) (future : FutureId) (result : Except FaultId Value) :
    ∃ o, w.endJob id future result = w.settle future o := by
  unfold endJob
  split
  · split
    · exact ⟨_, rfl⟩
    · exact ⟨_, rfl⟩
  · split
    · exact ⟨_, rfl⟩
    · exact ⟨_, rfl⟩

/-- A job of no run may end, and so may one that has not begun. -/
theorem proceeds_endJob (hjob : w.jobs[id]? = some job) (hfree : job.begun = true → job.run = none)
    (result : Except FaultId Value) : w.Proceeds (w.endJob id job.future result) := by
  obtain ⟨o, heq⟩ := endJob_eq w id job.future result
  rw [heq]
  intro hw
  refine ⟨⟨hw.toWired.settle _ o, hw.toScheduled.settle hw.toWired _ o, ?_⟩, follows_settle w _ o⟩
  refine hw.toAccounted.ended hjob settle_jobs (by rw [settle_faults]; exact .refl _)
    (fun i other hi hne => outcome?_settle_of_ne (hw.toWired.job_future_ne hjob hi hne) o)
    (isDone_settle_self hw.toWired hjob o) (by rw [settle_session]) (fun r _ => by rw [settle_session])
    fun r hr => .still (by rw [settle_session]) ?_
  cases hbegun : job.begun with
  | true =>
    rw [hfree hbegun] at hr
    cases hr
  | false => exact .inl rfl

theorem aside_resumption (w : World) (job : Job) (received : Except FaultId Value) :
    w.Aside (w.resumption job received).2 := by
  unfold resumption
  split
  · split
    · split
      · exact .refl w
      · exact w.aside_receive .cancelled
    · exact w.aside_receive .cancelled
  · exact .refl w

/-- A job that is taken up waits no longer, its request to be cancelled is met, and it has begun unless it is cancelled. -/
theorem takeUp_eq (w : World) (id : JobId) (job : Job) (received : Except FaultId Value) :
    w.takeUp id job received = ((w.resumption job received).1,
      (w.resumption job received).2.modifyJob id ({ · with waiting := none, cancelRequested := false, begun :=
        job.begun || (w.resumption job received).1.isOk })) := rfl

/-- The job after `takeUp`. -/
theorem takeUp_get (hjob : w.jobs[id]? = some job) (received : Except FaultId Value) :
    (w.takeUp id job received).2.jobs[id]? = some { job with
      waiting := none, cancelRequested := false, begun := job.begun || (w.takeUp id job received).1.isOk } := by
  rw [takeUp_eq, modifyJob_get, if_pos rfl, (w.aside_resumption job received).jobs, hjob]
  rfl

theorem outcome?_takeUp (w : World) (id : JobId) (job : Job) (received : Except FaultId Value) (future : FutureId) :
    (w.takeUp id job received).2.outcome? future = w.outcome? future := by
  rw [takeUp_eq, outcome?, outcome?, ← (w.aside_resumption job received).futures]
  rfl

/-- An open job may be taken up. -/
theorem proceeds_takeUp (hjob : w.jobs[id]? = some job) (hopen : w.isDone job.future = false)
    (received : Except FaultId Value) : w.Proceeds (w.takeUp id job received).2 := by
  have haside := w.aside_resumption job received
  rw [takeUp_eq]
  refine haside.light.grows.proceeds.trans (proceeds_modifyJob _ id _ (fun _ => rfl) (fun _ => rfl)
    (fun _ _ _ => rfl) fun now hnow hstays => ?_)
  rw [haside.jobs, hjob] at hnow
  cases hnow
  rw [isDone, outcome?, haside.futures, ← outcome?, ← isDone, hopen] at hstays
  obtain hdone | hbegun := hstays
  · cases hdone
  · simp only [hbegun, Bool.true_or]

/-- A job that begins, or has begun, has its turn. -/
theorem up_takeUp (hjob : w.jobs[id]? = some job) (hopen : w.isDone job.future = false)
    (hoff : id ∉ w.loop.turns) (received : Except FaultId Value)
    (hbegun : (job.begun || (w.takeUp id job received).1.isOk) = true) :
    (w.takeUp id job received).2.Up id job := by
  have haside := w.aside_resumption job received
  rw [takeUp_eq] at hbegun ⊢
  refine ⟨?_, ?_, ?_⟩
  · rw [modifyJob_get, if_pos rfl, haside.jobs, hjob]
    exact ⟨_, rfl, rfl, rfl, hbegun, rfl⟩
  · exact (outcome?_takeUp w id job received job.future).trans (isDone_eq_false.1 hopen)
  · change id ∉ ((w.resumption job received).2).loop.turns
    rwa [haside.loop]

/-- A job that is cancelled before it has begun ends at once. -/
theorem proceeds_unbegun (hjob : w.jobs[id]? = some job) (hopen : w.isDone job.future = false)
    (received : Except FaultId Value) (hbegun : (job.begun || (w.takeUp id job received).1.isOk) = false) :
    w.Proceeds ((w.takeUp id job received).2.endJob id job.future (w.takeUp id job received).1) := by
  refine (proceeds_takeUp hjob hopen received).trans ?_
  have hget : (w.takeUp id job received).2.jobs[id]? = some { job with
      waiting := none, cancelRequested := false, begun := false } := by
    rw [takeUp_get hjob, hbegun]
  exact proceeds_endJob hget (fun h => by cases h) _

/-- A job that ends is done. -/
theorem isDone_endJob {f : Future} {future : FutureId} (hf : w.futures[future]? = some f) (id : JobId)
    (result : Except FaultId Value) : (w.endJob id future result).isDone future = true := by
  obtain ⟨o, heq⟩ := endJob_eq w id future result
  rw [heq]
  cases ho : f.outcome with
  | none => exact isDone_iff.2 ⟨o, outcome?_settle_of_open hf ho o⟩
  | some p => exact isDone_iff.2 ⟨p, outcome?_settle_of_some (by rw [outcome?_of_get hf, ho]) _ _⟩

/-- A job that fails ends with its fault, unless that is the cancellation of the job. -/
theorem outcome?_endJob_error {f : Future} {future : FutureId} (hf : w.futures[future]? = some f)
    (hopen : f.outcome = none) (id : JobId) (fault : FaultId) :
    (w.endJob id future (.error fault)).outcome? future =
      some (if w.faults.kindOf fault = .taskCancelled then .cancelled else .fault fault) := by
  simp only [endJob]
  split <;> exact outcome?_settle_of_open hf hopen _

/-- A job that ends normally ends with its value, unless it is to be cancelled. -/
theorem outcome?_endJob_ok {f : Future} {future : FutureId} (hf : w.futures[future]? = some f)
    (hopen : f.outcome = none) (id : JobId) (x : Value) :
    (w.endJob id future (.ok x)).outcome? future = some .cancelled ∨
      (w.endJob id future (.ok x)).outcome? future = some (.value x) := by
  simp only [endJob]
  split
  · exact .inl (outcome?_settle_of_open hf hopen _)
  · exact .inr (outcome?_settle_of_open hf hopen _)

/-- The end of a job raises nothing. -/
theorem faults_endJob (w : World) (id : JobId) (future : FutureId) (result : Except FaultId Value) :
    (w.endJob id future result).faults = w.faults := by
  obtain ⟨o, heq⟩ := endJob_eq w id future result
  rw [heq, settle_faults]

/-- A run is finished by rejecting what is pending, and then it is over. -/
theorem finish_eq (w : World) (id : RunId) (status : Status) (error : Option FaultId) :
    ∃ reason message, w.finish id status error =
      ((((w.cancelGate reason).2.modifyTrace Trace.release).modifyRun id ({ · with status, error })).info
        message) := by
  cases error with
  | none => exact ⟨_, _, rfl⟩
  | some fault =>
    dsimp only [finish]
    split <;> split <;> exact ⟨_, _, rfl⟩

/-- An interrupt leaves a run as it is. -/
theorem conclude_interrupted {fault : FaultId} (hkind : w.faults.kindOf fault = .interrupt) (id : RunId) :
    w.conclude id (some fault) = (.error fault, w) := by
  simp only [conclude, hkind]
  rfl

/-- A run comes to its end in one of two ways, unless an interrupt leaves it as it is; nothing else
happens to the jobs and the runs. -/
theorem conclude_eq (w : World) (id : RunId) (fault : Option FaultId) :
    (∃ e, fault = some e ∧ w.faults.kindOf e = .interrupt ∧ w.conclude id fault = (.error e, w)) ∨
    (∀ e, fault = some e → w.faults.kindOf e ≠ .interrupt) ∧
    ∃ u reason status error, w.Aside u ∧ (status = .completed ∨ status = .failed) ∧
      ((((u.cancelGate reason).2.modifyTrace Trace.release).modifyRun id ({ · with status, error }))).Aside
        (w.conclude id fault).2 := by
  have hfinish (u : World) (status : Status) (error : Option FaultId) (hu : w.Aside u)
      (hstatus : status = .completed ∨ status = .failed) (v : World)
      (hv : (u.finish id status error).Aside v) :
      ∃ u reason status error, w.Aside u ∧ (status = .completed ∨ status = .failed) ∧
        ((((u.cancelGate reason).2.modifyTrace Trace.release).modifyRun id ({ · with status, error }))).Aside v := by
    obtain ⟨reason, message, heq⟩ := finish_eq u id status error
    rw [heq] at hv
    exact ⟨u, reason, status, error, hu, hstatus, (aside_addLog ..).trans hv⟩
  cases fault with
  | none =>
    refine .inr ⟨nofun, hfinish _ .completed none ?_ (.inl rfl) _ (.refl _)⟩
    split
    · exact aside_addLog ..
    · exact .refl w
  | some fault =>
    by_cases hinterrupt : w.faults.kindOf fault = .interrupt
    · exact .inl ⟨fault, rfl, hinterrupt, conclude_interrupted hinterrupt id⟩
    refine .inr ⟨fun e he => Option.some.inj he ▸ hinterrupt, ?_⟩
    unfold conclude
    dsimp only
    split
    · exact hfinish w .failed (some fault) (.refl w) (.inr rfl) _ (.refl _)
    · next hcancelled =>
      have herror : (w.faults.kindOf fault).isError = true := by
        by_contra hpasses
        exact (FaultKind.isError_eq_false_iff.1 (by simpa using hpasses)).elim hcancelled hinterrupt
      rw [herror]
      simp only [Bool.not_true, Bool.false_eq_true, if_false]
      split
      · next stop _ =>
        split
        · exact hfinish w .failed (some stop) (.refl w) (.inr rfl) _ (.refl _)
        · exact hfinish w .failed (some stop) (.refl w) (.inr rfl) _
            (aside_faults _ ((Faults.keeps_setCause _ _ _).trans (Faults.keeps_raiseWhile _ _ _)))
      · refine hfinish w .failed (some fault) (.refl w) (.inr rfl) _ ?_
        exact (aside_raise _ _).trans
          (aside_faults _ ((Faults.keeps_setCause _ _ _).trans (Faults.keeps_setContext _ _ _)))

/-- The failure of a program is raised, with the fault that stands behind it. -/
def raiseFailure (w : World) (inner : FaultId) : FaultId × World :=
  let raised := w.raise (.ofProgram inner ((w.faults.get? inner).getD { kind := .general }))
  (raised.1, { raised.2 with
    faults := (raised.2.faults.setCause raised.1 (some inner)).setContext raised.1 (some inner) })

/-- The failure of a program has the fault that stopped it for its cause and its context. -/
theorem get?_raiseFailure (w : World) (fault : FaultId) :
    (w.raiseFailure fault).2.faults.get? (w.raiseFailure fault).1 =
      some { Fault.ofProgram fault ((w.faults.get? fault).getD { kind := .general }) with
        cause := some fault, context := some fault } := by
  unfold raiseFailure
  generalize (w.faults.get? fault).getD { kind := .general } = f
  have hraised : (w.raise (.ofProgram fault f)).2.faults.get? (w.raise (.ofProgram fault f)).1 = some _ :=
    Faults.get?_add w.faults _
  dsimp only
  generalize w.raise (.ofProgram fault f) = raised at hraised ⊢
  simp only [Faults.setContext, Faults.setCause, Faults.modify, Faults.get?, Array.getElem?_modify, if_true,
    Option.map_map] at hraised ⊢
  rw [hraised]
  rfl

/-- An error with no deliberate stop behind it fails the program. -/
theorem conclude_failed_eq {fault : FaultId} (herror : (w.faults.kindOf fault).isError = true)
    (hnone : w.faults.findCancellation fault = none) (r : RunId) :
    w.conclude r (some fault) = (.error ((w.finish r .failed (some fault)).raiseFailure fault).1,
      ((w.finish r .failed (some fault)).raiseFailure fault).2) := by
  have hplain : w.faults.kindOf fault ≠ .taskCancelled := fun h => by
    rw [h] at herror
    cases herror
  simp only [conclude, if_neg hplain, herror, hnone]
  rfl

/-- The deliberate stop that is found behind an error stands in its place. -/
theorem conclude_stopped_eq {fault stop : FaultId} (herror : (w.faults.kindOf fault).isError = true)
    (hfound : w.faults.findCancellation fault = some stop) (r : RunId) :
    (w.conclude r (some fault)).1 = .error stop := by
  have hplain : w.faults.kindOf fault ≠ .taskCancelled := fun h => by
    rw [h] at herror
    cases herror
  simp only [conclude, if_neg hplain, herror, hfound, Bool.not_true, Bool.false_eq_true, if_false]
  split
  · next hself => rw [hself]
  · rfl

/-- A run ends with its job, and gives what `conclude` gives. -/
theorem endRun_some (w : World) (r : RunId) (result : Except FaultId Value) :
    ∃ fault, (w.endRun (some r) result).2 = (w.conclude r fault).2 ∧
      (w.endRun (some r) result).1 = (w.conclude r fault).1.map fun _ => .none := by
  cases result with
  | ok v => exact ⟨none, rfl, rfl⟩
  | error fault => exact ⟨some fault, rfl, rfl⟩

/-- The wiring does not depend on anything else. -/
theorem Wired.same (hw : w.Wired) (hjobs : v.jobs = w.jobs) (hfutures : v.futures = w.futures)
    (hsteps : v.gate.steps = w.gate.steps) (hpending : v.gate.pending = w.gate.pending)
    (hloop : v.loop = w.loop) : v.Wired :=
  hw.mono (fun _ f hf => ⟨f, hfutures ▸ hf, rfl, fun _ h => h⟩) (.of_eq hsteps)
    (fun _ job hj => .inl ⟨job, hjobs ▸ hj, rfl⟩) (fun _ hi => hpending ▸ hi)
    (fun _ hc => .inl (hloop ▸ hc)) fun _ f _ hf hc => .inl ⟨f, hfutures ▸ hf, hc⟩

/-- What happens aside keeps a state wired. -/
theorem Wired.aside (hw : w.Wired) (h : w.Aside v) : v.Wired := hw.same h.jobs h.futures h.steps h.pending h.loop

/-- The end of a run keeps a sound state wired. -/
theorem wired_endRun (hw : w.Sound) (run : Option RunId) (result : Except FaultId Value) :
    (w.endRun run result).2.Wired := by
  cases run with
  | none => exact hw.toWired
  | some r =>
    obtain ⟨fault, heq, -⟩ := endRun_some w r result
    rw [heq]
    obtain ⟨e, -, -, hstays⟩ | ⟨-, u, reason, status, error, hu, -, hv⟩ := conclude_eq w r fault
    · rw [hstays]
      exact hw.toWired
    · have hcancel := ((hu.light.grows.trans (grows_cancelGate u reason)) hw).1.toWired
      exact hcancel.same hv.jobs hv.futures hv.steps hv.pending hv.loop

/-- The end of a run keeps the faults that were raised, also where it links them anew. -/
theorem keeps_conclude (hw : w.Sound) (r : RunId) (fault : Option FaultId) :
    w.faults.Keeps (w.conclude r fault).2.faults := by
  obtain ⟨e, -, -, hstays⟩ | ⟨-, u, reason, status, error, hu, -, hv⟩ := conclude_eq w r fault
  · rw [hstays]
    exact .refl _
  · exact ((hu.light.grows.trans (grows_cancelGate u reason)) hw).2.faults.trans hv.faults

/-- The futures of jobs stay as they are where a run comes to its end. -/
theorem owned_conclude (hw : w.Sound) (hjob : w.jobs[id]? = some job) (r : RunId) (fault : Option FaultId) :
    (w.conclude r fault).2.outcome? job.future = w.outcome? job.future := by
  obtain ⟨e, -, -, hstays⟩ | ⟨-, u, reason, status, error, hu, -, hv⟩ := conclude_eq w r fault
  · rw [hstays]
  · rw [outcome?, hv.futures]
    exact ((hu.light.grows.trans (grows_cancelGate u reason)) hw).2.owned id job hjob

/-- The end of a run settles no future of a job. -/
theorem owned_endRun (hw : w.Sound) (hjob : w.jobs[id]? = some job) (run : Option RunId)
    (result : Except FaultId Value) : (w.endRun run result).2.outcome? job.future = w.outcome? job.future := by
  cases run with
  | none => rfl
  | some r =>
    obtain ⟨fault, heq, -⟩ := endRun_some w r result
    rw [heq]
    exact owned_conclude hw hjob r fault

/-- A run is concluded with an error or with the cancellation of its job, unless an interrupt leaves
it as it is. -/
theorem conclude_answers (hw : w.Sound) {r : RunId} {fault : Option FaultId} {e : FaultId}
    (hends : (w.conclude r fault).1 = .error e) :
    (w.conclude r fault).2.faults.kindOf e = .taskCancelled ∨
      (fault = some e ∧ w.faults.kindOf e = .interrupt) ∨
        ∃ f : Fault, (w.conclude r fault).2.faults.get? e = some f ∧ f.kind.isError = true := by
  have hkeeps := keeps_conclude hw r fault
  cases fault with
  | none => cases hends
  | some fault =>
    cases herror : (w.faults.kindOf fault).isError with
    | false =>
      obtain hcancelled | hinterrupt := FaultKind.isError_eq_false_iff.1 herror
      · refine .inl ?_
        have hself : fault = e := by
          simp only [conclude, hcancelled, if_true, Except.error.injEq] at hends
          exact hends
        cases hf : w.faults.get? fault with
        | none =>
          rw [Faults.kindOf, hf] at hcancelled
          cases hcancelled
        | some f =>
          obtain ⟨g, hg, hagrees⟩ := hkeeps fault f hf
          rw [← hself, kindOf_of_get hg, hagrees.kind, ← kindOf_of_get hf, hcancelled]
      · rw [conclude_interrupted hinterrupt] at hends
        cases hends
        exact .inr (.inl ⟨rfl, hinterrupt⟩)
    | true =>
      refine .inr (.inr ?_)
      cases hfound : w.faults.findCancellation fault with
      | some stop =>
        rw [conclude_stopped_eq herror hfound] at hends
        cases hends
        obtain ⟨f, hf, hkind⟩ := (Faults.findCancellation_eq_some_iff.1 hfound).2
        obtain ⟨g, hg, hagrees⟩ := hkeeps e f hf
        exact ⟨g, hg, by rw [hagrees.kind, hkind]; rfl⟩
      | none =>
        rw [conclude_failed_eq herror hfound] at hends ⊢
        cases hends
        exact ⟨_, get?_raiseFailure _ fault, rfl⟩

/-- A job whose future holds a fault has ended with this fault, which is no cancellation of it. -/
theorem outcome?_endJob {future : FutureId} (hopen : w.outcome? future = none) (id : JobId)
    (result : Except FaultId Value) {fault : FaultId}
    (hfault : (w.endJob id future result).outcome? future = some (.fault fault)) :
    result = .error fault ∧ w.faults.kindOf fault ≠ .taskCancelled := by
  obtain ⟨f, hf⟩ : ∃ f, w.futures[future]? = some f := by
    by_contra hnone
    have hmissing : w.futures[future]? = none := by
      cases h : w.futures[future]? with
      | none => rfl
      | some f => exact absurd ⟨f, h⟩ hnone
    obtain ⟨o, heq⟩ := endJob_eq w id future result
    rw [heq, settle, hmissing, hopen] at hfault
    cases hfault
  have hfopen : f.outcome = none := (outcome?_of_get hf).symm.trans hopen
  cases result with
  | ok x =>
    obtain h | h := outcome?_endJob_ok hf hfopen id x <;> rw [h] at hfault <;> cases hfault
  | error e =>
    rw [outcome?_endJob_error hf hfopen id e] at hfault
    split at hfault
    · cases hfault
    · next hplain =>
      cases hfault
      exact ⟨rfl, hplain⟩

/-- A job whose run is concluded ends with an error, if with any fault. -/
theorem answered_concluded (hw : w.Sound) {r : RunId} {fault : Option FaultId} {future : FutureId}
    (hplain : ∀ e, fault = some e → w.faults.kindOf e ≠ .interrupt)
    (hopen : (w.conclude r fault).2.outcome? future = none) (id : JobId) :
    ((w.conclude r fault).2.endJob id future ((w.conclude r fault).1.map fun _ => .none)).Answered future := by
  intro e he
  obtain ⟨hresult, hkind⟩ := outcome?_endJob hopen id _ he
  have hends : (w.conclude r fault).1 = .error e := by
    cases hr : (w.conclude r fault).1 with
    | ok x =>
      rw [hr] at hresult
      cases hresult
    | error e' =>
      rw [hr] at hresult
      cases hresult
      rfl
  rw [faults_endJob]
  obtain hcancelled | ⟨hfault, hinterrupt⟩ | herror := conclude_answers hw hends
  · exact absurd hcancelled hkind
  · exact absurd hinterrupt (hplain e hfault)
  · exact herror

/-- A job that an interrupt stops ends with it, and leaves its run active. -/
theorem proceeds_interrupted (hup : w.Up id job) {e : FaultId} (hkind : w.faults.kindOf e = .interrupt) :
    w.Proceeds (w.endJob id job.future (.error e)) := by
  obtain ⟨now, hnow, hfuture, -⟩ := hup.get
  intro hw
  obtain ⟨f, hf, -⟩ := hw.job_future id now hnow
  rw [hfuture] at hf
  have hends := outcome?_endJob_error hf ((outcome?_of_get hf).symm.trans hup.undone) id e
  rw [hkind, if_neg nofun] at hends
  have hfaults := faults_endJob w id job.future (.error e)
  obtain ⟨o, hsettles⟩ := endJob_eq w id job.future (.error e)
  rw [hsettles] at hends hfaults ⊢
  have hinterrupted : (w.settle job.future o).Interrupted job.future := ⟨e, hends, by rw [hfaults, hkind]⟩
  rw [← hfuture] at hinterrupted ⊢
  refine ⟨⟨hw.toWired.settle _ o, hw.toScheduled.settle hw.toWired _ o, ?_⟩, follows_settle w _ o⟩
  refine hw.toAccounted.ended hnow settle_jobs (by rw [settle_faults]; exact .refl _)
    (fun i other hi hne => outcome?_settle_of_ne (hw.toWired.job_future_ne hnow hi hne) o)
    (isDone_settle_self hw.toWired hnow o) (by rw [settle_session]) (fun r _ => by rw [settle_session])
    fun r _ => .still (by rw [settle_session]) (.inr ⟨?_, hinterrupted⟩)
  exact isDone_eq_false.2 (hfuture ▸ hup.undone)

/-- The run of a job is over when the job ends. -/
theorem Sound.settle_over (hw : w.Sound) (hup : w.Up id job) {r : RunId} (hrun : job.run = some r)
    {status : Status} (hstatus : status = .completed ∨ status = .failed) {error : Option FaultId}
    (hv : (w.modifyRun r ({ · with status, error })).Aside v) {o : Outcome}
    (hanswered : (v.settle job.future o).Answered job.future) : (v.settle job.future o).Sound := by
  obtain ⟨now, hnow, hfuture, hnowrun, hbegun, -⟩ := hup.get
  have hruns (q : RunId) : v.session.runs[q]? =
      if r = q then (w.session.runs[q]?).map ({ · with status, error }) else w.session.runs[q]? := by
    rw [hv.runs]
    exact Array.getElem?_modify
  have hsize : v.session.runs.size = w.session.runs.size := by
    rw [hv.runs]
    exact Array.size_modify
  have hwired : v.Wired := hw.toWired.same hv.jobs hv.futures hv.steps hv.pending hv.loop
  have hscheduled : v.Scheduled := hw.toScheduled.mono (fun t ht => hw.timers t (by rw [hv.loop] at ht; exact ht))
    (by rw [hv.loop]; exact List.Sublist.refl _) fun j job hj => ⟨job, by rw [hv.jobs]; exact hj, rfl⟩
  have hvoutcome (future : FutureId) : v.outcome? future = w.outcome? future := by
    rw [outcome?, hv.futures]
    rfl
  have hvjobs : v.jobs = w.jobs := hv.jobs
  rw [← hfuture] at hanswered ⊢
  refine ⟨hwired.settle _ o, hscheduled.settle hwired _ o, ?_⟩
  refine hw.toAccounted.ended hnow (by rw [settle_jobs, hvjobs]) (by rw [settle_faults]; exact hv.faults)
    (fun i other hi hne => ?_) (isDone_settle_self hwired (hvjobs ▸ hnow) o) (by rw [settle_session, hsize])
    (fun q hq => ?_) fun q hq => ?_
  · rw [outcome?_settle_of_ne (hw.toWired.job_future_ne hnow hi hne), hvoutcome]
  · rw [settle_session, hruns, if_neg]
    rintro rfl
    exact hq (hnowrun.trans hrun)
  · rw [hnowrun, hrun] at hq
    cases hq
    obtain ⟨run, hget, -⟩ := hw.job_run id now r hnow (hnowrun.trans hrun)
    have hover : (v.settle now.future o).session.runs[r]? = some { run with status, error } := by
      rw [settle_session, hruns, if_pos rfl, hget]
      rfl
    exact .ends hbegun hover hstatus hanswered

theorem follows_modifyRun (w : World) (r : RunId) (change : Run → Run) : w.Follows (w.modifyRun r change) :=
  ⟨.refl w, fun _ job hj => ⟨job, hj, rfl, rfl, fun _ => rfl⟩, Nat.le_of_eq Array.size_modify.symm, .refl _⟩

/-- A job that has its turn may end, and its run with it. -/
theorem proceeds_finished (hup : w.Up id job) (result : Except FaultId Value) :
    w.Proceeds (w.putDown id job (.finished result)) := by
  change w.Proceeds ((w.endRun job.run result).2.endJob id job.future (w.endRun job.run result).1)
  cases hrun : job.run with
  | none =>
    obtain ⟨now, hnow, hfuture, hnowrun, -⟩ := hup.get
    rw [← hfuture]
    exact proceeds_endJob hnow (fun _ => hnowrun.trans hrun) result
  | some r =>
    obtain ⟨fault, heq, hresult⟩ := endRun_some w r result
    rw [heq, hresult]
    obtain ⟨e, rfl, hkind, hstays⟩ | ⟨hplain, u, reason, status, error, hu, hstatus, hv⟩ := conclude_eq w r fault
    · rw [hstays]
      exact proceeds_interrupted hup hkind
    · have hgrows : w.Grows ((u.cancelGate reason).2.modifyTrace Trace.release) :=
        (hu.light.grows.trans (grows_cancelGate u reason)).trans (aside_modifyTrace _ _).light.grows
      obtain ⟨o, hend⟩ := endJob_eq (w.conclude r fault).2 id job.future ((w.conclude r fault).1.map fun _ => .none)
      intro hw
      obtain ⟨hsound, hextends⟩ := hgrows hw
      have hafter : Follows _ (w.conclude r fault).2 := ⟨fun id f hf => ⟨f, by rw [hv.futures]; exact hf, rfl, fun _ h => h⟩,
        fun j job hj => ⟨job, by rw [hv.jobs]; exact hj, rfl, rfl, fun _ => rfl⟩, Nat.le_of_eq (by rw [hv.runs]), hv.faults⟩
      have hover := hextends.follows.trans (follows_modifyRun _ r ({ · with status, error }))
      have hopen : (w.conclude r fault).2.outcome? job.future = none := by
        rw [outcome?, hv.futures]
        exact (hextends.up hup).undone
      have hanswered := answered_concluded hw hplain hopen id
      rw [hend] at hanswered ⊢
      exact ⟨hsound.settle_over (hextends.up hup) hrun hstatus hv hanswered,
        (hover.trans hafter).trans (follows_settle _ _ o)⟩

/-- A job may wait for any future. -/
theorem light_whenDone (w : World) (future : FutureId) (id : JobId) :
    w.Light (w.whenDone future (.wake id)) := by
  unfold whenDone
  split
  · refine light_loop (fun c hc => ?_) (fun t ht => .inl ht) ?_
    · obtain hc | rfl := Loop.queued_soon.1 hc
      · exact .inl hc
      · exact .inr trivial
    · rw [Loop.turns_soon_of_none rfl]
  · have hget (other : FutureId) : (w.futures.modify future fun f =>
        { f with callbacks := f.callbacks ++ [.wake id] })[other]? =
          if future = other then (w.futures[other]?).map fun f => { f with callbacks := f.callbacks ++ [.wake id] }
          else w.futures[other]? := Array.getElem?_modify
    have houtcome (other : FutureId) : World.outcome? { w with
        futures := w.futures.modify future fun f => { f with callbacks := f.callbacks ++ [.wake id] } } other =
          w.outcome? other := by
      simp only [outcome?, hget]
      split
      · cases w.futures[other]? <;> rfl
      · rfl
    exact {
      jobs := rfl
      runs := rfl
      futures := fun other f hf => by
        refine (em (future = other)).elim (fun h => ?_) fun h => ?_
        · exact ⟨{ f with callbacks := f.callbacks ++ [.wake id] }, by rw [hget, if_pos h, hf]; rfl, rfl, fun _ h => h⟩
        · exact ⟨f, by rw [hget, if_neg h, hf], rfl, fun _ h => h⟩
      value := fun other x hx => by rwa [houtcome] at hx
      owned := fun other f _ _ => houtcome other
      step := fun i s hs => ⟨s.timer, hs⟩
      steps := .of_eq rfl
      pending := fun _ hi => hi
      queued := fun _ hc => .inl hc
      attached := fun other f c hf hc => by
        rw [hget] at hf
        split at hf
        · obtain ⟨old, hold, rfl⟩ := Option.map_eq_some_iff.1 hf
          obtain hc | hc := List.mem_append.1 hc
          · exact .inl ⟨old, hold, hc⟩
          · rw [List.mem_singleton.1 hc]
            exact .inr trivial
        · exact .inl ⟨f, hf, hc⟩
      timers := fun t ht => .inl ht
      turns := List.Sublist.refl _
      faults := .refl _ }

/-- A job that has no turn queued may come to wait. -/
theorem proceeds_park (hoff : id ∉ w.loop.turns) (future : FutureId)
    (k : Except FaultId Value → Routine (Except FaultId Value)) : w.Proceeds (w.park id future k) := by
  have hset := proceeds_modifyJob w id ({ · with resume := k, waiting := some future }) (fun _ => rfl)
    (fun _ => rfl) (fun _ hturn => absurd hturn hoff) fun _ _ _ => rfl
  have hwait := hset.trans (light_whenDone _ future id).grows.proceeds
  unfold park
  dsimp only
  split
  · have hcancel := hwait.trans (grows_cancelFuture _ future).proceeds
    split
    · exact hcancel.trans (proceeds_modifyJob _ id ({ · with cancelRequested := false }) (fun _ => rfl)
        (fun _ => rfl) (fun _ _ h => h) fun _ _ _ => rfl)
    · exact hcancel
  · exact hwait

/-- A turn is queued for a job that waits for nothing and has none queued. -/
theorem proceeds_soon_run (hjob : w.jobs[id]? = some job) (hwaiting : job.waiting = none)
    (hoff : id ∉ w.loop.turns) : w.Proceeds (w.soon (.run id)) := by
  have hturns : (w.soon (.run id)).loop.turns = w.loop.turns ++ [id] := Loop.turns_soon _ _
  intro hw
  refine ⟨⟨?_, ⟨hw.timers, ?_, fun j hj => ?_⟩, hw.toAccounted.mono rfl (.refl _) fun j job hj =>
    ⟨job, hj, rfl, rfl, rfl, fun _ => rfl⟩⟩, ⟨.refl w, fun j job hj => ⟨job, hj, rfl, rfl, fun _ => rfl⟩,
      Nat.le_refl _, .refl _⟩⟩
  · refine hw.toWired.mono (.refl w) (.of_eq rfl) (fun j job hj => .inl ⟨job, hj, rfl⟩) (fun _ h => h)
      (fun c hc => ?_) fun _ f _ hf hc => .inl ⟨f, hf, hc⟩
    obtain hc | rfl := Loop.queued_soon.1 hc
    · exact .inl hc
    · exact .inr trivial
  · rw [hturns, List.nodup_append]
    refine ⟨hw.nodup, by simp, fun j hj k hk => ?_⟩
    rw [List.mem_singleton.1 hk]
    rintro rfl
    exact hoff hj
  · rw [hturns] at hj
    obtain hj | hj := List.mem_append.1 hj
    · exact hw.idle j hj
    · rw [List.mem_singleton.1 hj]
      exact ⟨job, hjob, hwaiting⟩

/-- A job that lets the loop go round has a turn queued again. -/
theorem proceeds_paused (hup : w.Up id job) (k : Except FaultId Value → Routine (Except FaultId Value)) :
    w.Proceeds ((w.modifyJob id ({ · with resume := k })).soon (.run id)) := by
  obtain ⟨now, hnow, -, -, -, hwaiting⟩ := hup.get
  have hset := proceeds_modifyJob w id ({ · with resume := k }) (fun _ => rfl) (fun _ => rfl)
    (fun _ _ h => h) fun _ _ _ => rfl
  have hget : (w.modifyJob id ({ · with resume := k })).jobs[id]? = some { now with resume := k } := by
    rw [modifyJob_get, if_pos rfl, hnow]
    rfl
  exact hset.trans (proceeds_soon_run hget hwaiting hup.off)

/-- A job that has its turn may leave off in any way. -/
theorem proceeds_putDown (hup : w.Up id job) (stop : Stop (Except FaultId Value)) :
    w.Proceeds (w.putDown id job stop) := by
  cases stop with
  | finished result => exact proceeds_finished hup result
  | parked future k => exact proceeds_park hup.off future k
  | paused k => exact proceeds_paused hup k

/-- A job that has not ended is taken up; it ends at once if it is cancelled before it has begun,
else its routine runs and it is put down. -/
theorem resume_cases (env : Env) (w : World) (id : JobId) (received : Except FaultId Value) :
    (w.resume env id received = w ∧ ∀ job : Job, w.jobs[id]? = some job → w.isDone job.future = true) ∨
    ∃ job : Job, w.jobs[id]? = some job ∧ w.isDone job.future = false ∧
      (((job.begun || (w.takeUp id job received).1.isOk) = false ∧
        w.resume env id received =
          (w.takeUp id job received).2.endJob id job.future (w.takeUp id job received).1) ∨
      ((job.begun || (w.takeUp id job received).1.isOk) = true ∧
        w.resume env id received =
          ((job.resume (w.takeUp id job received).1).run env (w.takeUp id job received).2).2.putDown id job
            ((job.resume (w.takeUp id job received).1).run env (w.takeUp id job received).2).1)) := by
  unfold resume
  cases hjob : w.jobs[id]? with
  | none => exact .inl ⟨rfl, fun job h => by cases h⟩
  | some job =>
    cases hdone : w.isDone job.future with
    | true => exact .inl ⟨by simp only [hdone, if_true], fun other h => by cases h; exact hdone⟩
    | false =>
      refine .inr ⟨job, rfl, hdone, ?_⟩
      cases hbegun : job.begun || (w.takeUp id job received).1.isOk with
      | true => exact .inr ⟨rfl, by simp only [hdone, hbegun, Bool.false_eq_true, if_false, if_true]⟩
      | false => exact .inl ⟨rfl, by simp only [hdone, hbegun, Bool.false_eq_true, if_false]⟩

/-- A job that has no turn queued may be taken up, and run to where it leaves off. -/
theorem proceeds_resume (env : Env) (hoff : id ∉ w.loop.turns) (received : Except FaultId Value) :
    w.Proceeds (w.resume env id received) := by
  obtain ⟨heq, -⟩ | ⟨job, hjob, hopen, ⟨hbegun, heq⟩ | ⟨hbegun, heq⟩⟩ := resume_cases env w id received
  · rw [heq]
    exact .refl w
  · rw [heq]
    exact proceeds_unbegun hjob hopen received hbegun
  · rw [heq]
    have hup := up_takeUp hjob hopen hoff received hbegun
    refine (proceeds_takeUp hjob hopen received).trans ?_
    intro hsound
    have hrun := ((job.resume (w.takeUp id job received).1).run_changes env
      (w.takeUp id job received).2).grows
    exact (hrun.proceeds.trans (proceeds_putDown ((hrun hsound).2.up hup) _)) hsound

end World

end SteppedLogo
