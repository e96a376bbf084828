import SteppedLogo.Proofs.World.Change
import SteppedLogo.Proofs.World.Turns
import SteppedLogo.Proofs.World.Wired

namespace SteppedLogo

namespace World

/-- A turn is queued once at most, and for no job that waits for a future. -/
structure Scheduled (w : World) : Prop where
  timers : ∀ t ∈ w.loop.timers, t.callback.turn? = none
  nodup : w.loop.turns.Nodup
  idle : ∀ j ∈ w.loop.turns, ∃ job : Job, w.jobs[j]? = some job ∧ job.waiting = none

/-- A job is stopped by an interrupt, which is neither an error nor the cancellation of the job. -/
def Interrupted (w : World) (future : FutureId) : Prop :=
  ∃ fault, w.outcome? future = some (.fault fault) ∧ w.faults.kindOf fault = .interrupt

/-- What stopped a job, if anything did, is an error or the cancellation of the job. -/
def Answered (w : World) (future : FutureId) : Prop :=
  ∀ fault, w.outcome? future = some (.fault fault) →
    ∃ f : Fault, w.faults.get? fault = some f ∧ f.kind.isError = true

/-- A run is active until its job has ended, and longer only where the job ended before it began or
an interrupt stopped it. Only the current run is active, and no run has two jobs. -/
structure Accounted (w : World) : Prop where
  nonempty : 0 < w.session.runs.size
  active_current : ∀ (r : RunId) (run : Run), w.session.runs[r]? = some run →
    run.status.isActive = true → r = w.session.current
  job_unique : ∀ (i k : JobId) (job job' : Job) (r : RunId), w.jobs[i]? = some job →
    w.jobs[k]? = some job' → job.run = some r → job'.run = some r → i = k
  job_run : ∀ (j : JobId) (job : Job) (r : RunId), w.jobs[j]? = some job → job.run = some r →
    ∃ run : Run, w.session.runs[r]? = some run ∧
      (w.isDone job.future = true → job.begun = true →
        (run.status = .completed ∨ run.status = .failed) ∧ w.Answered job.future ∨
          run.status.isActive = true ∧ w.Interrupted job.future) ∧
      (w.isDone job.future = false ∨ job.begun = false → run.status.isActive = true)

structure Sound (w : World) : Prop extends w.Wired, w.Scheduled, w.Accounted

/-- What running code leaves: jobs go on as they would, only steps and naps are settled, and then
without a value, and an active run stays the current one. -/
structure Extends (w v : World) : Prop where
  futures : KeepsFutures w v
  value : ∀ id x, v.outcome? id = some (.value x) → w.outcome? id = some (.value x)
  job : ∀ (j : JobId) (job : Job), w.jobs[j]? = some job →
    ∃ b, v.jobs[j]? = some { job with cancelRequested := b }
  owned : ∀ (j : JobId) (job : Job), w.jobs[j]? = some job →
    v.outcome? job.future = w.outcome? job.future
  step : ∀ (i : StepId) (s : PacedStep), w.gate.steps[i]? = some s →
    ∃ timer, v.gate.steps[i]? = some { s with timer }
  turn : ∀ j ∈ v.loop.turns, j ∈ w.loop.turns ∨ w.jobs.size ≤ j
  run : ∀ (r : RunId) (run : Run), w.session.runs[r]? = some run →
    ∃ run' : Run, v.session.runs[r]? = some run' ∧ run'.number = run.number ∧
      (run'.status = run.status ∧ run'.reason = run.reason ∨
        run.status = .running ∧ run'.status = .canceling)
  current : w.session.isActive = true → v.session.runs.size = w.session.runs.size
  faults : w.faults.Keeps v.faults

variable {u v w : World}

theorem Extends.refl (w : World) : w.Extends w where
  futures := .refl w
  value _ _ h := h
  job _ job hjob := ⟨job.cancelRequested, hjob⟩
  owned _ _ _ := rfl
  step _ s hs := ⟨s.timer, hs⟩
  turn _ hj := .inl hj
  run _ run hrun := ⟨run, hrun, rfl, .inl ⟨rfl, rfl⟩⟩
  current _ := rfl
  faults := .refl _

/-- The session is active exactly if its current run is. -/
theorem isActive_iff : w.session.isActive = true ↔
    ∃ run : Run, w.session.runs[w.session.current]? = some run ∧ run.status.isActive = true := by
  simp only [Session.isActive, Session.run, Session.current, Array.back?]
  cases h : w.session.runs[w.session.runs.size - 1]? with
  | none => simp [Status.isActive]
  | some run => simp

/-- A session that is active stays so while runs are only added. -/
theorem Extends.isActive (h : w.Extends v) (hactive : w.session.isActive = true) :
    v.session.isActive = true := by
  obtain ⟨run, hrun, hstatus⟩ := isActive_iff.1 hactive
  obtain ⟨run', hrun', -, hsame | ⟨-, hcanceling⟩⟩ := h.run _ run hrun
  · exact isActive_iff.2 ⟨run', by rw [Session.current, h.current hactive]; exact hrun', by rw [hsame.1, hstatus]⟩
  · exact isActive_iff.2 ⟨run', by rw [Session.current, h.current hactive]; exact hrun', by rw [hcanceling]; rfl⟩

/-- No job is forgotten where jobs are only added. -/
theorem Extends.size_le (h : w.Extends v) : w.jobs.size ≤ v.jobs.size :=
  size_le_of_get fun j job hj => (h.job j job hj).elim fun _ hb => ⟨_, hb⟩

theorem Extends.trans (huv : u.Extends v) (hvw : v.Extends w) : u.Extends w where
  futures := huv.futures.trans hvw.futures
  value id x h := huv.value id x (hvw.value id x h)
  job j job hjob := by
    obtain ⟨b, hb⟩ := huv.job j job hjob
    exact hvw.job j { job with cancelRequested := b } hb
  owned j job hjob := by
    obtain ⟨b, hb⟩ := huv.job j job hjob
    exact (hvw.owned j _ hb).trans (huv.owned j job hjob)
  step i s hs := by
    obtain ⟨timer, ht⟩ := huv.step i s hs
    exact hvw.step i { s with timer } ht
  turn j hj := by
    obtain hj | hj := hvw.turn j hj
    · exact huv.turn j hj
    · exact .inr (Nat.le_trans huv.size_le hj)
  run r run hrun := by
    obtain ⟨run', hrun', hnumber, hstatus⟩ := huv.run r run hrun
    obtain ⟨run'', hrun'', hnumber', hstatus'⟩ := hvw.run r run' hrun'
    refine ⟨run'', hrun'', hnumber'.trans hnumber, ?_⟩
    obtain ⟨hs, hr⟩ | ⟨hs, hs'⟩ := hstatus
    · obtain ⟨ht, hr'⟩ | ⟨ht, ht'⟩ := hstatus'
      · exact .inl ⟨ht.trans hs, hr'.trans hr⟩
      · exact .inr ⟨hs ▸ ht, ht'⟩
    · obtain ⟨ht, -⟩ | ⟨ht, -⟩ := hstatus'
      · exact .inr ⟨hs, ht.trans hs'⟩
      · rw [hs'] at ht
        cases ht
  current hactive := (hvw.current (huv.isActive hactive)).trans (huv.current hactive)
  faults := huv.faults.trans hvw.faults

/-- Jobs stay scheduled where no turn is added to the queue and each waits for what it waited for. -/
theorem Scheduled.mono (hw : w.Scheduled) (htimers : ∀ t ∈ v.loop.timers, t.callback.turn? = none)
    (hturns : v.loop.turns.Sublist w.loop.turns)
    (hjobs : ∀ (j : JobId) (job : Job), w.jobs[j]? = some job →
      ∃ job' : Job, v.jobs[j]? = some job' ∧ job'.waiting = job.waiting) : v.Scheduled where
  timers := htimers
  nodup := hturns.nodup hw.nodup
  idle j hj := by
    obtain ⟨job, hjob, hwaiting⟩ := hw.idle j (hturns.subset hj)
    obtain ⟨job', hjob', hsame⟩ := hjobs j job hjob
    exact ⟨job', hjob', hsame.trans hwaiting⟩

theorem kindOf_of_get {fs : Faults} {fault : FaultId} {f : Fault} (hf : fs.get? fault = some f) :
    fs.kindOf fault = f.kind := by
  rw [Faults.kindOf, hf]
  rfl

/-- A future that was interrupted stays so where its outcome and the faults are kept. -/
theorem Interrupted.mono {future : FutureId} (h : w.Interrupted future)
    (hsame : v.outcome? future = w.outcome? future) (hfaults : w.faults.Keeps v.faults) :
    v.Interrupted future := by
  obtain ⟨fault, hfault, hkind⟩ := h
  refine ⟨fault, hsame.trans hfault, ?_⟩
  cases hf : w.faults.get? fault with
  | none =>
    rw [Faults.kindOf, hf] at hkind
    cases hkind
  | some f =>
    obtain ⟨g, hg, hagrees⟩ := hfaults fault f hf
    rw [kindOf_of_get hg, hagrees.kind, ← kindOf_of_get hf, hkind]

/-- A future that was answered stays so where its outcome and the faults are kept. -/
theorem Answered.mono {future : FutureId} (h : w.Answered future)
    (hsame : v.outcome? future = w.outcome? future) (hfaults : w.faults.Keeps v.faults) :
    v.Answered future := by
  intro fault hfault
  obtain ⟨f, hf, herror⟩ := h fault (hsame ▸ hfault)
  obtain ⟨g, hg, hagrees⟩ := hfaults fault f hf
  exact ⟨g, hg, hagrees.kind ▸ herror⟩

/-- No job is both answered for and interrupted. -/
theorem Answered.not_interrupted {future : FutureId} (h : w.Answered future) : ¬ w.Interrupted future := by
  rintro ⟨fault, hfault, hkind⟩
  obtain ⟨f, hf, herror⟩ := h fault hfault
  rw [kindOf_of_get hf] at hkind
  rw [hkind] at herror
  cases herror

/-- The runs stay accounted for where they and the faults are kept and no job of theirs ends. -/
theorem Accounted.mono (hw : w.Accounted) (hruns : v.session.runs = w.session.runs)
    (hfaults : w.faults.Keeps v.faults)
    (hjobs : ∀ (j : JobId) (job' : Job), v.jobs[j]? = some job' →
      ∃ job : Job, w.jobs[j]? = some job ∧ job'.future = job.future ∧ job'.run = job.run ∧
        v.outcome? job.future = w.outcome? job.future ∧
          (w.isDone job.future = true → job'.begun = job.begun)) : v.Accounted where
  nonempty := hruns ▸ hw.nonempty
  active_current r run hrun hactive := by
    rw [hruns] at hrun
    rw [Session.current, hruns]
    exact hw.active_current r run hrun hactive
  job_unique i k job job' r hi hk hr hr' := by
    obtain ⟨old, hold, -, hrun, -⟩ := hjobs i job hi
    obtain ⟨old', hold', -, hrun', -⟩ := hjobs k job' hk
    exact hw.job_unique i k old old' r hold hold' (hrun ▸ hr) (hrun' ▸ hr')
  job_run j job r hj hr := by
    obtain ⟨old, hold, hfuture, hrun, hsame, hbegun⟩ := hjobs j job hj
    obtain ⟨run, hget, hover, hactive⟩ := hw.job_run j old r hold (hrun ▸ hr)
    rw [hfuture, isDone, hsame, ← isDone]
    refine ⟨run, hruns ▸ hget, fun hd hb => ?_, ?_⟩
    · exact (hover hd (hbegun hd ▸ hb)).imp (And.imp_right fun h => h.mono hsame hfaults)
        (And.imp_right fun h => h.mono hsame hfaults)
    cases hd : w.isDone old.future with
    | true =>
      rw [hbegun hd]
      exact fun h => hactive (h.imp_left fun hopen => Bool.noConfusion hopen)
    | false => exact fun _ => hactive (.inl hd)

/-- A change of a sound state that leaves it sound, and is one that running code may make. -/
def Grows (w v : World) : Prop := w.Sound → v.Sound ∧ w.Extends v

theorem Grows.refl (w : World) : w.Grows w := fun hw => ⟨hw, .refl w⟩

theorem Grows.trans (huv : u.Grows v) (hvw : v.Grows w) : u.Grows w := by
  intro hu
  obtain ⟨hv, huv⟩ := huv hu
  obtain ⟨hw, hvw⟩ := hvw hv
  exact ⟨hw, huv.trans hvw⟩

/-- Settling a future keeps the outcome of every other. -/
theorem keepsFutures_settle (w : World) (id : FutureId) (o : Outcome) : KeepsFutures w (w.settle id o) := by
  intro other f hf
  by_cases h : id = other
  · rw [settle_get, if_pos h, hf, Option.map_some]
    refine ⟨_, rfl, ?_, fun p hp => ?_⟩
    · split <;> rfl
    · rw [if_neg (by simp [hp]), hp]
  · exact ⟨f, by rw [settle_get, if_neg h, hf], rfl, fun _ h => h⟩

/-- A callback of a future was one before another was settled, or is queued now. -/
theorem attached_settle (w : World) (id : FutureId) (o : Outcome) (other : FutureId) (g : Future)
    (c : Callback) (hg : (w.settle id o).futures[other]? = some g) (hc : c ∈ g.callbacks) :
    (∃ f : Future, w.futures[other]? = some f ∧ c ∈ f.callbacks) ∨ (w.settle id o).Attached other c := by
  rw [settle_get] at hg
  split at hg
  · obtain ⟨f, hf, rfl⟩ := Option.map_eq_some_iff.1 hg
    split at hc
    · cases hc
    · exact .inl ⟨f, hf, hc⟩
  · exact .inl ⟨g, hg, hc⟩

/-- What waits for a future may be queued once that future is settled. -/
theorem Wired.queued_settle (hw : w.Wired) {id : FutureId} {o : Outcome} {c : Callback}
    (hc : (w.settle id o).loop.Queued c) : w.loop.Queued c ∨ (w.settle id o).Queueable c := by
  obtain hc | ⟨f, hf, hopen, hc⟩ := World.queued_settle hc
  · exact .inl hc
  · refine .inr ?_
    have hattached := hw.attached id f c hf hc
    cases c with
    | wake => trivial
    | run | elapse | rouse | deed => cases hattached
    | retract i =>
      obtain ⟨s, hs, rfl⟩ := hattached
      exact ⟨s, by rw [settle_gate]; exact hs, isDone_iff.2 ⟨o, outcome?_settle_of_open hf hopen o⟩⟩

/-- Settling a future of a wired world gives no job its turn. -/
theorem Wired.turns_settle (hw : w.Wired) (id : FutureId) (o : Outcome) :
    (w.settle id o).loop.turns = w.loop.turns := by
  refine World.turns_settle o fun f hf c hc => ?_
  have hattached := hw.attached id f c hf hc
  cases c with
  | run => cases hattached
  | wake | elapse | retract | rouse | deed => rfl

/-- A change that leaves jobs and runs alone, and adds no step. -/
structure Light (w v : World) : Prop where
  jobs : v.jobs = w.jobs
  runs : v.session.runs = w.session.runs
  futures : KeepsFutures w v
  value : ∀ id x, v.outcome? id = some (.value x) → w.outcome? id = some (.value x)
  owned : ∀ (id : FutureId) (f : Future), w.futures[id]? = some f → f.job ≠ none →
    v.outcome? id = w.outcome? id
  step : ∀ (i : StepId) (s : PacedStep), w.gate.steps[i]? = some s →
    ∃ timer, v.gate.steps[i]? = some { s with timer }
  steps : KeepsSteps w v
  pending : ∀ i, v.gate.pending = some i → w.gate.pending = some i
  queued : ∀ c, v.loop.Queued c → w.loop.Queued c ∨ v.Queueable c
  attached : ∀ (id : FutureId) (f : Future) (c : Callback), v.futures[id]? = some f →
    c ∈ f.callbacks → (∃ old : Future, w.futures[id]? = some old ∧ c ∈ old.callbacks) ∨ v.Attached id c
  timers : ∀ t ∈ v.loop.timers, t ∈ w.loop.timers ∨ t.callback.turn? = none
  turns : v.loop.turns.Sublist w.loop.turns
  faults : w.faults.Keeps v.faults

theorem Light.trans (huv : u.Light v) (hvw : v.Light w) : u.Light w where
  jobs := hvw.jobs.trans huv.jobs
  runs := hvw.runs.trans huv.runs
  futures := huv.futures.trans hvw.futures
  value id x hx := huv.value id x (hvw.value id x hx)
  owned id f hf hjob := by
    obtain ⟨g, hg, hgj, -⟩ := huv.futures id f hf
    exact (hvw.owned id g hg (hgj ▸ hjob)).trans (huv.owned id f hf hjob)
  step i s hs := by
    obtain ⟨timer, ht⟩ := huv.step i s hs
    exact hvw.step i { s with timer } ht
  steps i := (hvw.steps i).trans (huv.steps i)
  pending i hi := huv.pending i (hvw.pending i hi)
  queued c hc := by
    obtain hc | hc := hvw.queued c hc
    · exact (huv.queued c hc).imp_right (Queueable.mono hvw.futures hvw.steps)
    · exact .inr hc
  attached id f c hf hc := by
    obtain ⟨old, hold, hc⟩ | hc := hvw.attached id f c hf hc
    · exact (huv.attached id old c hold hc).imp_right (Attached.mono hvw.steps)
    · exact .inr hc
  timers t ht := by
    obtain ht | ht := hvw.timers t ht
    · exact huv.timers t ht
    · exact .inr ht
  turns := hvw.turns.trans huv.turns
  faults := huv.faults.trans hvw.faults

/-- The future of a job of a wired world is a job's. -/
theorem Wired.owned (hw : w.Wired) {j : JobId} {job : Job} (hjob : w.jobs[j]? = some job) :
    ∃ f : Future, w.futures[job.future]? = some f ∧ f.job ≠ none := by
  obtain ⟨f, hf, hfj⟩ := hw.job_future j job hjob
  exact ⟨f, hf, by rw [hfj]; exact Option.some_ne_none j⟩

theorem Light.grows (h : w.Light v) : w.Grows v := by
  intro hw
  have howned (j : JobId) (job : Job) (hjob : w.jobs[j]? = some job) :
      v.outcome? job.future = w.outcome? job.future := by
    obtain ⟨f, hf, hfj⟩ := hw.owned hjob
    exact h.owned job.future f hf hfj
  have hwired : v.Wired := by
    refine hw.toWired.mono h.futures h.steps (fun j job hjob => ?_) h.pending h.queued h.attached
    exact .inl ⟨job, h.jobs ▸ hjob, rfl⟩
  have hscheduled : v.Scheduled := by
    refine hw.toScheduled.mono (fun t ht => ?_) h.turns fun j job hjob => ⟨job, h.jobs ▸ hjob, rfl⟩
    obtain ht | ht := h.timers t ht
    · exact hw.timers t ht
    · exact ht
  have haccounted : v.Accounted := by
    refine hw.toAccounted.mono h.runs h.faults fun j job hjob => ?_
    have hjob : w.jobs[j]? = some job := h.jobs ▸ hjob
    exact ⟨job, hjob, rfl, rfl, howned j job hjob, fun _ => rfl⟩
  refine ⟨⟨hwired, hscheduled, haccounted⟩, ?_⟩
  exact {
    futures := h.futures
    value := h.value
    job := fun j job hjob => ⟨job.cancelRequested, h.jobs ▸ hjob⟩
    owned := howned
    step := h.step
    turn := fun j hj => .inl (h.turns.subset hj)
    run := fun r run hrun => ⟨run, h.runs ▸ hrun, rfl, .inl ⟨rfl, rfl⟩⟩
    current := fun _ => by rw [h.runs]
    faults := h.faults }

end World

end SteppedLogo
