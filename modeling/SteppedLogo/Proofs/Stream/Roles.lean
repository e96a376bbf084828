import SteppedLogo.Proofs.Schedule.Clock
import SteppedLogo.Proofs.Stream.Told

namespace SteppedLogo

namespace Launch

/-- What a host does with what has come of the run for which it has waited. -/
def afterRun (hooked : Bool) (received : Except FaultId Value) : Routine (Except FaultId Value) :=
  ((Host.verdict received).bind (Host.leave hooked)).bind (ExceptT.bindCont fun exit => pure (.int exit.code))

/-- What a host does once it has started a run. -/
theorem runProgram_run (source : String) : (Launch.runProgram source).run =
    .op (.print "input" source) fun _ => .op (.start source) fun started =>
      (Host.afterStart started).bind (ExceptT.bindCont fun exit => pure (.int exit.code)) := rfl

end Launch

/-- Code that does not wait goes on to what is behind it. -/
theorem Routine.run_bind_of_finished {α β : Type} {env : Env} {r : Routine α} {w v : World} {a : α}
    (h : r.run env w = (.finished a, v)) (k : α → Routine β) : (r.bind k).run env w = (k a).run env v := by
  induction r generalizing w with
  | done b =>
    cases h
    rfl
  | op o k' ih => exact ih _ h
  | await future k' ih =>
    cases future with
    | none => cases h
    | some future =>
      simp only [Routine.run] at h
      simp only [Routine.bind, Routine.run]
      split at h
      · cases h
      · exact ih _ h

namespace World

variable {env : Env} {w v : World} {id : JobId} {job : Job} {future : FutureId} {f : Future}
variable {received : Except FaultId Value} {k : Except FaultId Value → Routine (Except FaultId Value)} {traced : Bool}

/-- A job has its turn. -/
def giveTurn (w : World) (id : JobId) : World :=
  w.modifyJob id ({ · with waiting := none, cancelRequested := false, begun := true })

/-- What is left of a turn is done, and the job is put down. -/
def endTurn (env : Env) (id : JobId) (job : Job) (rest : Routine (Except FaultId Value)) (w : World) : World :=
  (rest.run env w).2.putDown id job (rest.run env w).1

theorem endTurn_op {o : Op} {k : o.Reply → Routine (Except FaultId Value)} :
    endTurn env id job (.op o k) w = endTurn env id job (k (w.perform env o).1) (w.perform env o).2 := rfl

theorem endTurn_bind {α : Type} {r : Routine α} {a : α} (h : r.run env w = (.finished a, v))
    (k : α → Routine (Except FaultId Value)) : endTurn env id job (r.bind k) w = endTurn env id job (k a) v := by
  rw [endTurn, Routine.run_bind_of_finished h]
  rfl

theorem endTurn_await (hopen : w.outcome? future = none) :
    endTurn env id job (.await (some future) k) w = w.park id future k := by
  simp only [endTurn, Routine.run, hopen]
  rfl

theorem resume_of_get (hjob : w.jobs[id]? = some job) (hopen : w.isDone job.future = false)
    (hcalm : job.cancelRequested = false) (hbegins : (job.begun || received.isOk) = true) :
    w.resume env id received = endTurn env id job (job.resume received) (w.giveTurn id) := by
  have htaken : w.takeUp id job received = (received, w.giveTurn id) := by
    simp only [takeUp, resumption, hcalm, Bool.false_eq_true, if_false, hbegins]
    rfl
  simp only [resume, hjob, hopen, htaken, hbegins, Bool.false_eq_true, if_false, if_true]
  rfl

/-- A job that waits for a future that has been settled is taken up with what has come of that. -/
theorem wake_of_get {o : Outcome} (hjob : w.jobs[id]? = some job) (hwaits : job.waiting = some future)
    (ho : w.outcome? future = some o) (hreceives : w.receive o = (received, w)) :
    w.wake env id = w.resume env id received := by
  have hsettled : ((w.jobs[id]?).bind Job.waiting).bind w.outcome? = some o := by
    rw [hjob, Option.bind_some, hwaits]
    exact ho
  simp only [wake, hsettled, hreceives]

/-- A future that belongs to no job is not the one of a job. -/
theorem modifyFuture_get {other : FutureId} {g : Future} (hf : w.futures[future]? = some f) (hplain : f.job = none)
    (hg : w.futures[other]? = some g) (hjob : g.job = some id) (change : Future → Future) :
    (w.futures.modify future change)[other]? = some g := by
  rw [Array.getElem?_modify, if_neg, hg]
  rintro rfl
  rw [hf] at hg
  cases hg
  rw [hplain] at hjob
  cases hjob

/-- A job that waits for an open future is woken once that is settled. -/
theorem park_of_get (hjob : w.jobs[id]? = some job) (hcalm : job.cancelRequested = false)
    (hf : w.futures[future]? = some f) (hopen : f.outcome = none) :
    w.park id future k = { w with
      jobs := w.jobs.modify id ({ · with resume := k, waiting := some future })
      futures := w.futures.modify future fun f => { f with callbacks := f.callbacks ++ [.wake id] } } := by
  have hnow : (w.modifyJob id ({ · with resume := k, waiting := some future })).jobs[id]? =
      some { job with resume := k, waiting := some future } := by
    rw [modifyJob_get, if_pos rfl, hjob]
    rfl
  have hstill : (w.modifyJob id ({ · with resume := k, waiting := some future })).isDone future = false :=
    isDone_eq_false.2 ((outcome?_of_get hf).trans hopen)
  simp only [park, whenDone, hstill, Bool.false_eq_true, if_false, hnow, Option.map_some, Option.getD_some, hcalm]
  rfl

theorem getElem?_push_push {α : Type} (xs : Array α) (x y : α) :
    ((xs.push x).push y)[xs.size]? = some x ∧ ((xs.push x).push y)[xs.size + 1]? = some y := by
  refine ⟨getElem?_push_of_some Array.getElem?_push_size, ?_⟩
  have hlast : ((xs.push x).push y)[(xs.push x).size]? = some y := Array.getElem?_push_size
  rwa [Array.size_push] at hlast

/-- A console shows what is on a bridge, and nothing else does; the trace is on or off. -/
structure Surface (traced : Bool) (w : World) : Prop where
  listeners : w.gate.listeners = [Launch.traceListener]
  traceOn : w.session.traceOn = traced
  view : w.hostView = none
  sink : ∀ n, w.output.accepts n = true

/-- What the console shows stays as it is, and so do its records, the run, the calls and the turtle. -/
structure Retains (w v : World) : Prop where
  listeners : v.gate.listeners = w.gate.listeners := by rfl
  seq : v.gate.seq = w.gate.seq := by rfl
  session : v.session = w.session := by rfl
  view : v.hostView = w.hostView := by rfl
  output : v.output = w.output := by rfl
  calls : v.calls = w.calls := by rfl
  turtle : v.turtle = w.turtle := by rfl
  trace : v.trace = w.trace := by rfl

theorem Surface.retained (h : w.Surface traced) (hv : w.Retains v) : v.Surface traced :=
  ⟨hv.listeners.trans h.listeners, hv.session ▸ h.traceOn, hv.view.trans h.view, hv.output ▸ h.sink⟩

theorem Retains.console (hv : w.Retains v) : v.console = w.console := by rw [World.console, hv.output, World.console]

/-- Nothing goes on, so that a program may be run. -/
structure Rests (traced : Bool) (w : World) : Prop where
  surface : w.Surface traced
  loop : w.loop.Queues []
  pending : w.gate.pending = none
  inactive : w.session.isActive = false
  blank : w.trace.renderer = {}

/-- A host that waits for the run that it has started. -/
def hostJob (start : World) (hooked : Bool) : Job where
  future := start.futures.size
  resume := Launch.afterRun hooked
  waiting := some (start.futures.size + 1)
  begun := true

/-- The job of that run. -/
def runJob (start : World) (resume : Except FaultId Value → Routine (Except FaultId Value)) (waiting : Option FutureId)
    (begun : Bool) : Job where
  future := start.futures.size + 1
  resume := resume
  waiting := waiting
  begun := begun
  run := some start.session.runs.size

/-- A host has been spawned in the state `start`, and waits for its run, the job of which is `job`. -/
structure Roles (start : World) (job : Job) (w : World) : Prop where
  host : ∃ hooked, w.jobs[start.jobs.size]? = some (hostJob start hooked)
  job : w.jobs[start.jobs.size + 1]? = some job
  hostFuture : w.futures[start.futures.size]? = some { job := some start.jobs.size }
  jobFuture : w.futures[start.futures.size + 1]? =
    some { callbacks := [.wake start.jobs.size], job := some (start.jobs.size + 1) }

variable {start : World} {change : Job → Job}

namespace Roles

theorem same (h : start.Roles job w) (hjobs : v.jobs = w.jobs) (hfutures : v.futures = w.futures) :
    start.Roles job v := by
  obtain ⟨hhost, hjob, hhostFuture, hjobFuture⟩ := h
  exact ⟨hjobs ▸ hhost, hjobs ▸ hjob, hfutures ▸ hhostFuture, hfutures ▸ hjobFuture⟩

theorem modifyJob (h : start.Roles job w) (change : Job → Job) :
    start.Roles (change job) (w.modifyJob (start.jobs.size + 1) change) := by
  obtain ⟨hooked, hhost⟩ := h.host
  refine ⟨⟨hooked, ?_⟩, ?_, h.hostFuture, h.jobFuture⟩
  · rw [modifyJob_get, if_neg (Nat.succ_ne_self _), hhost]
  · rw [modifyJob_get, if_pos rfl, h.job]
    rfl

theorem pushFuture (h : start.Roles job w) (f : Future) :
    start.Roles job { w with futures := w.futures.push f } :=
  ⟨h.host, h.job, getElem?_push_of_some h.hostFuture, getElem?_push_of_some h.jobFuture⟩

theorem modifyFuture (h : start.Roles job w) (hf : w.futures[future]? = some f) (hplain : f.job = none)
    (change : Future → Future) : start.Roles job { w with futures := w.futures.modify future change } :=
  ⟨h.host, h.job, modifyFuture_get hf hplain h.hostFuture rfl change, modifyFuture_get hf hplain h.jobFuture rfl change⟩

/-- The job of the run has its turn. -/
theorem giveTurn {resume : Except FaultId Value → Routine (Except FaultId Value)} {waiting : Option FutureId} {begun : Bool}
    (h : start.Roles (start.runJob resume waiting begun) w) :
    start.Roles (start.runJob resume none true) (w.giveTurn (start.jobs.size + 1)) := by
  have hturn := h.modifyJob ({ · with waiting := none, cancelRequested := false, begun := true })
  exact hturn

/-- The job of the run waits for a future that belongs to no job. -/
theorem park {resume : Except FaultId Value → Routine (Except FaultId Value)}
    (h : start.Roles (start.runJob resume none true) w) (hf : w.futures[future]? = some f) (hopen : f.outcome = none)
    (hplain : f.job = none) :
    start.Roles (start.runJob k (some future) true) (w.park (start.jobs.size + 1) future k) := by
  have hparked := (h.modifyFuture hf hplain fun f =>
    { f with callbacks := f.callbacks ++ [.wake (start.jobs.size + 1)] }).modifyJob
    ({ · with resume := k, waiting := some future })
  rw [park_of_get h.job rfl hf hopen]
  exact hparked

end Roles

end World

end SteppedLogo
