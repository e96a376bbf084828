import SteppedLogo.Proofs.Hosting.Engaged
import SteppedLogo.Proofs.Program.Stepwise

namespace SteppedLogo

namespace World

variable {env : Env} {asks : Bool} {u v w : World} {known : FaultId → Prop}

/-- Each fault that is known has been raised, and is an error. -/
def Raised (known : FaultId → Prop) (w : World) : Prop :=
  ∀ id, known id → ∃ f, w.faults.get? id = some f ∧ f.kind.isError = true

/-- What is known to be raised stays raised where the faults are kept. -/
theorem Raised.kept (h : w.Raised known) (hkeeps : w.faults.Keeps v.faults) : v.Raised known := by
  intro id hid
  obtain ⟨f, hf, herror⟩ := h id hid
  obtain ⟨g, hg, hagrees⟩ := hkeeps id f hf
  exact ⟨g, hg, hagrees.kind ▸ herror⟩

theorem Raised.or {more : FaultId → Prop} (h : w.Raised known) (hmore : w.Raised more) :
    w.Raised fun id => known id ∨ more id := by
  rintro id (hid | hid)
  · exact h id hid
  · exact hmore id hid

/-- Nothing is scheduled or settled, but the run that is under way may have been asked to stop. -/
structure Toils (asks : Bool) (w v : World) : Prop where
  loop : v.loop = w.loop
  futures : v.futures = w.futures
  jobs : v.jobs = w.jobs
  pending : v.gate.pending = w.gate.pending
  faults : w.faults.Keeps v.faults
  unasked : w.Unasked asks → v.Unasked asks
  runs : v.session.runs = w.session.runs ∨ w.session.run.status = .running ∧
    ∃ reason, v.session.runs = w.session.runs.modify w.session.current ({ · with status := .canceling, reason })

/-- A world that idles also toils. -/
theorem Idles.toils (h : w.Idles asks v) : w.Toils asks v :=
  ⟨h.aside.loop, h.aside.futures, h.aside.jobs, h.aside.pending, h.aside.faults, h.unasked, .inl h.aside.runs⟩

/-- A run that is asked to stop where no step is pending stops at its next one. -/
theorem toils_cancelRun (asks : Bool) (hpending : w.gate.pending = none) (reason : Value) :
    w.Toils asks (w.cancelRun reason) := by
  obtain ⟨-, heq⟩ | ⟨hrunning, message, heq⟩ := cancelRun_cases w reason
  · rw [heq]
    exact (Idles.refl w).toils
  · have hnothing : ((w.modifyRun w.session.current ({ · with status := .canceling, reason })).cancelGate reason).2 =
        w.modifyRun w.session.current ({ · with status := .canceling, reason }) := by
      have hnone : (w.modifyRun w.session.current ({ · with status := .canceling, reason })).gate.pending = none := hpending
      simp only [cancelGate, hnone]
    rw [heq, hnothing]
    exact ⟨rfl, rfl, rfl, rfl, .refl _, fun h => h.same rfl, .inr ⟨hrunning, reason, rfl⟩⟩

/-- A complaint changes nothing but the faults. -/
theorem idles_complain {α : Type} (w : World) (c : Complaint) : w.Idles asks (@complain α w c).2 :=
  (aside_complain w c).idles rfl

theorem idles_setTrace (w : World) (on : Bool) : w.Idles asks (w.setTrace on) :=
  Aside.idles ⟨rfl, rfl, rfl, rfl, rfl, rfl, rfl, rfl, .refl _⟩ rfl

/-- A complaint of an error raises that error. -/
theorem raised_complain {α : Type} (w : World) {c : Complaint} (herror : c.kind.isError = true) :
    (@complain α w c).2.Raised fun id => (@complain α w c).1 = .error id := by
  rintro id ⟨⟩
  exact ⟨_, Faults.get?_add _ _, herror⟩

/-- What a word does in a run that is under way, where no step is pending. -/
theorem toils_invoke (env : Env) (h : Handler) (args : List Value) (hpending : w.gate.pending = none)
    (hactive : w.session.isActive = true) :
    w.Toils asks (w.invoke env h args).2 ∧
      (w.invoke env h args).2.Raised fun id => (w.invoke env h args).1 = .error id := by
  have hcomplain {c : Complaint} (herror : c.kind.isError = true) : w.Toils asks (@complain Value w c).2 ∧
      (@complain Value w c).2.Raised fun id => (@complain Value w c).1 = .error id :=
    ⟨(idles_complain w c).toils, raised_complain w herror⟩
  unfold invoke
  split
  · rename_i p
    rw [callPrimitive_eq]
    cases hcall : p.call w.fresh w.turtle args with
    | error c => exact hcomplain (Primitive.call_ordinary hcall).1
    | ok e =>
      obtain ⟨_, _, _, _, heq⟩ := carryOut_frame w e
      have haside : w.Aside (w.carryOut e) := by
        rw [heq]
        exact ⟨rfl, rfl, rfl, rfl, rfl, rfl, rfl, rfl, .refl _⟩
      exact ⟨Idles.toils ⟨haside, fun h => h.carryOut e⟩, nofun⟩
  · exact ⟨toils_cancelRun asks hpending _, nofun⟩
  · exact ⟨toils_cancelRun asks hpending _, nofun⟩
  · exact hcomplain rfl
  · rename_i v
    obtain ⟨-, heq⟩ | ⟨hinactive, -⟩ := start_cases (env.program v.display) v.display w
    · rw [heq]
      exact hcomplain rfl
    · rw [hactive] at hinactive
      cases hinactive
  · exact ⟨(idles_setTrace w false).toils, nofun⟩
  · exact ⟨(idles_setTrace w true).toils, nofun⟩
  · exact hcomplain rfl
  · exact hcomplain (by rw [Signature.misfit_kind]; rfl)

/-- What a program does between its call boundaries. -/
theorem toils_perform (env : Env) (asks : Bool) {o : Op} (ho : o.IsWork) (hpending : w.gate.pending = none)
    (hactive : w.session.isActive = true) :
    w.Toils asks (w.perform env o).2 ∧ (w.perform env o).2.Raised (o.Gives (w.perform env o).1) := by
  have haside (h : o.IsAside) : w.Aside (w.performWith env (notify env) o).2 := performWith_aside (notify env) h w
  cases o with
  | invoke h args => exact toils_invoke env h args hpending hactive
  | raise spec =>
    cases spec with
    | plain c =>
      refine ⟨((haside trivial).idles rfl).toils, ?_⟩
      rintro id rfl
      exact ⟨_, Faults.get?_add _ _, ho⟩
    | _ => exact ho.elim
  | newBody | recordCall | setCause | raiseWhile | describe =>
    exact ⟨((haside trivial).idles rfl).toils, fun _ hid => hid.elim⟩
  | _ => exact ho.elim

end World

namespace World

variable {env : Env} {id : JobId} {job : Job} {v w : World}

/-- An operation is answered, and the turn goes on with the answer. -/
theorem endTurn_performs {o : Op} {k : o.Reply → Routine (Except FaultId Value)} {reply : o.Reply}
    (h : w.perform env o = (reply, v)) : endTurn env id job (.op o k) w = endTurn env id job (k reply) v := by
  rw [endTurn_op, h]

/-- A fault with which a future has been settled already is not waited for. -/
theorem endTurn_settled {future : FutureId} {c : FaultId} {k : Except FaultId Value → Routine (Except FaultId Value)}
    (h : w.outcome? future = some (.fault c)) :
    endTurn env id job (.await (some future) k) w = endTurn env id job (k (.error c)) w := by
  simp only [endTurn, Routine.run, h]
  rfl

end World

namespace Errand

/-- What the host does with what has come of the run. -/
def closing (T : Errand) (received : Except FaultId Value) : Routine (Except FaultId Value) :=
  ((Host.verdict received).bind (Host.leave T.hooked)).bind T.goesOn

/-- The job of the run. -/
def runJob (T : Errand) (resume : Except FaultId Value → Routine (Except FaultId Value)) (waiting : Option FutureId)
    (begun : Bool) : Job where
  future := T.future
  resume := resume
  waiting := waiting
  begun := begun
  run := some T.runs.size

end Errand

namespace World

variable {env : Env} {E : Engagement} {T : Errand} {u v w : World} {job : Job} {future : FutureId} {f : Future}
variable {k : Except FaultId Value → Routine (Except FaultId Value)} {ids : List StepId} {known : FaultId → Prop}

/-- A host waits for the run that it has started, the job of which is `job`. -/
structure Posts (E : Engagement) (T : Errand) (job : Job) (w : World) : Prop where
  host : w.jobs[E.host]? = some (E.job T.closing (some T.future) true)
  job : w.jobs[T.job]? = some job
  apart : E.host ≠ T.job
  hostFuture : w.futures[E.future]? = some { job := some E.host }
  future : w.futures[T.future]? = some { callbacks := [.wake E.host], job := some T.job }

namespace Posts

/-- The job of the host stays at its post while jobs and futures stay as they are. -/
theorem same (h : Posts E T job w) (hjobs : v.jobs = w.jobs) (hfutures : v.futures = w.futures) : Posts E T job v :=
  ⟨hjobs ▸ h.host, hjobs ▸ h.job, h.apart, hfutures ▸ h.hostFuture, hfutures ▸ h.future⟩

/-- The host is not done while its job is at its post. -/
theorem open_host (h : Posts E T job w) : w.isDone E.future = false := isDone_eq_false.2 (outcome?_of_get h.hostFuture)

/-- The futures of the host and of the task are different ones. -/
theorem future_ne (h : Posts E T job w) : E.future ≠ T.future := by
  intro hsame
  have hfuture := h.hostFuture
  rw [hsame, h.future] at hfuture
  cases hfuture

/-- A change of the task's job leaves it at its post. -/
theorem modifyJob (h : Posts E T job w) (change : Job → Job) : Posts E T (change job) (w.modifyJob T.job change) := by
  refine ⟨?_, ?_, h.apart, h.hostFuture, h.future⟩
  · rw [modifyJob_get, if_neg h.apart.symm, h.host]
  · rw [modifyJob_get, if_pos rfl, h.job]
    rfl

/-- A new future leaves the jobs at their posts. -/
theorem pushFuture (h : Posts E T job w) (f : Future) : Posts E T job { w with futures := w.futures.push f } :=
  ⟨h.host, h.job, h.apart, getElem?_push_of_some h.hostFuture, getElem?_push_of_some h.future⟩

/-- A change of a future that is no job's leaves the jobs at their posts. -/
theorem modifyFuture (h : Posts E T job w) (hf : w.futures[future]? = some f) (hplain : f.job = none)
    (change : Future → Future) : Posts E T job { w with futures := w.futures.modify future change } :=
  ⟨h.host, h.job, h.apart, modifyFuture_get hf hplain h.hostFuture rfl change,
    modifyFuture_get hf hplain h.future rfl change⟩

end Posts

/-- No run is under way: the programs in `past` have been run, and those in `left` are still to be run. The job of the
host is `job`, and the callbacks `cs` are ready. -/
structure Sits (E : Engagement) (past : List (String × Exit)) (left : List String) (job : Job) (cs : List Callback)
    (w : World) : Prop where
  host : w.jobs[E.host]? = some job
  future : w.futures[E.future]? = some { job := some E.host }
  chronicle : E.Chronicle past left w.faults w.session.runs
  inactive : w.session.isActive = false
  unasked : w.Unasked E.asks
  loop : w.loop.Queues cs
  pending : w.gate.pending = none

/-- The run for which a host waits is under way. -/
structure Tells (E : Engagement) (T : Errand) (w : World) : Prop where
  run : ∃ run, w.session.runs = T.runs.push run ∧ run.source = T.source ∧ run.status.isActive = true
  chronicle : E.Chronicle T.past (T.source :: T.left) w.faults T.runs
  unasked : w.Unasked E.asks

namespace Tells

/-- The run that is told of is the current one. -/
theorem current (h : Tells E T w) : w.session.current = T.runs.size := by
  obtain ⟨run, hruns, -⟩ := h.run
  rw [Session.current, hruns, Array.size_push, Nat.add_sub_cancel]

/-- The run that is told of is active. -/
theorem isActive (h : Tells E T w) : w.session.isActive = true := by
  obtain ⟨run, hruns, -, hactive⟩ := h.run
  rw [Session.isActive, Session.run, hruns, Array.back?_push]
  exact hactive

/-- What is told of a run holds on where runs and output are as they were and the faults are kept. -/
theorem kept (h : Tells E T w) (hruns : v.session.runs = w.session.runs) (hkeeps : w.faults.Keeps v.faults)
    (houtput : v.output = w.output) : Tells E T v :=
  ⟨hruns ▸ h.run, h.chronicle.kept hkeeps, h.unasked.same houtput⟩

/-- Nothing but the run itself has changed, which is still under way. -/
theorem toils (h : Tells E T w) (hv : w.Toils E.asks v) : Tells E T v := by
  refine ⟨?_, h.chronicle.kept hv.faults, hv.unasked h.unasked⟩
  obtain ⟨run, hruns, hsource, hactive⟩ := h.run
  obtain hsame | ⟨-, reason, hasked⟩ := hv.runs
  · exact ⟨run, hsame.trans hruns, hsource, hactive⟩
  · rw [h.current, hruns, modify_push_size] at hasked
    exact ⟨_, hasked, hsource, rfl⟩

end Tells

/-- A run that is to stop goes on being one. -/
theorem Toils.canceling {asks : Bool} (hv : w.Toils asks v) (h : w.session.run.status = .canceling) :
    v.session.run.status = .canceling := by
  obtain hsame | ⟨hrunning, -⟩ := hv.runs
  · rw [Session.run, hsame]
    exact h
  · rw [hrunning] at h
    cases h

/-- The pending step is rejected: it is taken off the gate, its timer stopped, and its future settled with a fault. -/
theorem cancelStep_pending {id : StepId} {seq : Nat} {timer : TimerId}
    (hstep : w.gate.steps[id]? = some ⟨seq, future, some timer⟩) (hpending : w.gate.pending = some id)
    (hf : w.futures[future]? = some f) (hopen : f.outcome = none) (reason : Value) :
    ∃ v message, w.cancelStep id reason =
        (true, (v.settle future (.fault (w.faults.add (.cancellation reason)).1)).addLog .debug gateLogger message) ∧
      v = { w with
        loop := w.loop.cancel timer, faults := (w.faults.add (.cancellation reason)).2
        gate := { w.gate with steps := w.gate.steps.modify id ({ · with timer := none }), pending := none } } := by
  obtain ⟨-, hdone⟩ | ⟨s, hs, -, hrejects⟩ := cancelStep_cases w id reason
  · have hwaits : w.isDone future = false := isDone_eq_false.2 ((outcome?_of_get hf).trans hopen)
    rw [hdone _ hstep] at hwaits
    cases hwaits
  · rw [hstep] at hs
    cases hs
    rw [retract_pending hstep hpending] at hrejects
    exact ⟨_, _, hrejects, rfl⟩

/-- A step that is set up in a run that is to stop is rejected at once. -/
theorem installFor_canceling {runs : Array Run} {run : Run} {cs : List Callback} (hloop : w.loop.Queues cs)
    (hruns : w.session.runs = runs.push run) (hcanceling : run.status = .canceling) :
    ∃ step v, w.installFor runs.size = (step, v) ∧ v.loop.Queues (cs ++ [.retract step.id]) ∧ v.gate.pending = none ∧
      step.future = w.futures.size ∧ v = { w with
        loop := v.loop, log := v.log, gate := v.gate
        futures := w.futures.push { outcome := some (.fault (w.faults.add (.cancellation run.reason)).1) }
        faults := (w.faults.add (.cancellation run.reason)).2
        session := { w.session with runs := runs.push { run with steps := w.gate.seq } } } := by
  obtain ⟨message, hinstall⟩ := installStep_eq w
  have hsession := session_installed hruns
  obtain ⟨u, hu⟩ : ∃ u : World, u = w.installStep.2.modifyRun runs.size ({ · with steps := w.installStep.1.seq }) :=
    ⟨_, rfl⟩
  have hrun : u.runOf runs.size = { run with steps := w.gate.seq } := by
    rw [hu, runOf, hsession, Array.getElem?_push_size]
    rfl
  obtain ⟨hrunning, -⟩ | ⟨-, heq⟩ := installFor_cases runs.size w
  · rw [← hu, hrun] at hrunning
    exact absurd hcanceling hrunning
  rw [← hu, hrun, hinstall] at heq
  have hstep : u.gate.steps[w.gate.steps.size]? = some ⟨w.gate.seq, w.futures.size, some w.loop.nextTimer⟩ := by
    rw [hu, hinstall]
    exact Array.getElem?_push_size
  have hfuture : u.futures[w.futures.size]? = some { callbacks := [.retract w.gate.steps.size] } := by
    rw [hu, hinstall]
    exact Array.getElem?_push_size
  have hpending : u.gate.pending = some w.gate.steps.size := by
    rw [hu, hinstall]
    rfl
  obtain ⟨v, message, hrejects, hv⟩ := cancelStep_pending hstep hpending hfuture rfl run.reason
  have hstill : v.futures[w.futures.size]? = some { callbacks := [.retract w.gate.steps.size] } := by
    rw [hv]
    exact hfuture
  rw [hrejects, settle_of_open hstill rfl, hv, hu, hinstall] at heq
  refine ⟨_, _, heq, ?_, rfl, rfl, ?_⟩
  · exact (hloop.later_cancel _ _).append [.retract w.gate.steps.size]
  · simp only [addLog, modifyRun, Session.modifyRun, modify_push_size, hruns]

/-- A run has been ended with a status and an error, and there was no step to be rejected. -/
structure Ceased (r : RunId) (status : Status) (error : Option FaultId) (w v : World) : Prop where
  rest : v = { w with
    trace := w.trace.release, session := w.session.modifyRun r ({ · with status, error })
    faults := v.faults, log := v.log }
  faults : w.faults.Keeps v.faults

/-- A run that is finished while no step is pending has ceased. -/
theorem ceased_finish (hpending : w.gate.pending = none) (r : RunId) (status : Status) (error : Option FaultId) :
    Ceased r status error w (w.finish r status error) := by
  obtain ⟨log, heq⟩ := finish_idle hpending r status error
  rw [heq]
  exact ⟨rfl, .refl _⟩

/-- A run that has ceased stays so when more faults are kept. -/
theorem Ceased.faultsOnly {r : RunId} {status : Status} {error : Option FaultId} (h : Ceased r status error w v)
    {faults : Faults} (hkeeps : v.faults.Keeps faults) : Ceased r status error w { v with faults } := by
  refine ⟨?_, h.faults.trans hkeeps⟩
  rw [h.rest]

/-- The end of a program is the end of its run: the job comes to the outcome `o`, and the host is to go on with the status
`exit`. -/
structure Concludes (r : RunId) (result : Except FaultId Value) (exit : Exit) (status : Status) (error : Option FaultId)
    (o : Outcome) (w v : World) : Prop where
  ends : ∃ ended, w.endRun (some r) result = (ended, v) ∧ ∀ id future,
    ((v.jobs[id]?).map Job.cancelRequested).getD false = false → v.endJob id future ended = v.settle future o
  ceased : Ceased r status error w v
  heeds : Host.Heeds v.faults o exit
  warrants : ∀ run : Run, ({ run with status, error } : Run).Warrants v.faults exit

/-- A program that comes to its end without an error completes its run, also one that was to stop. -/
theorem concludes_completed (hpending : w.gate.pending = none) (r : RunId) (x : Value) :
    ∃ v, Concludes r (.ok x) .ok .completed none (.value .none) w v := by
  obtain ⟨u, ⟨log, rfl⟩, hconclude⟩ : ∃ u : World, (∃ log, u = { w with log }) ∧
      w.conclude r none = (.ok (), u.finish r .completed none) := by
    by_cases hcanceling : (w.runOf r).status = .canceling
    · exact ⟨w.info ("run " ++ toString (w.runOf r).number ++ " finished before its cancellation took effect"),
        ⟨_, rfl⟩, by simp only [conclude, if_pos hcanceling]⟩
    · exact ⟨w, ⟨w.log, rfl⟩, by simp only [conclude, if_neg hcanceling]⟩
  have hended := ceased_finish (w := { w with log }) hpending r .completed none
  refine ⟨_, ⟨.ok .none, ?_, fun id future hcalm => ?_⟩, ⟨hended.rest, hended.faults⟩, .completed _,
    fun run => .completed rfl rfl⟩
  · simp only [endRun, hconclude]
    rfl
  · simp only [endJob, hcalm, Bool.false_eq_true, if_false]

/-- An error with a deliberate stop behind it ends the run with that. -/
theorem concludes_stopped (hpending : w.gate.pending = none) (r : RunId) {e stop : FaultId} {f g : Fault}
    (hf : w.faults.get? e = some f) (herror : f.kind.isError = true) (hfound : w.faults.findCancellation e = some stop)
    (hg : w.faults.get? stop = some g) (hkind : g.kind = .cancellation) :
    ∃ v, Concludes r (.error e) .canceled .failed (some stop) (.fault stop) w v := by
  have hended := ceased_finish hpending r .failed (some stop)
  have hplain : f.kind ≠ .taskCancelled := fun h => by
    rw [h] at herror
    cases herror
  obtain ⟨v, hconclude, hv⟩ : ∃ v, w.conclude r (some e) = (.error stop, v) ∧ Ceased r .failed (some stop) w v := by
    simp only [conclude, kindOf_of_get hf, if_neg hplain, herror, hfound, Bool.not_true, Bool.false_eq_true, if_false]
    by_cases hself : stop = e
    · rw [if_pos hself, hself]
      exact ⟨_, rfl, hself ▸ hended⟩
    · rw [if_neg hself]
      exact ⟨_, rfl, hended.faultsOnly ((Faults.keeps_setCause _ _ _).trans (Faults.keeps_raiseWhile _ _ _))⟩
  obtain ⟨g', hg', hagrees⟩ := hv.faults stop g hg
  have hstop : g'.kind = .cancellation := hagrees.kind.trans hkind
  refine ⟨v, ⟨.error stop, ?_, fun id future _ => ?_⟩, hv, .stopped hg' hstop, fun run => .stopped rfl rfl hg' hstop⟩
  · simp only [endRun, hconclude]
    rfl
  · simp only [endJob, kindOf_of_get hg', hstop]
    rfl

/-- Any other error ends the run, and the job fails with what wraps it. -/
theorem concludes_failed (hpending : w.gate.pending = none) (r : RunId) {e : FaultId} {f : Fault}
    (hf : w.faults.get? e = some f) (herror : f.kind.isError = true) (hnone : w.faults.findCancellation e = none)
    (hplain : f.kind ≠ .cancellation) :
    ∃ failure v, Concludes r (.error e) .error .failed (some e) (.fault failure) w v := by
  have hended := ceased_finish hpending r .failed (some e)
  obtain ⟨g, hg, hagrees⟩ := hended.faults e f hf
  have hfailure := get?_raiseFailure (w.finish r .failed (some e)) e
  have hkeeps := keeps_raiseFailure (w.finish r .failed (some e)) e
  obtain ⟨g', hg', hagrees'⟩ := hkeeps e g hg
  have hkind : g'.kind ≠ .cancellation := hagrees'.kind.trans hagrees.kind ▸ hplain
  refine ⟨_, ((w.finish r .failed (some e)).raiseFailure e).2,
    ⟨.error ((w.finish r .failed (some e)).raiseFailure e).1, ?_, fun id future _ => ?_⟩, hended.faultsOnly hkeeps,
    .failed hfailure rfl rfl, fun run => .failed rfl rfl hg' hkind⟩
  · simp only [endRun, conclude_failed_eq (kindOf_of_get hf ▸ herror) hnone]
    rfl
  · simp only [endJob, kindOf_of_get hfailure]
    rfl

/-- A program that has ended without an error, or with one that has been raised, ends its run. -/
theorem exists_concludes (hpending : w.gate.pending = none) (r : RunId) {result : Except FaultId Value}
    (hraised : w.Raised fun id => result = .error id) :
    ∃ exit status error o v, Concludes r result exit status error o w v := by
  cases result with
  | ok x =>
    obtain ⟨v, hv⟩ := concludes_completed hpending r x
    exact ⟨_, _, _, _, v, hv⟩
  | error e =>
    obtain ⟨f, hf, herror⟩ := hraised e rfl
    obtain ⟨stop, hfound, -, g, hg, hkind⟩ | ⟨hnone, hplain⟩ := w.faults.findCancellation_cases e
    · obtain ⟨v, hv⟩ := concludes_stopped hpending r hf herror hfound hg hkind
      exact ⟨_, _, _, _, v, hv⟩
    · obtain ⟨failure, v, hv⟩ := concludes_failed hpending r hf herror hnone fun hstop => hplain e .refl ⟨f, hf, hstop⟩
      exact ⟨_, _, _, _, v, hv⟩

end World

namespace Errand

open World

variable {env : Env} {E : Engagement} {T : Errand} {v w : World} {job : Job} {ids : List StepId} {exit : Exit}
variable {k : Except FaultId Value → Routine (Except FaultId Value)} {known : FaultId → Prop}

/-- The program has its turn, and no step is pending. Those of the steps `ids` have been rejected in this turn, for the
run is to stop, and are still to be retracted. -/
structure Works (E : Engagement) (T : Errand) (ids : List StepId) (w : World) : Prop where
  posts : ∃ resume, Posts E T (T.runJob resume none true) w
  tells : Tells E T w
  loop : w.loop.Queues (ids.map .retract)
  pending : w.gate.pending = none
  halts : ids ≠ [] → w.session.run.status = .canceling

/-- The program waits at a call boundary, and will go on as `k`. -/
structure Pauses (E : Engagement) (T : Errand) (k : Except FaultId Value → Routine (Except FaultId Value)) (w : World) :
    Prop where
  tells : Tells E T w
  step : ∃ id future, Posts E T (T.runJob k (some future) true) w ∧ Pends id future [.retract id, .wake T.job] w

/-- The program has ended, and the host is to be woken, and to go on with the status `exit`. -/
structure Ends (E : Engagement) (T : Errand) (exit : Exit) (ids : List StepId) (w : World) : Prop where
  sits : Sits E (T.past ++ [(T.source, exit)]) T.left (E.job T.closing (some T.future) true)
    (ids.map .retract ++ [.wake E.host]) w
  outcome : ∃ o, w.outcome? T.future = some o ∧ Host.Heeds w.faults o exit

/-- A task goes on to work where the world toils. -/
theorem Works.toils (h : T.Works E ids w) (hv : w.Toils E.asks v) : T.Works E ids v := by
  obtain ⟨resume, hposts⟩ := h.posts
  exact ⟨⟨resume, hposts.same hv.jobs hv.futures⟩, h.tells.toils hv, hv.loop ▸ h.loop, hv.pending.trans h.pending,
    fun hids => hv.canceling (h.halts hids)⟩

/-- A program that has ended ends its run, and its job wakes the host. -/
theorem Works.ends (env : Env) {result : Except FaultId Value} (h : T.Works E ids w)
    (hraised : w.Raised fun id => result = .error id) (hfuture : job.future = T.future)
    (hrun : job.run = some T.runs.size) :
    ∃ exit, T.Ends E exit ids (endTurn env T.job job (.done result) w) := by
  obtain ⟨resume, hposts⟩ := h.posts
  obtain ⟨run, hruns, hsource, -⟩ := h.tells.run
  obtain ⟨exit, status, error, o, v, ⟨ended, hend, hsettles⟩, hv, hheeds, hwarrants⟩ :=
    exists_concludes h.pending T.runs.size hraised
  have hcalm : ((v.jobs[T.job]?).map Job.cancelRequested).getD false = false := by
    rw [hv.rest]
    change ((w.jobs[T.job]?).map Job.cancelRequested).getD false = false
    rw [hposts.job]
    rfl
  have hopen : v.futures[T.future]? = some { callbacks := [.wake E.host], job := some T.job } := by
    rw [hv.rest]
    exact hposts.future
  have hended : v.session.runs = T.runs.push { run with status, error } := by
    rw [hv.rest]
    change w.session.runs.modify T.runs.size ({ · with status, error }) = _
    rw [hruns, modify_push_size]
  have hturn : endTurn env T.job job (.done result) w = v.settle T.future o := by
    change w.putDown T.job job (.finished result) = _
    simp only [putDown, hrun, hend, hfuture]
    exact hsettles _ _ hcalm
  have hwoken : v.loop.Queues (ids.map .retract) := by
    rw [hv.rest]
    exact h.loop
  refine ⟨exit, ?_⟩
  rw [hturn, settle_of_open hopen rfl]
  refine ⟨⟨?_, ?_, ?_, ?_, ?_, hwoken.append [.wake E.host], ?_⟩, o, ?_, hheeds⟩
  · rw [hv.rest]
    exact hposts.host
  · change (v.futures.modify T.future _)[E.future]? = _
    rw [Array.getElem?_modify, if_neg hposts.future_ne.symm, hv.rest]
    exact hposts.hostFuture
  · change E.Chronicle _ _ v.faults v.session.runs
    rw [hended]
    exact (h.tells.chronicle.kept hv.faults).snoc hsource (hwarrants run)
  · change (v.session.runs.back?.getD {}).status.isActive = false
    rw [hended, Array.back?_push]
    exact (hwarrants run).inactive
  · rw [hv.rest]
    exact h.tells.unasked
  · rw [hv.rest]
    exact h.pending
  · refine outcome?_of_get (f := { outcome := some o, callbacks := [], job := some T.job }) ?_
    change (v.futures.modify T.future _)[T.future]? = _
    rw [Array.getElem?_modify, if_pos rfl, hopen]
    rfl

/-- The listeners are told of a call before its step is set up, and nothing else comes of that. -/
theorem Works.announces (hreact : env.react = Launch.react) (h : T.Works E ids w) {call : Call} {args : List Value}
    (hargs : call.args.items = .ok args) : ∃ told : World, T.Works E ids told ∧ w.faults.Keeps told.faults ∧
      w.perform env (.hook call) = (.ok (told.installFor T.runs.size).1, (told.installFor T.runs.size).2) := by
  obtain ⟨u, -, hu, hperform⟩ | ⟨hrefused, -⟩ := perform_hook_announced (raisesErrors_react hreact) w call hargs
  · have hidle : w.Idles E.asks u := hu.aside.idles (by rw [hu.rest])
    have htold := hidle.trans (idles_notify hreact ⟨w.gate.seq + 1, callName call.func, args, call.cell⟩ u)
    rw [h.tells.current] at hperform
    exact ⟨_, h.toils htold.toils, htold.aside.faults, hperform⟩
  · exact absurd hrefused (announced?_ne_none h.pending hargs)

/-- In a run that goes on the program comes to wait at the step that is set up. -/
theorem Works.pauses (env : Env) (job : Job) (h : T.Works E ids w) (hrunning : w.session.run.status ≠ .canceling) :
    ∃ step v, w.installFor T.runs.size = (step, v) ∧ ∀ k,
      T.Pauses E k (endTurn env T.job job (.await (some step.future) k) v) ∧
      (endTurn env T.job job (.await (some step.future) k) v).faults = w.faults := by
  have hnone : ids = [] := by
    by_contra hids
    exact hrunning (h.halts hids)
  subst hnone
  obtain ⟨resume, hposts⟩ := h.posts
  obtain ⟨run, hruns, hsource, hactive⟩ := h.tells.run
  have hrun : run.status ≠ .canceling := by
    rwa [Session.run, hruns, Array.back?_push] at hrunning
  obtain ⟨step, v, hinstall, hpends, hv⟩ := installFor_running h.loop hruns hrun
  have hopen : v.outcome? step.future = none := outcome?_of_get hpends.future
  have hnow : Posts E T (T.runJob resume none true) v := by
    refine (hposts.pushFuture { callbacks := [.retract step.id] }).same ?_ ?_ <;> rw [hv]
  refine ⟨step, v, hinstall, fun k => ?_⟩
  rw [endTurn_await hopen, park_of_get hnow.job rfl hpends.future rfl]
  refine ⟨⟨⟨?_, ?_, ?_⟩, step.id, step.future, ?_, hpends.pending, hpends.step, ?_⟩, ?_⟩
  · rw [hv]
    exact ⟨_, rfl, hsource, hactive⟩
  · rw [hv]
    exact h.tells.chronicle
  · rw [hv]
    exact h.tells.unasked
  · exact (hnow.modifyFuture hpends.future rfl fun f => { f with callbacks := f.callbacks ++ [.wake T.job] }).modifyJob
      ({ · with resume := k, waiting := some step.future })
  · change (v.futures.modify step.future _)[step.future]? = _
    rw [Array.getElem?_modify, if_pos rfl, hpends.future]
    rfl
  · rw [hv]

/-- In a run that is to stop the step is rejected at once, and the program goes on with that. -/
theorem Works.halted (h : T.Works E ids w) (hcanceling : w.session.run.status = .canceling) :
    ∃ step c v, w.installFor T.runs.size = (step, v) ∧ v.outcome? step.future = some (.fault c) ∧
      T.Works E (ids ++ [step.id]) v ∧ w.faults.Keeps v.faults ∧ v.Raised (· = c) := by
  obtain ⟨resume, hposts⟩ := h.posts
  obtain ⟨run, hruns, hsource, hactive⟩ := h.tells.run
  rw [Session.run, hruns, Array.back?_push] at hcanceling
  obtain ⟨step, v, hinstall, hloop, hpending, hfuture, hv⟩ := installFor_canceling h.loop hruns hcanceling
  refine ⟨step, (w.faults.add (.cancellation run.reason)).1, v, hinstall, ?_,
    ⟨⟨resume, ?_⟩, ⟨?_, ?_, ?_⟩, ?_, hpending, fun _ => ?_⟩, ?_, ?_⟩
  · refine outcome?_of_get (f := { outcome := some (.fault (w.faults.add (.cancellation run.reason)).1) }) ?_
    rw [hv, hfuture]
    exact Array.getElem?_push_size
  · have hpushed := hposts.pushFuture { outcome := some (.fault (w.faults.add (.cancellation run.reason)).1) }
    refine hpushed.same ?_ ?_ <;> rw [hv]
  · rw [hv]
    exact ⟨_, rfl, hsource, hactive⟩
  · rw [hv]
    exact h.tells.chronicle.kept (Faults.keeps_add _ _)
  · rw [hv]
    exact h.tells.unasked
  · rw [List.map_append]
    exact hloop
  · rw [hv, Session.run, Array.back?_push]
    exact hcanceling
  · rw [hv]
    exact Faults.keeps_add _ _
  · rintro id rfl
    rw [hv]
    exact ⟨_, Faults.get?_add _ _, rfl⟩

/-- The program makes a call boundary, and comes to wait there or goes on with a fault that says that the run is to
stop. -/
theorem Works.hooks (hreact : env.react = Launch.react) (h : T.Works E ids w) {call : Call} {args : List Value}
    (hargs : call.args.items = .ok args) {k : Except FaultId Step → Routine (Except FaultId Value)}
    {g : Step → Except FaultId Value → Routine (Except FaultId Value)}
    (hok : ∀ step, k (.ok step) = .await (some step.future) (g step)) :
    (∃ step, T.Pauses E (g step) (endTurn env T.job job (.op (.hook call) k) w) ∧
      w.faults.Keeps (endTurn env T.job job (.op (.hook call) k) w).faults) ∨
    ∃ step c v, endTurn env T.job job (.op (.hook call) k) w = endTurn env T.job job (g step (.error c)) v ∧
      T.Works E (ids ++ [step.id]) v ∧ w.faults.Keeps v.faults ∧ v.Raised (· = c) := by
  obtain ⟨told, htold, hkeeps, hperform⟩ := h.announces hreact hargs
  have hturn {step : Step} {v : World} (hinstall : told.installFor T.runs.size = (step, v)) :
      endTurn env T.job job (.op (.hook call) k) w = endTurn env T.job job (.await (some step.future) (g step)) v := by
    rw [hinstall] at hperform
    rw [← hok]
    exact endTurn_performs (o := .hook call) (k := k) hperform
  by_cases hcanceling : told.session.run.status = .canceling
  · obtain ⟨step, c, v, hinstall, hsettled, hworks, hkept, hraised⟩ := htold.halted hcanceling
    exact .inr ⟨step, c, v, (hturn hinstall).trans (endTurn_settled hsettled), hworks, hkeeps.trans hkept, hraised⟩
  · obtain ⟨step, v, hinstall, hpauses⟩ := htold.pauses env job hcanceling
    obtain ⟨hpaused, hsame⟩ := hpauses (g step)
    rw [hturn hinstall]
    exact .inl ⟨step, hpaused, hsame ▸ hkeeps⟩

/-- What a program is resumed with is all that it is told besides. -/
def Heedful (known : FaultId → Prop) (k : Except FaultId Value → Routine (Except FaultId Value)) : Prop :=
  ∀ received, (k received).Stepwise Routine.Told fun id => known id ∨ received = .error id

/-- A turn of a program that goes step by step comes to the next call boundary, or to the end of the run. -/
theorem Works.goes_on (hreact : env.react = Launch.react) {r : Routine (Except FaultId Value)}
    (hr : r.Stepwise Routine.Told known) (h : T.Works E ids w) (hknown : w.Raised known) (hfuture : job.future = T.future)
    (hrun : job.run = some T.runs.size) :
    (∃ k known', Heedful known' k ∧ (endTurn env T.job job r w).Raised known' ∧ T.Pauses E k (endTurn env T.job job r w)) ∨
      ∃ exit ids', T.Ends E exit ids' (endTurn env T.job job r w) := by
  induction hr generalizing ids w with
  | done htold =>
    obtain ⟨exit, hends⟩ := h.ends env (fun id hid => hknown id (htold id hid)) hfuture hrun
    exact .inr ⟨exit, ids, hends⟩
  | op ho _ ih =>
    obtain ⟨htoils, hgives⟩ := toils_perform env E.asks ho h.pending h.tells.isActive
    exact ih _ (h.toils htoils) ((hknown.kept htoils.faults).or hgives)
  | hook hargs hok hg ih =>
    obtain ⟨step, hpauses, hkeeps⟩ | ⟨step, c, v, hturn, hworks, hkeeps, hraised⟩ := h.hooks hreact hargs hok
    · exact .inl ⟨_, _, hg step, hknown.kept hkeeps, hpauses⟩
    · have hnow := ih step (.error c) hworks ((hknown.kept hkeeps).or fun id hid => hraised id (Except.error.inj hid).symm)
      rwa [← hturn] at hnow

end Errand

end SteppedLogo
