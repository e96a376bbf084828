import SteppedLogo.Proofs.Stream.Boundary

namespace SteppedLogo

open LogoList (ofWords)
open Words

namespace World

variable {env : Env} {words : Words} {source : String} {traced : Bool} {start v w : World} {n m : Nat} {lines : List Printed}
variable {job : Job} {r : RunId} {e : FaultId} {f : Fault} {status : Status} {error : Option FaultId}

/-- Where no step is pending a run is finished without more ado. -/
theorem finish_idle (hpending : w.gate.pending = none) (r : RunId) (status : Status) (error : Option FaultId) :
    ∃ log, w.finish r status error =
      { w with trace := w.trace.release, session := w.session.modifyRun r ({ · with status, error }), log } := by
  obtain ⟨reason, message, heq⟩ := finish_eq w r status error
  have hnothing : (w.cancelGate reason).2 = w := by rw [cancelGate, hpending]
  rw [heq, hnothing]
  exact ⟨_, rfl⟩

/-- How a run has ended, and the outcome of its job: nothing was wrong with the program, or its failure tells of the
error that says what was. -/
inductive Ends (faults : Faults) : Option Complaint → Outcome → Status → Option FaultId → Prop
  | completed : Ends faults none (.value .none) .completed none
  | failed {why : Complaint} {failure e : FaultId} {g f : Fault} (hfailure : faults.get? failure = some g)
    (hkind : g.kind = .program) (hinner : g.inner = some e) (hget : faults.get? e = some f)
    (hmessage : f.message = (Fault.ofComplaint why).message) :
    Ends faults (some why) (.fault failure) .failed (some e)

/-- The program has ended, and the host is about to be told. -/
structure AtEnd (words : Words) (source : String) (traced : Bool) (start w : World) : Prop where
  surface : w.Surface traced
  loop : w.loop.Queues [.wake start.jobs.size]
  pending : w.gate.pending = none
  blank : w.trace.renderer = {}
  host : ∃ hooked, w.jobs[start.jobs.size]? = some (hostJob start hooked)
  hostFuture : w.futures[start.futures.size]? = some { job := some start.jobs.size }
  run : ∃ number status error o,
    w.session.runs = start.session.runs.push
      { status, number, source, steps := (words.made start.turtle source).1.length, error } ∧
    w.outcome? (start.futures.size + 1) = some o ∧ Ends w.faults (words.made start.turtle source).2 o status error
  calls : w.calls.toList = start.calls.toList ++ (words.made start.turtle source).1.map PlannedCall.entry
  lines : w.console = start.console ++ .plain (Console.jsonRecord "input" none source) ::
    tellAll traced (Text.words source) 0 (words.made start.turtle source).1

/-- The job of the run is over with the run, and the host is to be woken. -/
theorem Amid.ended (h : Amid words source traced start n n (written words source traced n) w) {why? : Option Complaint}
    (hleads : Remainder words source start n ([], why?)) {faults : Faults} {o : Outcome}
    (hends : Ends faults why? o status error)
    (hv : ∃ log, v = { w with
      trace := w.trace.release, session := w.session.modifyRun start.session.runs.size ({ · with status, error })
      faults, log }) :
    AtEnd words source traced start (v.settle (start.futures.size + 1) o) := by
  obtain ⟨log, hv⟩ := hv
  obtain ⟨resume, hroles⟩ := h.roles
  obtain ⟨number, hruns⟩ := h.tally.runs
  obtain ⟨hooked, hhost⟩ := hroles.host
  have hfuture : v.futures[start.futures.size + 1]? =
      some { callbacks := [.wake start.jobs.size], job := some (start.jobs.size + 1) } := by
    rw [hv]
    exact hroles.jobFuture
  have hmade : (words.made start.turtle source).1 = (words.plan source).take n := congrArg Prod.fst hleads.over
  have hover : w.session.runs.modify start.session.runs.size ({ · with status, error }) =
      start.session.runs.push
        { status, number, source, steps := (words.made start.turtle source).1.length, error } := by
    rw [hruns, modify_push_size, hmade, List.length_take_of_le hleads.le]
  rw [settle_of_open hfuture rfl, hv]
  refine ⟨⟨h.surface.listeners, h.surface.traceOn, h.surface.view, h.surface.sink⟩, h.loop.append _, h.pending, rfl,
    ⟨hooked, hhost⟩, ?_, ⟨number, status, error, o, hover, ?_, hleads.over ▸ hends⟩,
    hmade ▸ h.tally.calls, hmade ▸ h.tally.lines⟩
  · change (w.futures.modify _ _)[start.futures.size]? = _
    rw [Array.getElem?_modify, if_neg (Nat.succ_ne_self _), hroles.hostFuture]
  · refine outcome?_of_get (f := { outcome := some o, callbacks := [], job := some (start.jobs.size + 1) }) ?_
    change (w.futures.modify _ _)[start.futures.size + 1]? = _
    rw [Array.getElem?_modify, if_pos rfl, hroles.jobFuture]
    rfl

/-- A program that ends as it should completes its run. -/
theorem Amid.completes (h : Amid words source traced start n n (written words source traced n) w)
    (hleads : Remainder words source start n ([], none)) (hfuture : job.future = start.futures.size + 1)
    (hrun : job.run = some start.session.runs.size) (x : Value) :
    AtEnd words source traced start (endTurn env (start.jobs.size + 1) job (.done (.ok x)) w) := by
  obtain ⟨resume, hroles⟩ := h.roles
  obtain ⟨number, hruns⟩ := h.tally.runs
  have hrunning : (w.runOf start.session.runs.size).status ≠ .canceling := by
    rw [runOf, hruns, Array.getElem?_push_size]
    intro hcanceling
    cases hcanceling
  obtain ⟨log, hfinish⟩ := finish_idle h.pending start.session.runs.size .completed none
  have hconcludes : w.endRun job.run (.ok x) = (.ok .none, w.finish start.session.runs.size .completed none) := by
    rw [hrun, endRun]
    simp only [conclude, if_neg hrunning]
    rfl
  have hcalm : (((w.finish start.session.runs.size .completed none).jobs[start.jobs.size + 1]?).map
      Job.cancelRequested).getD false = false := by
    rw [hfinish]
    change ((w.jobs[start.jobs.size + 1]?).map Job.cancelRequested).getD false = false
    rw [hroles.job]
    rfl
  change AtEnd words source traced start (w.putDown (start.jobs.size + 1) job (.finished (.ok x)))
  rw [putDown, hconcludes]
  simp only [endJob, hcalm, hfuture]
  exact h.ended hleads .completed ⟨log, hfinish⟩

theorem keeps_raiseFailure (w : World) (e : FaultId) : w.faults.Keeps (w.raiseFailure e).2.faults :=
  (Faults.keeps_add _ _).trans ((Faults.keeps_setCause _ _ _).trans (Faults.keeps_setContext _ _ _))

/-- A program that comes to an error fails its run. -/
theorem Amid.fails (h : Amid words source traced start n n (written words source traced n) w) {why : Complaint}
    (hleads : Remainder words source start n ([], some why)) (hmessage : f.message = (Fault.ofComplaint why).message)
    (hfuture : job.future = start.futures.size + 1) (hrun : job.run = some start.session.runs.size)
    (hfault : w.faults.get? e = some f) (herror : f.kind.isError = true)
    (hnone : w.faults.findCancellation e = none) :
    AtEnd words source traced start (endTurn env (start.jobs.size + 1) job (.done (.error e)) w) := by
  obtain ⟨log, hfinish⟩ := finish_idle h.pending start.session.runs.size .failed (some e)
  have hstill : (w.finish start.session.runs.size .failed (some e)).faults.get? e = some f := by
    rw [hfinish]
    exact hfault
  have hkeeps := keeps_raiseFailure (w.finish start.session.runs.size .failed (some e)) e
  have hfailure := get?_raiseFailure (w.finish start.session.runs.size .failed (some e)) e
  obtain ⟨g, hg, hagrees⟩ := hkeeps e f hstill
  have hconcludes : w.endRun job.run (.error e) =
      (.error ((w.finish start.session.runs.size .failed (some e)).raiseFailure e).1,
        ((w.finish start.session.runs.size .failed (some e)).raiseFailure e).2) := by
    rw [hrun, endRun]
    simp only [conclude_failed_eq (kindOf_of_get hfault ▸ herror) hnone]
    rfl
  change AtEnd words source traced start (w.putDown (start.jobs.size + 1) job (.finished (.error e)))
  rw [putDown, hconcludes]
  simp only [endJob, kindOf_of_get hfailure, hfuture]
  refine h.ended hleads (.failed hfailure rfl rfl hg (hagrees.message.trans hmessage)) ⟨log, ?_⟩
  simp only [raiseFailure, raise, hfinish]

/-- A program that complains fails its run. -/
theorem Amid.complains (h : Amid words source traced start n n (written words source traced n) w) {why : Complaint}
    (hleads : Remainder words source start n ([], some why)) (hordinary : why.Ordinary)
    (hfuture : job.future = start.futures.size + 1) (hrun : job.run = some start.session.runs.size) :
    AtEnd words source traced start (endTurn env (start.jobs.size + 1) job
      (.done (.error (w.raise (.ofComplaint why)).1)) (w.raise (.ofComplaint why)).2) := by
  have hraised : (w.raise (.ofComplaint why)).2.faults.get? (w.raise (.ofComplaint why)).1 = some (.ofComplaint why) :=
    Faults.get?_add _ _
  have hamid : Amid words source traced start n n (written words source traced n) (w.raise (.ofComplaint why)).2 :=
    h.retained {} rfl rfl rfl rfl
  exact hamid.fails hleads rfl hfuture hrun hraised hordinary.1 (Faults.findCancellation_none hraised hordinary.2 rfl)

end World

end SteppedLogo
