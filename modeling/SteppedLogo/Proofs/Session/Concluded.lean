import SteppedLogo.Proofs.Session.Passes
import SteppedLogo.Proofs.World.Parts

namespace SteppedLogo.World

variable {w : World} {r : RunId} {id : JobId} {job : Job} {fault stop : FaultId} {f : Fault}

/-- A run is over with the error that it is finished with. -/
theorem runs_finish (w : World) (r : RunId) (status : Status) (error : Option FaultId) :
    (w.finish r status error).session.runs = w.session.runs.modify r ({ · with status, error }) := by
  obtain ⟨reason, message, heq⟩ := finish_eq w r status error
  rw [heq]
  exact congrArg (·.modify r ({ · with status, error })) (runs_cancelGate w reason)

/-- A run is over, with an error if it has failed. -/
structure Over (w : World) (r : RunId) (status : Status) (error : Option FaultId) : Prop where
  run : ∃ run : Run, w.session.runs[r]? = some run ∧ run.status = status ∧ run.error = error

theorem over_of_modify {v : World} {run : Run} (hrun : w.session.runs[r]? = some run) {status : Status}
    {error : Option FaultId} (hruns : v.session.runs = w.session.runs.modify r ({ · with status, error })) :
    v.Over r status error := by
  refine ⟨⟨{ run with status, error }, ?_, rfl, rfl⟩⟩
  rw [hruns, Array.getElem?_modify, if_pos rfl, hrun]
  rfl

theorem Over.runOf {status : Status} {error : Option FaultId} (h : w.Over r status error) :
    (w.runOf r).status = status ∧ (w.runOf r).error = error := by
  obtain ⟨run, hrun, hstatus, herror⟩ := h.run
  rw [World.runOf, hrun]
  exact ⟨hstatus, herror⟩

theorem runs_completed (w : World) (r : RunId) :
    (w.conclude r none).2.session.runs = w.session.runs.modify r ({ · with status := .completed, error := none }) := by
  have hruns (u : World) := runs_finish u r .completed none
  simp only [conclude]
  split
  · exact hruns _
  · exact hruns w

/-- The cancellation of the job passes as it is, and leaves its run failed with it. -/
theorem conclude_cancelled (hfault : w.faults.get? fault = some f) (hkind : f.kind = .taskCancelled) :
    (w.conclude r (some fault)).1 = .error fault ∧ (w.conclude r (some fault)).2.session.runs =
      w.session.runs.modify r ({ · with status := .failed, error := some fault }) := by
  simp only [conclude, kindOf_of_get hfault, hkind, if_true]
  exact ⟨trivial, runs_finish w r .failed (some fault)⟩

/-- The deliberate stop that is found behind an error stands in its place. -/
theorem conclude_stopped (hfault : w.faults.get? fault = some f) (herror : f.kind.isError = true)
    (hfound : w.faults.findCancellation fault = some stop) :
    (w.conclude r (some fault)).1 = .error stop ∧ (w.conclude r (some fault)).2.session.runs =
      w.session.runs.modify r ({ · with status := .failed, error := some stop }) := by
  have hkind := kindOf_of_get hfault
  refine ⟨conclude_stopped_eq (hkind ▸ herror) hfound r, ?_⟩
  have hruns := runs_finish w r .failed (some stop)
  have hplain : f.kind ≠ .taskCancelled := by
    intro h
    rw [h] at herror
    cases herror
  simp only [conclude, hkind, if_neg hplain, herror, hfound, Bool.not_true, Bool.false_eq_true, if_false]
  split <;> exact hruns

/-- Any other error becomes the cause of a failure of the program. -/
theorem conclude_failed (hw : w.Wired) (hfault : w.faults.get? fault = some f) (herror : f.kind.isError = true)
    (hnone : w.faults.findCancellation fault = none) :
    (∃ failure g, (w.conclude r (some fault)).1 = .error failure ∧
      (w.conclude r (some fault)).2.faults.get? failure = some g ∧ g.kind = .program ∧ g.inner = some fault ∧
        g.cause = some fault ∧ g.args = [.text f.summary] ∧ g.reason = .none) ∧
    (w.conclude r (some fault)).2.session.runs =
      w.session.runs.modify r ({ · with status := .failed, error := some fault }) := by
  obtain ⟨g, hg, hagrees⟩ := (spares_finish hw r .failed (some fault)).faults fault f hfault
  rw [conclude_failed_eq (kindOf_of_get hfault ▸ herror) hnone]
  refine ⟨⟨_, _, rfl, get?_raiseFailure _ _, rfl, rfl, rfl, ?_, rfl⟩, runs_finish w r .failed (some fault)⟩
  simp only [hg, Option.getD_some, Fault.ofProgram, Fault.summary, hagrees.message, hagrees.kind]

/-- The future of a job that has its turn is still open when the run of the job ends. -/
theorem open_endRun (hw : w.Wired) (hup : w.Up id job) (result : Except FaultId Value) :
    ∃ g : Future, (w.endRun job.run result).2.futures[job.future]? = some g ∧ g.outcome = none := by
  obtain ⟨now, hnow, hfuture, -⟩ := hup.get
  obtain ⟨f, hf, howner⟩ := hw.job_future id now hnow
  rw [hfuture] at hf
  have hkeeps : KeepsFutures w (w.endRun job.run result).2 ∧ KeepsOwned none w (w.endRun job.run result).2 := by
    cases job.run with
    | none => exact ⟨.refl w, .of_eq rfl⟩
    | some r =>
      obtain ⟨fault, heq, -⟩ := endRun_some w r result
      rw [heq]
      exact ⟨(eases_conclude hw r fault).futures, keepsOwned_conclude hw r fault⟩
  obtain ⟨g, hg, -⟩ := hkeeps.1 _ f hf
  refine ⟨g, hg, ?_⟩
  rw [← outcome?_of_get hg, hkeeps.2 _ f id hf howner nofun]
  exact hup.undone

/-- The run of a job that has its turn is one of the session. -/
theorem Up.run (hup : w.Up id job) (hw : w.Sound) (hrun : job.run = some r) :
    ∃ run : Run, w.session.runs[r]? = some run ∧ run.status.isActive = true := by
  obtain ⟨now, hnow, -, hnowRun, -⟩ := hup.get
  obtain ⟨run, hget, -, hactive⟩ := hw.job_run id now r hnow (hnowRun.trans hrun)
  exact ⟨run, hget, hactive (.inl (isDone_eq_false.2 (hup.outcome?_get hnow)))⟩

theorem outcome?_putDown_ok (hw : w.Sound) (hup : w.Up id job) (hrun : job.run = some r) (x : Value) :
    (w.putDown id job (.finished (.ok x))).outcome? job.future = some .cancelled ∨
      (w.putDown id job (.finished (.ok x))).outcome? job.future = some (.value .none) := by
  obtain ⟨g, hg, hopen⟩ := open_endRun hw.toWired hup (.ok x)
  have heq : w.putDown id job (.finished (.ok x)) =
      (w.endRun job.run (.ok x)).2.endJob id job.future (.ok .none) := by
    simp only [putDown, hrun]
    rfl
  rw [heq]
  exact outcome?_endJob_ok hg hopen id .none

/-- A job that is not to be cancelled ends with its value, and its run is completed. -/
theorem completed_putDown (hw : w.Sound) (hup : w.Up id job) (hrun : job.run = some r)
    (hrequested : ∀ now : Job, w.jobs[id]? = some now → now.cancelRequested = false) (x : Value) :
    (w.putDown id job (.finished (.ok x))).outcome? job.future = some (.value .none) ∧
      (w.putDown id job (.finished (.ok x))).Over r .completed none := by
  obtain ⟨g, hg, hopen⟩ := open_endRun hw.toWired hup (.ok x)
  obtain ⟨now, hnow, -⟩ := hup.get
  have hjobs : (w.endRun job.run (.ok x)).2.jobs = w.jobs := jobs_endRun w job.run (.ok x)
  have hend : w.putDown id job (.finished (.ok x)) =
      (w.endRun job.run (.ok x)).2.settle job.future (.value .none) := by
    have hplain : (w.endRun job.run (.ok x)).2.endJob id job.future (.ok .none) =
        (w.endRun job.run (.ok x)).2.settle job.future (.value .none) := by
      simp [endJob, hjobs, hnow, hrequested now hnow]
    rw [← hplain]
    simp only [putDown, hrun]
    rfl
  obtain ⟨run, hget, -⟩ := hup.run hw hrun
  rw [hend]
  refine ⟨outcome?_settle_of_open hg hopen _, over_of_modify hget ?_⟩
  rw [settle_session, hrun]
  exact runs_completed w r

theorem outcome?_putDown_error (hw : w.Wired) (hup : w.Up id job) (hrun : job.run = some r)
    (hstop : (w.conclude r (some fault)).1 = .error stop) :
    (w.putDown id job (.finished (.error fault))).faults = (w.conclude r (some fault)).2.faults ∧
      (w.putDown id job (.finished (.error fault))).session = (w.conclude r (some fault)).2.session ∧
      (w.putDown id job (.finished (.error fault))).outcome? job.future =
        some (if (w.conclude r (some fault)).2.faults.kindOf stop = .taskCancelled then .cancelled else .fault stop) := by
  obtain ⟨g, hg, hopen⟩ := open_endRun hw hup (.error fault)
  have hresult : w.endRun (some r) (.error fault) = (.error stop, (w.conclude r (some fault)).2) := by
    simp only [endRun, hstop]
    rfl
  have heq : w.putDown id job (.finished (.error fault)) =
      (w.conclude r (some fault)).2.endJob id job.future (.error stop) := by
    simp only [putDown, hrun, hresult]
  rw [hrun, hresult] at hg
  obtain ⟨o, hend⟩ := endJob_eq (w.conclude r (some fault)).2 id job.future (.error stop)
  rw [heq]
  exact ⟨faults_endJob _ _ _ _, by rw [hend, settle_session], outcome?_endJob_error hg hopen id stop⟩

end SteppedLogo.World
