import SteppedLogo.Proofs.Session.Concluded
import SteppedLogo.Proofs.Session.Scenes

namespace SteppedLogo

/-- The statuses that may follow one another in a run. -/
inductive Status.Next : Status → Status → Prop
  | cancels : Next .running .canceling
  | completes {s : Status} (hactive : s.isActive = true) : Next s .completed
  | fails {s : Status} (hactive : s.isActive = true) : Next s .failed

/-- How the active run comes forward while the gate has counted so many steps. -/
inductive Run.Next (count : Nat) (run : Run) : Run → Prop
  | counts (hactive : run.status.isActive = true) : Next count run { run with steps := count }
  | cancels (hrunning : run.status = .running) (reason : Value) :
    Next count run { run with status := .canceling, reason }
  | completes (hactive : run.status.isActive = true) :
    Next count run { run with status := .completed, error := none }
  | fails (hactive : run.status.isActive = true) (error : FaultId) :
    Next count run { run with status := .failed, error := some error }

/-- Operations that leave the steps counted, unless they begin a run. -/
def Op.KeepsCount : Op → Prop
  | resetGate => False
  | _ => True

/-- Operations that leave it to the runs to make call boundaries, and to count them. -/
def Op.LeavesCount (o : Op) : Prop := o.IsQuiet ∧ o.KeepsCount

/-- An operation that steers the run makes no call boundary and leaves the count of steps. -/
theorem Op.Steers.leavesCount {o : Op} (hsteers : o.Steers) : o.LeavesCount := by
  refine ⟨hsteers.quiet, ?_⟩
  cases o with
  | resetGate => exact hsteers
  | _ => trivial

/-- The operations of a primitive are among those that leave the count of steps. -/
theorem Op.guards_leavesCount : Op.Guards Op.LeavesCount :=
  ⟨fun _ h => h.1, fun _ hstep => (Deed.code_steers hstep).imp fun _ h => h.leavesCount⟩

/-- No listener makes call boundaries or counts them anew, and programs make theirs through the
hook. -/
structure Env.Counted (env : Env) : Prop extends env.Confined where
  react : ∀ name event, (env.react name event).run.All Op.LeavesCount
  program : ∀ source, (env.program source).run.All Op.KeepsCount

namespace World

variable {env : Env} {u v w : World} {r : RunId} {id : JobId} {job : Job}

/-- Two states with the same runs, of which the gate has counted the same steps. -/
structure Unmarked (w v : World) : Prop where
  runs : v.session.runs = w.session.runs
  number : v.session.nextNumber = w.session.nextNumber
  seq : v.gate.seq = w.gate.seq

/-- What happens to the runs of a session and to the count of its steps: the gate counts, a run
begins, or the current run comes forward. -/
inductive Marks (w v : World) : Prop
  | stays (hruns : v.session.runs = w.session.runs)
    (hnumber : v.session.nextNumber = w.session.nextNumber) (hseq : w.gate.seq ≤ v.gate.seq)
  | begins (source : String) (hinactive : w.session.isActive = false)
    (hruns : v.session.runs =
      w.session.runs.push { status := .running, number := w.session.nextNumber, source })
    (hnumber : v.session.nextNumber = w.session.nextNumber + 1) (hseq : v.gate.seq = 0)
  | moves (change : Run → Run) (hnext : Run.Next w.gate.seq w.session.run (change w.session.run))
    (hruns : v.session.runs = w.session.runs.modify w.session.current change)
    (hnumber : v.session.nextNumber = w.session.nextNumber) (hseq : v.gate.seq = w.gate.seq)

/-- Any number of marks. -/
abbrev AllMarks : World → World → Prop := Relation.ReflTransGen Marks

@[refl]
theorem Unmarked.refl (w : World) : w.Unmarked w := ⟨rfl, rfl, rfl⟩

@[trans]
theorem Unmarked.trans (huv : u.Unmarked v) (hvw : v.Unmarked w) : u.Unmarked w :=
  ⟨hvw.runs.trans huv.runs, hvw.number.trans huv.number, hvw.seq.trans huv.seq⟩

/-- Two states with the same runs and count of steps are joined by no mark at all. -/
theorem Unmarked.marks (h : w.Unmarked v) : w.AllMarks v :=
  .single (.stays h.runs h.number (Nat.le_of_eq h.seq.symm))

theorem Unmarked.run (h : w.Unmarked v) : v.session.run = w.session.run := by
  rw [Session.run, Session.run, h.runs]

theorem unmarked_addLog (w : World) (level : Level) (logger message : String) (fault : Option String) :
    w.Unmarked (w.addLog level logger message fault) := ⟨rfl, rfl, rfl⟩

/-- Settling a future changes no run and counts no step. -/
theorem unmarked_settle (w : World) (id : FutureId) (o : Outcome) : w.Unmarked (w.settle id o) := by
  constructor <;> simp

/-- Retracting a step changes no run and counts no step. -/
theorem unmarked_retract (w : World) (i : StepId) : w.Unmarked (w.retract i) :=
  retract_keeps (K := w.Unmarked) (.refl w) (fun _ => ⟨rfl, rfl, rfl⟩) fun _ hu => hu.trans ⟨rfl, rfl, rfl⟩

/-- Rejecting a step changes no run and counts no step. -/
theorem unmarked_cancelStep (w : World) (i : StepId) (reason : Value) :
    w.Unmarked (w.cancelStep i reason).2 := by
  obtain ⟨heq, -⟩ | ⟨s, -, -, heq⟩ := cancelStep_cases w i reason
  · rw [heq]
  · rw [heq]
    have hraised : w.Unmarked ((w.retract i).raise (.cancellation reason)).2 :=
      (unmarked_retract w i).trans ⟨rfl, rfl, rfl⟩
    exact (hraised.trans (unmarked_settle _ _ _)).trans (unmarked_addLog ..)

/-- Cancelling the gate changes no run and counts no step. -/
theorem unmarked_cancelGate (w : World) (reason : Value) : w.Unmarked (w.cancelGate reason).2 :=
  cancelGate_keeps (K := w.Unmarked) (.refl w) fun id => unmarked_cancelStep w id reason

/-- The end of a step's time changes no run and counts no step. -/
theorem unmarked_elapse (w : World) (i : StepId) : w.Unmarked (w.elapse i) := by
  obtain ⟨heq, -⟩ | ⟨s, -, -, heq⟩ := elapse_cases w i
  · rw [heq]
  · rw [heq]
    exact (unmarked_retract w i).trans (unmarked_settle _ _ _)

/-- Cancelling a future changes no run and counts no step. -/
theorem unmarked_cancelFuture (w : World) (id : FutureId) : w.Unmarked (w.cancelFuture id).2 := by
  refine cancelFuture_keeps (K := w.Unmarked) (.refl w) (fun u v hu hstep => hu.trans ?_) id
  cases hstep with
  | plain => exact unmarked_settle _ _ _
  | request => exact ⟨rfl, rfl, rfl⟩

/-- Cancelling a tracked job changes no run and counts no step. -/
theorem unmarked_cancelTracked (w : World) (index : Option Nat) :
    w.Unmarked (w.cancelTracked index).2 := by
  unfold cancelTracked
  split
  · exact unmarked_cancelFuture w _
  · rfl

theorem unmarked_print (w : World) (category text : String) : w.Unmarked (w.print category text) := by
  simp only [World.print]
  split <;> exact ⟨rfl, rfl, rfl⟩

theorem unmarked_showCall (w : World) (call : Call) : w.Unmarked (w.showCall call) := by
  unfold showCall
  split
  · rfl
  · rfl
  · dsimp only
    split <;> exact ⟨rfl, rfl, rfl⟩

/-- Setting up a pending step changes no run: the step has been counted when its call was shown. -/
theorem unmarked_installStep (w : World) : w.Unmarked w.installStep.2 := by
  obtain ⟨message, heq⟩ := installStep_eq w
  rw [heq]
  exact ⟨rfl, rfl, rfl⟩

theorem unmarked_receive (w : World) (o : Outcome) : w.Unmarked (w.receive o).2 := by
  cases o <;> exact ⟨rfl, rfl, rfl⟩

/-- Taking a job up changes no run and counts no step. -/
theorem unmarked_takeUp (w : World) (id : JobId) (job : Job) (received : Except FaultId Value) :
    w.Unmarked (w.takeUp id job received).2 := by
  have hresumption : w.Unmarked (w.resumption job received).2 := by
    unfold resumption
    split
    · split
      · split
        · rfl
        · exact unmarked_receive w .cancelled
      · exact unmarked_receive w .cancelled
    · rfl
  rw [takeUp_eq]
  exact hresumption.trans ⟨rfl, rfl, rfl⟩

/-- The end of a job changes no run of its own: the run has been concluded before. -/
theorem unmarked_endJob (w : World) (id : JobId) (future : FutureId) (result : Except FaultId Value) :
    w.Unmarked (w.endJob id future result) := by
  obtain ⟨o, heq⟩ := endJob_eq w id future result
  rw [heq]
  exact unmarked_settle w future o

/-- Parking a job changes no run and counts no step. -/
theorem unmarked_park (w : World) (id : JobId) (future : FutureId)
    (k : Except FaultId Value → Routine (Except FaultId Value)) : w.Unmarked (w.park id future k) := by
  have hwait : w.Unmarked
      ((w.modifyJob id ({ · with resume := k, waiting := some future })).whenDone future (.wake id)) := by
    unfold whenDone
    split <;> exact ⟨rfl, rfl, rfl⟩
  unfold park
  dsimp only
  split
  · have hcancel := hwait.trans (unmarked_cancelFuture _ future)
    split
    · exact hcancel.trans ⟨rfl, rfl, rfl⟩
    · exact hcancel
  · exact hwait

/-- Where a run is active no other one begins, and nothing but a fault comes of the attempt. -/
theorem start_of_active (program : Work Value) (source : String) (hactive : w.session.isActive = true) :
    ∃ fault faults, w.start program source = (.error fault, { w with faults }) ∧
      faults.get? fault = some (.ofComplaint (stillActive w.session.run)) := by
  obtain ⟨-, heq⟩ | ⟨hinactive, -⟩ := start_cases program source w
  · exact ⟨_, _, heq, Faults.get?_add _ _⟩
  · rw [hactive] at hinactive
    cases hinactive

/-- Where none is active a run begins, with the next number and no steps. -/
theorem start_of_inactive (program : Work Value) (source : String)
    (hinactive : w.session.isActive = false) :
    ∃ future v, w.start program source = (.ok future, v) ∧ v.session.runs =
        w.session.runs.push { status := .running, number := w.session.nextNumber, source } ∧
      v.session.nextNumber = w.session.nextNumber + 1 ∧ v.gate.seq = 0 := by
  rw [Session.isActive] at hinactive
  simp only [start, hinactive, Bool.false_eq_true, if_false]
  exact ⟨_, _, rfl, rfl, rfl, rfl⟩

/-- A start begins a run with the next number, or is refused and changes no run. -/
theorem marks_start (program : Work Value) (source : String) (w : World) :
    w.Marks (w.start program source).2 := by
  cases hactive : w.session.isActive with
  | true =>
    obtain ⟨fault, faults, heq, -⟩ := start_of_active program source hactive
    rw [heq]
    exact .stays rfl rfl (Nat.le_refl _)
  | false =>
    obtain ⟨future, v, heq, hruns, hnumber, hseq⟩ := start_of_inactive program source hactive
    rw [heq]
    exact .begins source hactive hruns hnumber hseq

/-- Asking the current run to stop makes a running one canceling with the reason given, and changes no other. -/
theorem marks_cancelRun (w : World) (reason : Value) : w.AllMarks (w.cancelRun reason) := by
  refine cancelRun_keeps (K := w.AllMarks) .refl fun _ hrunning => ?_
  have hmoves : w.Marks (w.modifyRun w.session.current ({ · with status := .canceling, reason })) :=
    .moves ({ · with status := .canceling, reason }) (.cancels hrunning reason) rfl rfl rfl
  refine .head hmoves (Unmarked.marks ?_)
  exact (unmarked_cancelGate _ reason).trans (unmarked_addLog ..)

/-- A primitive called with any arguments changes no run but by asking it to stop. -/
theorem marks_invoke (h : Handler) (args : List Value) (w : World) :
    w.AllMarks (w.invoke env h args).2 := by
  unfold invoke
  split
  · next p =>
    obtain ⟨_, _, _, _, _, _, heq⟩ := callPrimitive_frame p args w
    rw [heq]
    exact Unmarked.marks ⟨rfl, rfl, rfl⟩
  · exact marks_cancelRun w _
  · exact marks_cancelRun w _
  · exact Unmarked.marks ⟨rfl, rfl, rfl⟩
  · next v =>
    have hstart := marks_start (env.program v.display) v.display w
    split <;> next heq => rw [heq] at hstart; exact .single hstart
  all_goals exact Unmarked.marks ⟨rfl, rfl, rfl⟩

/-- An operation that makes no call boundary asks a run to stop, begins one, or leaves no mark. -/
theorem performWith_marks (notify : Notify) {o : Op} (ho : o.LeavesCount) (w : World) :
    w.AllMarks (performWith env notify o w).2 := by
  obtain ⟨hquiet, hcount⟩ := ho
  cases o with
  | hook | step => cases hquiet
  | resetGate => cases hcount
  | cancelRun reason | requestBreak reason => exact marks_cancelRun w reason
  | interrupt =>
    exact deliverInterrupt_keeps (K := w.AllMarks) .refl fun reason => marks_cancelRun w reason
  | start source => exact .single (marks_start _ source w)
  | invoke handler args => exact marks_invoke handler args w
  | cancelGate reason => exact (unmarked_cancelGate w reason).marks
  | cancelStep step reason => exact (unmarked_cancelStep w step reason).marks
  | cancelFuture future => exact (unmarked_cancelFuture w future).marks
  | cancelTracked index => exact (unmarked_cancelTracked w index).marks
  | print category text => exact (unmarked_print w category text).marks
  | defer delay deed => cases delay <;> exact Unmarked.marks ⟨rfl, rfl, rfl⟩
  | setPacing seconds =>
    apply Unmarked.marks
    simp only [performWith, World.setPacing]
    split <;> exact ⟨rfl, rfl, rfl⟩
  | clearView =>
    apply Unmarked.marks
    simp only [performWith, modifyShownView]
    split <;> exact ⟨rfl, rfl, rfl⟩
  | showTrace event =>
    apply Unmarked.marks
    simp only [performWith, World.showTrace]
    split <;> exact ⟨rfl, rfl, rfl⟩
  | hookInterrupt reason =>
    apply Unmarked.marks
    change w.Unmarked (if env.signals then (.ok (), { w with interrupt := some reason })
      else w.complain noSignals : Except FaultId Unit × World).2
    split <;> exact ⟨rfl, rfl, rfl⟩
  | _ => exact Unmarked.marks ⟨rfl, rfl, rfl⟩

/-- Telling the listeners marks only what they do, provided none makes a call boundary. -/
theorem notify_marks (henv : env.Counted) (event : StepEvent) (w : World) :
    w.AllMarks (notify env event w).2 :=
  notifyWith_keeps (P := Op.LeavesCount)
    (fun _ ho v hv => Relation.ReflTransGen.trans hv (performWith_marks _ ho v))
    (fun _ _ _ _ _ hv => Relation.ReflTransGen.trans hv (unmarked_addLog ..).marks)
    (fun name => henv.react name event) .refl

/-- A step is counted when it is announced; what else is marked is the work of the listeners. -/
theorem announceStep_marks (henv : env.Counted) (call : Call) (w : World) :
    w.AllMarks (w.announceStep (notify env) call).2 := by
  unfold announceStep
  split
  · exact Unmarked.marks ⟨rfl, rfl, rfl⟩
  · have hcount : w.Marks (w.modifyGate fun g => { g with seq := g.seq + 1 }) :=
      .stays rfl rfl (Nat.le_succ _)
    have hshown := (unmarked_showCall (w.modifyGate fun g => { g with seq := g.seq + 1 }) call).marks
    have hannounced : w.AllMarks _ := .head hcount hshown
    dsimp only
    split
    · exact hannounced.trans (Unmarked.marks ⟨rfl, rfl, rfl⟩)
    · exact hannounced.trans (notify_marks henv _ _)

/-- The step that is set up for the active run is counted in it. -/
theorem installFor_marks (hactive : w.session.isActive = true) :
    w.AllMarks (w.installFor w.session.current).2 := by
  have hinstall := unmarked_installStep w
  have hcurrent : w.installStep.2.session.current = w.session.current := by
    rw [session_installStep]
  have hcounts : w.installStep.2.Marks
      (w.installStep.2.modifyRun w.session.current ({ · with steps := w.installStep.1.seq })) := by
    refine .moves ({ · with steps := w.installStep.1.seq }) ?_ (by rw [hcurrent]; rfl) rfl rfl
    have hseq : w.installStep.1.seq = w.installStep.2.gate.seq := by
      obtain ⟨message, heq⟩ := installStep_eq w
      rw [heq]
      rfl
    rw [hseq, hinstall.run]
    exact .counts hactive
  have hboth : w.AllMarks _ := hinstall.marks.tail hcounts
  obtain ⟨-, heq⟩ | ⟨-, heq⟩ := installFor_cases w.session.current w
  · rw [heq]
    exact hboth
  · rw [heq]
    exact hboth.trans (unmarked_cancelStep _ _ _).marks

/-- A call boundary of an active run counts one step of the gate, and the run takes its number over. -/
theorem hook_marks (henv : env.Counted) (hw : w.Sound) (hactive : w.session.isActive = true) (call : Call) :
    w.AllMarks (w.perform env (.hook call)).2 := by
  rw [perform_eq]
  change w.AllMarks (w.hook (notify env) call).2
  obtain ⟨shown, hcall⟩ := hook_cases (notify env) call w
  have hmarks := announceStep_marks henv shown w
  have hextends := (Changes.grows (announceStep_touches henv.toConfined shown w).changes hw).2
  obtain ⟨fault, u, hannounced, heq⟩ | ⟨u, hannounced, heq⟩ := hcall
  · rw [heq]
    simpa only [hannounced] using hmarks
  · rw [hannounced] at hmarks hextends
    have hcurrent : u.session.current = w.session.current := by
      rw [Session.current, Session.current, hextends.current hactive]
    rw [heq, ← hcurrent]
    exact hmarks.trans (installFor_marks (hextends.isActive hactive))

/-- The end of the program of the active run is the end of the run, in a failure exactly if there is an
error. -/
theorem conclude_marks (hactive : w.session.isActive = true) (fault : Option FaultId) :
    w.AllMarks (w.conclude w.session.current fault).2 := by
  have hfinish {u : World} (hu : w.Unmarked u) {status : Status} {error : Option FaultId}
      (hend : ∀ run : Run, run.status.isActive = true →
        run.Next w.gate.seq { run with status, error }) :
      w.AllMarks (u.finish w.session.current status error) := by
    obtain ⟨reason, message, heq⟩ := finish_eq u w.session.current status error
    have hcancelled : w.Unmarked ((u.cancelGate reason).2.modifyTrace Trace.release) :=
      (hu.trans (unmarked_cancelGate u reason)).trans ⟨rfl, rfl, rfl⟩
    have hcurrent : ((u.cancelGate reason).2.modifyTrace Trace.release).session.current =
        w.session.current := by
      rw [Session.current, Session.current, hcancelled.runs]
    rw [heq]
    refine (hcancelled.marks.tail ?_).trans (unmarked_addLog ..).marks
    refine .moves ({ · with status, error }) ?_ (by rw [hcurrent]; rfl) rfl rfl
    rw [hcancelled.seq, hcancelled.run]
    exact hend _ hactive
  have hfaults {u : World} (hu : w.AllMarks u) (faults : Faults) : w.AllMarks { u with faults } :=
    hu.trans (Unmarked.marks ⟨rfl, rfl, rfl⟩)
  unfold conclude
  split
  · dsimp only
    refine hfinish ?_ fun _ h => .completes h
    split
    · exact unmarked_addLog ..
    · rfl
  · next fault =>
    split
    · exact hfinish (.refl w) fun _ h => .fails h fault
    · split
      · rfl
      · split
        · next stop _ =>
          dsimp only
          split
          · exact hfinish (.refl w) fun _ h => .fails h stop
          · exact hfaults (hfinish (.refl w) fun _ h => .fails h stop) _
        · exact hfaults (hfaults (hfinish (.refl w) fun _ h => .fails h fault) _) _

/-- Putting down the job that has its turn concludes its run if it ends, and changes no run if it waits. -/
theorem putDown_marks (hw : w.Sound) (hup : w.Up id job) (stop : Stop (Except FaultId Value)) :
    w.AllMarks (w.putDown id job stop) := by
  cases stop with
  | parked future k => exact (unmarked_park w id future k).marks
  | paused k => exact Unmarked.marks ⟨rfl, rfl, rfl⟩
  | finished result =>
    change w.AllMarks ((w.endRun job.run result).2.endJob id job.future (w.endRun job.run result).1)
    refine Relation.ReflTransGen.trans ?_ (unmarked_endJob _ id job.future _).marks
    cases hrun : job.run with
    | none => rfl
    | some r =>
      obtain ⟨hcurrent, hactive⟩ := hup.active hw hrun
      obtain ⟨fault, heq, -⟩ := endRun_some w r result
      rw [heq, hcurrent]
      exact conclude_marks hactive fault

end World

end SteppedLogo
