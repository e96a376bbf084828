import SteppedLogo.Proofs.Gate.Outstanding

namespace SteppedLogo.World

variable {env : Env} {u v w : World} {i : StepId} {o : Outcome}

/-- Two states in which programs have done the same. -/
structure Alike (w v : World) : Prop where
  calls : v.calls = w.calls
  turtle : v.turtle = w.turtle
  accepts : v.output.accepts = w.output.accepts
  printed : v.output.calls = w.output.calls
  lines : v.output.lines = w.output.lines

theorem Alike.refl (w : World) : w.Alike w := ⟨rfl, rfl, rfl, rfl, rfl⟩

theorem Alike.symm (h : w.Alike v) : v.Alike w :=
  ⟨h.calls.symm, h.turtle.symm, h.accepts.symm, h.printed.symm, h.lines.symm⟩

theorem Alike.trans (huv : u.Alike v) (hvw : v.Alike w) : u.Alike w :=
  ⟨hvw.calls.trans huv.calls, hvw.turtle.trans huv.turtle, hvw.accepts.trans huv.accepts,
    hvw.printed.trans huv.printed, hvw.lines.trans huv.lines⟩

/-- A step that is settled is no longer pending, unless it is cancelled; it is rejected by no fault
but a deliberate stop. -/
def Released (w : World) (i : StepId) : Outcome → Prop
  | .value _ => w.gate.pending ≠ some i
  | .fault id => w.gate.pending ≠ some i ∧ ∃ f, w.faults.get? id = some f ∧ f.kind = .cancellation
  | .cancelled => True

/-- No step is added to those of the gate or counted, the pending one may leave the gate, and each that
is settled is released. What programs have done stays as it is. -/
structure Spares (w v : World) : Prop where
  alike : w.Alike v
  fresh : v.fresh = w.fresh
  seq : v.gate.seq = w.gate.seq
  pending : ∀ i, v.gate.pending = some i → w.gate.pending = some i
  steps : KeepsSteps w v
  runs : ∀ r : RunId, (v.session.runs[r]?).map Run.steps = (w.session.runs[r]?).map Run.steps
  faults : w.faults.Keeps v.faults
  settled : ∀ (i : StepId) (s : PacedStep), w.gate.steps[i]? = some s → ∀ o,
    v.outcome? s.future = some o → w.outcome? s.future = some o ∨ v.Released i o

/-- A step stays released if no step becomes pending. -/
theorem Released.mono (h : w.Released i o) (hpending : ∀ i, v.gate.pending = some i → w.gate.pending = some i)
    (hfaults : w.faults.Keeps v.faults) : v.Released i o := by
  cases o with
  | value => exact fun hi => h (hpending i hi)
  | fault id =>
    obtain ⟨hoff, f, hf, hkind⟩ := h
    obtain ⟨g, hg, hagrees⟩ := hfaults id f hf
    exact ⟨fun hi => hoff (hpending i hi), g, hg, hagrees.kind.trans hkind⟩
  | cancelled => trivial

/-- What spares the steps of the gate twice spares them. -/
theorem Spares.trans (huv : u.Spares v) (hvw : v.Spares w) : u.Spares w where
  alike := huv.alike.trans hvw.alike
  fresh := hvw.fresh.trans huv.fresh
  seq := hvw.seq.trans huv.seq
  pending i hi := huv.pending i (hvw.pending i hi)
  steps := huv.steps.trans hvw.steps
  runs r := (hvw.runs r).trans (huv.runs r)
  faults := huv.faults.trans hvw.faults
  settled i s hs o ho := by
    obtain ⟨t, ht, hst⟩ := huv.steps.get hs
    obtain ho | hreleased := hvw.settled i t ht o (hst ▸ ho)
    · obtain ho | hreleased := huv.settled i s hs o (hst ▸ ho)
      · exact .inl ho
      · exact .inr (hreleased.mono hvw.pending hvw.faults)
    · exact .inr hreleased

/-- No run is begun. -/
theorem Spares.runs_size (h : w.Spares v) : v.session.runs.size = w.session.runs.size := by
  have hle {x y : World} (hruns : ∀ r : RunId, (y.session.runs[r]?).map Run.steps = (x.session.runs[r]?).map Run.steps) :
      y.session.runs.size ≤ x.session.runs.size :=
    size_le_of_get fun r run hrun => by
      have hsteps := hruns r
      rw [hrun, Option.map_some, eq_comm, Option.map_eq_some_iff] at hsteps
      exact hsteps.imp fun _ hnow => hnow.1
  exact Nat.le_antisymm (hle h.runs) (hle fun r => (h.runs r).symm)

/-- The steps of each run are as many as before. -/
theorem Spares.runOf_steps (h : w.Spares v) (r : RunId) : (v.runOf r).steps = (w.runOf r).steps := by
  have hrun := h.runs r
  rw [runOf, runOf]
  cases hv : v.session.runs[r]? with
  | none =>
    rw [hv] at hrun
    rw [Option.map_eq_none_iff.1 hrun.symm]
  | some run =>
    rw [hv] at hrun
    obtain ⟨old, hold, hsteps⟩ := Option.map_eq_some_iff.1 hrun.symm
    rw [hold, Option.getD_some, Option.getD_some, hsteps]

/-- A change of neither the gate's steps nor the futures. -/
theorem spares_of_futures (halike : w.Alike v) (hfresh : v.fresh = w.fresh) (hseq : v.gate.seq = w.gate.seq)
    (hpending : ∀ i, v.gate.pending = some i → w.gate.pending = some i) (hsteps : KeepsSteps w v)
    (hruns : ∀ r : RunId, (v.session.runs[r]?).map Run.steps = (w.session.runs[r]?).map Run.steps)
    (hfaults : w.faults.Keeps v.faults) (hfutures : v.futures = w.futures) : w.Spares v :=
  ⟨halike, hfresh, hseq, hpending, hsteps, hruns, hfaults, fun _ _ _ o ho => .inl (by rwa [outcome?, hfutures] at ho)⟩

/-- A change of nothing that is told of here. -/
theorem spares_of_same (halike : w.Alike v) (hfresh : v.fresh = w.fresh) (hseq : v.gate.seq = w.gate.seq)
    (hpending : v.gate.pending = w.gate.pending) (hsteps : v.gate.steps = w.gate.steps)
    (hruns : v.session.runs = w.session.runs) (hfaults : w.faults.Keeps v.faults) (hfutures : v.futures = w.futures) :
    w.Spares v :=
  spares_of_futures halike hfresh hseq (fun _ hi => hpending ▸ hi) (.of_eq hsteps) (fun _ => by rw [hruns]) hfaults hfutures

theorem Spares.refl (w : World) : w.Spares w := spares_of_same (.refl w) rfl rfl rfl rfl rfl (.refl _) rfl

/-- Raising faults spares the steps of the gate. -/
theorem spares_faults (w : World) {faults : Faults} (hkeeps : w.faults.Keeps faults) : w.Spares { w with faults } :=
  spares_of_same ⟨rfl, rfl, rfl, rfl, rfl⟩ rfl rfl rfl rfl rfl hkeeps rfl

/-- Raising a fault adds no step to the gate and counts none. -/
theorem spares_raise (w : World) (f : Fault) : w.Spares (w.raise f).2 := spares_faults w (Faults.keeps_add _ _)

theorem spares_complain {α : Type} (w : World) (c : Complaint) : w.Spares (@complain α w c).2 := spares_raise w _

/-- Receiving an outcome adds no step to the gate and counts none. -/
theorem spares_receive (w : World) (o : Outcome) : w.Spares (w.receive o).2 := by
  cases o with
  | value | fault => exact .refl w
  | cancelled => exact spares_raise w _

theorem spares_addLog (w : World) (level : Level) (logger message : String) (fault : Option String) :
    w.Spares (w.addLog level logger message fault) :=
  spares_of_same ⟨rfl, rfl, rfl, rfl, rfl⟩ rfl rfl rfl rfl rfl (.refl _) rfl

/-- A change of the loop spares the steps of the gate. -/
theorem spares_loop (w : World) (l : Loop Callback) : w.Spares { w with loop := l } :=
  spares_of_same ⟨rfl, rfl, rfl, rfl, rfl⟩ rfl rfl rfl rfl rfl (.refl _) rfl

/-- A change of a job spares the steps of the gate. -/
theorem spares_modifyJob (w : World) (id : JobId) (change : Job → Job) : w.Spares (w.modifyJob id change) :=
  spares_of_same ⟨rfl, rfl, rfl, rfl, rfl⟩ rfl rfl rfl rfl rfl (.refl _) rfl

/-- A change of the trace adds no step to the gate and counts none. -/
theorem spares_modifyTrace (w : World) (change : Trace → Trace) : w.Spares (w.modifyTrace change) :=
  spares_of_same ⟨rfl, rfl, rfl, rfl, rfl⟩ rfl rfl rfl rfl rfl (.refl _) rfl

theorem spares_modifyShownView (w : World) (change : DebugView → DebugView) :
    w.Spares (w.modifyShownView change) := by
  unfold modifyShownView
  split <;> exact spares_of_same ⟨rfl, rfl, rfl, rfl, rfl⟩ rfl rfl rfl rfl rfl (.refl _) rfl

/-- What is written but printed lines is no work of a program. -/
theorem spares_write (w : World) {r : Record} (hr : ∀ category text, r ≠ .line category text) :
    w.Spares (w.write r) := by
  have hlines : (w.write r).output.lines = w.output.lines := by
    cases r with
    | line category text => exact absurd rfl (hr category text)
    | trace | text | prompt => simp [write, Output.lines, Record.lines]
  exact spares_of_same ⟨rfl, rfl, rfl, rfl, hlines⟩ rfl rfl rfl rfl rfl (.refl _) rfl

/-- A run may change apart from its steps. -/
theorem spares_modifyRun (w : World) (id : RunId) (change : Run → Run)
    (hsteps : ∀ run : Run, (change run).steps = run.steps) : w.Spares (w.modifyRun id change) := by
  refine spares_of_futures ⟨rfl, rfl, rfl, rfl, rfl⟩ rfl rfl (fun _ h => h) (.of_eq rfl) (fun r => ?_) (.refl _) rfl
  have hget : (w.modifyRun id change).session.runs[r]? =
      if id = r then (w.session.runs[r]?).map change else w.session.runs[r]? := Array.getElem?_modify
  rw [hget]
  split
  · rw [Option.map_map]
    congr 1
    funext run
    exact hsteps run
  · rfl

/-- A new future that is open spares the steps of the gate. -/
theorem spares_addFuture (w : World) (f : Future) (hopen : f.outcome = none) : w.Spares (w.addFuture f).2 := by
  refine ⟨⟨rfl, rfl, rfl, rfl, rfl⟩, rfl, rfl, fun _ h => h, .of_eq rfl, fun _ => rfl, .refl _, fun _ _ _ o ho => .inl ?_⟩
  obtain ⟨g, hg, hgo⟩ := get_of_outcome? ho
  obtain hg | ⟨-, rfl⟩ := getElem?_push_eq_some.1 hg
  · rw [outcome?_of_get hg, hgo]
  · rw [hopen] at hgo
    cases hgo

/-- A new job spares the steps of the gate. -/
theorem spares_addJob (w : World) (code : Work Value) (run : Option RunId) : w.Spares (w.addJob code run).2 :=
  (spares_addFuture w { job := some w.jobs.size } rfl).trans
    (spares_of_same ⟨rfl, rfl, rfl, rfl, rfl⟩ rfl rfl rfl rfl rfl (.refl _) rfl)

/-- A future may be settled if each step that it is of is released. -/
theorem spares_settle (w : World) (id : FutureId) {o : Outcome}
    (hreleased : ∀ (i : StepId) (s : PacedStep), w.gate.steps[i]? = some s → s.future = id → w.Released i o) :
    w.Spares (w.settle id o) := by
  have hsettled (i : StepId) (s : PacedStep) (hs : w.gate.steps[i]? = some s) (p : Outcome)
      (hp : (w.settle id o).outcome? s.future = some p) :
      w.outcome? s.future = some p ∨ (w.settle id o).Released i p := by
    obtain hp | ⟨hid, rfl⟩ := outcome?_of_settle hp
    · exact .inl hp
    · refine .inr ((hreleased i s hs hid.symm).mono (fun k hk => ?_) ?_)
      · rwa [settle_gate] at hk
      · rw [settle_faults]
        exact .refl _
  have hrest : w.Spares { w with loop := (w.settle id o).loop } := spares_loop w _
  rw [settle_eq] at hsettled ⊢
  exact ⟨⟨rfl, rfl, rfl, rfl, rfl⟩, rfl, rfl, fun _ h => h, .of_eq rfl, fun _ => rfl, .refl _, hsettled⟩

/-- Cancelling a timer adds no step to the gate and counts none. -/
theorem spares_cancelTimer (w : World) (id : TimerId) : w.Spares (w.cancelTimer id) := spares_loop w _

/-- Taking a step off the gate spares the steps. -/
theorem spares_retract (w : World) (id : StepId) : w.Spares (w.retract id) := by
  have hclear (u : World) : u.Spares (u.clearTimer id) :=
    spares_of_futures ⟨rfl, rfl, rfl, rfl, rfl⟩ rfl rfl (fun _ h => h) (light_clearTimer u id).steps
      (fun _ => rfl) (.refl _) rfl
  have hoff (u : World) : u.Spares (u.modifyGate ({ · with pending := none })) :=
    spares_of_futures ⟨rfl, rfl, rfl, rfl, rfl⟩ rfl rfl (fun _ hi => by cases hi) (.of_eq rfl) (fun _ => rfl) (.refl _) rfl
  exact retract_keeps (K := w.Spares) (.refl w) (fun timer => (spares_cancelTimer w timer).trans (hclear _))
    fun u hu => hu.trans (hoff u)

/-- A step may be settled once it is taken off the gate. -/
theorem spares_retract_settle (hw : w.Wired) {id : StepId} {s : PacedStep} (hs : w.gate.steps[id]? = some s)
    (hu : (w.retract id).Spares u) {o : Outcome} (hreleased : u.gate.pending ≠ some id → u.Released id o) :
    w.Spares (u.settle s.future o) := by
  have hbefore := (spares_retract w id).trans hu
  refine hbefore.trans (spares_settle u s.future fun k t ht hfuture => ?_)
  obtain ⟨s', hs', hst⟩ := hbefore.steps.symm.get ht
  obtain rfl := hw.step_unique k id s' s hs' hs (hst.trans hfuture)
  refine hreleased fun hpending => ?_
  have hretracted := hu.pending k hpending
  rw [pending_retract] at hretracted
  split at hretracted
  · cases hretracted
  · next hoff => exact hoff hretracted

/-- Cancelling a step of a wired state adds no step, and releases this one if it is settled by it. -/
theorem spares_cancelStep (hw : w.Wired) (id : StepId) (reason : Value) : w.Spares (w.cancelStep id reason).2 := by
  obtain ⟨heq, -⟩ | ⟨s, hs, -, heq⟩ := cancelStep_cases w id reason
  · rw [heq]
    exact .refl w
  · rw [heq]
    have hraised := Faults.get?_add (w.retract id).faults (.cancellation reason)
    have hsettle : w.Spares (((w.retract id).raise (.cancellation reason)).2.settle s.future
        (.fault ((w.retract id).raise (.cancellation reason)).1)) :=
      spares_retract_settle hw hs (spares_raise _ _) fun hoff => ⟨hoff, _, hraised, rfl⟩
    exact hsettle.trans (spares_addLog ..)

/-- Cancelling the pending step of a wired state spares the steps of the gate. -/
theorem spares_cancelGate (hw : w.Wired) (reason : Value) : w.Spares (w.cancelGate reason).2 :=
  cancelGate_keeps (K := w.Spares) (.refl w) fun id => spares_cancelStep hw id reason

/-- Where a step of a wired state elapses, it is released with a value. -/
theorem spares_elapse (hw : w.Wired) (id : StepId) : w.Spares (w.elapse id) := by
  obtain ⟨heq, -⟩ | ⟨s, hs, -, heq⟩ := elapse_cases w id
  · rw [heq]
    exact .refl w
  · rw [heq]
    exact spares_retract_settle hw hs (.refl _) fun hoff => hoff

/-- Cancelling the run of a wired state spares the steps of the gate. -/
theorem spares_cancelRun (hw : w.Wired) (reason : Value) : w.Spares (w.cancelRun reason) := by
  refine cancelRun_keeps (K := w.Spares) (.refl w) fun _ _ => ?_
  have hwired : (w.modifyRun w.session.current ({ · with status := .canceling, reason })).Wired :=
    hw.same rfl rfl rfl rfl rfl
  have hcanceling : w.Spares (w.modifyRun w.session.current ({ · with status := .canceling, reason })) :=
    spares_modifyRun w _ _ fun _ => rfl
  exact (hcanceling.trans (spares_cancelGate hwired reason)).trans (spares_addLog ..)

/-- To cancel a future of a job, or the request to do so, spares them. -/
theorem Cancels.spares (h : Cancels w v) : w.Spares v := by
  cases h with
  | plain => exact spares_settle w _ fun _ _ _ _ => trivial
  | request => exact spares_modifyJob w _ _

/-- Cancelling a future adds no step to the gate, and releases the one whose future it is. -/
theorem spares_cancelFuture (w : World) (id : FutureId) : w.Spares (w.cancelFuture id).2 :=
  cancelFuture_keeps (K := w.Spares) (.refl w) (fun _ _ hu hstep => hu.trans hstep.spares) id

/-- The end of a run takes its pending step off the gate, and adds none. -/
theorem spares_finish (hw : w.Wired) (id : RunId) (status : Status) (error : Option FaultId) :
    w.Spares (w.finish id status error) := by
  obtain ⟨reason, message, heq⟩ := finish_eq w id status error
  rw [heq]
  have hreleased := (spares_cancelGate hw reason).trans (spares_modifyTrace _ Trace.release)
  exact (hreleased.trans (spares_modifyRun _ id ({ · with status, error }) fun _ => rfl)).trans (spares_addLog ..)

/-- A run ends as its program has left things. -/
theorem spares_conclude (hw : w.Wired) (id : RunId) (fault : Option FaultId) :
    w.Spares (w.conclude id fault).2 := by
  unfold conclude
  split
  · dsimp only
    have hlogged (message : String) : w.Spares ((w.info message).finish id .completed none) := by
      have hwired : (w.info message).Wired := hw.same rfl rfl rfl rfl rfl
      exact (spares_addLog ..).trans (spares_finish hwired id .completed none)
    split
    · exact hlogged _
    · exact spares_finish hw id .completed none
  · next fault =>
    split
    · exact spares_finish hw id .failed (some fault)
    · split
      · exact .refl w
      · split
        · next stop _ =>
          have hfinish := spares_finish hw id .failed (some stop)
          dsimp only
          split
          · exact hfinish
          · exact hfinish.trans
              (spares_faults _ ((Faults.keeps_setCause _ _ _).trans (Faults.keeps_raiseWhile _ _ _)))
        · exact ((spares_finish hw id .failed (some fault)).trans (spares_raise _ _)).trans
            (spares_faults _ ((Faults.keeps_setCause _ _ _).trans (Faults.keeps_setContext _ _ _)))

/-- Taking a job up spares the steps of the gate. -/
theorem spares_takeUp (w : World) (id : JobId) (job : Job) (received : Except FaultId Value) :
    w.Spares (w.takeUp id job received).2 := by
  have hresumption : w.Spares (w.resumption job received).2 := by
    unfold resumption
    split
    · split
      · split
        · exact .refl w
        · exact spares_receive w _
      · exact spares_receive w _
    · exact .refl w
  exact hresumption.trans (spares_modifyJob _ _ _)

/-- The future of a job is that of no step. -/
theorem spares_endJob (hw : w.Wired) {future : FutureId} {f : Future} (hf : w.futures[future]? = some f)
    (howned : f.job ≠ none) (id : JobId) (result : Except FaultId Value) : w.Spares (w.endJob id future result) := by
  obtain ⟨o, heq⟩ := endJob_eq w id future result
  rw [heq]
  refine spares_settle w future fun i s hs hfuture => ?_
  obtain ⟨g, hg, hplain⟩ := hw.step_future i s hs
  rw [hfuture, hf] at hg
  cases hg
  exact absurd hplain howned

/-- Having a callback called by a future adds no step to the gate and counts none. -/
theorem spares_whenDone (w : World) (future : FutureId) (c : Callback) : w.Spares (w.whenDone future c) := by
  unfold whenDone
  split
  · exact spares_loop w _
  · refine ⟨⟨rfl, rfl, rfl, rfl, rfl⟩, rfl, rfl, fun _ h => h, .of_eq rfl, fun _ => rfl, .refl _, fun _ s _ o ho => .inl ?_⟩
    obtain ⟨g, hg, hgo⟩ := get_of_outcome? ho
    have hget : (w.futures.modify future fun f => { f with callbacks := f.callbacks ++ [c] })[s.future]? =
        if future = s.future then (w.futures[s.future]?).map fun f => { f with callbacks := f.callbacks ++ [c] }
        else w.futures[s.future]? := Array.getElem?_modify
    have hg : (w.futures.modify future fun f => { f with callbacks := f.callbacks ++ [c] })[s.future]? = some g := hg
    rw [hget] at hg
    split at hg
    · obtain ⟨old, hold, rfl⟩ := Option.map_eq_some_iff.1 hg
      rw [outcome?_of_get hold]
      exact hgo
    · rw [outcome?_of_get hg, hgo]

/-- What goes on beside the program of a run, unless a later run has begun. -/
def Beside (w v : World) : Prop := w.Spares v ∨ w.session.runs.size < v.session.runs.size

/-- Runs are only added. -/
theorem Beside.runs_size_le (h : w.Beside v) : w.session.runs.size ≤ v.session.runs.size := by
  obtain hspares | hlater := h
  · exact Nat.le_of_eq hspares.runs_size.symm
  · exact Nat.le_of_lt hlater

theorem Beside.trans (huv : u.Beside v) (hvw : v.Beside w) : u.Beside w := by
  obtain hspares | hlater := huv
  · obtain hspares' | hlater := hvw
    · exact .inl (hspares.trans hspares')
    · exact .inr (hspares.runs_size ▸ hlater)
  · exact .inr (Nat.lt_of_lt_of_le hlater hvw.runs_size_le)

/-- What goes on beside the program of a run spares its steps as long as no run is added. -/
theorem Beside.spares (h : w.Beside v) (hsize : v.session.runs.size = w.session.runs.size) : w.Spares v :=
  h.resolve_right fun hlater => Nat.ne_of_lt hlater hsize.symm

/-- A start that is accepted begins a later run, and one that is refused spares the steps. -/
theorem beside_start (program : Work Value) (source : String) (w : World) : w.Beside (w.start program source).2 := by
  obtain ⟨-, heq⟩ | ⟨-, number, nextNumber, message, heq⟩ := start_cases program source w
  · rw [heq]
    exact .inl (spares_complain w _)
  · rw [heq]
    refine .inr ?_
    change _ < (w.session.runs.push { status := .running, number, source }).size
    rw [Array.size_push]
    exact Nat.lt_succ_self _

/-- A run has just been started where none was active: it is the last one, and its program is queued in a new job. -/
structure Started (program : Work Value) (source : String) (task : FutureId) (w v : World) : Prop where
  inactive : w.session.isActive = false
  runs : ∃ number, v.session.runs = w.session.runs.push { status := .running, number, source }
  jobs : v.jobs = w.jobs.push { future := task, resume := fun _ => program.run, run := some w.session.runs.size }
  opens : v.outcome? task = none
  alike : w.Alike v
  fresh : v.fresh = w.fresh
  seq : v.gate.seq = 0
  pending : v.gate.pending = w.gate.pending
  steps : v.gate.steps = w.gate.steps
  trace : v.trace = w.trace
  loop : v.loop = w.loop.soon (.run w.jobs.size)

variable {program : Work Value} {source : String} {task : FutureId}

/-- A start that is accepted has `Started` the run. -/
theorem started_of_start (hstart : w.start program source = (.ok task, v)) : Started program source task w v := by
  obtain ⟨-, heq⟩ | ⟨hinactive, number, nextNumber, message, heq⟩ := start_cases program source w
  · rw [heq] at hstart
    cases hstart
  · rw [heq] at hstart
    cases hstart
    refine ⟨hinactive, ⟨number, rfl⟩, rfl, ?_, ⟨rfl, rfl, rfl, rfl, rfl⟩, rfl, rfl, rfl, rfl, rfl, rfl⟩
    change (w.futures.push { job := some w.jobs.size })[w.futures.size]?.bind Future.outcome = none
    rw [Array.getElem?_push_size]
    rfl

/-- There is one run more. -/
theorem Started.size (h : Started program source task w v) :
    v.session.runs.size = w.session.runs.size + 1 := by
  obtain ⟨number, hruns⟩ := h.runs
  rw [hruns, Array.size_push]

/-- The new job is the last one. -/
theorem Started.job (h : Started program source task w v) :
    v.jobs[w.jobs.size]? = some { future := task, resume := fun _ => program.run, run := some w.session.runs.size } := by
  rw [h.jobs, Array.getElem?_push_size]

/-- An operation that only steers goes on beside the program, whoever is told of steps. -/
theorem performWith_beside (notify : Notify) {o : Op} (hsteers : o.Steers) (hw : w.Wired) :
    w.Beside (performWith env notify o w).2 := by
  cases o with
  | hook | step | resetGate | newBody | invoke | recordCall | print => cases hsteers
  | write record => exact .inl (spares_write w fun category text h => by subst h; cases hsteers)
  | start source => exact beside_start _ source w
  | cancelGate reason => exact .inl (spares_cancelGate hw reason)
  | cancelStep step reason => exact .inl (spares_cancelStep hw step reason)
  | cancelRun reason | requestBreak reason => exact .inl (spares_cancelRun hw reason)
  | interrupt =>
    refine .inl ?_
    simp only [performWith, deliverInterrupt]
    split
    · exact spares_cancelRun hw _
    · exact .refl w
  | cancelTracked index =>
    refine .inl ?_
    simp only [performWith, World.cancelTracked]
    split
    · exact spares_cancelFuture w _
    · exact .refl w
  | cancelFuture future => exact .inl (spares_cancelFuture w future)
  | setPacing seconds =>
    refine .inl ?_
    simp only [performWith, World.setPacing]
    split
    · exact spares_complain w _
    · exact spares_of_same ⟨rfl, rfl, rfl, rfl, rfl⟩ rfl rfl rfl rfl rfl (.refl _) rfl
  | hookInterrupt reason =>
    refine .inl ?_
    change w.Spares (if env.signals then (.ok (), { w with interrupt := some reason })
      else w.complain noSignals : Except FaultId Unit × World).2
    split
    · exact spares_of_same ⟨rfl, rfl, rfl, rfl, rfl⟩ rfl rfl rfl rfl rfl (.refl _) rfl
    · exact spares_complain w _
  | showTrace event =>
    refine .inl ?_
    simp only [performWith, World.showTrace]
    split
    · exact spares_write w fun _ _ h => by cases h
    · exact .refl w
  | clearView => exact .inl (spares_modifyShownView w _)
  | defer delay deed => cases delay <;> exact .inl (spares_loop w _)
  | nap delay => exact .inl ((spares_addFuture w {} rfl).trans (spares_loop _ _))
  | dropTimer timer => exact .inl (spares_cancelTimer w timer)
  | raise spec => exact .inl (spares_faults w (spec.keeps_raise _))
  | setCause id cause => exact .inl (spares_faults w (Faults.keeps_setCause _ _ _))
  | raiseWhile handled id => exact .inl (spares_faults w (Faults.keeps_raiseWhile _ _ _))
  | setInterval | setTrace | release | addListener | removeListener | track | report | spend | announce | note
  | describe | isSettled | log | unhookInterrupt | setStatus | pacing | turtle =>
    exact .inl (spares_of_same ⟨rfl, rfl, rfl, rfl, rfl⟩ rfl rfl rfl rfl rfl (.refl _) rfl)

/-- An operation that only steers goes on beside the program. -/
theorem perform_beside {o : Op} (hsteers : o.Steers) (hw : w.Wired) : w.Beside (w.perform env o).2 :=
  performWith_beside _ hsteers hw

/-- Listeners go on beside a program where all that they do may. -/
theorem notify_beside (hlisteners : ∀ name event, (env.react name event).run.All Op.Steers) (event : StepEvent)
    (hw : w.Sound) : w.Beside (notify env event w).2 := by
  have hkeeps : (notify env event w).2.Sound ∧ w.Beside (notify env event w).2 := by
    refine notifyWith_keeps (I := fun v => v.Sound ∧ w.Beside v) (fun o ho v hv => ⟨?_, ?_⟩)
      (fun v _ _ _ _ hv => ⟨?_, ?_⟩) (hlisteners · event) ⟨hw, .inl (.refl w)⟩
    · have hchanges (depth : Nat) : Changes env v (performWithin env depth o v).2 := performWithin_changes depth o v
      exact ((hchanges _).grows hv.1).1
    · exact hv.2.trans (performWith_beside _ ho hv.1.toWired)
    · exact ((aside_addLog ..).light.grows hv.1).1
    · exact hv.2.trans (.inl (spares_addLog ..))
  exact hkeeps.2

/-- What makes no call boundary puts no step at the gate. -/
theorem Touch.pending (h : Touch env w v) (hw : w.Wired) (hp : v.gate.pending = some i) : w.gate.pending = some i := by
  cases h with
  | aside haside => rwa [haside.pending] at hp
  | defer | deferLater | nap | dropTimer => exact hp
  | cancelStep k reason => exact (spares_cancelStep hw k reason).pending i hp
  | cancels hcancels => exact hcancels.spares.pending i hp
  | cancelRun reason => exact (spares_cancelRun hw reason).pending i hp
  | start source =>
    obtain ⟨-, heq⟩ | ⟨-, number, nextNumber, message, heq⟩ := start_cases (env.program source) source w
    · rw [heq] at hp
      rwa [(aside_complain w _).pending] at hp
    · rw [heq] at hp
      exact hp

/-- What touches no step leaves the pending one, if it leaves any. -/
theorem Touches.pending (h : Touches env w v) (hw : w.Sound) (hp : v.gate.pending = some i) : w.gate.pending = some i := by
  induction h with
  | refl => exact hp
  | tail hbefore hstep ih =>
    exact ih (hstep.pending (Changes.grows (Touches.changes hbefore) hw).1.toWired hp)

end SteppedLogo.World
