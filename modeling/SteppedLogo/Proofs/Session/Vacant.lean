import SteppedLogo.Proofs.Gate.Stages
import SteppedLogo.Proofs.Session.Scenes

namespace SteppedLogo

open World

/-- Operations that leave the renderer, its view and the trace flag alone. -/
def Op.LeavesTrace : Op → Prop
  | hook _ | step _ | clearView | release | setTrace _ => False
  | _ => True

namespace World

variable {env : Env} {u v w : World} {id : JobId} {job : Job} {b n : Bool}

/-- Two states that differ neither in the session nor in the trace. -/
structure Alongside (w v : World) : Prop where
  session : v.session = w.session
  trace : v.trace = w.trace

theorem Alongside.refl (w : World) : w.Alongside w := ⟨rfl, rfl⟩

theorem Alongside.trans (huv : u.Alongside v) (hvw : v.Alongside w) : u.Alongside w :=
  ⟨hvw.session.trans huv.session, hvw.trace.trans huv.trace⟩

/-- Settling a future changes neither the session nor the trace. -/
theorem alongside_settle (w : World) (id : FutureId) (o : Outcome) : w.Alongside (w.settle id o) := by
  rw [settle_eq]
  exact ⟨rfl, rfl⟩

theorem alongside_retract (w : World) (i : StepId) : w.Alongside (w.retract i) :=
  retract_keeps (K := w.Alongside) (.refl w) (fun _ => ⟨rfl, rfl⟩) fun _ hu => hu.trans ⟨rfl, rfl⟩

/-- Cancelling a step changes neither the session nor the trace. -/
theorem alongside_cancelStep (w : World) (i : StepId) (reason : Value) : w.Alongside (w.cancelStep i reason).2 := by
  obtain ⟨heq, -⟩ | ⟨s, -, -, heq⟩ := cancelStep_cases w i reason
  · rw [heq]
    exact .refl w
  · rw [heq]
    have hretract := alongside_retract w i
    have hsettled := alongside_settle ((w.retract i).raise (.cancellation reason)).2 s.future
      (.fault ((w.retract i).raise (.cancellation reason)).1)
    exact ⟨hsettled.session.trans hretract.session, hsettled.trace.trans hretract.trace⟩

theorem alongside_cancelGate (w : World) (reason : Value) : w.Alongside (w.cancelGate reason).2 :=
  cancelGate_keeps (K := w.Alongside) (.refl w) fun id => alongside_cancelStep w id reason

/-- Cancelling a future changes neither the session nor the trace. -/
theorem alongside_cancelFuture (w : World) (id : FutureId) : w.Alongside (w.cancelFuture id).2 := by
  refine cancelFuture_keeps (K := w.Alongside) (.refl w) (fun u v hu hstep => ?_) id
  cases hstep with
  | plain => exact hu.trans (alongside_settle _ _ _)
  | request => exact hu.trans ⟨rfl, rfl⟩

theorem alongside_elapse (w : World) (i : StepId) : w.Alongside (w.elapse i) := by
  obtain ⟨heq, -⟩ | ⟨s, -, -, heq⟩ := elapse_cases w i
  · rw [heq]
    exact .refl w
  · rw [heq]
    exact (alongside_retract w i).trans (alongside_settle _ _ _)

theorem alongside_receive (w : World) (o : Outcome) : w.Alongside (w.receive o).2 := by
  cases o <;> exact ⟨rfl, rfl⟩

/-- Taking a job up changes neither the session nor the trace. -/
theorem alongside_takeUp (w : World) (id : JobId) (job : Job) (received : Except FaultId Value) :
    w.Alongside (w.takeUp id job received).2 := by
  have hresumption : w.Alongside (w.resumption job received).2 := by
    unfold resumption
    split
    · split
      · split
        · exact .refl w
        · exact alongside_receive w .cancelled
      · exact alongside_receive w .cancelled
    · exact .refl w
  rw [takeUp_eq]
  exact hresumption.trans ⟨rfl, rfl⟩

theorem alongside_endJob (w : World) (id : JobId) (future : FutureId) (result : Except FaultId Value) :
    w.Alongside (w.endJob id future result) := by
  obtain ⟨o, heq⟩ := endJob_eq w id future result
  rw [heq]
  exact alongside_settle w future o

/-- A job that comes to wait changes neither the session nor the trace. -/
theorem alongside_park (w : World) (id : JobId) (future : FutureId)
    (k : Except FaultId Value → Routine (Except FaultId Value)) :
    w.Alongside (w.park id future k) := by
  have hwait : w.Alongside ((w.modifyJob id ({ · with resume := k, waiting := some future })).whenDone future
    (.wake id)) := by
    unfold whenDone
    split <;> exact ⟨rfl, rfl⟩
  unfold park
  dsimp only
  split
  · have hcancelled := hwait.trans (alongside_cancelFuture _ future)
    split
    · exact hcancelled.trans ⟨rfl, rfl⟩
    · exact hcancelled
  · exact hwait

/-- Cancelling the run changes nothing that is shown. -/
theorem trace_cancelRun (w : World) (reason : Value) : (w.cancelRun reason).trace = w.trace :=
  cancelRun_keeps (K := (World.trace · = w.trace)) rfl fun _ _ =>
    (alongside_cancelGate (w.modifyRun w.session.current ({ · with status := .canceling, reason })) reason).trace

/-- A start changes nothing that is shown. -/
theorem trace_start (program : Work Value) (source : String) (w : World) : (w.start program source).2.trace = w.trace := by
  obtain ⟨-, heq⟩ | ⟨-, number, nextNumber, message, heq⟩ := start_cases program source w <;> rw [heq] <;> rfl

theorem trace_print (w : World) (category text : String) : (w.print category text).trace = w.trace := by
  unfold print
  dsimp only
  split <;> rfl

/-- No word changes what is shown, tracing words included. -/
theorem trace_invoke (handler : Handler) (args : List Value) (w : World) :
    (w.invoke env handler args).2.trace = w.trace := by
  unfold invoke
  split
  · next p =>
    obtain ⟨_, _, _, _, _, _, heq⟩ := callPrimitive_frame p args w
    rw [heq]
  · exact trace_cancelRun w _
  · exact trace_cancelRun w _
  · rfl
  · next v =>
    have hstart := trace_start (env.program v.display) v.display w
    split <;> next heq => rw [heq] at hstart; exact hstart
  · rfl
  · rfl
  · rfl
  · rfl

/-- Operations that leave the renderer and its view alone change nothing that is shown. -/
theorem performWith_trace (notify : Notify) {o : Op} (ho : o.LeavesTrace) (w : World) :
    (performWith env notify o w).2.trace = w.trace := by
  cases o with
  | hook | step | clearView | release | setTrace => cases ho
  | cancelGate reason => exact (alongside_cancelGate w reason).trace
  | cancelStep i reason => exact (alongside_cancelStep w i reason).trace
  | cancelRun reason | requestBreak reason => exact trace_cancelRun w reason
  | interrupt =>
    simp only [performWith, deliverInterrupt]
    split
    · exact trace_cancelRun w _
    · rfl
  | start source => exact trace_start _ source w
  | cancelTracked index =>
    simp only [performWith, cancelTracked]
    split
    · exact (alongside_cancelFuture w _).trace
    · rfl
  | cancelFuture future => exact (alongside_cancelFuture w future).trace
  | defer delay deed => cases delay <;> rfl
  | invoke handler args => exact trace_invoke handler args w
  | print category text => exact trace_print w category text
  | showTrace event =>
    simp only [performWith, World.showTrace]
    split <;> rfl
  | setPacing seconds =>
    simp only [performWith, World.setPacing]
    split <;> rfl
  | hookInterrupt reason =>
    change (if env.signals then (.ok (), { w with interrupt := some reason })
      else w.complain noSignals : Except FaultId Unit × World).2.trace = w.trace
    split <;> rfl
  | _ => rfl

/-- What is shown stays as it is, or is given up. -/
def Dims (w v : World) : Prop := v.trace.renderer = w.trace.renderer ∨ v.trace.renderer = {}

/-- Without a call boundary nothing comes to be shown. -/
theorem dims_perform {o : Op} (hquiet : o.IsQuiet) (w : World) : w.Dims (w.perform env o).2 := by
  by_cases hleaves : o.LeavesTrace
  · exact .inl (congrArg Trace.renderer (performWith_trace _ hleaves w))
  · rw [perform_eq]
    cases o with
    | hook | step => cases hquiet
    | clearView =>
      simp only [performWith, modifyShownView]
      split <;> exact .inl rfl
    | release => exact .inr rfl
    | setTrace => exact .inl rfl
    | _ => exact absurd trivial hleaves

/-- Nothing is shown while no run is active. -/
def Dark (w : World) : Prop := w.session.isActive = false → w.trace.renderer = {}

/-- Where the session and the trace stay, nothing comes to be shown while no run is active. -/
theorem Dark.alongside (hw : w.Dark) (h : w.Alongside v) : v.Dark := by
  intro hinactive
  rw [h.session] at hinactive
  rw [h.trace]
  exact hw hinactive

/-- In a sound state an operation that makes no call boundary shows nothing while no run is active. -/
theorem dark_perform (hsound : w.Sound) (hw : w.Dark) {o : Op} (hquiet : o.IsQuiet) : (w.perform env o).2.Dark := by
  intro hinactive
  have hbefore : w.session.isActive = false := by
    by_contra hactive
    have hafter := (grows_perform env o w hsound).2.isActive (by simpa using hactive)
    rw [hinactive] at hafter
    cases hafter
  have hdims : w.Dims (w.perform env o).2 := dims_perform hquiet w
  obtain hsame | hblank := hdims
  · rw [hsame]
    exact hw hbefore
  · exact hblank

/-- The end of a run gives up what is shown, and leaves the view. -/
theorem trace_finish (w : World) (r : RunId) (status : Status) (error : Option FaultId) :
    (w.finish r status error).trace = w.trace.release := by
  obtain ⟨reason, message, heq⟩ := finish_eq w r status error
  rw [heq]
  exact congrArg Trace.release (alongside_cancelGate w reason).trace

/-- What was shown is given up once a run has ended, however it has, and the view is left alone; an interrupt leaves
the run and what is shown as they are. -/
theorem trace_conclude (w : World) (r : RunId) (fault : Option FaultId) :
    (w.conclude r fault).2.trace = w.trace.release ∨ (w.conclude r fault).2 = w := by
  unfold conclude
  split
  · refine .inl ?_
    dsimp only
    split <;> exact trace_finish ..
  · split
    · exact .inl (trace_finish ..)
    · split
      · exact .inr rfl
      · refine .inl ?_
        split
        · dsimp only
          split <;> exact trace_finish ..
        · exact trace_finish ..

/-- The end of the job of a run. -/
theorem trace_finished (w : World) (id : JobId) {job : Job} {r : RunId} (hrun : job.run = some r)
    (result : Except FaultId Value) :
    (w.putDown id job (.finished result)).trace = w.trace.release ∨
      (w.putDown id job (.finished result)).trace = w.trace ∧ (w.putDown id job (.finished result)).session = w.session := by
  obtain ⟨fault, heq, -⟩ := endRun_some w r result
  unfold putDown
  dsimp only
  have hjob := alongside_endJob (w.endRun job.run result).2 id job.future (w.endRun job.run result).1
  rw [hjob.trace, hjob.session, hrun, heq]
  obtain hreleased | hsame := trace_conclude w r fault
  · exact .inl hreleased
  · rw [hsame]
    exact .inr ⟨rfl, rfl⟩

/-- Nothing waits for what is settled. -/
def Unawaited (w : World) : Prop :=
  ∀ (id : FutureId) (f : Future), w.futures[id]? = some f → f.outcome ≠ none → f.callbacks = []

/-- A future that is settled gives its callbacks to the loop. -/
theorem Unawaited.settle (hw : w.Unawaited) (id : FutureId) (o : Outcome) : (w.settle id o).Unawaited := by
  intro other f hf hdone
  rw [settle_get] at hf
  split at hf
  · obtain ⟨g, hg, rfl⟩ := Option.map_eq_some_iff.1 hf
    by_cases hopen : g.outcome = none
    · rw [if_pos hopen]
    · rw [if_neg hopen]
      exact hw other g hg hopen
  · exact hw other f hf hdone

theorem Unawaited.of_futures (hw : w.Unawaited) (hfutures : v.futures = w.futures) : v.Unawaited := by
  intro id f hf
  rw [hfutures] at hf
  exact hw id f hf

/-- A future that is made open is not settled. -/
theorem Unawaited.push (hw : w.Unawaited) {f : Future} (hopen : f.outcome = none)
    (hfutures : v.futures = w.futures.push f) : v.Unawaited := by
  intro id g hg hdone
  rw [hfutures] at hg
  obtain hg | ⟨-, rfl⟩ := getElem?_push_eq_some.1 hg
  · exact hw id g hg hdone
  · exact absurd hopen hdone

theorem Part.unawaited (h : Part b n w v) (hw : w.Unawaited) : v.Unawaited := by
  cases h with
  | still hstill => exact hw.of_futures hstill.futures
  | clock | soon | later | dropTimer | next => exact hw.of_futures rfl
  | addFuture hopen _ hstill => exact hw.push hopen hstill.futures
  | await w future j =>
    unfold whenDone
    split
    · exact hw.of_futures rfl
    · next hopen =>
      intro id f hf hdone
      rw [Array.getElem?_modify] at hf
      split at hf
      · next hsame =>
        obtain ⟨g, hg, rfl⟩ := Option.map_eq_some_iff.1 hf
        subst hsame
        have hnone : w.outcome? future = none := isDone_eq_false.1 (by simpa using hopen)
        rw [outcome?_of_get hg] at hnone
        exact absurd hnone hdone
      · exact hw id f hf hdone
  | settle | cancel => exact hw.settle _ _
  | release _ _ hretract _ hstill =>
    have hoff := (hw.of_futures (futures_retract _ _)).of_futures hretract.futures
    exact (hoff.settle _ _).of_futures hstill.futures
  | retract => exact hw.of_futures (futures_retract _ _)
  | @rouse _ _ id l =>
    have hbefore : World.Unawaited { w with loop := l } := hw.of_futures rfl
    exact rouse_keeps hbefore (hbefore.settle id _)
  | install =>
    obtain ⟨message, heq⟩ := installStep_eq w
    exact hw.push (f := { callbacks := [.retract w.gate.steps.size] }) rfl (by rw [heq]; rfl)

/-- Nothing comes to wait for what is settled, whatever goes on. -/
theorem PartsOf.unawaited (h : PartsOf b n w v) (hw : w.Unawaited) : v.Unawaited :=
  h.keeps (fun _ _ _ hpart => hpart.unawaited) hw

theorem Fresh.unawaited (h : w.Fresh) : w.Unawaited := by
  intro id f hf
  simp [h.futures] at hf

/-- A session in which nothing is left of its earlier runs. -/
structure Vacant (w : World) : Prop where
  nonempty : 0 < w.session.runs.size
  inactive : w.session.isActive = false
  done : ∀ (j : JobId) (job : Job), w.jobs[j]? = some job → job.run ≠ none → w.isDone job.future = true
  pending : w.gate.pending = none
  shown : w.trace.renderer = {}
  attached : ∀ (id : FutureId) (f : Future), w.futures[id]? = some f → ∀ c ∈ f.callbacks, c.step? = none
  queued : ∀ c, w.loop.Queued c → c.step? = none

end World

namespace Scene

variable {env : Env} {P : Op → Prop} {s t : Scene} {u w : World}

/-- Taking up the job that is next changes neither the session nor the trace. -/
theorem alongside_resumed (w : World) (id : JobId) (received : Except FaultId Value) :
    w.Alongside (resumed w id received).world := by
  obtain heq | ⟨job, -, -, ⟨-, heq⟩ | ⟨-, heq⟩⟩ := resumed_cases w id received
  · rw [heq]
    exact .refl w
  · rw [heq]
    exact (alongside_takeUp w id job received).trans (alongside_endJob _ id job.future _)
  · rw [heq]
    exact alongside_takeUp w id job received

/-- Calling a callback changes neither the session nor the trace. -/
theorem alongside_called (w : World) (c : Callback) : w.Alongside (called env w c).world := by
  cases c with
  | run id => exact alongside_resumed w id _
  | wake id =>
    simp only [called]
    split
    · exact .refl w
    · exact (alongside_receive w _).trans (alongside_resumed _ id _)
  | elapse i => exact alongside_elapse w i
  | retract i => exact alongside_retract w i
  | rouse future => exact rouse_keeps (.refl w) (alongside_settle w future _)
  | deed d => exact .refl w

/-- What is performed in a step: by the job that has its turn, by a deed, or by the host. -/
inductive Does (P : Op → Prop) (s : Scene) : Op → Prop
  | turn {id : JobId} {job : Job} {o : Op} {k : o.Reply → Routine (Except FaultId Value)}
    (hturn : s.activity = .turn ⟨id, job, .op o k⟩) : Does P s o
  | deed {o : Op} {k : o.Reply → Code (Except FaultId Unit)} (hdeed : s.activity = .deed (.op o k)) : Does P s o
  | host {o : Op} (ho : P o) : Does P s o

/-- What a step does to the session and the trace: an operation is performed, a run comes to its end with its
job, or nothing. -/
inductive Sequel (env : Env) (P : Op → Prop) (s t : Scene) : Prop
  | performs {o : Op} (hdoes : s.Does P o) (hworld : t.world = (s.world.perform env o).2)
  | ends {id : JobId} {job : Job} {r : RunId} {result : Except FaultId Value}
    (hturn : s.activity = .turn ⟨id, job, .done result⟩) (hrun : job.run = some r)
    (hworld : t.world = s.world.putDown id job (.finished result))
  | aside (haside : s.world.Alongside t.world)

/-- A job that has its turn performs an operation or comes to its end, or nothing of this comes of it. -/
theorem sequel_advance (turn : Turn) (w : World) :
    Sequel env P { world := w, activity := .turn turn } (turn.advance env w) := by
  obtain ⟨id, job, r⟩ := turn
  cases r with
  | done result =>
    cases hrun : job.run with
    | some r => exact .ends rfl hrun rfl
    | none =>
      have hput : w.putDown id job (.finished result) = w.endJob id job.future result := by
        rw [putDown, hrun]
        rfl
      refine .aside ?_
      change w.Alongside (w.putDown id job (.finished result))
      rw [hput]
      exact alongside_endJob w id job.future result
  | op o k => exact .performs (.turn rfl) rfl
  | await future k =>
    refine .aside ?_
    cases future with
    | none => exact ⟨rfl, rfl⟩
    | some future =>
      simp only [Turn.advance]
      split
      · exact alongside_park w id future k
      · exact alongside_receive w _

/-- In each step an operation is performed, a run comes to its end with its job, or nothing of this. -/
theorem Step.sequel (h : Step env P s t) : Sequel env P s t := by
  cases h with
  | clock => exact .aside ⟨rfl, rfl⟩
  | perform w ho => exact .performs (.host ho) rfl
  | spawn => exact .aside ⟨rfl, rfl⟩
  | next hnext =>
    obtain ⟨w, activity⟩ := s
    cases activity with
    | turn turn =>
      cases hnext
      exact sequel_advance turn w
    | deed c =>
      cases c with
      | done result =>
        cases hnext
        exact .aside (.refl w)
      | op o k =>
        cases hnext
        exact .performs (.deed rfl) rfl
    | none =>
      simp only [next?] at hnext
      split at hnext
      · cases hnext
      · cases hnext
        exact .aside ⟨rfl, rfl⟩
      · next c l _ =>
        cases hnext
        have htaken : w.Alongside { w with loop := l } := ⟨rfl, rfl⟩
        exact .aside (htaken.trans (alongside_called _ c))

/-- No call boundary is made but by the hook of the active run. -/
theorem Governed.does (hP : Op.Guards P) (hs : s.Governed P) {o : Op} (h : s.Does P o) :
    o.IsQuiet ∨ ∃ call, o = .hook call ∧ s.world.session.isActive = true := by
  cases h with
  | turn hturn =>
    obtain ⟨w, activity⟩ := s
    cases hturn
    obtain hquiet | ⟨call, -, rfl, -, hactive⟩ := hs.quiet_or_hook hP
    · exact .inl hquiet
    · exact .inr ⟨call, rfl, hactive⟩
  | deed hdeed => exact .inl (hP.quiet _ (hs.deed _ hdeed).1)
  | host ho => exact .inl (hP.quiet _ ho)

/-- Only while a run is active does anything come to be shown, and it is given up as the run ends. -/
theorem Step.dark (hP : Op.Guards P) (hs : s.Governed P) (h : Step env P s t) (hdark : s.world.Dark) : t.world.Dark := by
  cases h.sequel with
  | performs hdoes hworld =>
    rw [hworld]
    obtain hquiet | ⟨call, rfl, hactive⟩ := hs.does hP hdoes
    · exact dark_perform hs.world.toSound hdark hquiet
    · intro hinactive
      have hafter := (grows_perform env (.hook call) s.world hs.world.toSound).2.isActive hactive
      rw [hinactive] at hafter
      cases hafter
  | ends hturn hrun hworld =>
    intro hinactive
    rw [hworld] at hinactive ⊢
    obtain hreleased | ⟨htrace, hsession⟩ := trace_finished s.world _ hrun _
    · rw [hreleased]
      rfl
    · rw [hsession] at hinactive
      rw [htrace]
      exact hdark hinactive
  | aside haside => exact hdark.alongside haside

/-- From a state in which nothing is shown while no run is active, no steps lead to one where something is, if call
boundaries are guarded. -/
theorem Steps.dark (hP : Op.Guards P) (henv : env.Confined) (hs : s.Governed P) (h : Steps env P s t)
    (hdark : s.world.Dark) : t.Governed P ∧ t.world.Dark := by
  induction h with
  | refl => exact ⟨hs, hdark⟩
  | tail _ hstep ih => exact ⟨hstep.governed hP henv ih.1, hstep.dark hP ih.1 ih.2⟩

/-- Nothing is left of the runs of a session once none of them is active, and no callback is queued that is about
a step. -/
theorem vacant_of_over (hP : Op.Guards P) (henv : env.Confined) (hfresh : u.Fresh) (hblank : u.trace.renderer = {})
    (hsteps : Steps env P { world := u } { world := w })
    (hover : ∀ (r : RunId) (run : Run), w.session.runs[r]? = some run → run.status.isActive = false)
    (hqueued : ∀ c, w.loop.Queued c → c.step? = none) : w.Vacant := by
  obtain ⟨hgoverned, hdark⟩ := Steps.dark hP henv (governed_fresh hfresh) hsteps fun _ => hblank
  obtain ⟨-, hparts⟩ := Steps.parts hsteps (intact_of_sound hfresh.sound fun _ h => by cases h)
  have hstaged : w.Staged := hparts.staged hfresh.staged
  have hunawaited : w.Unawaited := hparts.unawaited hfresh.unawaited
  have hsound : w.Sound := hgoverned.world.toSound
  have hinactive : w.session.isActive = false := by
    by_contra hactive
    obtain ⟨run, hrun, hstatus⟩ := isActive_iff.1 (by simpa using hactive)
    rw [hover _ run hrun] at hstatus
    cases hstatus
  have hclear : w.Clear := by
    refine hgoverned.world.barred fun hrunning => ?_
    change w.session.run.status = .running at hrunning
    rw [Session.isActive, hrunning] at hinactive
    cases hinactive
  refine ⟨hsound.nonempty, hinactive, fun j job hjob hrun => ?_, ?_, hdark hinactive, fun id f hf c hc => ?_, hqueued⟩
  · obtain ⟨r, hr⟩ := Option.ne_none_iff_exists'.1 hrun
    obtain ⟨run, hget, -, hactive⟩ := hsound.job_run j job r hjob hr
    by_contra hopen
    have hstatus := hactive (.inl (by simpa using hopen))
    rw [hover r run hget] at hstatus
    cases hstatus
  · cases hpending : w.gate.pending with
    | none => rfl
    | some i =>
      obtain ⟨s, hs⟩ := hsound.pending_step i hpending
      cases hstaged.stage i s hs with
      | waiting hf hopen => exact absurd ⟨s, hs, isDone_eq_false.2 ((outcome?_of_get hf).trans hopen)⟩ (hclear i)
      | leaving _ _ hleaving =>
        have hstep := hqueued _ ((Loop.queued_retract_iff hstaged.unstopped).2 (hleaving ▸ Nat.one_pos))
        cases hstep
      | retracted _ _ hoff => exact absurd hpending hoff
  · have hattached := hsound.attached id f c hf hc
    cases c with
    | retract i =>
      obtain ⟨s, hs, rfl⟩ := hattached
      have hdone : f.outcome ≠ none := by
        intro hopen
        exact hclear i ⟨s, hs, isDone_eq_false.2 ((outcome?_of_get hf).trans hopen)⟩
      rw [hunawaited _ f hf hdone] at hc
      cases hc
    | elapse => cases hattached
    | run | wake | rouse | deed => rfl

end Scene

end SteppedLogo
