import SteppedLogo.Proofs.World.Scene

namespace SteppedLogo

/-- Operations that neither register a handler of interrupts nor remove one. -/
def Op.LeavesSignals : Op → Prop
  | hookInterrupt _ | unhookInterrupt => False
  | _ => True

/-- No deed has to do with the handler. -/
theorem Deed.code_leavesSignals (d : Deed) : d.code.run.All Op.LeavesSignals := by
  refine d.code_performs.imp fun o ho => ?_
  cases o with
  | hookInterrupt | unhookInterrupt => cases ho
  | _ => trivial

/-- Surroundings in which neither programs nor listeners have to do with the handler. -/
structure Env.LeavesSignals (env : Env) : Prop where
  program : ∀ source, (env.program source).run.All Op.LeavesSignals
  listener : ∀ name event, (env.react name event).run.All Op.LeavesSignals

namespace World

variable {env : Env} {α : Type} {f : World → α}

/-- What a state has of its surroundings: the handler of interrupts and the sink. -/
def host (w : World) : Option Value × (Nat → Bool) := (w.interrupt, w.output.accepts)

/-- A part of the state that depends on nothing else. -/
def Outer (f : World → α) : Prop := ∀ w v : World, v.host = w.host → f v = f w

/-- The registered handler is a part of `host`. -/
theorem outer_interrupt : Outer World.interrupt := fun _ _ h => congrArg Prod.fst h

/-- What the sink accepts is a part of `host`. -/
theorem outer_accepts : Outer fun w => w.output.accepts := fun _ _ h => congrArg Prod.snd h

/-- Settling a future changes neither the handler nor the sink. -/
@[simp]
theorem settle_host (w : World) (id : FutureId) (o : Outcome) : (w.settle id o).host = w.host := by
  rw [settle_eq]
  rfl

@[simp]
theorem retract_host (w : World) (id : StepId) : (w.retract id).host = w.host :=
  retract_keeps (K := fun u => u.host = w.host) rfl (fun _ => rfl) fun _ hu => hu

@[simp]
theorem cancelStep_host (w : World) (id : StepId) (reason : Value) :
    (w.cancelStep id reason).2.host = w.host := by
  obtain ⟨heq, -⟩ | ⟨s, -, -, heq⟩ := cancelStep_cases w id reason
  · rw [heq]
  · rw [heq]
    exact (settle_host _ _ _).trans (retract_host w id)

@[simp]
theorem cancelGate_host (w : World) (reason : Value) : (w.cancelGate reason).2.host = w.host :=
  cancelGate_keeps (K := (World.host · = w.host)) rfl fun id => cancelStep_host w id reason

theorem elapse_host (w : World) (id : StepId) : (w.elapse id).host = w.host := by
  obtain ⟨heq, -⟩ | ⟨s, -, -, heq⟩ := elapse_cases w id
  · rw [heq]
  · rw [heq]
    exact (settle_host _ _ _).trans (retract_host w id)

theorem installStep_host (w : World) : w.installStep.2.host = w.host := by
  obtain ⟨message, heq⟩ := installStep_eq w
  rw [heq]
  rfl

theorem installFor_host (w : World) (id : RunId) : (w.installFor id).2.host = w.host := by
  obtain ⟨-, heq⟩ | ⟨-, heq⟩ := installFor_cases id w
  · rw [heq]
    exact installStep_host w
  · rw [heq]
    exact (cancelStep_host _ _ _).trans (installStep_host w)

theorem showCall_host (w : World) (call : Call) : (w.showCall call).host = w.host := by
  unfold showCall
  split
  · rfl
  · rfl
  · dsimp only
    split <;> rfl

/-- Cancelling a future leaves the handler and the sink, however far it goes down the chain of jobs. -/
theorem cancelWithin_host (fuel : Nat) (id : FutureId) (w : World) :
    (cancelWithin fuel id w).2.host = w.host := by
  induction fuel generalizing id w with
  | zero => rfl
  | succ fuel ih =>
    simp only [cancelWithin]
    split
    · rfl
    · split
      · rfl
      · split
        · exact settle_host w id .cancelled
        · split
          · rfl
          · next awaited _ =>
            dsimp only
            split
            · exact ih awaited w
            · exact ih awaited w

theorem cancelFuture_host (w : World) (id : FutureId) : (w.cancelFuture id).2.host = w.host :=
  cancelWithin_host _ id w

theorem cancelTracked_host (w : World) (index : Option Nat) :
    (w.cancelTracked index).2.host = w.host := by
  unfold cancelTracked
  split
  · exact cancelFuture_host w _
  · rfl

theorem cancelRun_host (w : World) (reason : Value) : (w.cancelRun reason).host = w.host :=
  cancelRun_keeps (K := (World.host · = w.host)) rfl fun _ _ =>
    cancelGate_host (w.modifyRun w.session.current ({ · with status := .canceling, reason })) reason

theorem deliverInterrupt_host (w : World) : w.deliverInterrupt.2.host = w.host :=
  deliverInterrupt_keeps (K := (World.host · = w.host)) rfl fun reason => cancelRun_host w reason

theorem start_host (program : Work Value) (source : String) (w : World) :
    (w.start program source).2.host = w.host := by
  obtain ⟨-, heq⟩ | ⟨-, number, nextNumber, message, heq⟩ := start_cases program source w
  · rw [heq]
    rfl
  · rw [heq]
    rfl

theorem print_host (w : World) (category text : String) : (w.print category text).host = w.host := by
  simp only [World.print]
  split <;> rfl

theorem modifyShownView_host (w : World) (change : DebugView → DebugView) :
    (w.modifyShownView change).host = w.host := by
  unfold modifyShownView
  split <;> rfl

theorem showTrace_host (w : World) (event : StepEvent) : (w.showTrace event).host = w.host := by
  unfold World.showTrace
  dsimp only
  split <;> rfl

theorem setPacing_host (w : World) (seconds : Float) : (w.setPacing seconds).2.host = w.host := by
  unfold setPacing
  split <;> rfl

/-- No word has to do with the handler or the sink. -/
theorem invoke_host (h : Handler) (args : List Value) (w : World) :
    (w.invoke env h args).2.host = w.host := by
  unfold invoke
  split
  · next p =>
    obtain ⟨_, _, _, _, _, _, heq⟩ := callPrimitive_frame p args w
    rw [heq]
    rfl
  · exact cancelRun_host w _
  · exact cancelRun_host w _
  · rfl
  · next v =>
    have hstart := start_host (env.program v.display) v.display w
    split <;> next heq => rw [heq] at hstart; exact hstart
  · rfl
  · rfl
  · rfl
  · rfl

/-- The announcement of a step leaves alone what its listeners leave alone. -/
theorem announceStep_outer (hf : Outer f) {notify : Notify}
    (hnotify : ∀ event w, f (notify event w).2 = f w) (call : Call) (w : World) :
    f (w.announceStep notify call).2 = f w := by
  unfold announceStep
  split
  · exact hf _ _ rfl
  · dsimp only
    have hshown : f ((w.modifyGate fun g => { g with seq := g.seq + 1 }).showCall call) = f w :=
      hf _ _ (showCall_host _ call)
    split
    · rw [← hshown]
      exact hf _ _ rfl
    · exact (hnotify _ _).trans hshown

/-- An operation that registers no handler and removes none leaves alone what listeners leave alone. -/
theorem performWith_outer (hf : Outer f) {notify : Notify}
    (hnotify : ∀ event w, f (notify event w).2 = f w) {o : Op} (ho : o.LeavesSignals) (w : World) :
    f (performWith env notify o w).2 = f w := by
  cases o with
  | hookInterrupt | unhookInterrupt => cases ho
  | hook call =>
    change f (w.hook notify call).2 = f w
    obtain ⟨shown, ⟨fault, u, hcall, heq⟩ | ⟨u, hcall, heq⟩⟩ := hook_cases notify call w
    · have hannounce := announceStep_outer hf hnotify shown w
      rw [hcall] at hannounce
      rw [heq]
      exact hannounce
    · have hannounce := announceStep_outer hf hnotify shown w
      rw [hcall] at hannounce
      rw [heq]
      exact (hf _ _ (installFor_host u _)).trans hannounce
  | step call =>
    change f (w.takeStep notify call).2 = f w
    have hannounce := announceStep_outer hf hnotify call w
    obtain ⟨fault, u, hcall, heq⟩ | ⟨u, hcall, heq⟩ := takeStep_cases notify call w
    · rw [hcall] at hannounce
      rw [heq]
      exact hannounce
    · rw [hcall] at hannounce
      rw [heq]
      exact (hf _ _ (installStep_host u)).trans hannounce
  | cancelGate reason => exact hf _ _ (cancelGate_host w reason)
  | cancelStep step reason => exact hf _ _ (cancelStep_host w step reason)
  | cancelRun reason | requestBreak reason => exact hf _ _ (cancelRun_host w reason)
  | interrupt => exact hf _ _ (deliverInterrupt_host w)
  | setPacing seconds => exact hf _ _ (setPacing_host w seconds)
  | clearView => exact hf _ _ (modifyShownView_host w _)
  | start source => exact hf _ _ (start_host _ source w)
  | cancelTracked index => exact hf _ _ (cancelTracked_host w index)
  | cancelFuture future => exact hf _ _ (cancelFuture_host w future)
  | defer delay deed => cases delay <;> exact hf _ _ rfl
  | invoke handler args => exact hf _ _ (invoke_host handler args w)
  | print category text => exact hf _ _ (print_host w category text)
  | showTrace event => exact hf _ _ (showTrace_host w event)
  | resetGate | setInterval | setTrace | release | addListener | removeListener | track | report
  | spend | announce | note | newBody | recordCall | raise | setCause | raiseWhile | describe | nap | dropTimer
  | isSettled | write | log | setStatus | pacing | turtle => exact hf _ _ rfl

/-- No operation changes the sink. -/
theorem performWith_accepts {notify : Notify}
    (hnotify : ∀ event w, (notify event w).2.output.accepts = w.output.accepts) (o : Op) (w : World) :
    (performWith env notify o w).2.output.accepts = w.output.accepts := by
  by_cases ho : o.LeavesSignals
  · exact performWith_outer outer_accepts hnotify ho w
  · cases o with
    | hookInterrupt reason =>
      cases hsignals : env.signals <;> simp only [performWith, hsignals] <;> rfl
    | unhookInterrupt => rfl
    | _ => exact absurd trivial ho

/-- Listeners that run into the limit of nesting leave handler and sink. -/
theorem notifyNone_host (event : StepEvent) (w : World) : (notifyNone event w).2.host = w.host :=
  tellEach_keeps (I := fun v => v.host = w.host) (fun _ _ hv => hv) (fun _ _ _ _ _ hv => hv) _ rfl

/-- Where programs and listeners leave the handler, so does every other operation that is none of a host. -/
theorem performWithin_interrupt (henv : env.LeavesSignals) (depth : Nat) {o : Op} (ho : o.LeavesSignals) (w : World) :
    (performWithin env depth o w).2.interrupt = w.interrupt := by
  induction depth generalizing o w with
  | zero => exact performWith_outer outer_interrupt (fun event u => outer_interrupt _ _ (notifyNone_host event u)) ho w
  | succ depth ih =>
    refine performWith_outer outer_interrupt (fun event u => ?_) ho w
    refine notifyWith_keeps (P := Op.LeavesSignals) (I := fun v => v.interrupt = u.interrupt)
      (fun o ho v hv => (ih ho v).trans hv) (fun _ _ _ _ _ hv => hv) (fun name => henv.listener name event) rfl

/-- An operation leaves the handler as it is, unless it is its registration or its removal. -/
theorem perform_interrupt (henv : env.LeavesSignals) {o : Op} (ho : o.LeavesSignals) (w : World) :
    (w.perform env o).2.interrupt = w.interrupt := performWithin_interrupt henv nesting ho w

/-- The sink accepts the same calls after every operation. -/
theorem performWithin_accepts (depth : Nat) (o : Op) (w : World) :
    (performWithin env depth o w).2.output.accepts = w.output.accepts := by
  induction depth generalizing o w with
  | zero => exact performWith_accepts (fun event u => outer_accepts _ _ (notifyNone_host event u)) o w
  | succ depth ih =>
    refine performWith_accepts (fun event u => ?_) o w
    exact notifyWith_keeps (P := fun _ => True) (I := fun v => v.output.accepts = u.output.accepts)
      (fun o _ v hv => (ih o v).trans hv) (fun _ _ _ _ _ hv => hv) (fun _ => Code.all_true _) rfl

/-- The sink is set up once for all: no operation changes which of its calls it accepts. -/
theorem perform_accepts (env : Env) (o : Op) (w : World) :
    (w.perform env o).2.output.accepts = w.output.accepts := performWithin_accepts nesting o w

theorem rouse_host (w : World) (future : FutureId) : (w.rouse future).host = w.host :=
  rouse_keeps (I := fun v => v.host = w.host) rfl (settle_host w future _)

theorem receive_host (w : World) (o : Outcome) : (w.receive o).2.host = w.host := by
  cases o <;> rfl

theorem resumption_host (w : World) (job : Job) (received : Except FaultId Value) :
    (w.resumption job received).2.host = w.host := by
  unfold resumption
  split
  · split
    · split <;> rfl
    · rfl
  · rfl

theorem takeUp_host (w : World) (id : JobId) (job : Job) (received : Except FaultId Value) :
    (w.takeUp id job received).2.host = w.host := by
  rw [takeUp_eq]
  exact resumption_host w job received

theorem endJob_host (w : World) (id : JobId) (future : FutureId) (result : Except FaultId Value) :
    (w.endJob id future result).host = w.host := by
  obtain ⟨o, heq⟩ := endJob_eq w id future result
  rw [heq, settle_host]

theorem finish_host (w : World) (id : RunId) (status : Status) (error : Option FaultId) :
    (w.finish id status error).host = w.host := by
  obtain ⟨reason, message, heq⟩ := finish_eq w id status error
  rw [heq]
  exact cancelGate_host w reason

theorem conclude_host (w : World) (id : RunId) (fault : Option FaultId) :
    (w.conclude id fault).2.host = w.host := by
  unfold conclude
  split
  · dsimp only
    split <;> exact finish_host _ id .completed none
  · split
    · exact finish_host w id .failed _
    · split
      · rfl
      · split
        · dsimp only
          split <;> exact finish_host w id .failed _
        · exact finish_host w id .failed _

theorem endRun_host (w : World) (run : Option RunId) (result : Except FaultId Value) :
    (w.endRun run result).2.host = w.host := by
  cases run with
  | none => rfl
  | some r =>
    obtain ⟨fault, heq, -⟩ := endRun_some w r result
    rw [heq, conclude_host]

theorem whenDone_host (w : World) (future : FutureId) (c : Callback) :
    (w.whenDone future c).host = w.host := by
  unfold whenDone
  split <;> rfl

/-- However a job leaves off, the handler and the sink stay. -/
theorem putDown_host (w : World) (id : JobId) (job : Job) (stop : Stop (Except FaultId Value)) :
    (w.putDown id job stop).host = w.host := by
  cases stop with
  | finished result => exact (endJob_host _ id job.future _).trans (endRun_host w job.run result)
  | paused k => rfl
  | parked future k =>
    have hwaits := whenDone_host (w.modifyJob id ({ · with resume := k, waiting := some future })) future (.wake id)
    change (w.park id future k).host = w.host
    unfold park
    dsimp only
    split
    · split <;> exact (cancelFuture_host _ future).trans hwaits
    · exact hwaits

end World

namespace Scene

open World

variable {env : Env}

/-- A job that is taken up leaves the handler and the sink. -/
theorem resumed_host (w : World) (id : JobId) (received : Except FaultId Value) :
    (resumed w id received).world.host = w.host := by
  obtain heq | ⟨job, -, -, ⟨-, heq⟩ | ⟨-, heq⟩⟩ := resumed_cases w id received
  · rw [heq]
  · rw [heq]
    exact (endJob_host _ id job.future _).trans (takeUp_host w id job received)
  · rw [heq]
    exact takeUp_host w id job received

/-- Calling a callback of the loop leaves the handler and the sink. -/
theorem called_host (w : World) (c : Callback) : (called env w c).world.host = w.host := by
  cases c with
  | run id => exact resumed_host w id _
  | wake id =>
    simp only [called]
    cases ((w.jobs[id]?).bind Job.waiting).bind w.outcome? with
    | none => rfl
    | some o => exact (resumed_host _ id _).trans (receive_host w o)
  | elapse id => exact elapse_host w id
  | retract id => exact retract_host w id
  | rouse future => exact rouse_host w future
  | deed d => rfl

/-- Between its operations a job that has its turn leaves the handler and the sink. -/
theorem advance_host {t : Turn} (hop : ∀ o k, t.rest ≠ .op o k) (w : World) :
    (t.advance env w).world.host = w.host := by
  unfold Turn.advance
  split
  · exact putDown_host w t.id t.job _
  · next o k hrest => exact absurd hrest (hop o k)
  · exact putDown_host w t.id t.job _
  · split
    · exact putDown_host w t.id t.job _
    · exact receive_host w _

/-- The sink is the same all along. -/
theorem Step.accepts {P : Op → Prop} {s t : Scene} (h : Step env P s t) : t.world.output.accepts =
    s.world.output.accepts := by
  cases h with
  | clock | spawn => rfl
  | perform w ho => exact perform_accepts env _ w
  | next hnext =>
    obtain ⟨w, activity⟩ := s
    cases activity with
    | turn turn =>
      cases hnext
      obtain ⟨id, job, r⟩ := turn
      by_cases hop : ∃ o k, r = .op o k
      · obtain ⟨o, k, rfl⟩ := hop
        exact perform_accepts env o w
      · exact outer_accepts _ _ (advance_host (fun o k hr => hop ⟨o, k, hr⟩) w)
    | deed c =>
      cases c with
      | done result =>
        cases hnext
        rfl
      | op o k =>
        cases hnext
        exact perform_accepts env o w
    | none =>
      simp only [next?] at hnext
      split at hnext
      · cases hnext
      · cases hnext
        rfl
      · next c l _ =>
        cases hnext
        exact outer_accepts _ _ (called_host { w with loop := l } c)

/-- In a whole history the sink accepts the same calls. -/
theorem Steps.accepts {P : Op → Prop} {s t : Scene} (h : Steps env P s t) :
    t.world.output.accepts = s.world.output.accepts := by
  induction h with
  | refl => rfl
  | tail _ hstep ih => exact hstep.accepts.trans ih

end Scene

end SteppedLogo
