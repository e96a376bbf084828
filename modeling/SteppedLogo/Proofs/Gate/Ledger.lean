import SteppedLogo.Proofs.World.Scene

namespace SteppedLogo

/-- What is noted of a gate. A listener that is told of a step may take a step itself; `level` is how far steps may
still nest. -/
inductive Notice
  | added (name : String)
  | removed (name : String)
  /-- the steps are counted from the beginning -/
  | reset
  /-- a call boundary is counted, but nobody is told of it -/
  | lost
  /-- the listeners begin to be told of a step -/
  | begins (level : Nat) (event : StepEvent)
  | told (level : Nat) (name : String) (event : StepEvent)
  /-- the listener that was told last at the level has failed with an error of this kind -/
  | failed (level : Nat) (name : String) (kind : FaultKind)
  /-- the step of which the listeners were told is set up -/
  | created (level : Nat) (step : StepId)
  /-- the listener that was told last at the level has let out what is no error: no other listener is told, and
  no step is set up -/
  | stopped (level : Nat) (kind : FaultKind)

namespace Notice

/-- What happens while listeners are told of a step at a level: each of them is told at that level, and any other
step is taken below it. -/
def IsWithin (level : Nat) : Notice → Prop
  | begins l _ | created l _ | stopped l _ => l < level
  | told l _ _ | failed l .. => l ≤ level
  | added _ | removed _ | reset | lost => True

def IsBelow (level : Nat) : Notice → Prop
  | begins l _ | created l _ | stopped l _ | told l _ _ | failed l .. => l < level
  | added _ | removed _ | reset | lost => True

/-- The listener that is told at a level, and what it is told of. -/
def told? (level : Nat) : Notice → Option (String × StepEvent)
  | told l name event => if l = level then some (name, event) else none
  | _ => none

def isBegins : Notice → Bool
  | begins .. => true
  | _ => false

def isCreated : Notice → Bool
  | created .. => true
  | _ => false

def isStopped : Notice → Bool
  | stopped .. => true
  | _ => false

def isLost : Notice → Bool
  | lost => true
  | _ => false

variable {n : Notice} {level : Nat}

theorem IsBelow.isWithin (h : n.IsBelow level) : n.IsWithin level := by
  cases n with
  | begins | created | stopped => exact h
  | told | failed => exact Nat.le_of_lt h
  | added | removed | reset | lost => trivial

/-- What happens within a level is below the next one. -/
theorem IsWithin.isBelow_succ (h : n.IsWithin level) : n.IsBelow (level + 1) := by
  cases n with
  | begins | created | stopped => exact Nat.lt_succ_of_lt h
  | told | failed => exact Nat.lt_succ_of_le h
  | added | removed | reset | lost => trivial

/-- Nobody is told at a level of what happens below it. -/
theorem IsBelow.told? (h : n.IsBelow level) : n.told? level = none := by
  cases n with
  | told l name event => exact if_neg (Nat.ne_of_lt h)
  | _ => rfl

end Notice

/-- What follows the beginning of a step at a level. The listeners are told of it in turn, each of them once, and then
the step is set up; or the last listener that is told stops this, and those after it are not told. -/
inductive Delivers (level : Nat) (event : StepEvent) (names : List String) : List Notice → Prop
  | all {during later : List Notice} {step : StepId} (hwithin : ∀ n ∈ during, n.IsWithin level)
    (htold : during.filterMap (Notice.told? level) = names.map (·, event)) :
    Delivers level event names (during ++ .created level step :: later)
  | stopped {during later : List Notice} {told untold : List String} {kind : FaultKind}
    (hwithin : ∀ n ∈ during, n.IsWithin level) (hnames : names = told ++ untold) (hsome : told ≠ [])
    (htold : during.filterMap (Notice.told? level) = told.map (·, event)) :
    Delivers level event names (during ++ .stopped level kind :: later)

/-- The registered listeners in the order of their registrations, the number of the last step, and how many steps have
been set up. -/
structure Ledger where
  listeners : List String
  count : Nat
  steps : Nat

namespace Ledger

variable {l : Ledger} {log more : List Notice}

/-- What a notice changes. Of several registrations of a listener the earliest is removed. -/
def after (l : Ledger) : Notice → Ledger
  | .added name => { l with listeners := l.listeners ++ [name] }
  | .removed name => { l with listeners := l.listeners.erase name }
  | .reset => { l with count := 0 }
  | .lost | .begins .. => { l with count := l.count + 1 }
  | .created .. => { l with steps := l.steps + 1 }
  | .told .. | .failed .. | .stopped .. => l

def reads (l : Ledger) (log : List Notice) : Ledger := log.foldl after l

/-- A notice may come next, before `rest`. Listeners begin to be told of no step but the next one; it is delivered to
all that are registered, whatever they do, unless one of them lets out what is no error. -/
def Fits (l : Ledger) (rest : List Notice) : Notice → Prop
  | .begins level event => event.seq = l.count + 1 ∧ Delivers level event l.listeners rest
  | .created _ step => step = l.steps
  | .failed _ _ kind => kind.isError = true
  | .stopped _ kind => kind.isError = false
  | _ => True

/-- Each notice may come where it does. -/
def Admits : Ledger → List Notice → Prop
  | _, [] => True
  | l, n :: rest => l.Fits rest n ∧ (l.after n).Admits rest

/-- A log may be read in two parts. -/
theorem reads_append (l : Ledger) (log more : List Notice) : l.reads (log ++ more) = (l.reads log).reads more :=
  List.foldl_append

/-- Since the steps were last counted from the beginning, each step of which listeners have begun to be told has got a
number, and each boundary of which nobody was told has taken one. -/
theorem reads_count (l : Ledger) (hreset : .reset ∉ log) :
    (l.reads log).count = l.count + (log.countP Notice.isBegins + log.countP Notice.isLost) := by
  induction log generalizing l with
  | nil => rfl
  | cons n rest ih =>
    refine (ih (l.after n) fun hmem => hreset (List.mem_cons_of_mem n hmem)).trans ?_
    rw [List.countP_cons, List.countP_cons]
    cases n with
    | reset => exact absurd List.mem_cons_self hreset
    | begins | lost =>
      simp only [after, Notice.isBegins, Notice.isLost, if_true, Bool.false_eq_true, if_false]
      omega
    | _ => rfl

/-- What fits before some notices fits before more of them. -/
theorem Fits.append {n : Notice} (h : l.Fits log n) (more : List Notice) : l.Fits (log ++ more) n := by
  cases n with
  | begins level event =>
    obtain ⟨hseq, hdelivers⟩ := h
    refine ⟨hseq, ?_⟩
    cases hdelivers with
    | all hwithin htold =>
      rw [List.append_assoc, List.cons_append]
      exact .all hwithin htold
    | stopped hwithin hnames hsome htold =>
      rw [List.append_assoc, List.cons_append]
      exact .stopped hwithin hnames hsome htold
  | _ => exact h

/-- Logs that may come one after the other may be joined. -/
theorem Admits.append (h : l.Admits log) (hmore : (l.reads log).Admits more) : l.Admits (log ++ more) := by
  induction log generalizing l with
  | nil => exact hmore
  | cons n rest ih => exact ⟨h.1.append more, ih h.2 hmore⟩

/-- What a log that is admitted says from some place on. -/
theorem Admits.fits {n : Notice} (h : l.Admits (log ++ n :: more)) : (l.reads log).Fits more n := by
  induction log generalizing l with
  | nil => exact h.1
  | cons m rest ih => exact ih h.2

end Ledger

namespace World

variable {env : Env} {w : World}

/-- The ledger of the gate of a bridge. -/
def ledger (w : World) : Ledger := ⟨w.gate.listeners, w.gate.seq, w.gate.steps.size⟩

/-- The ledger is read off the gate. -/
theorem ledger_of_gate {v : World} (h : v.gate = w.gate) : v.ledger = w.ledger := by
  unfold ledger
  rw [h]

@[simp]
theorem settle_ledger (w : World) (id : FutureId) (o : Outcome) : (w.settle id o).ledger = w.ledger :=
  ledger_of_gate settle_gate

@[simp]
theorem retract_ledger (w : World) (id : StepId) : (w.retract id).ledger = w.ledger :=
  retract_keeps (K := fun u => u.ledger = w.ledger) rfl
    (fun _ => congrArg (Ledger.mk w.gate.listeners w.gate.seq) Array.size_modify) fun _ hu => hu

@[simp]
theorem cancelStep_ledger (w : World) (id : StepId) (reason : Value) :
    (w.cancelStep id reason).2.ledger = w.ledger := by
  obtain ⟨heq, -⟩ | ⟨s, -, -, heq⟩ := cancelStep_cases w id reason
  · rw [heq]
  · rw [heq]
    exact (settle_ledger _ _ _).trans (retract_ledger w id)

@[simp]
theorem cancelGate_ledger (w : World) (reason : Value) : (w.cancelGate reason).2.ledger = w.ledger :=
  cancelGate_keeps (K := (World.ledger · = w.ledger)) rfl fun id => cancelStep_ledger w id reason

theorem elapse_ledger (w : World) (id : StepId) : (w.elapse id).ledger = w.ledger := by
  obtain ⟨heq, -⟩ | ⟨s, -, -, heq⟩ := elapse_cases w id
  · rw [heq]
  · rw [heq]
    exact (settle_ledger _ _ _).trans (retract_ledger w id)

/-- A step that is set up is noted under the number that comes next. -/
theorem installStep_ledger (w : World) (level : Nat) :
    w.installStep.2.ledger = w.ledger.after (.created level w.installStep.1.id) := by
  obtain ⟨message, heq⟩ := installStep_eq w
  rw [heq]
  exact congrArg (Ledger.mk w.gate.listeners w.gate.seq) (Array.size_push _)

/-- The step set up for a run is the one that the gate sets up, rejected or not. -/
theorem installFor_fst (w : World) (id : RunId) : (w.installFor id).1 = w.installStep.1 := by
  obtain ⟨-, heq⟩ | ⟨-, heq⟩ := installFor_cases id w <;> rw [heq]

/-- A step of a run is noted so too, also where it is rejected at once. -/
theorem installFor_ledger (w : World) (id : RunId) (level : Nat) :
    (w.installFor id).2.ledger = w.ledger.after (.created level (w.installFor id).1.id) := by
  rw [installFor_fst]
  obtain ⟨-, heq⟩ | ⟨-, heq⟩ := installFor_cases id w
  · rw [heq]
    exact installStep_ledger w level
  · rw [heq]
    exact (cancelStep_ledger _ _ _).trans (installStep_ledger w level)

/-- Showing a call leaves the gate. -/
theorem showCall_gate (w : World) (call : Call) : (w.showCall call).gate = w.gate := by
  unfold showCall
  split
  · rfl
  · rfl
  · dsimp only
    split <;> rfl

/-- Cancelling a future leaves the gate as it is until the callbacks of the future are called. -/
theorem cancelFuture_gate (w : World) (id : FutureId) : (w.cancelFuture id).2.gate = w.gate := by
  refine cancelFuture_keeps (K := fun v => v.gate = w.gate) rfl (fun u v hu hstep => Eq.trans ?_ hu) id
  cases hstep with
  | plain => exact settle_gate
  | request => rfl

theorem cancelTracked_gate (w : World) (index : Option Nat) : (w.cancelTracked index).2.gate = w.gate := by
  unfold cancelTracked
  split
  · exact cancelFuture_gate w _
  · rfl

/-- Cancelling the run registers no listener, and counts no step. -/
theorem cancelRun_ledger (w : World) (reason : Value) : (w.cancelRun reason).ledger = w.ledger :=
  cancelRun_keeps (K := (World.ledger · = w.ledger)) rfl fun _ _ =>
    cancelGate_ledger (w.modifyRun w.session.current ({ · with status := .canceling, reason })) reason

theorem deliverInterrupt_ledger (w : World) : w.deliverInterrupt.2.ledger = w.ledger :=
  deliverInterrupt_keeps (K := (World.ledger · = w.ledger)) rfl fun reason => cancelRun_ledger w reason

/-- The steps are counted from the beginning for each run, unless it is refused. -/
theorem start_ledger (program : Work Value) (source : String) (w : World) :
    (w.start program source).2.ledger = w.ledger.reads (if w.session.isActive then [] else [.reset]) := by
  obtain ⟨hactive, heq⟩ | ⟨hactive, number, nextNumber, message, heq⟩ := start_cases program source w
  · rw [heq, hactive]
    rfl
  · rw [heq, hactive]
    rfl

theorem print_gate (w : World) (category text : String) : (w.print category text).gate = w.gate := by
  simp only [World.print]
  split <;> rfl

theorem modifyShownView_gate (w : World) (change : DebugView → DebugView) :
    (w.modifyShownView change).gate = w.gate := by
  unfold modifyShownView
  split <;> rfl

theorem showTrace_gate (w : World) (event : StepEvent) : (w.showTrace event).gate = w.gate := by
  unfold World.showTrace
  dsimp only
  split <;> rfl

theorem setPacing_ledger (w : World) (seconds : Float) : (w.setPacing seconds).2.ledger = w.ledger := by
  unfold setPacing
  split <;> rfl

end World

/-- What is noted of an operation that makes no call boundary. -/
def Op.notices (o : Op) (w : World) : List Notice :=
  match o with
  | .addListener name => [.added name]
  | .removeListener name => [.removed name]
  | .resetGate => [.reset]
  | .start _ | .invoke .again [_] => if w.session.isActive then [] else [.reset]
  | _ => []

namespace World

variable {env : Env} {w : World}

/-- A word changes the ledger only if it starts a run, which counts its steps from the beginning. -/
theorem invoke_ledger (h : Handler) (args : List Value) (w : World) :
    (w.invoke env h args).2.ledger = w.ledger.reads ((Op.invoke h args).notices w) := by
  unfold invoke
  split
  · next p =>
    obtain ⟨_, _, _, _, _, _, heq⟩ := callPrimitive_frame p args w
    rw [heq]
    rfl
  · exact cancelRun_ledger w _
  · exact cancelRun_ledger w _
  · rfl
  · next v =>
    have hstart := start_ledger (env.program v.display) v.display w
    split <;> next heq => rw [heq] at hstart; exact hstart
  · rfl
  · rfl
  · rfl
  · next hagain _ _ _ =>
    cases h with
    | again =>
      cases args with
      | nil => rfl
      | cons v rest =>
        cases rest with
        | nil => exact absurd rfl (hagain v rfl)
        | cons => rfl
    | _ => rfl

/-- What is noted of an operation is what it does to the gate. -/
theorem performWith_ledger (notify : Notify) {o : Op} (hhook : ∀ call, o ≠ .hook call)
    (hstep : ∀ call, o ≠ .step call) (w : World) :
    (performWith env notify o w).2.ledger = w.ledger.reads (o.notices w) := by
  cases o with
  | hook call => exact absurd rfl (hhook call)
  | step call => exact absurd rfl (hstep call)
  | cancelGate reason => exact cancelGate_ledger w reason
  | cancelStep step reason => exact cancelStep_ledger w step reason
  | cancelRun reason | requestBreak reason => exact cancelRun_ledger w reason
  | interrupt => exact deliverInterrupt_ledger w
  | setPacing seconds => exact setPacing_ledger w seconds
  | clearView => exact ledger_of_gate (modifyShownView_gate w _)
  | start source => exact start_ledger _ source w
  | cancelTracked index => exact ledger_of_gate (cancelTracked_gate w index)
  | cancelFuture future => exact ledger_of_gate (cancelFuture_gate w future)
  | defer delay deed => cases delay <;> rfl
  | invoke handler args => exact invoke_ledger handler args w
  | print category text => exact ledger_of_gate (print_gate w category text)
  | showTrace event => exact ledger_of_gate (showTrace_gate w event)
  | hookInterrupt reason =>
    change (if env.signals then (.ok (), { w with interrupt := some reason })
      else w.complain noSignals : Except FaultId Unit × World).2.ledger = w.ledger
    split <;> rfl
  | resetGate | setInterval | setTrace | release | addListener | removeListener | track | report
  | spend | announce | note | newBody | recordCall | raise | setCause | raiseWhile | describe | nap | dropTimer
  | isSettled | write | log | unhookInterrupt | setStatus | pacing | turtle => rfl

theorem receive_ledger (w : World) (o : Outcome) : (w.receive o).2.ledger = w.ledger := by
  cases o <;> rfl

/-- Taking a job up leaves the ledger. -/
theorem takeUp_ledger (w : World) (id : JobId) (job : Job) (received : Except FaultId Value) :
    (w.takeUp id job received).2.ledger = w.ledger := by
  rw [takeUp_eq]
  unfold resumption
  split
  · split
    · split <;> rfl
    · rfl
  · rfl

theorem endJob_ledger (w : World) (id : JobId) (future : FutureId) (result : Except FaultId Value) :
    (w.endJob id future result).ledger = w.ledger := by
  obtain ⟨o, heq⟩ := endJob_eq w id future result
  rw [heq, settle_ledger]

theorem finish_ledger (w : World) (id : RunId) (status : Status) (error : Option FaultId) :
    (w.finish id status error).ledger = w.ledger := by
  obtain ⟨reason, message, heq⟩ := finish_eq w id status error
  rw [heq]
  exact cancelGate_ledger w reason

/-- The end of a run leaves the ledger. -/
theorem endRun_ledger (w : World) (run : Option RunId) (result : Except FaultId Value) :
    (w.endRun run result).2.ledger = w.ledger := by
  cases run with
  | none => rfl
  | some id =>
    obtain ⟨fault, heq, -⟩ := endRun_some w id result
    rw [heq]
    unfold conclude
    split
    · dsimp only
      split <;> exact finish_ledger _ id .completed none
    · split
      · exact finish_ledger w id .failed _
      · split
        · rfl
        · split
          · dsimp only
            split <;> exact finish_ledger w id .failed _
          · exact finish_ledger w id .failed _

theorem park_ledger (w : World) (id : JobId) (future : FutureId)
    (k : Except FaultId Value → Routine (Except FaultId Value)) : (w.park id future k).ledger = w.ledger := by
  have hwait : ((w.modifyJob id ({ · with resume := k, waiting := some future })).whenDone future
      (.wake id)).gate = w.gate := by
    unfold whenDone
    split <;> rfl
  unfold park
  dsimp only
  split
  · split <;> exact ledger_of_gate ((cancelFuture_gate _ future).trans hwait)
  · exact ledger_of_gate hwait

/-- However a job leaves off, the ledger stays. -/
theorem putDown_ledger (w : World) (id : JobId) (job : Job) (stop : Stop (Except FaultId Value)) :
    (w.putDown id job stop).ledger = w.ledger := by
  cases stop with
  | finished result => exact (endJob_ledger _ id job.future _).trans (endRun_ledger w job.run result)
  | paused k => rfl
  | parked future k => exact park_ledger w id future k

end World

namespace Scene

open World

variable {env : Env}

theorem resumed_ledger (w : World) (id : JobId) (received : Except FaultId Value) :
    (resumed w id received).world.ledger = w.ledger := by
  obtain heq | ⟨job, -, -, ⟨-, heq⟩ | ⟨-, heq⟩⟩ := resumed_cases w id received
  · rw [heq]
  · rw [heq]
    exact (endJob_ledger _ id job.future _).trans (takeUp_ledger w id job received)
  · rw [heq]
    exact takeUp_ledger w id job received

/-- Calling a callback leaves the ledger; what a deed does is noted as its operations are performed. -/
theorem called_ledger (w : World) (c : Callback) : (called env w c).world.ledger = w.ledger := by
  cases c with
  | run id => exact resumed_ledger w id _
  | wake id =>
    simp only [called]
    cases ((w.jobs[id]?).bind Job.waiting).bind w.outcome? with
    | none => rfl
    | some o => exact (resumed_ledger _ id _).trans (receive_ledger w o)
  | elapse id => exact elapse_ledger w id
  | retract id => exact retract_ledger w id
  | rouse future => exact rouse_keeps (I := fun v => v.ledger = w.ledger) rfl (settle_ledger w future _)
  | deed d => rfl

/-- Between its operations a job that has its turn leaves the ledger. -/
theorem advance_ledger {t : Turn} (hop : ∀ o k, t.rest ≠ .op o k) (w : World) :
    (t.advance env w).world.ledger = w.ledger := by
  unfold Turn.advance
  split
  · exact putDown_ledger w t.id t.job _
  · next o k hrest => exact absurd hrest (hop o k)
  · exact putDown_ledger w t.id t.job _
  · split
    · exact putDown_ledger w t.id t.job _
    · exact receive_ledger w _

end Scene

end SteppedLogo
