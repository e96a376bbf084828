import Mathlib.Logic.Relation
import SteppedLogo.Proofs.Fault.Report
import SteppedLogo.Proofs.Program.Operations
import SteppedLogo.Proofs.Command.Effect

namespace SteppedLogo.World

variable {env : Env}

/-- Two states that differ neither in the loop, its futures and jobs, nor in the steps of the gate,
nor in the runs, and whose earlier faults are told of in the same way. -/
structure Aside (w v : World) : Prop where
  loop : v.loop = w.loop
  futures : v.futures = w.futures
  jobs : v.jobs = w.jobs
  pending : v.gate.pending = w.gate.pending
  steps : v.gate.steps = w.gate.steps
  runs : v.session.runs = w.session.runs
  nextNumber : v.session.nextNumber = w.session.nextNumber
  resettled : v.resettled = w.resettled
  faults : w.faults.Keeps v.faults

/-- What it comes to that a future is cancelled: one of no job is settled, a job is asked to end. -/
inductive Cancels : World → World → Prop
  | plain (w : World) {id : FutureId} {f : Future} (hf : w.futures[id]? = some f)
    (hopen : f.outcome = none) (hjob : f.job = none) : Cancels w (w.settle id .cancelled)
  | request (w : World) (id : JobId) : Cancels w (w.modifyJob id ({ · with cancelRequested := true }))

/-- The changes that make no call boundary, and stop no timer but that of a step. -/
inductive Nudge (env : Env) : World → World → Prop
  | aside {w v : World} (haside : w.Aside v) : Nudge env w v
  | defer (w : World) {d : Deed} (hstep : d.isStep = false) : Nudge env w (w.soon (.deed d))
  | deferLater (w : World) (delay : Float) {d : Deed} (hstep : d.isStep = false) :
    Nudge env w (w.later delay (.deed d)).2
  | nap (w : World) (delay : Float) : Nudge env w (w.nap delay).2
  | cancelStep (w : World) (id : StepId) (reason : Value) : Nudge env w (w.cancelStep id reason).2
  | cancels {w v : World} (hcancels : Cancels w v) : Nudge env w v
  | cancelRun (w : World) (reason : Value) : Nudge env w (w.cancelRun reason)
  | start (w : World) (source : String) : Nudge env w (w.start (env.program source) source).2

/-- The changes that make no call boundary. -/
inductive Touch (env : Env) : World → World → Prop
  | aside {w v : World} (haside : w.Aside v) : Touch env w v
  | defer (w : World) {d : Deed} (hstep : d.isStep = false) : Touch env w (w.soon (.deed d))
  | deferLater (w : World) (delay : Float) {d : Deed} (hstep : d.isStep = false) :
    Touch env w (w.later delay (.deed d)).2
  | nap (w : World) (delay : Float) : Touch env w (w.nap delay).2
  | dropTimer (w : World) (timer : TimerId) : Touch env w (w.cancelTimer timer)
  | cancelStep (w : World) (id : StepId) (reason : Value) : Touch env w (w.cancelStep id reason).2
  | cancels {w v : World} (hcancels : Cancels w v) : Touch env w v
  | cancelRun (w : World) (reason : Value) : Touch env w (w.cancelRun reason)
  | start (w : World) (source : String) : Touch env w (w.start (env.program source) source).2

/-- All changes: those above, deeds deferred that take steps, and the two ways to start the pacing
of a step. -/
inductive Change (env : Env) : World → World → Prop
  | touch {w v : World} (htouch : Touch env w v) : Change env w v
  | defer (w : World) (d : Deed) : Change env w (w.soon (.deed d))
  | deferLater (w : World) (delay : Float) (d : Deed) : Change env w (w.later delay (.deed d)).2
  | install (w : World) : Change env w w.installStep.2
  | installFor (w : World) (id : RunId) : Change env w (w.installFor id).2

/-- Any number of changes that make no call boundary, and stop no timer but that of a step. -/
abbrev Nudges (env : Env) : World → World → Prop := Relation.ReflTransGen (Nudge env)

/-- Any number of changes that make no call boundary. -/
abbrev Touches (env : Env) : World → World → Prop := Relation.ReflTransGen (Touch env)

/-- Any number of changes. -/
abbrev Changes (env : Env) : World → World → Prop := Relation.ReflTransGen (Change env)

theorem Nudge.touch {w v : World} (hnudge : Nudge env w v) : Touch env w v := by
  cases hnudge with
  | aside haside => exact .aside haside
  | defer hstep => exact .defer w hstep
  | deferLater delay hstep => exact .deferLater w delay hstep
  | nap delay => exact .nap w delay
  | cancelStep id reason => exact .cancelStep w id reason
  | cancels hcancels => exact .cancels hcancels
  | cancelRun reason => exact .cancelRun w reason
  | start source => exact .start w source

/-- The changes that make no call boundary stop no timer by its number, but for one that does nothing else. -/
theorem Touch.nudge_or {w v : World} (htouch : Touch env w v) : Nudge env w v ∨ ∃ timer, v = w.cancelTimer timer := by
  cases htouch with
  | aside haside => exact .inl (.aside haside)
  | defer hstep => exact .inl (.defer w hstep)
  | deferLater delay hstep => exact .inl (.deferLater w delay hstep)
  | nap delay => exact .inl (.nap w delay)
  | dropTimer timer => exact .inr ⟨timer, rfl⟩
  | cancelStep id reason => exact .inl (.cancelStep w id reason)
  | cancels hcancels => exact .inl (.cancels hcancels)
  | cancelRun reason => exact .inl (.cancelRun w reason)
  | start source => exact .inl (.start w source)

/-- Nudges make no call boundary. -/
theorem Nudges.touches {w v : World} (hnudges : Nudges env w v) : Touches env w v :=
  Relation.ReflTransGen.mono (fun _ _ hnudge => hnudge.touch) _ _ hnudges

/-- What makes no call boundary is a change. -/
theorem Touches.changes {w v : World} (htouches : Touches env w v) : Changes env w v := by
  induction htouches with
  | refl => exact .refl
  | tail _ htouch ih => exact ih.tail (.touch htouch)

theorem Aside.refl (w : World) : w.Aside w := ⟨rfl, rfl, rfl, rfl, rfl, rfl, rfl, rfl, .refl _⟩

theorem Aside.trans {u v w : World} (huv : u.Aside v) (hvw : v.Aside w) : u.Aside w :=
  ⟨hvw.loop.trans huv.loop, hvw.futures.trans huv.futures, hvw.jobs.trans huv.jobs,
    hvw.pending.trans huv.pending, hvw.steps.trans huv.steps, hvw.runs.trans huv.runs,
    hvw.nextNumber.trans huv.nextNumber, hvw.resettled.trans huv.resettled,
    huv.faults.trans hvw.faults⟩

/-- What happens aside is a nudge. -/
theorem Aside.nudges {w v : World} (haside : w.Aside v) : Nudges env w v := .single (.aside haside)

/-- Raising faults changes nothing but them. -/
theorem aside_faults (w : World) {faults : Faults} (hkeeps : w.faults.Keeps faults) :
    w.Aside { w with faults } := ⟨rfl, rfl, rfl, rfl, rfl, rfl, rfl, rfl, hkeeps⟩

theorem aside_addLog (w : World) (level : Level) (logger message : String) (fault : Option String) :
    w.Aside (w.addLog level logger message fault) :=
  ⟨rfl, rfl, rfl, rfl, rfl, rfl, rfl, rfl, .refl _⟩

theorem aside_raise (w : World) (f : Fault) : w.Aside (w.raise f).2 :=
  aside_faults w (Faults.keeps_add _ _)

theorem aside_complain {α : Type} (w : World) (c : Complaint) : w.Aside (@complain α w c).2 :=
  aside_raise w _

theorem aside_write (w : World) (r : Record) : w.Aside (w.write r) :=
  ⟨rfl, rfl, rfl, rfl, rfl, rfl, rfl, rfl, .refl _⟩

theorem aside_print (w : World) (category text : String) : w.Aside (w.print category text) := by
  simp only [World.print]
  split <;> exact ⟨rfl, rfl, rfl, rfl, rfl, rfl, rfl, rfl, .refl _⟩

theorem aside_modifyShownView (w : World) (change : DebugView → DebugView) :
    w.Aside (w.modifyShownView change) := by
  unfold modifyShownView
  split <;> exact ⟨rfl, rfl, rfl, rfl, rfl, rfl, rfl, rfl, .refl _⟩

theorem aside_modifyTrace (w : World) (change : Trace → Trace) : w.Aside (w.modifyTrace change) :=
  ⟨rfl, rfl, rfl, rfl, rfl, rfl, rfl, rfl, .refl _⟩

/-- A change of the gate happens aside if it leaves the pending step and the timers. -/
theorem aside_modifyGate (w : World) {change : Gate → Gate}
    (hpending : (change w.gate).pending = w.gate.pending)
    (hsteps : (change w.gate).steps = w.gate.steps) : w.Aside (w.modifyGate change) :=
  ⟨rfl, rfl, rfl, hpending, hsteps, rfl, rfl, rfl, .refl _⟩

/-- Showing a call changes the trace and the log alone. -/
theorem aside_showCall (w : World) (call : Call) : w.Aside (w.showCall call) := by
  unfold showCall
  split
  · exact .refl w
  · exact .refl w
  · dsimp only
    split <;> exact ⟨rfl, rfl, rfl, rfl, rfl, rfl, rfl, rfl, .refl _⟩

/-- Cancelling a future comes down to one that is settled or to a job that is to end, however long the chain is. -/
theorem cancelWithin_cancels (fuel : Nat) (id : FutureId) (w : World) :
    Relation.ReflTransGen Cancels w (cancelWithin fuel id w).2 := by
  induction fuel generalizing id w with
  | zero => exact .refl
  | succ fuel ih =>
    simp only [cancelWithin]
    split
    · exact .refl
    · next f hf =>
      split
      · exact .refl
      · next hopen =>
        have hopen : f.outcome = none := by simpa using hopen
        split
        · next hjob => exact .single (.plain w hf hopen hjob)
        · split
          · exact .single (.request w _)
          · next awaited _ =>
            dsimp only
            split
            · exact ih awaited w
            · exact (ih awaited w).tail (.request _ _)

/-- Cancelling a future comes down to one that is settled or to a job that is to end. -/
theorem cancelFuture_cancels (id : FutureId) (w : World) :
    Relation.ReflTransGen Cancels w (w.cancelFuture id).2 := cancelWithin_cancels ..

/-- What holds of a world is kept when the gate is cancelled, provided it holds once any of its steps is rejected. -/
theorem cancelGate_keeps {K : World → Prop} {w : World} {reason : Value} (hw : K w)
    (hrejected : ∀ id, K (w.cancelStep id reason).2) : K (w.cancelGate reason).2 := by
  unfold cancelGate
  split
  · exact hw
  · exact hrejected _

/-- What holds of a world is kept when an interrupt is delivered, provided it holds once the run is asked to stop. -/
theorem deliverInterrupt_keeps {K : World → Prop} {w : World} (hw : K w) (hasked : ∀ reason, K (w.cancelRun reason)) :
    K w.deliverInterrupt.2 := by
  unfold deliverInterrupt
  split
  · exact hasked _
  · exact hw

/-- What each cancellation keeps is kept when a future is cancelled. -/
theorem cancelFuture_keeps {K : World → Prop} {w : World} (hw : K w) (hstep : ∀ u v, K u → Cancels u v → K v)
    (id : FutureId) : K (w.cancelFuture id).2 := by
  have hcancels := cancelFuture_cancels id w
  generalize (w.cancelFuture id).2 = v at hcancels ⊢
  induction hcancels with
  | refl => exact hw
  | tail _ hcancel ih => exact hstep _ _ ih hcancel

/-- Cancelling a future makes no call boundary. -/
theorem cancelFuture_nudges (id : FutureId) (w : World) : Nudges env w (w.cancelFuture id).2 :=
  cancelFuture_keeps (K := Nudges env w) .refl (fun _ _ hu hstep => hu.tail (.cancels hstep)) id

/-- Cancelling the pending step makes no call boundary. -/
theorem cancelGate_nudges (w : World) (reason : Value) : Nudges env w (w.cancelGate reason).2 :=
  cancelGate_keeps (K := Nudges env w) .refl fun id => .single (.cancelStep w id _)

/-- No word makes a call boundary, or stops a timer but that of a step. -/
theorem invoke_nudges (h : Handler) (args : List Value) (w : World) :
    Nudges env w (w.invoke env h args).2 := by
  unfold invoke
  split
  · rw [callPrimitive_eq]
    split
    · exact (aside_complain w _).nudges
    · next e _ =>
      obtain ⟨_, _, _, _, heq⟩ := carryOut_frame w e
      rw [heq]
      exact Aside.nudges ⟨rfl, rfl, rfl, rfl, rfl, rfl, rfl, rfl, .refl _⟩
  · exact .single (.cancelRun w _)
  · exact .single (.cancelRun w _)
  · exact (aside_complain w _).nudges
  · next v =>
    have hstart : Nudges env w (w.start (env.program v.display) v.display).2 := .single (.start w _)
    split <;> next heq => rw [heq] at hstart; exact hstart
  · exact Aside.nudges ⟨rfl, rfl, rfl, rfl, rfl, rfl, rfl, rfl, .refl _⟩
  · exact Aside.nudges ⟨rfl, rfl, rfl, rfl, rfl, rfl, rfl, rfl, .refl _⟩
  · exact (aside_complain w _).nudges
  · exact (aside_complain w _).nudges

/-- Delivering an interrupt makes no call boundary. -/
theorem deliverInterrupt_nudges (w : World) : Nudges env w w.deliverInterrupt.2 :=
  deliverInterrupt_keeps (K := Nudges env w) .refl fun reason => .single (.cancelRun w reason)

theorem cancelTracked_nudges (w : World) (index : Option Nat) :
    Nudges env w (w.cancelTracked index).2 := by
  unfold cancelTracked
  split
  · exact cancelFuture_nudges _ w
  · exact .refl

/-- Where a step is pending another one is refused; else the listeners are told of it, unless its
arguments are none. -/
theorem announceStep_cases (notify : Notify) (call : Call) (w : World) :
    (∃ id, w.gate.pending = some id ∧
      w.announceStep notify call =
        w.complain (stillPending (((w.pacedStep? id).map PacedStep.seq).getD 0))) ∨
    (w.gate.pending = none ∧ ∃ v, w.Aside v ∧
      ((∃ c, w.announceStep notify call = v.complain c) ∨
        ∃ event, w.announceStep notify call = notify event v)) := by
  unfold announceStep
  cases hpending : w.gate.pending with
  | some id => exact .inl ⟨id, rfl, rfl⟩
  | none =>
    have hshown : w.Aside ((w.modifyGate fun g => { g with seq := g.seq + 1 }).showCall call) :=
      (aside_modifyGate w rfl rfl).trans (aside_showCall _ call)
    refine .inr ⟨rfl, _, hshown, ?_⟩
    cases hargs : call.args.items with
    | error c => exact .inl ⟨c, rfl⟩
    | ok args => exact .inr ⟨_, rfl⟩

/-- A step is taken, or its announcement fails. -/
theorem takeStep_cases (notify : Notify) (call : Call) (w : World) :
    (∃ fault u, w.announceStep notify call = (.error fault, u) ∧
      w.takeStep notify call = (.error fault, u)) ∨
    ∃ u, w.announceStep notify call = (.ok (), u) ∧
      w.takeStep notify call = (.ok u.installStep.1, u.installStep.2) := by
  unfold takeStep
  match h : w.announceStep notify call with
  | (.error fault, u) => exact .inl ⟨fault, u, rfl, rfl⟩
  | (.ok (), u) => exact .inr ⟨u, rfl, rfl⟩

/-- The call boundary of the current run is announced without its body where the trace is off. -/
theorem hook_cases (notify : Notify) (call : Call) (w : World) :
    ∃ shown, (∃ fault u, w.announceStep notify shown = (.error fault, u) ∧
        w.hook notify call = (.error fault, u)) ∨
      ∃ u, w.announceStep notify shown = (.ok (), u) ∧
        w.hook notify call =
          (.ok (u.installFor w.session.current).1, (u.installFor w.session.current).2) := by
  unfold hook
  refine ⟨if w.session.traceOn then call else { call with body := .none }, ?_⟩
  match h : w.announceStep notify (if w.session.traceOn then call else { call with body := .none }) with
  | (.error fault, u) => exact .inl ⟨fault, u, rfl, by simp only [h]⟩
  | (.ok (), u) => exact .inr ⟨u, rfl, by simp only [h]⟩

/-- A step is announced by what the listeners do, and nothing else of note. -/
theorem announceStep_keeps {I : World → Prop} {notify : Notify}
    (haside : ∀ w v, w.Aside v → I w → I v) (hnotify : ∀ event w, I w → I (notify event w).2)
    (call : Call) {w : World} (hw : I w) : I (w.announceStep notify call).2 := by
  obtain ⟨id, -, heq⟩ | ⟨-, v, hv, ⟨c, heq⟩ | ⟨event, heq⟩⟩ := announceStep_cases notify call w
  · rw [heq]
    exact haside _ _ (aside_complain w _) hw
  · rw [heq]
    exact haside _ _ (hv.trans (aside_complain v c)) hw
  · rw [heq]
    exact hnotify event v (haside _ _ hv hw)

/-- An operation that neither schedules nor settles anything leaves all that as it is. -/
theorem performWith_aside (notify : Notify) {o : Op} (haside : o.IsAside) (w : World) :
    w.Aside (performWith env notify o w).2 := by
  cases o with
  | hook | step | cancelGate | cancelStep | cancelRun | requestBreak | interrupt | start | cancelTracked | cancelFuture
  | defer | invoke | nap | dropTimer => cases haside
  | raise spec => exact aside_faults w (spec.keeps_raise _)
  | setCause id cause => exact aside_faults w (Faults.keeps_setCause _ _ _)
  | raiseWhile handled id => exact aside_faults w (Faults.keeps_raiseWhile _ _ _)
  | print category text => exact aside_print w category text
  | showTrace event =>
    simp only [performWith, World.showTrace]
    split
    · exact aside_write w _
    · exact .refl w
  | setPacing seconds =>
    simp only [performWith, World.setPacing]
    split
    · exact aside_complain w _
    · exact ⟨rfl, rfl, rfl, rfl, rfl, rfl, rfl, rfl, .refl _⟩
  | hookInterrupt reason =>
    change w.Aside (if env.signals then (.ok (), { w with interrupt := some reason })
      else w.complain noSignals : Except FaultId Unit × World).2
    split
    · exact ⟨rfl, rfl, rfl, rfl, rfl, rfl, rfl, rfl, .refl _⟩
    · exact aside_complain w _
  | clearView => exact aside_modifyShownView w _
  | resetGate | setInterval | setTrace | release | addListener | removeListener | track | report
  | spend | announce | note | newBody | recordCall | describe | isSettled | write | log
  | unhookInterrupt | setStatus | pacing | turtle =>
    exact ⟨rfl, rfl, rfl, rfl, rfl, rfl, rfl, rfl, .refl _⟩

/-- An operation that makes no call boundary comes down to changes that make none, and stops no timer
but that of a step unless that is what it is for. -/
theorem performWith_nudges (notify : Notify) {o : Op} (hquiet : o.IsQuiet)
    (hkeeps : o.KeepsTimers) (w : World) : Nudges env w (performWith env notify o w).2 := by
  by_cases haside : o.IsAside
  · exact (performWith_aside notify haside w).nudges
  cases o with
  | hook | step => cases hquiet
  | dropTimer => cases hkeeps
  | cancelGate reason => exact cancelGate_nudges w reason
  | cancelStep step reason => exact .single (.cancelStep w step reason)
  | cancelRun reason | requestBreak reason => exact .single (.cancelRun w reason)
  | interrupt => exact deliverInterrupt_nudges w
  | start source => exact .single (.start w source)
  | cancelTracked index => exact cancelTracked_nudges w index
  | cancelFuture future => exact cancelFuture_nudges future w
  | defer delay deed =>
    cases delay with
    | none => exact .single (.defer w hquiet)
    | some delay => exact .single (.deferLater w delay hquiet)
  | invoke handler args => exact invoke_nudges handler args w
  | nap delay => exact .single (.nap w delay)
  | _ => exact absurd trivial haside

/-- An operation that makes no call boundary comes down to changes that make none. -/
theorem performWith_touches (notify : Notify) {o : Op} (hquiet : o.IsQuiet)
    (w : World) : Touches env w (performWith env notify o w).2 := by
  obtain hkeeps | ⟨timer, rfl⟩ := o.keepsTimers_or
  · exact (performWith_nudges notify hquiet hkeeps w).touches
  · exact .single (.dropTimer w timer)

/-- What is kept by the changes that an operation comes down to is kept by the operation, as long as it is by
telling the listeners. -/
theorem performWith_keeps {I : World → Prop} {notify : Notify}
    (haside : ∀ w v, w.Aside v → I w → I v) (hnotify : ∀ event w, I w → I (notify event w).2)
    (hdefer : ∀ w d, I w → I (w.soon (.deed d)))
    (hdeferLater : ∀ w delay d, I w → I (w.later delay (.deed d)).2)
    (hinstall : ∀ w, I w → I w.installStep.2) (hinstallFor : ∀ w id, I w → I (w.installFor id).2)
    {o : Op} (hquiet : o.IsQuiet → ∀ w, I w → I (performWith env notify o w).2) {w : World} (hw : I w) :
    I (performWith env notify o w).2 := by
  cases o with
  | hook call =>
    change I (w.hook notify call).2
    obtain ⟨shown, ⟨fault, u, hcall, heq⟩ | ⟨u, hcall, heq⟩⟩ := hook_cases notify call w <;>
      have hu := announceStep_keeps haside hnotify shown hw <;> rw [hcall] at hu <;> rw [heq]
    · exact hu
    · exact hinstallFor u _ hu
  | step call =>
    change I (w.takeStep notify call).2
    obtain ⟨fault, u, hcall, heq⟩ | ⟨u, hcall, heq⟩ := takeStep_cases notify call w <;>
      have hu := announceStep_keeps haside hnotify call hw <;> rw [hcall] at hu <;> rw [heq]
    · exact hu
    · exact hinstall u hu
  | defer delay deed =>
    cases delay with
    | none => exact hdefer w deed hw
    | some delay => exact hdeferLater w delay deed hw
  | _ => exact hquiet trivial w hw

/-- Any operation comes down to changes, as long as telling the listeners does. -/
theorem performWith_changes {notify : Notify}
    (hnotify : ∀ event w, Changes env w (notify event w).2) (o : Op) (w : World) :
    Changes env w (performWith env notify o w).2 :=
  performWith_keeps (fun _ _ haside hu => hu.tail (.touch (.aside haside)))
    (fun event u hu => Relation.ReflTransGen.trans hu (hnotify event u)) (fun u d hu => hu.tail (.defer u d))
    (fun u delay d hu => hu.tail (.deferLater u delay d)) (fun u hu => hu.tail (.install u))
    (fun u id hu => hu.tail (.installFor u id))
    (fun hquiet u hu => Relation.ReflTransGen.trans hu (performWith_touches notify hquiet u).changes) .refl

end SteppedLogo.World

namespace SteppedLogo

variable {α : Type} {env : Env} {P : Op → Prop} {I : World → Prop}

/-- What every operation keeps is kept by code. -/
theorem Code.run_keeps {perform : (o : Op) → World → o.Reply × World} {c : Code α}
    (hop : ∀ o, P o → ∀ w, I w → I (perform o w).2) (hc : c.All P) {w : World} (hw : I w) :
    I (c.run perform w).2 := by
  induction c generalizing w with
  | done a => exact hw
  | op o k ih => exact ih _ (hc.2 _) (hop o hc.1 w hw)

namespace World

/-- What each listener keeps is kept by telling them in turn, also where one of them stops it. -/
theorem tellEach_keeps {react : String → World → Except FaultId Unit × World}
    (hreact : ∀ name w, I w → I (react name w).2)
    (hlog : ∀ w level logger message fault, I w → I (w.addLog level logger message fault))
    (names : List String) {w : World} (hw : I w) : I (tellEach react names w).2 := by
  induction names generalizing w with
  | nil => exact hw
  | cons name rest ih =>
    have hreacted := hreact name w hw
    unfold tellEach
    split
    · next heq =>
      rw [heq] at hreacted
      exact ih hreacted
    · next heq =>
      rw [heq] at hreacted
      split
      · exact ih (hlog _ _ _ _ _ hreacted)
      · exact hreacted

/-- What every operation of a listener keeps is kept by telling the listeners. -/
theorem notifyWith_keeps {perform : (o : Op) → World → o.Reply × World} {event : StepEvent}
    (hop : ∀ o, P o → ∀ w, I w → I (perform o w).2)
    (hlog : ∀ w level logger message fault, I w → I (w.addLog level logger message fault))
    (hreact : ∀ name, (env.react name event).run.All P) {w : World} (hw : I w) :
    I (notifyWith env perform event w).2 :=
  tellEach_keeps (fun name _ hw => Code.run_keeps hop (hreact name) hw) hlog _ hw

/-- Listeners that run into the limit of nesting keep what is kept by all that happens aside. -/
theorem notifyNone_keeps (haside : ∀ w v, w.Aside v → I w → I v) (event : StepEvent) {w : World}
    (hw : I w) : I (notifyNone event w).2 :=
  tellEach_keeps (fun _ w hw => haside _ _ (aside_complain w tooDeep) hw)
    (fun _ _ _ _ _ hw => haside _ _ (aside_addLog ..) hw) _ hw

/-- Listeners that raise nothing but errors do not stop one another. -/
theorem tellEach_ok {react : String → World → Except FaultId Unit × World}
    (hreact : ∀ name w fault v, react name w = (.error fault, v) → (v.faults.kindOf fault).isError = true)
    (names : List String) (w : World) : (tellEach react names w).1 = .ok () := by
  induction names generalizing w with
  | nil => rfl
  | cons name rest ih =>
    unfold tellEach
    split
    · exact ih _
    · next heq =>
      rw [if_pos (hreact _ _ _ _ heq)]
      exact ih _

/-- What stops the telling of listeners is no error. -/
theorem tellEach_error {react : String → World → Except FaultId Unit × World} {names : List String} {w v : World}
    {fault : FaultId} (htold : tellEach react names w = (.error fault, v)) : (v.faults.kindOf fault).isError = false := by
  induction names generalizing w with
  | nil => cases htold
  | cons name rest ih =>
    unfold tellEach at htold
    split at htold
    · exact ih htold
    · split at htold
      · exact ih htold
      · next hpasses =>
        cases htold
        simpa using hpasses

/-- Listeners that run into the limit of nesting raise errors. -/
theorem notifyNone_ok (event : StepEvent) (w : World) : (notifyNone event w).1 = .ok () := by
  refine tellEach_ok (fun name u fault v heq => ?_) _ w
  cases heq
  exact congrArg FaultKind.isError (Faults.kindOf_add u.faults _)

/-- Every operation comes down to changes, at every depth of nesting. -/
theorem performWithin_changes (depth : Nat) (o : Op) (w : World) :
    Changes env w (performWithin env depth o w).2 := by
  have haside (u : World) : ∀ v v', v.Aside v' → Changes env u v → Changes env u v' :=
    fun _ _ haside hu => hu.tail (.touch (.aside haside))
  induction depth generalizing o w with
  | zero => exact performWith_changes (fun event u => notifyNone_keeps (haside u) event .refl) o w
  | succ depth ih =>
    refine performWith_changes (fun event u => ?_) o w
    exact notifyWith_keeps (fun o _ v hv => Relation.ReflTransGen.trans hv (ih o v))
      (fun v _ _ _ _ => haside u v _ (aside_addLog ..)) (fun name => Code.all_true _) .refl

/-- Every operation comes down to changes. -/
theorem perform_changes (o : Op) (w : World) : Changes env w (w.perform env o).2 :=
  performWithin_changes ..

/-- A quiet operation makes no call boundary, at whatever depth of nesting it is performed. -/
theorem performWithin_touches (depth : Nat) {o : Op} (hquiet : o.IsQuiet) (w : World) :
    Touches env w (performWithin env depth o w).2 := by
  cases depth <;> exact performWith_touches _ hquiet w

/-- A quiet operation makes no call boundary. -/
theorem perform_touches {o : Op} (hquiet : o.IsQuiet) (w : World) :
    Touches env w (w.perform env o).2 :=
  performWithin_touches _ hquiet w

end World

/-- Whatever a listener lets out is an error. An interrupt and the cancellation of a task are none. -/
def Env.RaisesErrors (env : Env) : Prop :=
  ∀ (depth : Nat) (name : String) (event : StepEvent) (w : World) (fault : FaultId) (v : World),
    (env.react name event).run.run (World.performWithin env depth) w = (.error fault, v) →
      (v.faults.kindOf fault).isError = true

/-- Where listeners let out nothing but errors, no step is stopped by telling them of it. -/
theorem Env.RaisesErrors.notify_ok (h : env.RaisesErrors) (depth : Nat) (event : StepEvent) (w : World) :
    (World.notifyWith env (World.performWithin env depth) event w).1 = .ok () :=
  World.tellEach_ok (fun name u fault v heq => h depth name event u fault v heq) _ w

/-- Listeners that only go on beside a program, and raise nothing but errors. -/
structure Env.GoesBeside (env : Env) : Prop where
  steers : ∀ name event, (env.react name event).run.All Op.Steers
  errors : env.RaisesErrors

/-- Listeners that do nothing raise nothing. -/
theorem raisesErrors_of_pure (hreact : ∀ name event, (env.react name event).run = .done (.ok ())) : env.RaisesErrors := by
  intro depth name event w fault v heq
  rw [hreact] at heq
  cases heq

/-- Listeners that do nothing go on beside every program. -/
theorem goesBeside_of_pure (hreact : ∀ name event, (env.react name event).run = .done (.ok ())) : env.GoesBeside :=
  ⟨fun name event => by rw [hreact]; trivial, raisesErrors_of_pure hreact⟩

end SteppedLogo
