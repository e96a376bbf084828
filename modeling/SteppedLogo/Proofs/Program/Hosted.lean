import SteppedLogo.Launch
import SteppedLogo.Proofs.World.Signals

namespace SteppedLogo

namespace Host

/-- What `runProgram` does once it has tried to start the run. -/
def afterStart : Except FaultId FutureId → Routine (Except FaultId Exit)
  | .error id => do
    let fault ← Routine.perform (.describe id)
    Routine.perform (.print "error" (Fault.message fault))
    return .ok .error
  | .ok future => do
    let hooked ← hookInterrupt
    let received ← Routine.wait future
    let exit ← match received with
      | .ok _ => pure (.ok .ok)
      | .error id => report id
    if hooked then Routine.perform .unhookInterrupt
    return exit

theorem runProgram_eq (source : String) : (runProgram source).run =
    .op (.print "input" source) fun _ => .op (.start source) afterStart := rfl

end Host

namespace Routine

variable {α β : Type}

/-- Code that calls `Host.runProgram` any number of times, and has to do with the handler in no other way. -/
inductive Calls : Routine (Except FaultId Value) → Prop
  | done (result : Except FaultId Value) : Calls (.done result)
  | op {o : Op} {k : o.Reply → Routine (Except FaultId Value)} (ho : o.LeavesSignals)
    (hk : ∀ reply, Calls (k reply)) : Calls (.op o k)
  | await (future : Option FutureId) {k : Except FaultId Value → Routine (Except FaultId Value)}
    (hk : ∀ received, Calls (k received)) : Calls (.await future k)
  | call (source : String) {k : Except FaultId Exit → Routine (Except FaultId Value)}
    (hk : ∀ exit, Calls (k exit)) : Calls ((Host.runProgram source).run.bind k)

theorem All.calls {r : Routine (Except FaultId Value)} (h : r.All Op.LeavesSignals) : r.Calls := by
  induction r with
  | done result => exact .done result
  | op o k ih => exact .op h.1 fun reply => ih reply (h.2 reply)
  | await future k ih => exact .await future fun received => ih received (h received)

/-- A program on the command line is a single call. -/
theorem calls_runProgram (source : String) : (Launch.runProgram source).run.Calls := by
  refine .call source (k := ExceptT.bindCont fun exit => pure (.int exit.code)) fun exit => ?_
  cases exit with
  | error id => exact .done _
  | ok exit => exact .done _

/-- How a call stands with the handler. -/
inductive Stand
  /-- it has none -/
  | free
  /-- it has just started the run of this task, and is to register one -/
  | started (task : FutureId)
  /-- it has registered one, and waits for the task -/
  | waits (task : FutureId)
  /-- the task is done, and it is to remove one -/
  | leaves (task : FutureId)

namespace Stand

/-- Whether a handler is still to be removed. -/
def Holds : Stand → Prop
  | free | started _ => False
  | waits _ | leaves _ => True

/-- Whether anything else may be done in between. -/
def Idles : Stand → Prop
  | free | leaves _ => True
  | started _ | waits _ => False

theorem idles_free : free.Idles := trivial

theorem idles_leaves (task : FutureId) : (leaves task).Idles := trivial

end Stand

/-- Code in which each handler that is registered is removed again: it is registered for a run that has been
started right before, and is removed once the task of the run is done. -/
inductive Hosts : Stand → Routine α → Prop
  | done (a : α) : Hosts .free (.done a)
  | op {σ : Stand} (hσ : σ.Idles) {o : Op} {k : o.Reply → Routine α} (ho : o.LeavesSignals)
    (hk : ∀ reply, Hosts σ (k reply)) : Hosts σ (.op o k)
  | await {σ : Stand} (hσ : σ.Idles) (future : Option FutureId) {k : Except FaultId Value → Routine α}
    (hk : ∀ received, Hosts σ (k received)) : Hosts σ (.await future k)
  | start (source : String) {k : Except FaultId FutureId → Routine α} (herror : ∀ id, Hosts .free (k (.error id)))
    (hok : ∀ task, Hosts (.started task) (k (.ok task))) : Hosts .free (.op (.start source) k)
  | hook {task : FutureId} {k : Except FaultId Unit → Routine α} (hok : Hosts (.waits task) (k (.ok ())))
    (herror : ∀ id, Hosts .free (k (.error id))) :
    Hosts (.started task) (.op (.hookInterrupt (.text stopReason)) k)
  | wait (task : FutureId) {k : Except FaultId Value → Routine α} (hk : ∀ received, Hosts (.leaves task) (k received)) :
    Hosts (.waits task) (.await (some task) k)
  | unhook {task : FutureId} {k : Unit → Routine α} (hk : Hosts .free (k ())) :
    Hosts (.leaves task) (.op .unhookInterrupt k)

/-- Code with a handler to remove: it does so before it ends, however it goes on. -/
def Holds : Routine α → Prop
  | .done _ => False
  | .op o k => o = .unhookInterrupt ∨ ∀ reply, (k reply).Holds
  | .await _ k => ∀ received, (k received).Holds

/-- Each operation may be answered in some way. -/
theorem nonempty_reply (o : Op) : Nonempty o.Reply := by
  have fault : Fault := { kind := .general }
  cases o with
  | hook | step | setPacing | start | invoke | hookInterrupt => exact ⟨.error (0 : FaultId)⟩
  | cancelGate | cancelStep | interrupt | cancelTracked | cancelFuture | isSettled | spend => exact ⟨false⟩
  | newBody => exact ⟨.ofList 0 []⟩
  | raise => exact ⟨(0 : Nat)⟩
  | describe => exact ⟨fault⟩
  | nap => exact ⟨((0 : Nat), (0 : Nat))⟩
  | pacing => exact ⟨(0.0 : Float)⟩
  | turtle => exact ⟨({} : Turtle)⟩
  | resetGate | cancelRun | requestBreak | setInterval | setTrace | clearView | release | addListener
  | removeListener | track | report | defer | announce | note | recordCall | setCause | raiseWhile | dropTimer
  | print | write | showTrace | log | unhookInterrupt | setStatus => exact ⟨()⟩

theorem Hosts.holds_iff {σ : Stand} {r : Routine α} (h : r.Hosts σ) : r.Holds ↔ σ.Holds := by
  induction h with
  | done => exact Iff.rfl
  | @op σ hσ o k ho _ ih =>
    obtain ⟨reply⟩ := nonempty_reply o
    refine ⟨fun hholds => ?_, fun hholds => .inr fun reply => (ih reply).2 hholds⟩
    obtain rfl | hrest := hholds
    · cases ho
    · exact (ih reply).1 (hrest reply)
  | await _ _ _ ih => exact ⟨fun hholds => (ih (.ok .none)).1 (hholds _), fun hholds x => (ih x).2 hholds⟩
  | start _ _ _ iherror =>
    refine ⟨fun hholds => ?_, fun hfree => hfree.elim⟩
    obtain hremoves | hrest := hholds
    · cases hremoves
    · exact (iherror 0).1 (hrest (.error 0))
  | hook _ _ _ iherror =>
    refine ⟨fun hholds => ?_, fun hfree => hfree.elim⟩
    obtain hremoves | hrest := hholds
    · cases hremoves
    · exact (iherror 0).1 (hrest (.error 0))
  | wait _ _ ih => exact ⟨fun _ => trivial, fun _ x => (ih x).2 trivial⟩
  | unhook => exact ⟨fun _ => trivial, fun _ => .inl rfl⟩

/-- Only by registering a handler is one come by, and only by removing it is it got rid of. -/
theorem Hosts.holds_reply {σ : Stand} {o : Op} {k : o.Reply → Routine α} (h : (Routine.op o k).Hosts σ)
    (ho : o.LeavesSignals) (reply : o.Reply) : (k reply).Holds ↔ (Routine.op o k).Holds := by
  have hbefore := h.holds_iff
  cases h with
  | op _ _ hk => exact (hk reply).holds_iff.trans hbefore.symm
  | start source herror hok =>
    cases reply with
    | error fault => exact (herror fault).holds_iff.trans hbefore.symm
    | ok task => exact (hok task).holds_iff.trans hbefore.symm
  | hook | unhook => cases ho

theorem Hosts.await_cases {σ : Stand} {future : Option FutureId} {k : Except FaultId Value → Routine α}
    (h : (Routine.await future k).Hosts σ) : (σ.Idles ∧ ∀ received, (k received).Hosts σ) ∨
      ∃ task, σ = .waits task ∧ future = some task ∧ ∀ received, (k received).Hosts (.leaves task) := by
  cases h with
  | await hσ _ hk => exact .inl ⟨hσ, hk⟩
  | wait task hk => exact .inr ⟨task, rfl, rfl, hk⟩

/-- Only right after a start is a handler registered. -/
theorem Hosts.hook_cases {σ : Stand} {reason : Value} {k : Except FaultId Unit → Routine α}
    (h : (Routine.op (.hookInterrupt reason) k).Hosts σ) : ∃ task, σ = .started task ∧
      reason = .text stopReason ∧ (k (.ok ())).Hosts (.waits task) := by
  cases h with
  | op _ ho => cases ho
  | @hook task _ hok => exact ⟨task, rfl, rfl, hok⟩

theorem Hosts.of_waits {task : FutureId} {r : Routine α} (h : r.Hosts (.waits task)) :
    ∃ k, r = .await (some task) k ∧ ∀ received, (k received).Hosts (.leaves task) := by
  cases h with
  | op hσ | await hσ => cases hσ
  | wait _ hk => exact ⟨_, rfl, hk⟩

theorem Hosts.of_started {task : FutureId} {r : Routine α} (h : r.Hosts (.started task)) :
    ∃ k, r = .op (.hookInterrupt (.text stopReason)) k := by
  cases h with
  | op hσ | await hσ => cases hσ
  | hook => exact ⟨_, rfl⟩

theorem All.hosts_bind {σ : Stand} (hσ : σ.Idles) {r : Routine α} (h : r.All Op.LeavesSignals) {f : α → Routine β}
    (hf : ∀ a, (f a).Hosts σ) : (r.bind f).Hosts σ := by
  induction r with
  | done a => exact hf a
  | op o k ih => exact .op hσ h.1 fun reply => ih reply (h.2 reply)
  | await future k ih => exact .await hσ future fun received => ih received (h received)

theorem bind_assoc {γ : Type} (r : Routine α) (f : α → Routine β) (g : β → Routine γ) :
    (r.bind f).bind g = r.bind fun a => (f a).bind g := by
  induction r with
  | done a => rfl
  | op o k ih => exact congrArg (Routine.op o) (funext ih)
  | await future k ih => exact congrArg (Routine.await future) (funext ih)

/-- Hooking interrupts comes down to the attempt and, where it fails, to describing the fault and logging it. -/
theorem all_hookInterrupt {P : Op → Prop} (hhook : ∀ reason, P (.hookInterrupt reason)) (hdescribe : ∀ id, P (.describe id))
    (hlog : ∀ level logger message fault, P (.log level logger message fault)) : Host.hookInterrupt.All P := by
  refine ⟨hhook _, fun reply => ?_⟩
  cases reply with
  | ok => trivial
  | error id => exact ⟨hdescribe id, fun _ => ⟨hlog _ _ _ _, fun _ => trivial⟩⟩

/-- Reporting the end of a run comes down to describing faults, printing and logging. -/
theorem all_report {P : Op → Prop} (hdescribe : ∀ id, P (.describe id)) (hprint : ∀ category text, P (.print category text))
    (hlog : ∀ level logger message fault, P (.log level logger message fault)) (id : FaultId) : (Host.report id).All P := by
  refine ⟨hdescribe id, fun fault => ?_⟩
  simp only [Routine.bind]
  split
  · exact ⟨hprint _ _, fun _ => trivial⟩
  · exact ⟨hdescribe _, fun _ => ⟨hlog _ _ _ _, fun _ => ⟨hprint _ _, fun _ => trivial⟩⟩⟩
  · trivial

variable {k : Except FaultId Exit → Routine α} {σ : Stand}

/-- A call that is refused leaves the handler alone. -/
theorem hosts_refused (hk : ∀ exit, (k exit).Hosts .free) (id : FaultId) :
    ((Host.afterStart (.error id)).bind k).Hosts .free :=
  .op Stand.idles_free trivial fun _ => .op Stand.idles_free trivial fun _ => hk _

/-- What a call reports, with or without a handler to remove then. -/
theorem hosts_reported (hσ : σ.Idles) {f : Except FaultId Exit → Routine α} (hf : ∀ exit, (f exit).Hosts σ)
    (received : Except FaultId Value) :
    ((match received with
      | .ok _ => pure (.ok Exit.ok)
      | .error id => Host.report id : Routine (Except FaultId Exit)).bind f).Hosts σ := by
  cases received with
  | ok x => exact hf _
  | error id =>
    have hreport : (Host.report id).All Op.LeavesSignals :=
      all_report (fun _ => trivial) (fun _ _ => trivial) (fun _ _ _ _ => trivial) id
    exact hreport.hosts_bind hσ hf

/-- A call that has started a run registers the handler for it. -/
theorem hosts_started (hk : ∀ exit, (k exit).Hosts .free) (task : FutureId) :
    ((Host.afterStart (.ok task)).bind k).Hosts (.started task) := by
  refine .hook (.wait task fun received => ?_) fun id => .op Stand.idles_free trivial fun _ =>
    .op Stand.idles_free trivial fun _ => .await Stand.idles_free (some task) fun received => ?_
  · have hremoves (exit : Except FaultId Exit) :
        (Routine.op .unhookInterrupt fun _ => k exit).Hosts (.leaves task) := .unhook (hk exit)
    have hreported := hosts_reported (Stand.idles_leaves task) hremoves received
    cases received with
    | ok x => exact hreported
    | error id =>
      change (((Host.report id).bind fun exit => .op .unhookInterrupt fun _ => .done exit).bind k).Hosts _
      rw [bind_assoc]
      exact hreported
  · have hreported := hosts_reported Stand.idles_free hk received
    cases received with
    | ok x => exact hreported
    | error id =>
      change (((Host.report id).bind fun exit => .done exit).bind k).Hosts _
      rw [bind_assoc]
      exact hreported

/-- A call of `Host.runProgram` removes the handler that it registers. -/
theorem hosts_runProgram (hk : ∀ exit, (k exit).Hosts .free) (source : String) :
    ((Host.runProgram source).run.bind k).Hosts .free := by
  rw [Host.runProgram_eq]
  exact .op Stand.idles_free trivial fun _ => .start source (hosts_refused hk) (hosts_started hk)

theorem Calls.hosts {r : Routine (Except FaultId Value)} (h : r.Calls) : r.Hosts .free := by
  induction h with
  | done result => exact .done result
  | op ho _ ih => exact .op Stand.idles_free ho ih
  | await future _ ih => exact .await Stand.idles_free future ih
  | call source _ ih => exact hosts_runProgram ih source

end Routine

end SteppedLogo
