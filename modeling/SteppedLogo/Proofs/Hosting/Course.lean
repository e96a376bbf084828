import SteppedLogo.Proofs.Hosting.Turns

namespace SteppedLogo

namespace World

variable {w : World} {cs : List Callback}

/-- A step that is not pending is retracted, which changes nothing any more. -/
theorem retract_idle (hpending : w.gate.pending = none) (hloop : w.loop.Queues cs) (id : StepId) :
    ∃ l steps, w.retract id = { w with loop := l, gate := { w.gate with steps } } ∧ l.Queues cs := by
  have hother (i : StepId) : w.gate.pending ≠ some i := by
    rw [hpending]
    exact nofun
  unfold retract
  cases (w.pacedStep? id).bind PacedStep.timer with
  | none =>
    dsimp only
    rw [if_neg (hother id)]
    exact ⟨w.loop, w.gate.steps, rfl, hloop⟩
  | some timer =>
    dsimp only
    rw [if_neg]
    · exact ⟨w.loop.cancel timer, _, rfl, hloop.cancel timer⟩
    · exact hother id

end World

open World

variable {env : Env} {E : Engagement} {T : Errand} {v w : World} {job : Job} {exit : Exit}
variable {id : StepId} {ids : List StepId} {known : FaultId → Prop} {l : Loop Callback} {cs : List Callback}
variable {k : Except FaultId Value → Routine (Except FaultId Value)} {past : List (String × Exit)} {left : List String}

namespace Errand

/-- The run has been started, and its job has not had its turn yet. -/
structure Begins (E : Engagement) (T : Errand) (k : Except FaultId Value → Routine (Except FaultId Value)) (w : World) :
    Prop where
  posts : Posts E T (T.runJob k none false) w
  tells : Tells E T w
  loop : w.loop.Queues [.run T.job]
  pending : w.gate.pending = none

/-- The step at which the program waits has been settled: the steps `ids` are retracted, and then the program is woken,
and goes on as `k`. -/
structure Wakes (E : Engagement) (T : Errand) (k : Except FaultId Value → Routine (Except FaultId Value))
    (ids : List StepId) (w : World) : Prop where
  tells : Tells E T w
  step : ∃ future o received, Posts E T (T.runJob k (some future) true) w ∧ w.outcome? future = some o ∧
    (∀ u : World, u.receive o = (received, u)) ∧ w.Raised fun id => received = .error id
  loop : w.loop.Queues (ids.map .retract ++ [.wake T.job])
  pending : w.gate.pending = none

/-- The program has its turn, its job having been taken up. -/
theorem taken (env : Env) {waiting : Option FutureId} {begun : Bool} (received : Except FaultId Value)
    (hposts : Posts E T (T.runJob k waiting begun) w) (htells : Tells E T w) (hloop : w.loop.Queues [])
    (hpending : w.gate.pending = none) (hbegins : (begun || received.isOk) = true) :
    w.resume env T.job received = endTurn env T.job (T.runJob k waiting begun) (k received) (w.giveTurn T.job) ∧
      T.Works E [] (w.giveTurn T.job) := by
  have hopen : w.isDone T.future = false := isDone_eq_false.2 (outcome?_of_get hposts.future)
  have hgiven := hposts.modifyJob ({ · with waiting := none, cancelRequested := false, begun := true })
  exact ⟨resume_of_get hposts.job hopen rfl hbegins,
    ⟨k, hgiven⟩, htells.kept rfl (.refl _) rfl, hloop, hpending, fun hids => absurd rfl hids⟩

namespace Begins

theorem toils (h : T.Begins E k w) (hv : w.Toils E.asks v) : T.Begins E k v :=
  ⟨h.posts.same hv.jobs hv.futures, h.tells.toils hv, hv.loop ▸ h.loop, hv.pending.trans h.pending⟩

theorem setClock (h : T.Begins E k w) (clock : Float) : T.Begins E k (w.setClock clock) :=
  ⟨h.posts.same rfl rfl, h.tells.kept rfl (.refl _) rfl, h.loop.setClock clock, h.pending⟩

/-- The program has its first turn. -/
theorem turn (env : Env) (h : T.Begins E k w) (hloop : l.Queues []) : ∃ u,
    ({ w with loop := l } : World).runCallback env (.run T.job) =
      endTurn env T.job (T.runJob k none false) (k (.ok .none)) u ∧ T.Works E [] u ∧ u.faults = w.faults := by
  obtain ⟨hturn, hworks⟩ := taken (w := { w with loop := l }) env (.ok .none) (h.posts.same rfl rfl)
    (h.tells.kept rfl (.refl _) rfl) hloop h.pending rfl
  exact ⟨_, hturn, hworks, rfl⟩

end Begins

namespace Wakes

theorem toils (h : T.Wakes E k ids w) (hv : w.Toils E.asks v) : T.Wakes E k ids v := by
  obtain ⟨future, o, received, hposts, ho, hreceives, hraised⟩ := h.step
  refine ⟨h.tells.toils hv, ⟨future, o, received, hposts.same hv.jobs hv.futures, ?_, hreceives, hraised.kept hv.faults⟩,
    hv.loop ▸ h.loop, hv.pending.trans h.pending⟩
  rw [outcome?, hv.futures]
  exact ho

theorem setClock (h : T.Wakes E k ids w) (clock : Float) : T.Wakes E k ids (w.setClock clock) := by
  obtain ⟨future, o, received, hposts, ho, hreceives, hraised⟩ := h.step
  exact ⟨h.tells.kept rfl (.refl _) rfl,
    ⟨future, o, received, hposts.same rfl rfl, ho, hreceives, hraised⟩, h.loop.setClock clock, h.pending⟩

/-- A step is retracted, which changes nothing any more. -/
theorem retracts (h : T.Wakes E k (id :: ids) w) (hloop : l.Queues (ids.map .retract ++ [.wake T.job])) :
    T.Wakes E k ids (({ w with loop := l } : World).retract id) := by
  obtain ⟨future, o, received, hposts, ho, hreceives, hraised⟩ := h.step
  obtain ⟨l', steps, heq, hl'⟩ := retract_idle (w := { w with loop := l }) h.pending hloop id
  rw [heq]
  exact ⟨h.tells.kept rfl (.refl _) rfl,
    ⟨future, o, received, hposts.same rfl rfl, ho, hreceives, hraised⟩, hl', h.pending⟩

/-- The program is woken, and has its turn. -/
theorem turn (env : Env) (h : T.Wakes E k [] w) (hloop : l.Queues []) : ∃ future received u,
    ({ w with loop := l } : World).runCallback env (.wake T.job) =
      endTurn env T.job (T.runJob k (some future) true) (k received) u ∧ T.Works E [] u ∧ u.faults = w.faults ∧
      w.Raised fun id => received = .error id := by
  obtain ⟨future, o, received, hposts, ho, hreceives, hraised⟩ := h.step
  obtain ⟨hturn, hworks⟩ := taken (w := { w with loop := l }) env received (hposts.same rfl rfl)
    (h.tells.kept rfl (.refl _) rfl) hloop h.pending rfl
  refine ⟨future, received, _, ?_, hworks, rfl, hraised⟩
  exact (wake_of_get (w := { w with loop := l }) hposts.job rfl ho (hreceives _)).trans hturn

/-- A step that is settled wakes the program that waits for it. -/
theorem of_settle {future : FutureId} {o : Outcome} {received : Except FaultId Value}
    (hposts : Posts E T (T.runJob k (some future) true) w) (htells : Tells E T w) (hloop : w.loop.Queues [])
    (hpending : w.gate.pending = none) (hfuture : w.futures[future]? = some { callbacks := [.retract id, .wake T.job] })
    (hreceives : ∀ u : World, u.receive o = (received, u)) (hraised : w.Raised fun id => received = .error id) :
    T.Wakes E k [id] (w.settle future o) := by
  rw [settle_of_open hfuture rfl]
  refine ⟨htells.kept rfl (.refl _) rfl, ⟨future, o, received, ?_, ?_, hreceives, hraised⟩,
    hloop.append [.retract id, .wake T.job], hpending⟩
  · exact (hposts.modifyFuture hfuture rfl fun f => { f with outcome := some o, callbacks := [] }).same rfl rfl
  · refine outcome?_of_get (f := { outcome := some o, callbacks := [] }) ?_
    change (w.futures.modify future _)[future]? = _
    rw [Array.getElem?_modify, if_pos rfl, hfuture]
    rfl

end Wakes

namespace Pauses

theorem setClock (h : T.Pauses E k w) (clock : Float) : T.Pauses E k (w.setClock clock) := by
  obtain ⟨id, future, hposts, hpends⟩ := h.step
  obtain ⟨seq, timer, due, hstep, htimes⟩ := hpends.step
  exact ⟨h.tells.kept rfl (.refl _) rfl, id, future, hposts.same rfl rfl, hpends.pending,
    ⟨seq, timer, due, hstep, htimes.setClock clock⟩, hpends.future⟩

/-- A program waits at a step whose time has not come, and which is released once it has. -/
theorem due (env : Env) (h : T.Pauses E k w) : ∃ due id, w.loop.earliest? = some due ∧
    (w.loop.clock < due → w.tick? env = none) ∧
      (¬ w.loop.clock < due → ∃ v, w.tick? env = some v ∧ v.faults = w.faults ∧ T.Wakes E k [id] v) := by
  obtain ⟨id, future, hposts, hpends⟩ := h.step
  obtain ⟨seq, timer, due, hstep, htimes⟩ := hpends.step
  refine ⟨due, id, htimes.earliest?, fun hearly => by rw [tick?, htimes.next?_early hearly], fun hdue => ?_⟩
  obtain ⟨l, hnext, hloop⟩ := htimes.next? hdue
  have hretracts := @retract_pending { w with loop := l } _ _ _ _ hstep hpends.pending
  have hpaced : { w with loop := l }.pacedStep? id = some ⟨seq, future, some timer⟩ := hstep
  have hopen : { w with loop := l }.isDone future = false := isDone_eq_false.2 (outcome?_of_get hpends.future)
  have helapses : ({ w with loop := l } : World).elapse id =
      (({ w with loop := l } : World).retract id).settle future (.value .none) := by
    simp only [elapse, hpaced, hopen, Bool.false_eq_true, if_false]
  refine ⟨({ w with loop := l } : World).elapse id, by rw [tick?, hnext]; rfl, ?_, ?_⟩
  · rw [helapses, settle_faults, hretracts]
  · rw [helapses, hretracts]
    exact Wakes.of_settle (hposts.same rfl rfl) (h.tells.kept rfl (.refl _) rfl) (hloop.cancel timer)
      rfl hpends.future (fun _ => rfl) fun id hid => by cases hid

/-- An interrupt rejects the step at which the program waits, if the run is not to stop already. -/
theorem cancelRun (h : T.Pauses E k w) (reason : Value) : w.cancelRun reason = w ∨
    ∃ id, T.Wakes E k [id] (w.cancelRun reason) ∧ w.faults.Keeps (w.cancelRun reason).faults := by
  obtain ⟨id, future, hposts, hpends⟩ := h.step
  obtain ⟨seq, timer, due, hstep, htimes⟩ := hpends.step
  obtain ⟨-, heq⟩ | ⟨hrunning, message, heq⟩ := cancelRun_cases w reason
  · exact .inl heq
  refine .inr ⟨id, ?_⟩
  have htells : Tells E T (w.modifyRun w.session.current ({ · with status := .canceling, reason })) :=
    h.tells.toils ⟨rfl, rfl, rfl, rfl, .refl _, fun h => h.same rfl, .inr ⟨hrunning, reason, rfl⟩⟩
  obtain ⟨asked, hasked⟩ : ∃ asked : World,
      asked = w.modifyRun w.session.current ({ · with status := .canceling, reason }) := ⟨_, rfl⟩
  rw [← hasked] at heq htells
  have hpending : asked.gate.pending = some id := by rw [hasked]; exact hpends.pending
  have hfuture : asked.futures[future]? = some { callbacks := [.retract id, .wake T.job] } := by
    rw [hasked]
    exact hpends.future
  have hgate : asked.cancelGate reason = asked.cancelStep id reason := by simp only [cancelGate, hpending]
  obtain ⟨v, logged, hrejects, hv⟩ := cancelStep_pending (by rw [hasked]; exact hstep) hpending hfuture rfl reason
  rw [hgate, hrejects] at heq
  have hkeeps : asked.faults.Keeps v.faults := hv ▸ Faults.keeps_add _ _
  have hwakes : T.Wakes E k [id] (v.settle future (.fault (asked.faults.add (.cancellation reason)).1)) := by
    subst hv
    have hnow : Posts E T (T.runJob k (some future) true) asked := hposts.same (hasked ▸ rfl) (hasked ▸ rfl)
    refine Wakes.of_settle (hnow.same rfl rfl) (htells.kept rfl hkeeps rfl) ?_ rfl hfuture (fun _ => rfl) ?_
    · rw [hasked]
      exact htimes.cancel
    · rintro _ ⟨⟩
      exact ⟨_, Faults.get?_add _ _, rfl⟩
  have hfaults : w.faults.Keeps v.faults := by
    rwa [hasked] at hkeeps
  rw [heq]
  exact ⟨hwakes.toils ⟨rfl, rfl, rfl, rfl, .refl _, fun h => h.same rfl, .inl rfl⟩, settle_faults.symm ▸ hfaults⟩

end Pauses

end Errand

namespace World

namespace Sits

theorem idles (h : Sits E past left job cs w) (hv : w.Idles E.asks v) : Sits E past left job cs v := by
  refine ⟨hv.aside.jobs ▸ h.host, hv.aside.futures ▸ h.future, hv.aside.runs ▸ h.chronicle.kept hv.aside.faults, ?_,
    hv.unasked h.unasked, hv.aside.loop ▸ h.loop, hv.aside.pending.trans h.pending⟩
  rw [Session.isActive, Session.run, hv.aside.runs]
  exact h.inactive

theorem setClock (h : Sits E past left job cs w) (clock : Float) : Sits E past left job cs (w.setClock clock) :=
  ⟨h.host, h.future, h.chronicle, h.inactive, h.unasked, h.loop.setClock clock, h.pending⟩

theorem isOpen (h : Sits E past left job cs w) : w.isDone E.future = false :=
  isDone_eq_false.2 (outcome?_of_get h.future)

/-- The host has its turn, its job having been taken up. -/
theorem taken (env : Env) {resume : Except FaultId Value → Routine (Except FaultId Value)} {waiting : Option FutureId}
    {begun : Bool} (received : Except FaultId Value) (h : Sits E past left (E.job resume waiting begun) cs w)
    (hloop : l.Queues []) (hbegins : (begun || received.isOk) = true) : ∃ u,
    ({ w with loop := l } : World).resume env E.host received =
      endTurn env E.host (E.job resume waiting begun) (resume received) u ∧
      Sits E past left (E.job resume none true) [] u ∧ u.faults = w.faults := by
  refine ⟨({ w with loop := l } : World).giveTurn E.host, resume_of_get h.host h.isOpen rfl hbegins,
    ⟨?_, h.future, h.chronicle, h.inactive, h.unasked, hloop, h.pending⟩, rfl⟩
  rw [giveTurn, modifyJob_get, if_pos rfl]
  change (w.jobs[E.host]?).map _ = _
  rw [h.host]
  rfl

end Sits

/-- Where no run is under way there is none to be stopped. -/
theorem cancelRun_inactive (h : w.session.isActive = false) (reason : Value) : w.cancelRun reason = w := by
  obtain ⟨-, heq⟩ | ⟨hrunning, -⟩ := cancelRun_cases w reason
  · exact heq
  · rw [Session.isActive, hrunning] at h
    cases h

end World

namespace Errand.Ends

theorem setClock (h : T.Ends E exit ids w) (clock : Float) : T.Ends E exit ids (w.setClock clock) :=
  ⟨h.sits.setClock clock, h.outcome⟩

/-- A step is retracted, which changes nothing any more. -/
theorem retracts (h : T.Ends E exit (id :: ids) w) (hloop : l.Queues (ids.map .retract ++ [.wake E.host])) :
    T.Ends E exit ids (({ w with loop := l } : World).retract id) := by
  obtain ⟨l', steps, heq, hl'⟩ := retract_idle (w := { w with loop := l }) h.sits.pending hloop id
  rw [heq]
  exact ⟨⟨h.sits.host, h.sits.future, h.sits.chronicle, h.sits.inactive, h.sits.unasked, hl', h.sits.pending⟩, h.outcome⟩

/-- The host is woken, hears how the run has ended, and goes on with that. -/
theorem turn (env : Env) (h : T.Ends E exit [] w) (hloop : l.Queues []) : ∃ u,
    ({ w with loop := l } : World).runCallback env (.wake E.host) =
      endTurn env E.host (E.job T.closing (some T.future) true) (T.goesOn (.ok exit)) u ∧
      Sits E (T.past ++ [(T.source, exit)]) T.left (E.job T.closing none true) [] u := by
  obtain ⟨o, ho, hheeds⟩ := h.outcome
  obtain ⟨received, hreceives, hreports⟩ := hheeds.reports env E.asks T.hooked
  obtain ⟨u, hturn, hsits, hfaults⟩ := h.sits.taken env received hloop rfl
  obtain ⟨v, hcloses, hidles⟩ := hreports u hfaults
  refine ⟨v, ?_, hsits.idles hidles⟩
  change ({ w with loop := l } : World).wake env E.host = _
  rw [wake_of_get (w := { w with loop := l }) h.sits.host rfl ho (hreceives _), hturn]
  exact endTurn_bind hcloses T.goesOn

end Errand.Ends

/-- Behind the program of an errand, the host runs the programs that are left. -/
def Errand.Leads (E : Engagement) (T : Errand) : Prop :=
  ∀ exit, (T.goesOn (.ok exit)).Conducts E.asks E.Settles (T.past ++ [(T.source, exit)]) T.left

namespace World

/-- A host has ended, and nothing is left to be done. -/
structure Discharged (E : Engagement) (w : World) : Prop where
  settles : ∃ past left result, E.Settles past left result ∧ E.Chronicle past left w.faults w.session.runs ∧
    ∃ o, w.outcome? E.future = some o ∧ ∀ x, result = .ok x → o = .value x
  inactive : w.session.isActive = false
  unasked : w.Unasked E.asks
  loop : w.loop.Queues []

namespace Sits

variable {resume : Except FaultId Value → Routine (Except FaultId Value)} {result : Except FaultId Value}

/-- A host that comes to its result has ended with that. -/
theorem closes (env : Env) (h : Sits E past left (E.job resume none true) [] w) (hresult : E.Settles past left result)
    (hfuture : job.future = E.future) (hrun : job.run = none) :
    Discharged E (endTurn env E.host job (.done result) w) := by
  have hcalm : ((w.jobs[E.host]?).map Job.cancelRequested).getD false = false := by
    rw [h.host]
    rfl
  obtain ⟨o, hends, ho⟩ : ∃ o, endTurn env E.host job (.done result) w = w.settle E.future o ∧
      ∀ x, result = .ok x → o = .value x := by
    have hputs : endTurn env E.host job (.done result) w = w.endJob E.host E.future result := by
      change w.putDown E.host job (.finished result) = _
      simp only [putDown, hrun, endRun, hfuture]
    rw [hputs]
    cases result with
    | ok x =>
      refine ⟨.value x, by simp only [endJob, hcalm, Bool.false_eq_true, if_false], ?_⟩
      rintro _ ⟨⟩
      rfl
    | error e =>
      by_cases hcancelled : w.faults.kindOf e = .taskCancelled
      · refine ⟨.cancelled, by simp only [endJob, if_pos hcancelled], fun x hx => ?_⟩
        cases hx
      · refine ⟨.fault e, by simp only [endJob, if_neg hcancelled], fun x hx => ?_⟩
        cases hx
  rw [hends, settle_of_open h.future rfl]
  refine ⟨⟨past, left, result, hresult, h.chronicle, o, ?_, ho⟩, h.inactive, h.unasked, h.loop.append []⟩
  refine outcome?_of_get (f := { outcome := some o, callbacks := [], job := some E.host }) ?_
  change (w.futures.modify E.future _)[E.future]? = _
  rw [Array.getElem?_modify, if_pos rfl, h.future]
  rfl

/-- A host that runs a program starts its run, and waits for it. -/
theorem calls (env : Env) (job : Job) {source : String} (k : Except FaultId Exit → Routine (Except FaultId Value))
    (h : Sits E past (source :: left) (E.job resume none true) [] w) :
    ∃ T : Errand, T.source = source ∧ T.past = past ∧ T.left = left ∧ T.goesOn = k ∧
      T.Begins E (fun _ => (env.program source).run)
        (endTurn env E.host job ((Host.runProgram source).run.bind k) w) := by
  obtain ⟨u, hu⟩ : ∃ u, u = (w.perform env (.print "input" source)).2 := ⟨_, rfl⟩
  have hsits : Sits E past (source :: left) (E.job resume none true) [] u :=
    hu ▸ h.idles (idles_perform env (o := .print "input" source) trivial w)
  obtain ⟨number, started, hstart, hstarted⟩ := @perform_start env u hsits.inactive source
  obtain ⟨hooked, v, hhooks, hv⟩ := idles_hookInterrupt env E.asks started
  let T : Errand := ⟨source, past, left, u.session.runs, u.jobs.size, u.futures.size, hooked, k⟩
  have hturn : endTurn env E.host job ((Host.runProgram source).run.bind k) w =
      endTurn env E.host job (.await (some T.future) T.closing) v := by
    have hruns : endTurn env E.host job ((Host.runProgram source).run.bind k) w =
        endTurn env E.host job ((Host.afterStart (u.perform env (.start source)).1).bind k)
          (u.perform env (.start source)).2 := by
      rw [hu]
      rfl
    rw [hruns, hstart, Host.afterStart_ok, Routine.bind_assoc]
    exact endTurn_bind hhooks _
  have hrunFuture : v.futures[T.future]? = some { job := some T.job } := by
    rw [hv.aside.futures, hstarted]
    exact Array.getElem?_push_size
  have hhost : v.jobs[E.host]? = some (E.job resume none true) := by
    rw [hv.aside.jobs, hstarted]
    exact getElem?_push_of_some hsits.host
  have hapart : E.host ≠ T.job := Nat.ne_of_lt (Array.getElem?_eq_some_iff.1 hsits.host).1
  refine ⟨T, rfl, rfl, rfl, rfl, ?_⟩
  rw [hturn, endTurn_await (outcome?_of_get hrunFuture), park_of_get hhost rfl hrunFuture rfl]
  have hfutures : E.future ≠ T.future := Nat.ne_of_lt (Array.getElem?_eq_some_iff.1 hsits.future).1
  refine ⟨⟨?_, ?_, hapart, ?_, ?_⟩,
    ⟨⟨{ status := .running, number, source }, ?_, rfl, rfl⟩, hsits.chronicle.kept ?_, ?_⟩, ?_, ?_⟩
  · change (v.jobs.modify E.host _)[E.host]? = _
    rw [Array.getElem?_modify, if_pos rfl, hhost]
    rfl
  · change (v.jobs.modify E.host _)[T.job]? = _
    rw [Array.getElem?_modify, if_neg hapart, hv.aside.jobs, hstarted]
    exact Array.getElem?_push_size
  · change (v.futures.modify T.future _)[E.future]? = _
    rw [Array.getElem?_modify, if_neg hfutures.symm, hv.aside.futures, hstarted]
    exact getElem?_push_of_some hsits.future
  · change (v.futures.modify T.future _)[T.future]? = _
    rw [Array.getElem?_modify, if_pos rfl, hrunFuture]
    rfl
  · change v.session.runs = _
    rw [hv.aside.runs, hstarted]
  · have hkeeps := hv.aside.faults
    rw [hstarted] at hkeeps
    exact hkeeps
  · refine hv.unasked ?_
    rw [hstarted]
    exact hsits.unasked
  · change v.loop.Queues [.run T.job]
    rw [hv.aside.loop, hstarted]
    exact hsits.loop.soon _
  · change v.gate.pending = none
    rw [hv.aside.pending, hstarted]
    exact hsits.pending

/-- A host that has its turn comes to its end, or starts its next program. -/
theorem goes_on (env : Env) {r : Routine (Except FaultId Value)} (hr : r.Conducts E.asks E.Settles past left)
    (h : Sits E past left (E.job resume none true) [] w) (hfuture : job.future = E.future) (hrun : job.run = none) :
    Discharged E (endTurn env E.host job r w) ∨
      ∃ T : Errand, T.Leads E ∧ T.Begins E (fun _ => (env.program T.source).run) (endTurn env E.host job r w) := by
  induction hr generalizing w with
  | done hresult => exact .inl (h.closes env hresult hfuture hrun)
  | op ho _ ih => exact ih _ (h.idles (idles_perform env ho w))
  | @call _ _ source k hk =>
    obtain ⟨T, rfl, rfl, rfl, rfl, hbegins⟩ := h.calls env job k
    exact .inr ⟨T, hk, hbegins⟩

end Sits

end World

end SteppedLogo
