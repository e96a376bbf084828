import SteppedLogo.Proofs.Stream.Ending

namespace SteppedLogo

open LogoList (ofWords)
open Words

namespace World

variable {env : Env} {words : Words} {source : String} {traced : Bool} {start v w : World} {n : Nat} {c : PlannedCall}
variable {behind : List String} {fresh : Identity} {future : FutureId} {job : Job} {l : Loop Callback}

/-- The program goes on at its words from some place on: it comes to the boundary of its next call, or to its end. -/
theorem Amid.goes_on (hreact : env.react = Launch.react) (hwords : words.IsPlain)
    (h : Amid words source traced start n n (written words source traced n) w)
    (hfuture : job.future = start.futures.size + 1) (hrun : job.run = some start.session.runs.size) {place : Nat}
    {texts : List String} (hplace : (Text.words source).drop place = texts)
    (hplan : (words.plan source).drop n = planned words place 0 texts)
    (hleads : Remainder words source start n (words.enacted w.turtle place 0 texts))
    (hdraws : traced = true → w.Draws fresh (Text.words source)) :
    Waits words source traced start n (endTurn env (start.jobs.size + 1) job
        (remaining words true (ofWords fresh (Text.words source)) none (ofWords (fresh + place) texts).cells) w) ∨
      AtEnd words source traced start (endTurn env (start.jobs.size + 1) job
        (remaining words true (ofWords fresh (Text.words source)) none (ofWords (fresh + place) texts).cells) w) := by
  obtain ⟨hnone, ⟨hflaw, hdone⟩ | ⟨why, hordinary, hflaw, hraise⟩⟩ |
      ⟨c, behind, htexts, rfl, hlookup, hplanned, hnext⟩ :=
    remaining_planned words (ofWords fresh (Text.words source)) fresh place texts
  · rw [enacted_of_planned_nil hnone, hflaw] at hleads
    rw [hdone]
    exact .inr (h.completes hleads hfuture hrun _)
  · rw [enacted_of_planned_nil hnone, hflaw] at hleads
    rw [hraise, endTurn_op]
    exact .inr (h.complains hleads hordinary hfuture hrun)
  · rw [htexts] at hplace hplanned hplan hleads
    rw [enacted_of_planned_cons hlookup hplanned] at hleads
    rw [hnext]
    exact .inl (h.waits hreact ⟨hplace, hplan.trans hplanned, hwords _ _ hlookup⟩ hdraws hleads job)

/-- The call that has been announced is made, and the program goes on behind it, or fails. -/
theorem AtBoundary.passes (hreact : env.react = Launch.react) (hwords : words.IsPlain)
    (h : AtBoundary words source traced start n c behind fresh future w) (hloop : w.loop.Queues [])
    (hpending : w.gate.pending = none) (hfuture : job.future = start.futures.size + 1)
    (hrun : job.run = some start.session.runs.size) (x : Value) :
    Waits words source traced start (n + 1) (endTurn env (start.jobs.size + 1) job
        (passed words (ofWords fresh (Text.words source)) (c.opened fresh behind) (c.rest fresh behind) (.ok x))
        (w.giveTurn (start.jobs.size + 1))) ∨
      AtEnd words source traced start (endTurn env (start.jobs.size + 1) job
        (passed words (ofWords fresh (Text.words source)) (c.opened fresh behind) (c.rest fresh behind) (.ok x))
        (w.giveTurn (start.jobs.size + 1))) := by
  obtain ⟨p, hp⟩ := h.call.primitive
  -- the call is recorded
  let recorded : World := { w.giveTurn (start.jobs.size + 1) with calls := w.calls.push c.entry }
  have hcalls : recorded.calls.toList =
      start.calls.toList ++ ((words.plan source).take (n + 1)).map PlannedCall.entry := by
    rw [h.call.take, ← List.append_assoc, ← h.tally.calls]
    exact Array.toList_push
  have hamid {output : Output} {turtle : Turtle} {fresh : Identity} (hsink : output.accepts = w.output.accepts)
      (hlines : { recorded with output }.console = recorded.console ++ c.said) :
      Amid words source traced start (n + 1) (n + 1) (written words source traced (n + 1))
        { recorded with output, turtle, fresh } := by
    refine ⟨⟨h.surface.listeners, h.surface.traceOn, h.surface.view, fun k => hsink ▸ h.surface.sink k⟩, hloop, hpending,
      ⟨_, h.roles.giveTurn.same rfl rfl⟩, ⟨h.tally.runs, h.tally.seq, hcalls, ?_⟩⟩
    rw [written_succ h.call, ← List.append_assoc, ← h.tally.lines]
    exact hlines
  change Waits words source traced start (n + 1) (endTurn env (start.jobs.size + 1) job
      (invoking words true (ofWords fresh (Text.words source)) (c.opened fresh behind) (c.rest fresh behind)) recorded) ∨
    AtEnd words source traced start (endTurn env (start.jobs.size + 1) job
      (invoking words true (ofWords fresh (Text.words source)) (c.opened fresh behind) (c.rest fresh behind)) recorded)
  have hinvoked : (c.opened fresh behind).handler = .primitive p := hp
  rw [invoking, endTurn_op, hinvoked, perform_primitive]
  cases hresult : p.call recorded.fresh recorded.turtle (c.opened fresh behind).args with
  | error why =>
    have hnothing : recorded.console = recorded.console ++ c.said := by rw [said_of_error hp hresult, List.append_nil]
    have hrefused : c.act w.turtle = .error why := PlannedCall.act_of_error hp hresult
    have hleads := h.leads
    rw [enactedFrom_of_error hrefused] at hleads
    exact .inr ((hamid rfl hnothing).complains (hleads.succ h.call) (Primitive.call_ordinary hresult) hfuture hrun)
  | ok effect =>
    obtain ⟨output, hcarried, hsink, hlines⟩ := carryOut_eq (w := recorded) h.surface.sink hp hresult
    have hmoved : c.act w.turtle = .ok effect.turtle := PlannedCall.act_of_ok hp hresult
    have hleads := h.leads
    rw [enactedFrom_of_ok hmoved] at hleads
    dsimp only
    rw [hcarried]
    refine (hamid hsink hlines).goes_on hreact hwords hfuture hrun ?_ ?_ (hleads.succ h.call) fun ht =>
      .inr ⟨_, h.points ht⟩
    · rw [Nat.add_assoc, ← List.drop_drop, h.call.place, Nat.add_comm 1, List.drop_succ_cons]
    · rw [← List.drop_drop, h.call.plan]
      rfl

/-- A handler of interrupts is registered, or it is logged that there can be none. -/
theorem run_hookInterrupt (env : Env) (w : World) : ∃ hooked v, Host.hookInterrupt.run env w = (.finished hooked, v) ∧
    v = { w with interrupt := v.interrupt, faults := v.faults, log := v.log } := by
  cases hsignals : env.signals with
  | true =>
    refine ⟨true, { w with interrupt := some (.text stopReason) }, ?_, rfl⟩
    change (Routine.op (.hookInterrupt (.text stopReason)) _).run env w = _
    rw [Routine.run, Scene.perform_hookInterrupt hsignals]
    rfl
  | false =>
    let raised := w.raise (.ofComplaint noSignals)
    let why : Fault := (raised.2.faults.get? raised.1).getD { kind := .general }
    refine ⟨false, raised.2.addLog .debug Host.logger ("SIGINT handler unavailable: " ++ why.message), ?_, rfl⟩
    change (Routine.op (.hookInterrupt (.text stopReason)) _).run env w = _
    rw [Routine.run, Scene.perform_hookInterrupt_unsupported hsignals]
    rfl

/-- The host has been spawned, and has not had its turn yet. -/
structure Opens (source : String) (start w : World) : Prop where
  rest : w = { start with
    loop := w.loop, futures := start.futures.push { job := some start.jobs.size }
    jobs := start.jobs.push { future := start.futures.size, resume := fun _ => (Launch.runProgram source).run } }
  loop : w.loop.Queues [.run start.jobs.size]

/-- The run has been started, and its job has not had its turn yet. -/
structure Starts (words : Words) (source : String) (traced : Bool) (start w : World) : Prop where
  surface : w.Surface traced
  loop : w.loop.Queues [.run (start.jobs.size + 1)]
  pending : w.gate.pending = none
  blank : w.trace.renderer = {}
  turtle : w.turtle = start.turtle
  roles : start.Roles (start.runJob (fun _ => (execute words source).run) none false) w
  tally : Tally words source start 0 0 (written words source traced 0) w

theorem perform_start (hinactive : w.session.isActive = false) (source : String) :
    ∃ number v, w.perform env (.start source) = (.ok w.futures.size, v) ∧ v = { w with
      loop := w.loop.soon (.run w.jobs.size), log := v.log, gate := { w.gate with seq := 0 }
      session := { w.session with
        runs := w.session.runs.push { status := .running, number, source }, nextNumber := v.session.nextNumber }
      futures := w.futures.push { job := some w.jobs.size }
      jobs := w.jobs.push {
        future := w.futures.size, resume := fun _ => (env.program source).run, run := some w.session.runs.size } } := by
  have hperform : w.perform env (.start source) = w.start (env.program source) source := rfl
  obtain ⟨hactive, -⟩ | ⟨-, number, nextNumber, message, hstart⟩ := start_cases (env.program source) source w
  · rw [hinactive] at hactive
    cases hactive
  · exact ⟨number, _, hperform.trans hstart, rfl⟩

/-- A host has its turn, and has started its run from the state `start`. -/
structure Launched (words : Words) (source : String) (start w : World) : Prop where
  rest : ∃ number nextNumber, w = { start with
    loop := w.loop, futures := w.futures, jobs := w.jobs, faults := w.faults, interrupt := w.interrupt, log := w.log
    gate := { start.gate with seq := 0 }
    session := { start.session with
      runs := start.session.runs.push { status := .running, number, source }, nextNumber }
    output := (start.printed "input" source).output }
  loop : w.loop.Queues [.run (start.jobs.size + 1)]
  futures : w.futures = (start.futures.push { job := some start.jobs.size }).push { job := some (start.jobs.size + 1) }
  jobs : w.jobs = (start.jobs.push {
      future := start.futures.size, resume := fun _ => (Launch.runProgram source).run, begun := true }).push
    (start.runJob (fun _ => (execute words source).run) none false)

/-- The host waits for the run that it has started. -/
theorem Launched.parks (hstart : start.Rests traced) (h : Launched words source start w) (hooked : Bool) :
    Starts words source traced start (w.park start.jobs.size (start.futures.size + 1) (Launch.afterRun hooked)) := by
  obtain ⟨hhost, hrun⟩ := h.jobs ▸ getElem?_push_push start.jobs
    { future := start.futures.size, resume := fun _ => (Launch.runProgram source).run, begun := true } _
  obtain ⟨hhostFuture, hrunFuture⟩ := h.futures ▸ getElem?_push_push start.futures _ _
  obtain ⟨number, nextNumber, hrest⟩ := h.rest
  have hgate := congrArg World.gate hrest
  have hsession := congrArg World.session hrest
  have houtput := congrArg World.output hrest
  have hturtle := congrArg World.turtle hrest
  rw [park_of_get hhost rfl hrunFuture rfl]
  refine ⟨⟨?_, ?_, ?_, ?_⟩, h.loop, ?_, ?_, ?_, ⟨⟨hooked, ?_⟩, ?_, ?_, ?_⟩, ⟨⟨number, ?_⟩, ?_, ?_, ?_⟩⟩
  · exact (congrArg Gate.listeners hgate).trans hstart.surface.listeners
  · exact (congrArg Session.traceOn hsession).trans hstart.surface.traceOn
  · exact (congrArg World.hostView hrest).trans hstart.surface.view
  · exact fun n => (congrFun (congrArg Output.accepts houtput) n).trans (hstart.surface.sink n)
  · exact (congrArg Gate.pending hgate).trans hstart.pending
  · exact (congrArg (fun w => w.trace.renderer) hrest).trans hstart.blank
  · exact hturtle
  · change (w.jobs.modify _ _)[start.jobs.size]? = _
    rw [Array.getElem?_modify, if_pos rfl, hhost]
    rfl
  · change (w.jobs.modify _ _)[start.jobs.size + 1]? = _
    rw [Array.getElem?_modify, if_neg (Nat.succ_ne_self _).symm, hrun]
  · change (w.futures.modify _ _)[start.futures.size]? = _
    rw [Array.getElem?_modify, if_neg (Nat.succ_ne_self _), hhostFuture]
  · change (w.futures.modify _ _)[start.futures.size + 1]? = _
    rw [Array.getElem?_modify, if_pos rfl, hrunFuture]
    rfl
  · exact congrArg Session.runs hsession
  · exact congrArg Gate.seq hgate
  · exact (congrArg (fun w => w.calls.toList) hrest).trans (List.append_nil _).symm
  · have hconsole : w.console = (start.printed "input" source).console := by rw [console, houtput, console]
    exact hconsole.trans (console_printed start "input" source)

/-- In its first turn the host echoes the program and starts the run. -/
theorem Opens.starts (hprogram : env.program = execute words) (hstart : start.Rests traced)
    (h : Opens source start w) (hloop : l.Queues []) :
    Starts words source traced start ({ w with loop := l }.resume env start.jobs.size (.ok .none)) := by
  obtain ⟨v, hv⟩ : ∃ v : World, v = { w with loop := l } := ⟨_, rfl⟩
  have hrest : v = { start with
      loop := l, futures := start.futures.push { job := some start.jobs.size }
      jobs := start.jobs.push { future := start.futures.size, resume := fun _ => (Launch.runProgram source).run } } := by
    rw [hv, h.rest]
  rw [← hv]
  have hjob : v.jobs[start.jobs.size]? =
      some { future := start.futures.size, resume := fun _ => (Launch.runProgram source).run } := by
    rw [hrest]
    exact Array.getElem?_push_size
  have hfuture : v.futures[start.futures.size]? = some { job := some start.jobs.size } := by
    rw [hrest]
    exact Array.getElem?_push_size
  have hopen : v.isDone start.futures.size = false := isDone_eq_false.2 (outcome?_of_get hfuture)
  have hsink : ∀ n, (v.giveTurn start.jobs.size).output.accepts n = true := by
    rw [hrest]
    exact hstart.surface.sink
  have hinactive : ((v.giveTurn start.jobs.size).printed "input" source).session.isActive = false := by
    rw [hrest]
    exact hstart.inactive
  have hsize : ((v.giveTurn start.jobs.size).printed "input" source).futures.size = start.futures.size + 1 := by
    rw [hrest]
    exact Array.size_push _
  obtain ⟨number, u, hstarts, hu⟩ := @perform_start env _ hinactive source
  obtain ⟨hooked, x, hhooks, hx⟩ := run_hookInterrupt env u
  have hlaunched : Launched words source start x := by
    refine ⟨⟨number, u.session.nextNumber, ?_⟩, ?_, ?_, ?_⟩ <;> rw [hx, hu, hrest]
    · rfl
    · simp only [giveTurn, World.modifyJob, printed, Array.size_modify, Array.size_push]
      exact hloop.soon _
    · simp only [giveTurn, World.modifyJob, printed, modify_push_size, Array.size_push]
    · simp only [giveTurn, World.modifyJob, printed, modify_push_size, Array.size_push, hprogram]
      rfl
  rw [hsize] at hstarts
  rw [resume_of_get hjob hopen rfl rfl]
  change Starts words source traced start (endTurn env start.jobs.size _ (Launch.runProgram source).run _)
  rw [Launch.runProgram_run, endTurn_op, perform_print env hsink, endTurn_op]
  dsimp only
  rw [hstarts]
  dsimp only
  rw [Host.afterStart_ok, Routine.bind_assoc, endTurn_bind hhooks]
  change Starts words source traced start (endTurn env start.jobs.size _ (.await (some (start.futures.size + 1)) _) x)
  have hrunning : x.outcome? (start.futures.size + 1) = none := by
    rw [outcome?, hlaunched.futures, (getElem?_push_push start.futures _ _).2]
    rfl
  rw [endTurn_await hrunning]
  exact hlaunched.parks hstart hooked

/-- In its first turn the job of the run makes the list of its words, and goes on at the first one. -/
theorem Starts.goes_on (hreact : env.react = Launch.react) (hwords : words.IsPlain)
    (h : Starts words source traced start w) (hloop : l.Queues []) :
    Waits words source traced start 0 ({ w with loop := l }.resume env (start.jobs.size + 1) (.ok .none)) ∨
      AtEnd words source traced start ({ w with loop := l }.resume env (start.jobs.size + 1) (.ok .none)) := by
  have hroles : start.Roles (start.runJob (fun _ => (execute words source).run) none false) { w with loop := l } :=
    h.roles.same rfl rfl
  have hopen : { w with loop := l }.isDone (start.futures.size + 1) = false :=
    isDone_eq_false.2 (outcome?_of_get hroles.jobFuture)
  have hamid : Amid words source traced start 0 0 (written words source traced 0)
      ({ w with loop := l }.giveTurn (start.jobs.size + 1)) :=
    ⟨h.surface.retained {}, hloop, h.pending, ⟨_, hroles.giveTurn⟩, h.tally.retained {}⟩
  have hbegun : Amid words source traced start 0 0 (written words source traced 0)
      (({ w with loop := l }.giveTurn (start.jobs.size + 1)).newBody (Text.words source)).2 :=
    hamid.retained {} rfl rfl rfl rfl
  have hleads : Remainder words source start 0 (words.enacted w.turtle 0 0 (Text.words source)) := by
    refine ⟨?_, Nat.zero_le _⟩
    rw [h.turtle]
    rfl
  rw [resume_of_get hroles.job hopen rfl rfl]
  exact @Amid.goes_on env words source traced start _ 0 w.fresh _ hreact hwords hbegun rfl rfl 0 _ rfl rfl hleads
    fun _ => .inl ⟨h.blank, Nat.le_refl _⟩

/-- The pacing of the step at which the program waits is over: the steps `ids` are retracted that have no timer any more,
and then the job of the run is woken. -/
structure Wakes (words : Words) (source : String) (traced : Bool) (start : World) (n : Nat) (ids : List StepId)
    (w : World) : Prop where
  boundary : ∃ c behind fresh future, AtBoundary words source traced start n c behind fresh future w ∧
    w.outcome? future = some (.value .none)
  loop : w.loop.Queues (ids.map .retract ++ [.wake (start.jobs.size + 1)])
  pending : w.gate.pending = none
  stopped : ∀ id ∈ ids, (w.pacedStep? id).bind PacedStep.timer = none

/-- Once the step is due at which the program waits, it is released. -/
theorem AtBoundary.elapses {id : StepId} (h : AtBoundary words source traced start n c behind fresh future w)
    (hpaces : Pends id future [.retract id, .wake (start.jobs.size + 1)] w) (hloop : l.Queues []) :
    Wakes words source traced start n [id] ({ w with loop := l }.elapse id) := by
  obtain ⟨seq, timer, due, hstep, -⟩ := hpaces.step
  have hpaced : { w with loop := l }.pacedStep? id = some ⟨seq, future, some timer⟩ := hstep
  have hopen : { w with loop := l }.isDone future = false := isDone_eq_false.2 (outcome?_of_get hpaces.future)
  have hretracts := @retract_pending { w with loop := l } _ _ _ _ hstep hpaces.pending
  have hfuture : ({ w with loop := l }.retract id).futures[future]? =
      some { callbacks := [.retract id, .wake (start.jobs.size + 1)] } := by
    rw [hretracts]
    exact hpaces.future
  have hsettled := h.roles.modifyFuture hpaces.future rfl
    fun f => { f with outcome := some (.value .none), callbacks := [] }
  simp only [elapse, hpaced, hopen, Bool.false_eq_true, if_false]
  rw [settle_of_open hfuture rfl, hretracts]
  refine ⟨⟨c, behind, fresh, future, h.retained {} (hsettled.same rfl rfl), ?_⟩, ?_, rfl, ?_⟩
  · refine outcome?_of_get (f := { outcome := some (.value .none), callbacks := [] }) ?_
    change (w.futures.modify future _)[future]? = _
    rw [Array.getElem?_modify, if_pos rfl, hpaces.future]
    rfl
  · exact (hloop.cancel timer).append [.retract id, .wake (start.jobs.size + 1)]
  · rintro _ (_ | ⟨_, ⟨⟩⟩)
    change ((w.gate.steps.modify id _)[id]?).bind PacedStep.timer = none
    rw [Array.getElem?_modify, if_pos rfl, hstep]
    rfl

/-- A step that has been released is retracted, which changes nothing any more. -/
theorem Wakes.retracts {id : StepId} {ids : List StepId} (h : Wakes words source traced start n (id :: ids) w)
    (hloop : l.Queues (ids.map .retract ++ [.wake (start.jobs.size + 1)])) :
    Wakes words source traced start n ids ({ w with loop := l }.retract id) := by
  obtain ⟨c, behind, fresh, future, hboundary, hvalue⟩ := h.boundary
  have hstopped : ({ w with loop := l }.pacedStep? id).bind PacedStep.timer = none := h.stopped id List.mem_cons_self
  have hpending : { w with loop := l }.gate.pending ≠ some id := by
    change w.gate.pending ≠ some id
    rw [h.pending]
    exact nofun
  simp only [retract, hstopped, if_neg hpending]
  exact ⟨⟨c, behind, fresh, future, hboundary.retained {} (hboundary.roles.same rfl rfl), hvalue⟩, hloop, h.pending,
    fun i hi => h.stopped i (List.mem_cons_of_mem _ hi)⟩

/-- The job of the run is woken, and makes its call. -/
theorem Wakes.goes_on (hreact : env.react = Launch.react) (hwords : words.IsPlain)
    (h : Wakes words source traced start n [] w) (hloop : l.Queues []) :
    Waits words source traced start (n + 1) ({ w with loop := l }.wake env (start.jobs.size + 1)) ∨
      AtEnd words source traced start ({ w with loop := l }.wake env (start.jobs.size + 1)) := by
  obtain ⟨c, behind, fresh, future, hboundary, hvalue⟩ := h.boundary
  have hnow : AtBoundary words source traced start n c behind fresh future { w with loop := l } :=
    hboundary.retained {} (hboundary.roles.same rfl rfl)
  have hopen : { w with loop := l }.isDone (start.futures.size + 1) = false :=
    isDone_eq_false.2 (outcome?_of_get hnow.roles.jobFuture)
  rw [wake_of_get (o := .value .none) hnow.roles.job rfl hvalue rfl, resume_of_get hnow.roles.job hopen rfl rfl]
  exact hnow.passes hreact hwords hloop h.pending rfl rfl .none

end World

end SteppedLogo
