import SteppedLogo.Proofs.Gate.Listeners
import SteppedLogo.Proofs.Stream.Roles

namespace SteppedLogo

open LogoList (ofWords)
open Words

namespace World

variable {env : Env} {words : Words} {source : String} {traced : Bool} {start v w : World} {n m : Nat} {lines : List Printed}
variable {c : PlannedCall} {behind : List String} {fresh : Identity} {job : Job}

/-- How far a program has come that was started in the state `start`: of its calls `n` have been announced and `m`
recorded, and `lines` have been written since. -/
structure Tally (words : Words) (source : String) (start : World) (n m : Nat) (lines : List Printed) (w : World) : Prop where
  runs : ∃ number, w.session.runs = start.session.runs.push { status := .running, number, source, steps := n }
  seq : w.gate.seq = n
  calls : w.calls.toList = start.calls.toList ++ ((words.plan source).take m).map PlannedCall.entry
  lines : w.console = start.console ++ lines

/-- The program has its turn, and nothing else is to be done. -/
structure Amid (words : Words) (source : String) (traced : Bool) (start : World) (n m : Nat) (lines : List Printed)
    (w : World) : Prop where
  surface : w.Surface traced
  loop : w.loop.Queues []
  pending : w.gate.pending = none
  roles : ∃ resume, start.Roles (start.runJob resume none true) w
  tally : Tally words source start n m lines w

theorem Tally.retained (h : Tally words source start n m lines w) (hv : w.Retains v) :
    Tally words source start n m lines v :=
  ⟨hv.session ▸ h.runs, hv.seq.trans h.seq, hv.calls ▸ h.calls, hv.console.trans h.lines⟩

theorem Amid.retained (h : Amid words source traced start n m lines w) (hv : w.Retains v) (hloop : v.loop = w.loop)
    (hpending : v.gate.pending = w.gate.pending) (hjobs : v.jobs = w.jobs) (hfutures : v.futures = w.futures) :
    Amid words source traced start n m lines v := by
  obtain ⟨resume, hroles⟩ := h.roles
  exact ⟨h.surface.retained hv, hloop ▸ h.loop, hpending.trans h.pending, ⟨resume, hroles.same hjobs hfutures⟩,
    h.tally.retained hv⟩

theorem Tally.current (h : Tally words source start n m lines w) : w.session.current = start.session.runs.size := by
  obtain ⟨number, hruns⟩ := h.runs
  rw [Session.current, hruns, Array.size_push, Nat.add_sub_cancel]

/-- The step number `id` waits for its time, and who waits for its future is in `callbacks`. -/
structure Pends (id : StepId) (future : FutureId) (callbacks : List Callback) (w : World) : Prop where
  pending : w.gate.pending = some id
  step : ∃ seq timer due, w.gate.steps[id]? = some ⟨seq, future, some timer⟩ ∧ w.loop.Times ⟨timer, due, .elapse id⟩
  future : w.futures[future]? = some { callbacks }

/-- The pending step is taken off the gate, and its timer stopped. -/
theorem retract_pending {id : StepId} {seq : Nat} {future : FutureId} {timer : TimerId}
    (hstep : w.gate.steps[id]? = some ⟨seq, future, some timer⟩) (hpending : w.gate.pending = some id) :
    w.retract id = { w with
      loop := w.loop.cancel timer
      gate := { w.gate with steps := w.gate.steps.modify id ({ · with timer := none }), pending := none } } := by
  have hpaced : w.pacedStep? id = some ⟨seq, future, some timer⟩ := hstep
  simp only [retract, hpaced, Option.bind_some]
  exact if_pos hpending

/-- The console raises nothing when it is told of a call. -/
theorem raisesErrors_react (hreact : env.react = Launch.react) : env.RaisesErrors := by
  refine raisesErrors_of_lets fun notify _ name event => ?_
  rw [hreact]
  by_cases hconsole : name = Launch.traceListener
  · rw [show Launch.react name event = Reaction.perform (.showTrace event) from if_pos hconsole]
    exact .perform _
  · rw [show Launch.react name event = pure () from if_neg hconsole]
    exact .done ()

/-- The console is told of a call. -/
theorem notify_console (hreact : env.react = Launch.react) (hlisteners : w.gate.listeners = [Launch.traceListener])
    (event : StepEvent) : notify env event w = (.ok (), w.showTrace event) := by
  have hconsole : (env.react Launch.traceListener event).run = .op (.showTrace event) fun _ => .done (.ok ()) := by
    rw [hreact]
    rfl
  change tellEach _ w.gate.listeners w = _
  rw [hlisteners]
  simp only [tellEach, hconsole]
  rfl

theorem markedText_root (t : Trace) : Console.markedText t.view.root = t.view.toText true := rfl

/-- The console shows the trace at the boundary of a call. -/
theorem showTrace_console (hsurface : w.Surface traced) (event : StepEvent) (hseq : event.seq = n + 1)
    (hplace : (Text.words source).drop c.place = c.word :: behind)
    (hpoints : traced = true → w.trace.PointsAt fresh (Text.words source) c.place) :
    ∃ output : Output, w.showTrace event = { w with output } ∧ output.accepts = w.output.accepts ∧
      { w with output }.console = w.console ++ c.shown traced (Text.words source) n := by
  have hroot : w.shownView.root = w.trace.view.root := by
    rw [shownView, hsurface.view]
    rfl
  unfold showTrace PlannedCall.shown
  dsimp only
  rw [hsurface.traceOn, hroot]
  cases traced with
  | false => exact ⟨w.output, rfl, rfl, (List.append_nil _).symm⟩
  | true =>
    have hpoints := hpoints rfl
    have hmarked := (hpoints.highlights hplace).marked
    obtain ⟨anchor, -, -, hview⟩ := hpoints
    have hsome : w.trace.view.root.isSome = true := by rw [hview]; rfl
    rw [hsome]
    refine ⟨{ w.output with records := w.output.records.push (.trace (some event.seq) w.trace.view.root) }, rfl, rfl, ?_⟩
    simp only [console, Array.toList_push, List.map_append]
    change _ ++ [Printed.plain (Console.jsonRecord "trace" (some event.seq) (Console.markedText w.trace.view.root))] = _
    rw [hseq, markedText_root, hmarked]
    rfl

/-- A step is set up in a run that is under way. -/
theorem installFor_running {runs : Array Run} {run : Run} (hloop : w.loop.Queues [])
    (hruns : w.session.runs = runs.push run) (hrunning : run.status ≠ .canceling) :
    ∃ step v, w.installFor runs.size = (step, v) ∧ Pends step.id step.future [.retract step.id] v ∧
      v = { w with
        loop := v.loop, log := v.log, futures := w.futures.push { callbacks := [.retract step.id] }
        gate := { v.gate with listeners := w.gate.listeners, seq := w.gate.seq }
        session := { w.session with runs := runs.push { run with steps := w.gate.seq } } } := by
  obtain ⟨message, hinstall⟩ := installStep_eq w
  have hsession := session_installed hruns
  have hstatus : ((w.installStep.2.modifyRun runs.size
      ({ · with steps := w.installStep.1.seq })).runOf runs.size).status = run.status := by
    rw [runOf, hsession, Array.getElem?_push_size]
    rfl
  obtain ⟨-, heq⟩ | ⟨hcanceling, -⟩ := installFor_cases runs.size w
  · refine ⟨_, _, heq, ⟨?_, ?_, ?_⟩, ?_⟩
    · rw [hinstall]
      rfl
    · rw [hinstall]
      exact ⟨_, _, _, Array.getElem?_push_size, hloop.later _ _⟩
    · rw [hinstall]
      exact Array.getElem?_push_size
    · rw [← hsession, hinstall]
      rfl
  · exact absurd (hstatus.symm.trans hcanceling) hrunning

/-- The next call of the program is announced, the console shows it, and its step is set up. -/
theorem Amid.announces (hreact : env.react = Launch.react) (h : Amid words source traced start n n lines w)
    (hcall : ComesTo words source n c behind) (hdraws : traced = true → w.Draws fresh (Text.words source)) :
    ∃ step v, w.perform env (.hook {
        func := (c.opened fresh behind).handler.procedure, args := .sequence 0 (c.opened fresh behind).args
        body := .list (ofWords fresh (Text.words source)), cell := .list (listAt (c.opened fresh behind).cell) }) =
          (.ok step, v) ∧
      v.Surface traced ∧ Pends step.id step.future [.retract step.id] v ∧
      (∃ resume, start.Roles (start.runJob resume none true) v) ∧
      Tally words source start (n + 1) n (lines ++ c.shown traced (Text.words source) n) v ∧
      (traced = true → v.trace.PointsAt fresh (Text.words source) c.place) ∧ v.turtle = w.turtle := by
  have hcell : (Value.list (listAt (c.opened fresh behind).cell)) =
      (Value.list (ofWords fresh (Text.words source))).cellOf c.place := (LogoList.cellOf_ofWords hcall.place).symm
  obtain ⟨u, -, hu, hperform⟩ | ⟨hrefused, -⟩ := perform_hook_announced (raisesErrors_react hreact) w
    { func := (c.opened fresh behind).handler.procedure, args := .sequence 0 (c.opened fresh behind).args,
      body := .list (ofWords fresh (Text.words source)), cell := .list (listAt (c.opened fresh behind).cell) } rfl
  · have hpoints (ht : traced = true) : u.trace.PointsAt fresh (Text.words source) c.place :=
      hu.pointsAt (h.surface.traceOn.trans ht) hcall (hdraws ht) rfl hcell
    have hsurface : u.Surface traced := by
      rw [hu.rest]
      exact ⟨h.surface.listeners, h.surface.traceOn, h.surface.view, h.surface.sink⟩
    obtain ⟨output, hshows, hsink, hshown⟩ := showTrace_console (n := n) hsurface
      ⟨w.gate.seq + 1, callName (c.opened fresh behind).handler.procedure, (c.opened fresh behind).args,
        .list (listAt (c.opened fresh behind).cell)⟩ (congrArg (· + 1) h.tally.seq) hcall.place hpoints
    rw [notify_console hreact hsurface.listeners, hshows, h.tally.current] at hperform
    obtain ⟨number, hruns⟩ := h.tally.runs
    have hqueue : u.loop.Queues [] := hu.aside.loop ▸ h.loop
    obtain ⟨step, v, hinstall, hpaces, hv⟩ :=
      @installFor_running { u with output } _ _ hqueue (hu.aside.runs.trans hruns) nofun
    rw [hinstall] at hperform
    have hseq : u.gate.seq = n + 1 := hu.seq.trans (congrArg (· + 1) h.tally.seq)
    refine ⟨step, v, hperform, ?_, hpaces, ?_, ⟨⟨number, ?_⟩, ?_, ?_, ?_⟩, fun ht => ?_, ?_⟩
    · rw [hv]
      exact ⟨hsurface.listeners, hsurface.traceOn, hsurface.view, fun k => hsink ▸ hsurface.sink k⟩
    · obtain ⟨resume, hroles⟩ := h.roles
      refine ⟨resume, (hroles.pushFuture { callbacks := [.retract step.id] }).same ?_ ?_⟩
      · rw [hv]
        exact hu.aside.jobs
      · rw [hv]
        exact congrArg (Array.push · _) hu.aside.futures
    · rw [hv, ← hseq]
    · rw [hv]
      exact hseq
    · rw [hv]
      exact (congrArg Array.toList hu.calls).trans h.tally.calls
    · have hbefore : u.console = w.console := by rw [hu.rest]; rfl
      rw [hv]
      change { u with output }.console = _
      rw [hshown, hbefore, h.tally.lines, List.append_assoc]
    · rw [hv]
      exact hpoints ht
    · have hturtle : u.turtle = w.turtle := by rw [hu.rest]
      rw [hv]
      exact hturtle
  · exact absurd hrefused (announced?_ne_none h.pending rfl)

/-- What has been written of a program of which `n` calls have been made. -/
def written (words : Words) (source : String) (traced : Bool) (n : Nat) : List Printed :=
  .plain (Console.jsonRecord "input" none source) :: tellAll traced (Text.words source) 0 ((words.plan source).take n)

theorem written_succ (hcall : ComesTo words source n c behind) (traced : Bool) : written words source traced (n + 1) =
    written words source traced n ++ c.shown traced (Text.words source) n ++ c.said := by
  have hlength : ((words.plan source).take n).length = n :=
    List.length_take_of_le (Nat.le_of_lt (List.getElem?_eq_some_iff.1 hcall.get).1)
  rw [written, written, List.take_add_one, hcall.get, tellAll_append, hlength, Nat.zero_add, Option.toList_some, tellAll,
    tellAll, List.append_nil, PlannedCall.told, List.cons_append, List.cons_append, List.append_assoc]

/-- The first `n` calls of a program have been made, and what is `left` of it is to be done. -/
structure Remainder (words : Words) (source : String) (start : World) (n : Nat) (left : List PlannedCall × Option Complaint) :
    Prop where
  made : words.made start.turtle source = left.map ((words.plan source).take n ++ ·) id
  le : n ≤ (words.plan source).length

theorem Remainder.over {why? : Option Complaint} (h : Remainder words source start n ([], why?)) :
    words.made start.turtle source = ((words.plan source).take n, why?) := by
  have hmade := h.made
  rwa [Prod.map_apply, List.append_nil] at hmade

/-- A call has been made, whether it was refused or not. -/
theorem Remainder.succ {left : List PlannedCall × Option Complaint}
    (h : Remainder words source start n (left.map (c :: ·) id))
    (hcall : ComesTo words source n c behind) : Remainder words source start (n + 1) left := by
  refine ⟨?_, (List.getElem?_eq_some_iff.1 hcall.get).1⟩
  rw [h.made, List.take_add_one, hcall.get]
  simp only [Prod.map, Option.toList_some, List.append_assoc, List.singleton_append, id]

/-- The program has come to its call number `n`, which has been announced, and waits for a future. -/
structure AtBoundary (words : Words) (source : String) (traced : Bool) (start : World) (n : Nat) (c : PlannedCall)
    (behind : List String) (fresh : Identity) (future : FutureId) (w : World) : Prop where
  call : ComesTo words source n c behind
  surface : w.Surface traced
  roles : start.Roles (start.runJob
    (passed words (ofWords fresh (Text.words source)) (c.opened fresh behind) (c.rest fresh behind)) (some future) true) w
  tally : Tally words source start (n + 1) n (written words source traced n ++ c.shown traced (Text.words source) n) w
  points : traced = true → w.trace.PointsAt fresh (Text.words source) c.place
  leads : Remainder words source start n (words.enactedFrom w.turtle c behind)

theorem AtBoundary.retained (h : AtBoundary words source traced start n c behind fresh future w) (hv : w.Retains v)
    (hroles : start.Roles (start.runJob
      (passed words (ofWords fresh (Text.words source)) (c.opened fresh behind) (c.rest fresh behind))
        (some future) true) v) :
    AtBoundary words source traced start n c behind fresh future v :=
  ⟨h.call, h.surface.retained hv, hroles, h.tally.retained hv, fun ht => hv.trace ▸ h.points ht, hv.turtle ▸ h.leads⟩

/-- The program waits at the boundary of its call number `n`, whose pacing goes on. -/
structure Waits (words : Words) (source : String) (traced : Bool) (start : World) (n : Nat) (w : World) : Prop where
  boundary : ∃ c behind fresh id future, AtBoundary words source traced start n c behind fresh future w ∧
    Pends id future [.retract id, .wake (start.jobs.size + 1)] w

/-- The program comes to wait at the boundary of its next call. -/
theorem Amid.waits (hreact : env.react = Launch.react)
    (h : Amid words source traced start n n (written words source traced n) w) (hcall : ComesTo words source n c behind)
    (hdraws : traced = true → w.Draws fresh (Text.words source))
    (hleads : Remainder words source start n (words.enactedFrom w.turtle c behind)) (job : Job) :
    Waits words source traced start n (endTurn env (start.jobs.size + 1) job
      (announcing words (ofWords fresh (Text.words source)) (c.opened fresh behind) (c.rest fresh behind)) w) := by
  obtain ⟨step, v, hperform, hsurface, hpaces, ⟨resume, hroles⟩, htally, hpoints, hturtle⟩ :=
    h.announces hreact hcall hdraws
  have hopen : v.outcome? step.future = none := outcome?_of_get hpaces.future
  rw [announcing, endTurn_op, hperform]
  dsimp only
  rw [endTurn_await hopen]
  have hparked := @Roles.park v _ _ (passed words (ofWords fresh (Text.words source)) (c.opened fresh behind)
    (c.rest fresh behind)) start resume hroles hpaces.future rfl rfl
  rw [park_of_get hroles.job rfl hpaces.future rfl] at hparked ⊢
  refine ⟨c, behind, fresh, step.id, step.future, ⟨hcall, ?_, hparked, ?_, hpoints, ?_⟩, hpaces.pending, hpaces.step, ?_⟩
  · exact hsurface.retained {}
  · exact htally.retained {}
  · exact hturtle ▸ hleads
  · change (v.futures.modify step.future _)[step.future]? = _
    rw [Array.getElem?_modify, if_pos rfl, hpaces.future]
    rfl

end World

end SteppedLogo
