import SteppedLogo.Proofs.Session.Due
import SteppedLogo.Proofs.Session.Undisturbed

namespace SteppedLogo

open Words

namespace World

variable {env : Env} {wrapping : Bool} {source : String} {start w v : World} {r : RunId} {reason : Value}
variable {o : Outcome} {task : FutureId}

/-- A run has come to the same end in two states: its calls are the same, and so are the turtle, the lines that are
printed, its status, its error, if it has failed, and the outcome of its task. -/
inductive EndsAlike (r : RunId) (task : FutureId) (w v : World) : Prop
  | completed (halike : w.Alike v) (hover : w.Over r .completed none) (hover' : v.Over r .completed none)
    (hout : w.outcome? task = some (.value .none)) (hout' : v.outcome? task = some (.value .none))
  | failed {e e' failure failure' : FaultId} {f f' g g' : Fault} (halike : w.Alike v)
    (hover : w.Over r .failed (some e)) (hover' : v.Over r .failed (some e')) (he : w.faults.get? e = some f)
    (he' : v.faults.get? e' = some f') (hagrees : f.Agrees f') (hout : w.outcome? task = some (.fault failure))
    (hout' : v.outcome? task = some (.fault failure')) (hg : w.faults.get? failure = some g)
    (hg' : v.faults.get? failure' = some g') (hkind : g.kind = .program ∧ g'.kind = .program)
    (hargs : g'.args = g.args) (hinner : g.inner = some e ∧ g'.inner = some e')

/-- Runs of a program that nothing stops come to the same end. -/
theorem EndsUncut.alike {words : Words} {o' : Outcome} (h : EndsUncut env wrapping words source start r w o)
    (h' : EndsUncut env wrapping words source start r v o') (hout : w.outcome? task = some o)
    (hout' : v.outcome? task = some o') : EndsAlike r task w v := by
  cases h with
  | completed hrun halike hover =>
    cases h' with
    | completed hrun' halike' hover' =>
      rw [hrun] at hrun'
      cases hrun'
      exact .completed (halike.symm.trans halike') hover hover' hout hout'
    | failed hrun' =>
      rw [hrun] at hrun'
      cases hrun'
  | failed hrun halike hd hover he hagrees hfailure hkind hinner hargs =>
    cases h' with
    | completed hrun' =>
      rw [hrun] at hrun'
      cases hrun'
    | failed hrun' halike' hd' hover' he' hagrees' hfailure' hkind' hinner' hargs' =>
      rw [hrun] at hrun'
      cases hrun'
      rw [hd] at hd'
      cases hd'
      exact .failed (halike.symm.trans halike') hover hover' he he' (hagrees.symm.trans hagrees') hout hout' hfailure
        hfailure' ⟨hkind, hkind'⟩ (hargs'.trans hargs.symm) ⟨hinner, hinner'⟩

/-- A run that ended uncut is over. -/
theorem EndsUncut.exists_over {words : Words} (h : EndsUncut env wrapping words source start r w o) :
    (w.runOf r).status.isActive = false := by
  cases h with
  | completed _ _ hover | failed _ _ _ hover =>
    rw [hover.runOf.1]
    rfl

/-- A program that nothing has stopped waits for steps alone. -/
theorem Free.awaited {words : Words} {future : FutureId} {k : Except FaultId Value → Routine (Except FaultId Value)}
    (h : Free env wrapping words source start r w (.await (some future) k)) :
    ∃ (i : StepId) (s : PacedStep), w.gate.steps[i]? = some s ∧ s.future = future := by
  obtain ⟨k', -, hparked⟩ := h.parked
  cases hparked with
  | waiting _ _ hstep => exact ⟨_, _, hstep, rfl⟩

/-- A halted program that waits for a future waits for a step. -/
theorem Halts.awaited {words : Words} {future : FutureId} {k : Except FaultId Value → Routine (Except FaultId Value)}
    (h : Halts env wrapping words reason w (.await (some future) k)) :
    ∃ (i : StepId) (s : PacedStep), w.gate.steps[i]? = some s ∧ s.future = future := by
  generalize hleft : Routine.await (some future) k = left at h
  cases h with
  | announcing => cases hleft
  | waiting _ _ _ hstep =>
    cases hleft
    exact ⟨_, _, hstep, rfl⟩
  | closes hheads =>
    subst hleft
    exact hheads.straight.elim

/-- A program of which nothing has been done. -/
theorem free_queued (hfresh : w.fresh = start.fresh) (halike : start.Alike w) (hseq : w.gate.seq = 0)
    (hpending : w.gate.pending = none) (wrapping : Bool) (words : Words) (source : String) (r : RunId) :
    Free env wrapping words source start r w (.await none fun _ => (interpret wrapping words source).run) := by
  have hqueued : Phase env words source start r False w (.await none fun _ => (execute words source).run) :=
    .parked (.queued hfresh halike hseq hpending)
  rw [run_interpret]
  exact hqueued.free wrapping

end World

namespace Scene

open World

variable {env : Env} {wrapping : Bool} {words : Words} {source : String} {start w : World} {a b s t u x : Scene}
variable {r : RunId} {id : JobId} {task : FutureId} {n : Nat} {reason : Value}

/-- A run of the given source is started, the end of which is told of in the future `task`. -/
structure Starts (env : Env) (source : String) (task : FutureId) (a b : Scene) : Prop where
  step : Step env Op.Steers a b
  start : a.world.perform env (.start source) = (.ok task, b.world)

/-- The run that has been started is the last one, and its program is queued. -/
theorem Starts.begins (hprogram : env.program = interpret wrapping words) (henv : env.Confined) (ha : a.Governed Op.Steers)
    (hpending : a.world.gate.pending = none) (h : Starts env source task a b) :
    b.world.session.runs.size = a.world.session.runs.size + 1 ∧
      b.Tells (Free env wrapping words source a.world a.world.session.runs.size)
        (EndsUncut env wrapping words source a.world a.world.session.runs.size) a.world.session.runs.size
        a.world.jobs.size task ∧ b.Due a.world.jobs.size := by
  have hb := h.step.governed Op.guards_steers henv ha
  have hstarted : Started (env.program source) source task a.world b.world := started_of_start h.start
  rw [hprogram] at hstarted
  refine ⟨hstarted.size, ⟨Nat.lt_of_lt_of_eq (Nat.lt_succ_self _) hstarted.size.symm,
    fun _ => ⟨_, hstarted.job, rfl, rfl, .under hstarted.opens ?_⟩⟩, fun _ job hjob _ => ?_⟩
  · rw [left_started hb hstarted hstarted.job]
    exact free_queued hstarted.fresh hstarted.alike hstarted.seq (hstarted.pending.trans hpending) wrapping words source _
  · rw [hstarted.job] at hjob
    cases hjob
    refine .queued ?_
    rw [hstarted.loop, Loop.steady_append [.run a.world.jobs.size] rfl]
    exact List.mem_append_right _ (List.mem_singleton_self _)

/-- A run that nothing has stopped so far. -/
abbrev Undisturbed (env : Env) (wrapping : Bool) (words : Words) (source : String) (start : World) (r : RunId) (id : JobId)
    (task : FutureId) (s : Scene) : Prop :=
  s.Tells (Free env wrapping words source start r) (EndsUncut env wrapping words source start r) r id task

/-- A run that ends with a stop for the given reason. -/
abbrev Stopped (env : Env) (wrapping : Bool) (words : Words) (reason : Value) (r : RunId) (id : JobId) (task : FutureId)
    (s : Scene) : Prop :=
  s.Tells (Halts env wrapping words reason) (EndsHalted reason r) r id task

/-- A stride that the run is not asked to stop in leaves its program undisturbed, provided listeners go beside it and words
are primitives. -/
theorem Strides.undisturbed (hlisteners : env.GoesBeside) (hwords : words.IsPlain)
    (henv : env.Counted) (hs : Reachable env Op.Steers s) (h : Strides env task s t) (hpaces : Paces False s.world t.world)
    (hfree : s.Undisturbed env wrapping words source start r id task) :
    t.Undisturbed env wrapping words source start r id task := by
  refine h.step.tells (lasting_free hlisteners hwords) henv.toConfined (hs.governed Op.guards_steers henv.toConfined)
    (hs.begunFirst Op.guards_steers henv.toConfined) (fun _ => ⟨hpaces, h.step.keepsOver henv hs⟩) ?_ hfree
  intro job hjob hfuture hrequested
  rw [h.unhindered.task id job hjob hfuture] at hrequested
  cases hrequested

/-- A stride behind which the run is to stop leaves its program stopped. -/
theorem Strides.stopped (hlisteners : env.GoesBeside) (henv : env.Counted)
    (hs : Reachable env Op.Steers s) (h : Strides env task s t) (hstops : Stops reason s.world t.world)
    (hhalts : s.Stopped env wrapping words reason r id task) : t.Stopped env wrapping words reason r id task := by
  refine h.step.tells (lasting_halted hlisteners words reason) henv.toConfined (hs.governed Op.guards_steers henv.toConfined)
    (hs.begunFirst Op.guards_steers henv.toConfined) (fun _ => ⟨hstops, h.step.keepsOver henv hs⟩) ?_ hhalts
  intro job hjob hfuture hrequested
  rw [h.unhindered.task id job hjob hfuture] at hrequested
  cases hrequested

/-- As long as nobody asks it to stop, nothing stops a run. -/
theorem FreeWay.undisturbed (hlisteners : env.GoesBeside) (hwords : words.IsPlain)
    (henv : env.Counted) (hs : Reachable env Op.Steers s) (h : FreeWay env task s t)
    (hfree : s.Undisturbed env wrapping words source start r id task) :
    t.Undisturbed env wrapping words source start r id task := by
  induction h with
  | refl => exact hfree
  | tail hbefore hstride ih =>
    refine hstride.1.undisturbed hlisteners hwords henv (hs.steps (FreeWay.steps hbefore)) (fun i q hq o ho => .inr ?_) ih
    exact hstride.1.unhindered.paced hstride.2 i q hq o ho

/-- While a later run has not begun in the later of two scenes it has not in the earlier one. -/
theorem Step.size_before (henv : env.Confined) (hs : s.Governed Op.Steers) (h : Step env Op.Steers s t)
    (hbegun : r < s.world.session.runs.size) (hsize : t.world.session.runs.size = r + 1) :
    s.world.session.runs.size = r + 1 :=
  Nat.le_antisymm (hsize ▸ (h.follows Op.guards_steers henv hs).runs) hbegun

/-- Once a run is to stop its steps are barred, and so is what it waits for. -/
def Barring (r : RunId) (reason : Value) (s : Scene) : Prop :=
  ∃ n ≤ s.world.gate.steps.size, s.world.Barred (r + 1) n reason

/-- A run that bars its steps goes on to bar them. -/
theorem Barring.step (henv : env.Confined) (hs : Reachable env Op.Steers s) (h : Step env Op.Steers s t)
    (hbarring : s.Barring r reason) : t.Barring r reason := by
  obtain ⟨n, hn, hbarred⟩ := hbarring
  have hquiet : Reachable env Op.IsQuiet s := hs.mono fun _ ho => Op.Steers.quiet ho
  exact ⟨n, Nat.le_trans hn (h.parts hs.parts.1).2.steps_size_le,
    (h.mono fun _ ho => ho.quiet).barred henv (hquiet.governed Op.guards_quiet henv) hbarred⟩

/-- While a run that bars its steps is the last one, no step of the gate is under way. -/
theorem Barring.clear (henv : env.Confined) (hs : Reachable env Op.Steers s) (h : s.Barring r reason)
    (hsize : s.world.session.runs.size = r + 1) : s.world.Clear := by
  obtain ⟨n, -, hbarred⟩ := h
  exact (hs.governed Op.guards_steers henv).world.barred (hbarred.stopped hsize)

/-- A step of the system behind which a barring run is still the last one stops the program where it waits. -/
theorem Barring.stops (henv : env.Confined) (hs : Reachable env Op.Steers s) (h : Step env Op.Steers s t)
    (hbarring : s.Barring r reason) (hbegun : r < s.world.session.runs.size)
    (hsize : t.world.session.runs.size = r + 1) : Stops reason s.world t.world := by
  have hgoverned := hs.governed Op.guards_steers henv
  have hclear := hbarring.clear henv hs (h.size_before henv hgoverned hbegun hsize)
  obtain ⟨n, hn, hbarred⟩ := hbarring
  have hquiet := (hs.mono fun _ ho => Op.Steers.quiet ho).governed Op.guards_quiet henv
  exact h.stops hs.parts.1 (h.follows Op.guards_steers henv hgoverned)
    ((h.mono fun _ ho => ho.quiet).barred henv hquiet hbarred) hn hsize fun i hi => absurd hi (hclear i)

/-- A run that is stopped goes on to its end. -/
theorem Strides.halts (hlisteners : env.GoesBeside) (henv : env.Counted)
    (hs : Reachable env Op.Steers s) (h : Strides env task s t) (hbarring : s.Barring r reason)
    (hhalts : s.Stopped env wrapping words reason r id task) : t.Stopped env wrapping words reason r id task := by
  by_cases hsize : t.world.session.runs.size = r + 1
  · exact h.stopped hlisteners henv hs (hbarring.stops henv.toConfined hs h.step hhalts.begun hsize) hhalts
  · have hfollows := h.step.follows Op.guards_steers henv.toConfined (hs.governed Op.guards_steers henv.toConfined)
    exact ⟨Nat.lt_of_lt_of_le hhalts.begun hfollows.runs, fun hsame => absurd hsame hsize⟩

/-- A run that is active has not ended. -/
theorem Tells.under (h : s.Undisturbed env wrapping words source start r id task) (hsize : s.world.session.runs.size = r + 1)
    (hactive : s.world.session.isActive = true) : ∃ job : Job, s.world.jobs[id]? = some job ∧ job.future = task ∧
      job.run = some r ∧ s.world.outcome? task = none ∧ Free env wrapping words source start r s.world (s.left id job) := by
  obtain ⟨job, hjob, hfuture, hrun, hstands⟩ := h.kept hsize
  cases hstands with
  | under hopen hfree => exact ⟨job, hjob, hfuture, hrun, hopen, hfree⟩
  | concluded _ hended =>
    obtain ⟨run, hget, hrunning⟩ := isActive_iff.1 hactive
    rw [Session.current, hsize, Nat.add_sub_cancel] at hget
    have hover := hended.exists_over
    rw [runOf_of_get hget, hrunning] at hover
    cases hover

/-- The step that a run waits for is rejected. -/
theorem Tells.halts_of_pending (h : s.Undisturbed env wrapping words source start r id task)
    (hactive : s.world.session.isActive = true) {p : StepId} (hpending : s.world.gate.pending = some p) (reason : Value) :
    s.Stopped env wrapping words reason r id task := by
  refine ⟨h.begun, fun hsize => ?_⟩
  obtain ⟨job, hjob, hfuture, hrun, hopen, hfree⟩ := h.under hsize hactive
  exact ⟨job, hjob, hfuture, hrun, .under hopen (hfree.halts_of_pending hpending reason)⟩

/-- The step of the call boundary that a run is about to make is rejected. -/
theorem Tells.halts_of_boundary (hs : s.Governed Op.Steers) (h : s.Undisturbed env wrapping words source start r id task)
    (hboundary : s.AtBoundary task) (reason : Value) : s.Stopped env wrapping words reason r id task := by
  refine ⟨h.begun, fun hsize => ?_⟩
  obtain ⟨j, taken, call, k, hturn, -⟩ := hboundary
  obtain ⟨rfl, -⟩ := h.atBoundary hs hsize hturn
  have hup : s.world.Up j taken := hs.turn _ hturn
  obtain ⟨job, hjob, hfuture, hrun, hstands⟩ := h.kept hsize
  refine ⟨job, hjob, hfuture, hrun, ?_⟩
  have hopen : s.world.outcome? task = none := hfuture ▸ hup.outcome?_get hjob
  obtain ⟨w, activity⟩ := s
  obtain rfl : activity = _ := hturn
  rw [left_self] at hstands ⊢
  cases hstands with
  | under _ hfree => exact .under hopen (hfree.halts_of_hook reason)
  | concluded hout =>
    rw [hopen] at hout
    cases hout

/-- A run that bars its steps does so at the end of every way. -/
theorem Way.barring (henv : env.Confined) (hs : Reachable env Op.Steers s) (h : Way env task s t)
    (hbarring : s.Barring r reason) : t.Barring r reason := by
  induction h with
  | refl => exact hbarring
  | tail hbefore hstride ih => exact ih.step henv (hs.steps (Way.steps hbefore)) hstride.step

/-- A program that is stopped stays so along every way on which its run bars its steps. -/
theorem Way.stopped (hlisteners : env.GoesBeside) (henv : env.Counted)
    (hs : Reachable env Op.Steers s) (h : Way env task s t) (hbarring : s.Barring r reason)
    (hhalts : s.Stopped env wrapping words reason r id task) : t.Stopped env wrapping words reason r id task := by
  induction h with
  | refl => exact hhalts
  | tail hbefore hstride ih =>
    exact hstride.halts hlisteners henv (hs.steps (Way.steps hbefore)) (Way.barring henv.toConfined hs hbefore hbarring) ih

/-- A run that is to stop, but has not been stopped yet, is not stopped before it makes a call boundary. -/
theorem Way.undisturbed_or_stopped (hlisteners : env.GoesBeside)
    (hwords : words.IsPlain) (henv : env.Counted) (hs : Reachable env Op.Steers s) (h : Way env task s t)
    (hbarring : s.Barring r reason) (hfree : s.Undisturbed env wrapping words source start r id task) :
    t.Undisturbed env wrapping words source start r id task ∨ t.Stopped env wrapping words reason r id task ∧
      ∃ x, Way env task s x ∧ Way env task x t ∧ x.AtBoundary task := by
  induction h with
  | refl => exact .inl hfree
  | @tail x t hbefore hstride ih =>
    have hx := hs.steps (Way.steps hbefore)
    have hgoverned := hx.governed Op.guards_steers henv.toConfined
    have hbarringx := Way.barring henv.toConfined hs hbefore hbarring
    obtain hfreex | ⟨hstopped, y, hy, hyx, hboundary⟩ := ih
    · by_cases hboundary : x.AtBoundary task
      · have hhalts := hfreex.halts_of_boundary hgoverned hboundary reason
        exact .inr ⟨hstride.halts hlisteners henv hx hbarringx hhalts, x, hbefore, .single hstride, hboundary⟩
      · refine .inl ?_
        by_cases hsize : t.world.session.runs.size = r + 1
        · have hsizex := hstride.step.size_before henv.toConfined hgoverned hfreex.begun hsize
          refine hstride.undisturbed hlisteners hwords henv hx ?_ hfreex
          exact hstride.step.settles_nothing henv.toConfined hgoverned hfreex hsizex
            (hbarringx.clear henv.toConfined hx hsizex) hboundary
        · have hfollows := hstride.step.follows Op.guards_steers henv.toConfined hgoverned
          exact ⟨Nat.lt_of_lt_of_le hfreex.begun hfollows.runs, fun hsame => absurd hsame hsize⟩
    · exact .inr ⟨hstride.halts hlisteners henv hx hbarringx hstopped, y, hy, hyx.tail hstride, hboundary⟩

/-- What becomes of a run in the step in which it is asked to stop. -/
theorem Strides.cancels (hlisteners : env.GoesBeside) (hwords : words.IsPlain)
    (henv : env.Counted) (hs : Reachable env Op.Steers s) (h : Strides env task s t)
    (hrunning : s.world.session.run.status = .running) (hcanceling : t.world.session.run.status = .canceling)
    (hsize : s.world.session.runs.size = r + 1) (hfree : s.Undisturbed env wrapping words source start r id task) :
    t.Barring r t.world.session.run.reason ∧
      (s.world.gate.pending ≠ none ∨ s.AtBoundary task →
        t.Stopped env wrapping words t.world.session.run.reason r id task) ∧
      (¬ (s.world.gate.pending ≠ none ∨ s.AtBoundary task) →
        t.Undisturbed env wrapping words source start r id task) := by
  have hconfined := henv.toConfined
  have hgoverned := hs.governed Op.guards_steers hconfined
  have hquiet := (hs.mono fun _ ho => Op.Steers.quiet ho).governed Op.guards_quiet hconfined
  have hfollows := h.step.follows Op.guards_steers hconfined hgoverned
  have hactive : s.world.session.isActive = true := by
    rw [Session.isActive, hrunning]
    rfl
  obtain ⟨hbarred, hrejected⟩ := (h.step.mono fun _ ho => Op.Steers.quiet ho).cancels hconfined hquiet hrunning hcanceling
  rw [hsize] at hbarred
  have hgrown := (h.step.parts hs.parts.1).2.steps_size_le
  refine ⟨⟨_, hgrown, hbarred⟩, fun hstops => ?_, fun hnot => ?_⟩
  · have hhalts : s.Stopped env wrapping words t.world.session.run.reason r id task := by
      obtain hpending | hboundary := hstops
      · obtain ⟨p, hp⟩ := Option.ne_none_iff_exists'.1 hpending
        exact hfree.halts_of_pending hactive hp _
      · exact hfree.halts_of_boundary hgoverned hboundary _
    by_cases hsame : t.world.session.runs.size = r + 1
    · exact h.stopped hlisteners henv hs (h.step.stops hs.parts.1 hfollows hbarred (Nat.le_refl _) hsame hrejected) hhalts
    · exact ⟨Nat.lt_of_lt_of_le hfree.begun hfollows.runs, fun hsize => absurd hsize hsame⟩
  · obtain ⟨hpending, hboundary⟩ := not_or.1 hnot
    have hclear := hgoverned.world.tidy.clear (not_not.1 hpending)
    exact h.undisturbed hlisteners hwords henv hs
      (h.step.settles_nothing hconfined hgoverned hfree hsize hclear hboundary) hfree

/-- What a run waits for that is under way is a step. -/
theorem awaited_step (h : s.Undisturbed env wrapping words source start r id task ∨
    s.Stopped env wrapping words reason r id task)
    (hsize : s.world.session.runs.size = r + 1) : ∃ job : Job, s.world.jobs[id]? = some job ∧ job.future = task ∧
      (s.world.isDone task = true ∨ ∀ future k, s.left id job = .await (some future) k →
        ∃ (i : StepId) (q : PacedStep), s.world.gate.steps[i]? = some q ∧ q.future = future) := by
  obtain hfree | hhalts := h
  · obtain ⟨job, hjob, hfuture, -, hstands⟩ := hfree.kept hsize
    refine ⟨job, hjob, hfuture, ?_⟩
    cases hstands with
    | under _ hleft => exact .inr fun future k hawaits => (hawaits ▸ hleft).awaited
    | concluded hout => exact .inl (isDone_iff.2 ⟨_, hout⟩)
  · obtain ⟨job, hjob, hfuture, -, hstands⟩ := hhalts.kept hsize
    refine ⟨job, hjob, hfuture, ?_⟩
    cases hstands with
    | under _ hleft => exact .inr fun future k hawaits => (hawaits ▸ hleft).awaited
    | concluded hout => exact .inl (isDone_iff.2 ⟨_, hout⟩)

/-- A job that is due to go on stays due over a stride of an undisturbed or stopped program. -/
theorem Strides.due (henv : env.Confined) (hs : Reachable env Op.Steers s) (h : Strides env task s t)
    (htells : s.Undisturbed env wrapping words source start r id task ∨ s.Stopped env wrapping words reason r id task)
    (hsize : s.world.session.runs.size = r + 1) (hdue : s.Due id) : t.Due id := by
  have hgoverned := hs.governed Op.guards_steers henv
  obtain ⟨job, hjob, hfuture, hstep⟩ := awaited_step htells hsize
  refine h.step.due Op.guards_steers henv hgoverned (hs.woken Op.guards_steers henv) hjob
    (fun taken future k hturn => ?_) hdue
  have hup : s.world.Up id taken := hgoverned.turn _ hturn
  obtain hdone | hstep := hstep
  · rw [isDone, ← hfuture, hup.outcome?_get hjob] at hdone
    cases hdone
  · have hleft : s.left id job = .await (some future) k := by
      obtain ⟨w, activity⟩ := s
      obtain rfl : activity = _ := hturn
      exact left_self w id taken _ job
    obtain ⟨i, q, hq, rfl⟩ := hstep future k hleft
    obtain ⟨f, hf, -⟩ := hgoverned.world.step_future i q hq
    exact ⟨f, hf⟩

/-- Where nothing goes on any more, a run that is to stop has ended. -/
theorem Barring.ended (henv : env.Confined) (hs : Reachable env Op.Steers s) (hbarring : s.Barring r reason)
    (htells : s.Undisturbed env wrapping words source start r id task ∨ s.Stopped env wrapping words reason r id task)
    (hsize : s.world.session.runs.size = r + 1) (hdue : s.Due id) (hnext : s.next? env = none) :
    s.world.isDone task = true := by
  obtain ⟨w, activity⟩ := s
  cases activity with
  | turn u => cases hnext
  | deed c => cases c <;> cases hnext
  | none =>
    have hloop : w.loop.next? = none := by
      simp only [next?] at hnext
      split at hnext
      · next hloop => exact hloop
      · cases hnext
      · cases hnext
    have hnever {c : Callback} (hc : c ∈ w.loop.steady) : False := by
      rw [Loop.steady_of_next?_eq_none hloop] at hc
      cases hc
    obtain ⟨job, hjob, rfl, hstep⟩ := awaited_step htells hsize
    cases hdone : w.isDone job.future with
    | true => rfl
    | false =>
      exfalso
      obtain hdone' | hstep := hstep
      · have hdone' : w.isDone job.future = true := hdone'
        rw [hdone] at hdone'
        cases hdone'
      · have hminded := hdue (fun u hu => by cases hu) job hjob hdone
        generalize hwaiting : job.waiting = waiting at hminded
        cases hminded with
        | queued hqueued | woken hqueued => exact hnever hqueued
        | attends hattends =>
          obtain ⟨f, hf, hopen, -⟩ := hattends
          obtain ⟨i, q, hq, rfl⟩ := hstep _ job.resume (by rw [left_of_idle rfl, hwaiting])
          refine hbarring.clear henv hs hsize i ⟨q, hq, isDone_eq_false.2 ?_⟩
          rw [outcome?_of_get hf, hopen]

/-- A job that is due to go on stays due along every way on which its program is told of. -/
theorem due_along {R : Scene → Scene → Prop} (hR : ∀ x y, R x y → Strides env task x y) (henv : env.Confined)
    (hs : Reachable env Op.Steers s) (h : Relation.ReflTransGen R s t)
    (htells : ∀ x, Relation.ReflTransGen R s x → x.Undisturbed env wrapping words source start r id task ∨
      x.Stopped env wrapping words reason r id task)
    (hsize : t.world.session.runs.size = r + 1) (hdue : s.Due id) : t.Due id := by
  induction h with
  | refl => exact hdue
  | @tail x t hbefore hstep ih =>
    have hstride := hR x t hstep
    have hx : Reachable env Op.Steers x :=
      hs.steps (Relation.ReflTransGen.mono (fun _ _ h => (hR _ _ h).step) _ _ hbefore)
    have htellsx := htells x hbefore
    have hbegun : r < x.world.session.runs.size := by
      obtain hfree | hhalts := htellsx
      · exact hfree.begun
      · exact hhalts.begun
    have hsizex := hstride.step.size_before henv (hx.governed Op.guards_steers henv) hbegun hsize
    exact hstride.due henv hx htellsx hsizex (ih hsizex)

/-- No run is forgotten over any steps of the system. -/
theorem Steps.runs_size_le (henv : env.Confined) (hs : Reachable env Op.Steers s) (h : Steps env Op.Steers s t) :
    s.world.session.runs.size ≤ t.world.session.runs.size := by
  induction h with
  | refl => exact Nat.le_refl _
  | tail hbefore hstep ih =>
    exact Nat.le_trans ih (hstep.follows Op.guards_steers henv ((hs.steps hbefore).governed Op.guards_steers henv)).runs

/-- A task that is done has ended as is told of its program, while its run is the last one. -/
theorem Tells.concluded {Q : Telling (Routine (Except FaultId Value))} {E : Telling Outcome} (h : s.Tells Q E r id task)
    (hsize : s.world.session.runs.size = r + 1) (hdone : s.world.isDone task = true) :
    ∃ o, s.world.outcome? task = some o ∧ E s.world o := by
  obtain ⟨job, -, -, -, hstands⟩ := h.kept hsize
  obtain ⟨o, ho⟩ := isDone_iff.1 hdone
  cases hstands with
  | under hopen =>
    rw [hopen] at ho
    cases ho
  | concluded hout hended => exact ⟨_, hout, hended⟩

/-- Where no run is active no step is pending, as long as steps are cancelled through the tasks of runs alone. -/
theorem TaskSteps.free (henv : env.Confined)
    (hsequential : ∀ source, (env.program source).run.Sequential (fun _ _ => True) none) (hw : w.Fresh)
    (h : TaskSteps env { world := w } s) (hinactive : s.world.session.isActive = false) : s.world.gate.pending = none := by
  have hs := Reachable.governed Op.guards_quiet henv ⟨w, hw, TaskSteps.steps h⟩
  cases hpending : s.world.gate.pending with
  | none => rfl
  | some p =>
    obtain ⟨q, hq⟩ := hs.world.pending_step p hpending
    obtain ⟨j, job, hj, hrun, hopen, -⟩ | hstranded := (TaskSteps.sequenced henv hsequential hw h).pending p q hpending hq
    case inr =>
      rw [hstranded.isActive hs.world.toSound] at hinactive
      cases hinactive
    obtain ⟨r, hr⟩ := Option.ne_none_iff_exists'.1 hrun
    rw [(hs.world.toSound.active_of_open hj hr (.inl hopen)).2.2] at hinactive
    cases hinactive

/-- A run that is asked to stop: it is started in the step from `a` to `b`, is asked to stop in the step from `s` to
`t`, and goes on to `u` while no later run has begun. -/
structure CancelledRun (env : Env) (source : String) (task : FutureId) (a b s t u : Scene) : Prop where
  starts : Starts env source task a b
  free : FreeWay env task b s
  cancels : Strides env task s t
  running : s.world.session.run.status = .running
  canceling : t.world.session.run.status = .canceling
  way : Way env task t u
  current : u.world.session.current = b.world.session.current

/-- A request to stop, met in the step from `s` to `t`, takes effect until `u`: a step is pending at that moment, or is
being set up, or the program makes a further call boundary. -/
def TakesEffect (env : Env) (task : FutureId) (s t u : Scene) : Prop :=
  s.world.gate.pending ≠ none ∨ s.AtBoundary task ∨ ∃ x, Way env task t x ∧ Way env task x u ∧ x.AtBoundary task

/-- What becomes of a run that is asked to stop. -/
theorem CancelledRun.parts (hlisteners : env.GoesBeside) (hwords : words.IsPlain)
    (henv : env.Counted) (hb : Reachable env Op.Steers b) (h : CancelledRun env source task a b s t u)
    (hsize : b.world.session.runs.size = r + 1) (hfree : b.Undisturbed env wrapping words source start r id task) :
    u.world.session.runs.size = r + 1 ∧ Reachable env Op.Steers u ∧ u.Barring r t.world.session.run.reason ∧
      (TakesEffect env task s t u → u.Stopped env wrapping words t.world.session.run.reason r id task) ∧
      (¬ TakesEffect env task s t u → u.Undisturbed env wrapping words source start r id task) ∧
      (b.Due id → u.Due id) := by
  have hconfined := henv.toConfined
  have hs := hb.steps (FreeWay.steps h.free)
  have ht := hs.steps (.single h.cancels.step)
  have hu := ht.steps (Way.steps h.way)
  have hfrees := FreeWay.undisturbed hlisteners hwords henv hb h.free hfree
  -- no later run has begun in between
  have hsizeu : u.world.session.runs.size = r + 1 := by
    have hcurrent := h.current
    have hpos := (hu.governed Op.guards_steers hconfined).world.nonempty
    change u.world.session.runs.size - 1 = b.world.session.runs.size - 1 at hcurrent
    omega
  have hsizet : t.world.session.runs.size = r + 1 := by
    have hbefore := Steps.runs_size_le hconfined hb ((FreeWay.steps h.free).tail h.cancels.step)
    have hafter := Steps.runs_size_le hconfined ht (Way.steps h.way)
    omega
  have hsizes := h.cancels.step.size_before hconfined (hs.governed Op.guards_steers hconfined) hfrees.begun hsizet
  obtain ⟨hbarring, hstops, hgoes⟩ := h.cancels.cancels hlisteners hwords henv hs h.running h.canceling hsizes hfrees
  -- each scene after the request is one of a run that is stopped, or is not so far
  have htells (x : Scene) (hx : Way env task t x) :
      x.Undisturbed env wrapping words source start r id task ∨
        x.Stopped env wrapping words t.world.session.run.reason r id task := by
    by_cases hnow : s.world.gate.pending ≠ none ∨ s.AtBoundary task
    · exact .inr (Way.stopped hlisteners henv ht hx hbarring (hstops hnow))
    · exact (Way.undisturbed_or_stopped hlisteners hwords henv ht hx hbarring (hgoes hnow)).imp_right And.left
  refine ⟨hsizeu, hu, Way.barring hconfined ht h.way hbarring, fun heffect => ?_, fun hnone => ?_, fun hdue => ?_⟩
  · have hnow (hnow : s.world.gate.pending ≠ none ∨ s.AtBoundary task) :
        u.Stopped env wrapping words t.world.session.run.reason r id task :=
      Way.stopped hlisteners henv ht h.way hbarring (hstops hnow)
    obtain hpending | hboundary | ⟨x, hx, hxu, hboundary⟩ := heffect
    · exact hnow (.inl hpending)
    · exact hnow (.inr hboundary)
    · have hreachx := ht.steps (Way.steps hx)
      refine Way.stopped hlisteners henv hreachx hxu (Way.barring hconfined ht hx hbarring) ?_
      obtain hfreex | hstopped := htells x hx
      · exact hfreex.halts_of_boundary (hreachx.governed Op.guards_steers hconfined) hboundary _
      · exact hstopped
  · obtain ⟨hpending, hboundary, hlater⟩ : s.world.gate.pending = none ∧ ¬ s.AtBoundary task ∧
        ¬ ∃ x, Way env task t x ∧ Way env task x u ∧ x.AtBoundary task := by
      simpa only [TakesEffect, not_or, ne_eq, not_not] using hnone
    have hfreet := hgoes (not_or.2 ⟨not_not.2 hpending, hboundary⟩)
    obtain hfreeu | ⟨-, hmet⟩ := Way.undisturbed_or_stopped hlisteners hwords henv ht h.way hbarring hfreet
    · exact hfreeu
    · exact absurd hmet hlater
  · have hbefore (x : Scene) (hx : FreeWay env task b x) : x.Undisturbed env wrapping words source start r id task ∨
        x.Stopped env wrapping words t.world.session.run.reason r id task :=
      .inl (FreeWay.undisturbed hlisteners hwords henv hb hx hfree)
    have hdues : s.Due id := due_along (fun _ _ h => h.1) hconfined hb h.free hbefore hsizes hdue
    have hduet : t.Due id := h.cancels.due hconfined hs (hbefore s h.free) hsizes hdues
    exact due_along (fun _ _ h => h) hconfined ht h.way htells hsizeu hduet

/-- A run of one word has been started. -/
def boundaryStarted : Scene := { world := (World.perform turtleEnv (.start "pd") {}).2 }

/-- Its program waits for its call boundary. -/
def atBoundary : Scene := after turtleEnv 4 boundaryStarted

/-- The run is asked to stop there. -/
def askedAtBoundary : Scene := { world := (atBoundary.world.perform turtleEnv (.cancelRun (.text "stop"))).2 }

/-- The run has ended. -/
def endedAtBoundary : Scene := after turtleEnv 3 askedAtBoundary

end Scene

end SteppedLogo
