import SteppedLogo.Proofs.Program.Sequential
import SteppedLogo.Proofs.Session.Waits
import SteppedLogo.Proofs.Session.Cancellation
import SteppedLogo.Proofs.Session.Concluded

namespace SteppedLogo

open World

namespace World

variable {env : Env} {u v w : World} {id j : JobId} {job job' : Job} {p i : StepId} {q : PacedStep} {r : RunId}

/-- The step at the gate is taken off it as it is rejected. -/
theorem pending_cancelStep (hp : w.gate.pending = some p) (hq : w.gate.steps[p]? = some q)
    (hopen : w.isDone q.future = false) (reason : Value) : (w.cancelStep p reason).2.gate.pending = none := by
  obtain ⟨-, hdone⟩ | ⟨s, -, -, heq⟩ := cancelStep_cases w p reason
  · rw [hdone q hq] at hopen
    cases hopen
  · rw [heq, (aside_addLog ..).pending, settle_gate, (aside_raise _ _).pending, pending_retract, if_pos hp]

/-- A step that is set up in the current run is the one at the gate and waits, unless it is rejected and
leaves the gate free. -/
theorem pending_installFor (hw : w.Sound) (hp : (w.installFor w.session.current).2.gate.pending = some p) :
    ∃ q : PacedStep, (w.installFor w.session.current).2.gate.steps[p]? = some q ∧
      q.future = (w.installFor w.session.current).1.future ∧
        (w.installFor w.session.current).2.isDone q.future = false := by
  have hnumbered := sound_numbered hw
  have hnew : w.numbered.Outstanding w.gate.steps.size := (outstanding_installStep hw.toWired).2 (.inr rfl)
  obtain ⟨q, hq, hopen⟩ := hnew
  obtain ⟨message, hinstall⟩ := installStep_eq w
  have hpending : w.numbered.gate.pending = some w.gate.steps.size := by
    rw [numbered, hinstall]
    rfl
  have hfuture : q.future = w.installStep.1.future := by
    rw [numbered, hinstall] at hq
    obtain hold | ⟨-, rfl⟩ := getElem?_push_eq_some.1 hq
    · rw [Array.getElem?_size] at hold
      cases hold
    · rw [hinstall]
  obtain ⟨-, heq⟩ | ⟨-, heq⟩ := installFor_current hw
  · rw [heq] at hp ⊢
    have hp : w.numbered.gate.pending = some p := hp
    rw [hpending] at hp
    cases hp
    exact ⟨q, hq, hfuture, hopen⟩
  · rw [heq, pending_cancelStep hpending hq hopen] at hp
    cases hp

/-- A run that ends leaves no step at the gate that is still waiting; an interrupt leaves everything as it is. -/
theorem pending_conclude (hq : w.gate.steps[p]? = some q) (hopen : w.isDone q.future = false)
    (hp : w.gate.pending = some p) (fault : Option FaultId) :
    (w.conclude r fault).2.gate.pending = none ∨ (w.conclude r fault).2 = w := by
  obtain ⟨e, -, -, hstays⟩ | ⟨-, u, reason, status, error, hu, -, hv⟩ := conclude_eq w r fault
  · rw [hstays]
    exact .inr rfl
  refine .inl ?_
  rw [hv.pending]
  have hpending : u.gate.pending = some p := hu.pending.trans hp
  have huopen : u.isDone q.future = false := by
    rw [isDone, outcome?, hu.futures]
    exact hopen
  change (u.cancelGate reason).2.gate.pending = none
  simp only [cancelGate, hpending]
  exact pending_cancelStep hpending (hu.steps ▸ hq) huopen reason

/-- The hook is not refused on account of a step at the gate where there is none. -/
theorem kindOf_refused (hpending : w.gate.pending = none) {call : Call} {fault : FaultId}
    (hrefused : (w.perform env (.hook call)).1 = .error fault) :
    (w.perform env (.hook call)).2.faults.kindOf fault ≠ .stepPending := by
  rw [perform_eq] at hrefused ⊢
  obtain ⟨shown, ⟨fault', u, hannounced, heq⟩ | ⟨u, -, heq⟩⟩ := hook_cases (notify env) call w
  · change (w.hook (notify env) call).1 = _ at hrefused
    change (w.hook (notify env) call).2.faults.kindOf fault ≠ _
    rw [heq] at hrefused ⊢
    cases hrefused
    unfold announceStep at hannounced
    simp only [hpending, Value.items] at hannounced
    generalize (w.modifyGate fun g => { g with seq := g.seq + 1 }).showCall shown = v at hannounced
    cases hitems : shown.args.items? with
    | some args =>
      simp only [hitems] at hannounced
      have hstopped := tellEach_error hannounced
      intro hkind
      rw [hkind] at hstopped
      cases hstopped
    | none =>
      simp only [hitems, complain, raise, Prod.mk.injEq, Except.error.injEq] at hannounced
      obtain ⟨rfl, rfl⟩ := hannounced
      rw [kindOf_of_get (Faults.get?_add _ _)]
      nofun
  · change (w.hook (notify env) call).1 = _ at hrefused
    rw [heq] at hrefused
    cases hrefused

/-- The jobs that wait for steps are those of runs that are under way. -/
def WaitedByRuns (w : World) : Prop :=
  ∀ (j : JobId) (job : Job) (i : StepId) (q : PacedStep), w.jobs[j]? = some job → w.gate.steps[i]? = some q →
    job.waiting = some q.future → job.run ≠ none ∧ w.isDone job.future = false

/-- What is cancelled by way of the future of a job is what a job waits for. -/
theorem waits_of_cancelledWithin {fuel : Nat} {future : FutureId} {f : Future} {target : FutureId}
    (hf : w.futures[future]? = some f) (howner : f.job ≠ none) (hopen : w.isDone target = false)
    (hcancelled : (cancelWithin fuel future w).2.outcome? target = some .cancelled) : ∃ j, w.waits j = some target := by
  have hsame (hout : w.outcome? target = some .cancelled) : ∃ j, w.waits j = some target := by
    rw [isDone, hout] at hopen
    cases hopen
  induction fuel generalizing future f with
  | zero => exact hsame hcancelled
  | succ fuel ih =>
    obtain ⟨j, hj⟩ := Option.ne_none_iff_exists'.1 howner
    simp only [cancelWithin, hf, hj] at hcancelled
    split at hcancelled
    · exact hsame hcancelled
    · cases hwaits : (w.jobs[j]?).bind Job.waiting with
      | none =>
        simp only [hwaits] at hcancelled
        exact hsame hcancelled
      | some awaited =>
        simp only [hwaits] at hcancelled
        have hinner : (cancelWithin fuel awaited w).2.outcome? target = some .cancelled := by
          split at hcancelled
          · exact hcancelled
          · exact hcancelled
        cases hg : w.futures[awaited]? with
        | none =>
          cases fuel with
          | zero => exact hsame hinner
          | succ fuel =>
            simp only [cancelWithin, hg] at hinner
            exact hsame hinner
        | some g =>
          cases hplain : g.job with
          | some k => exact ih hg (by simp [hplain]) hinner
          | none =>
            cases fuel with
            | zero => exact hsame hinner
            | succ fuel =>
              simp only [cancelWithin, hg, hplain] at hinner
              split at hinner
              · exact hsame hinner
              · obtain hout | ⟨rfl, -⟩ := outcome?_of_settle hinner
                · exact hsame hout
                · exact ⟨j, hwaits⟩

theorem waits_of_cancelled {future : FutureId} {f : Future} {target : FutureId}
    (hf : w.futures[future]? = some f) (howner : f.job ≠ none) (hopen : w.isDone target = false)
    (hcancelled : (w.cancelFuture future).2.outcome? target = some .cancelled) : ∃ j, w.waits j = some target :=
  waits_of_cancelledWithin hf howner hopen hcancelled

theorem cancelled_cancelRun {reason : Value} {target : FutureId}
    (hcancelled : (w.cancelRun reason).outcome? target = some .cancelled) : w.outcome? target = some .cancelled := by
  have hstep (u : World) (p : StepId) (h : (u.cancelStep p reason).2.outcome? target = some .cancelled) :
      u.outcome? target = some .cancelled := by
    obtain ⟨heq, -⟩ | ⟨s, -, -, heq⟩ := cancelStep_cases u p reason
    · rwa [heq] at h
    · rw [heq, outcome?, (aside_addLog ..).futures, ← outcome?] at h
      obtain h | ⟨-, h⟩ := outcome?_of_settle h
      · rwa [outcome?, (aside_raise _ _).futures, futures_retract] at h
      · cases h
  obtain ⟨-, heq⟩ | ⟨-, message, heq⟩ := cancelRun_cases w reason
  · rwa [heq] at hcancelled
  · rw [heq, info, outcome?, (aside_addLog ..).futures, ← outcome?] at hcancelled
    unfold cancelGate at hcancelled
    split at hcancelled
    · exact hcancelled
    · have hbefore := hstep _ _ hcancelled
      exact hbefore

/-- At most one job of a run is under way, or stopped by an interrupt. -/
theorem job_of_open (hw : w.Sound) (hj : w.jobs[id]? = some job) (hrun : job.run ≠ none)
    (hopen : w.isDone job.future = false)
    (hj' : w.jobs[j]? = some job') (hrun' : job'.run ≠ none)
    (hopen' : w.isDone job'.future = false ∨ w.Interrupted job'.future) : id = j := by
  obtain ⟨r, hr⟩ := Option.ne_none_iff_exists'.1 hrun
  obtain ⟨r', hr'⟩ := Option.ne_none_iff_exists'.1 hrun'
  have hcurrent := (hw.active_of_open hj hr (.inl hopen)).2.1
  have hcurrent' := (hw.active_of_open hj' hr' (hopen'.imp_right .inr)).2.1
  exact hw.job_unique id j job job' r hj hj' hr (hr'.trans (congrArg some (hcurrent'.trans hcurrent.symm)))

/-- An interrupt has stopped the job of a run, and left the run as it was. -/
def Stranded (w : World) : Prop :=
  ∃ (j : JobId) (job : Job), w.jobs[j]? = some job ∧ job.run ≠ none ∧ w.Interrupted job.future

theorem Interrupted.isDone {future : FutureId} (h : w.Interrupted future) : w.isDone future = true := by
  obtain ⟨fault, hfault, -⟩ := h
  exact isDone_iff.2 ⟨_, hfault⟩

theorem Interrupted.follows {future : FutureId} (h : w.Interrupted future) (hfollows : w.Follows v) :
    v.Interrupted future := by
  obtain ⟨fault, hfault, hkind⟩ := h
  exact Interrupted.mono ⟨fault, hfault, hkind⟩ ((hfollows.futures.outcome? hfault).trans hfault.symm) hfollows.faults

theorem Stranded.follows (h : w.Stranded) (hfollows : w.Follows v) : v.Stranded := by
  obtain ⟨j, job, hj, hrun, hinterrupted⟩ := h
  obtain ⟨now, hnow, hfuture, hsame, -⟩ := hfollows.job j job hj
  exact ⟨j, now, hnow, hsame ▸ hrun, hfuture ▸ hinterrupted.follows hfollows⟩

/-- While a run is left by an interrupt no job of a run is under way. -/
theorem Stranded.done (h : w.Stranded) (hw : w.Sound) (hj : w.jobs[id]? = some job) (hrun : job.run ≠ none) :
    w.isDone job.future = true := by
  obtain ⟨j, other, hother, hotherRun, hinterrupted⟩ := h
  by_contra hnot
  obtain rfl := job_of_open hw hj hrun (by simpa using hnot) hother hotherRun (.inr hinterrupted)
  rw [hj] at hother
  cases hother
  exact hnot hinterrupted.isDone

/-- A run that is left by an interrupt stays active. -/
theorem Stranded.isActive (h : w.Stranded) (hw : w.Sound) : w.session.isActive = true := by
  obtain ⟨j, job, hj, hrun, hinterrupted⟩ := h
  obtain ⟨r, hr⟩ := Option.ne_none_iff_exists'.1 hrun
  exact (hw.active_of_open hj hr (.inr (.inr hinterrupted))).2.2

end World

namespace Scene

variable {env : Env} {P : Op → Prop} {s t : Scene} {v w : World} {id j : JobId} {job old : Job} {p : StepId} {q : PacedStep}

/-- Of the steps that are cancelled from one scene to the next, each is waited for by the job of a run: it is
cancelled along with the task that waits for it, and nobody else cancels a step. -/
def CancelsThroughRuns (s t : Scene) : Prop :=
  ∀ (i : StepId) (q : PacedStep), s.world.gate.steps[i]? = some q → s.world.isDone q.future = false →
    t.world.outcome? q.future = some .cancelled →
      ∃ (j : JobId) (job : Job), t.world.jobs[j]? = some job ∧ job.run ≠ none ∧
        t.world.isDone job.future = false ∧ job.waiting = some q.future

/-- To cancel a task is to cancel the step that is waited for, if any. -/
theorem cancelsThroughRuns_task (hw : w.Sound) (hwaited : w.WaitedByRuns) (hj : w.jobs[j]? = some job) :
    CancelsThroughRuns { world := w } { world := (w.perform env (.cancelFuture job.future)).2 } := by
  intro i q hq hopen hcancelled
  obtain ⟨f, hf, howner⟩ := hw.job_future j job hj
  obtain ⟨k, hwaits⟩ := waits_of_cancelled hf (by rw [howner]; nofun) hopen hcancelled
  obtain ⟨other, hother, hwaiting⟩ := Option.bind_eq_some_iff.1 hwaits
  obtain ⟨hrun, hundone⟩ := hwaited k other i q hother hq hwaiting
  have hextends := (grows_perform env (.cancelFuture job.future) w hw).2
  obtain ⟨b, hb⟩ := hextends.job k other hother
  refine ⟨k, _, hb, hrun, ?_, hwaiting⟩
  rw [isDone, hextends.owned k other hother]
  exact hundone

/-- A run that is asked to stop has its step rejected, not cancelled. -/
theorem cancelsThroughRuns_cancelRun (w : World) (reason : Value) :
    CancelsThroughRuns { world := w } { world := w.cancelRun reason } := by
  intro i q _ hopen hcancelled
  have hbefore := cancelled_cancelRun hcancelled
  rw [isDone, hbefore] at hopen
  cases hopen

/-- Whose the step at the gate is: that of a job which has yet to wait for it, or is waiting for it. -/
inductive InHand (s : Scene) (j : JobId) (job : Job) (q : PacedStep) : Prop
  | held (hopen : s.world.isDone q.future = false)
    (hleft : (s.left j job).Sequential (fun _ _ => True) (some q.future))
  | waited (hwaits : s.world.waits j = some q.future)

/-- The programs of runs wait for each call boundary before they make another one, and the step at the gate
is in the hands of one of them, unless an interrupt has stopped it. -/
structure Sequenced (s : Scene) : Prop where
  woken : s.world.Woken s.world.waits
  staged : s.world.Staged
  left : ∀ (j : JobId) (job : Job), s.world.jobs[j]? = some job → job.run ≠ none →
    s.world.isDone job.future = false → ∃ held, (s.left j job).Sequential (fun _ _ => True) held
  pending : ∀ (p : StepId) (q : PacedStep), s.world.gate.pending = some p → s.world.gate.steps[p]? = some q →
    (∃ (j : JobId) (job : Job), s.world.jobs[j]? = some job ∧ job.run ≠ none ∧
      s.world.isDone job.future = false ∧ job.begun = true ∧ s.InHand j job q) ∨ s.world.Stranded

/-- What a job has yet to wait for stays so from one scene to the next, as long as it is not settled. -/
def Carries (s t : Scene) (j : JobId) (old now : Job) : Prop :=
  ∀ held, (s.left j old).Sequential (fun _ _ => True) held →
    ∃ held', (t.left j now).Sequential (fun _ _ => True) held' ∧
      ∀ future, held = some future → s.world.isDone future = false → held' = some future

/-- What happens in a step in which no call boundary is made. -/
structure Quietly (env : Env) (s t : Scene) : Prop where
  follows : s.world.Follows t.world
  pending : ∀ p, t.world.gate.pending = some p → s.world.gate.pending = some p
  ended : ∀ (j : JobId) (job : Job), s.world.jobs[j]? = some job → job.begun = true →
    t.world.outcome? job.future = s.world.outcome? job.future ∨ ∃ (taken : Job) (result : Except FaultId Value),
      s.activity = .turn ⟨j, taken, .done result⟩ ∧ t.world = s.world.putDown j taken (.finished result)
  left : ∀ (j : JobId) (job : Job), t.world.jobs[j]? = some job → job.run ≠ none → t.world.isDone job.future = false →
    (s.world.jobs[j]? = none ∧ ∃ source, t.left j job = .await none fun _ => (env.program source).run) ∨
      ∃ old : Job, s.world.jobs[j]? = some old ∧ job.future = old.future ∧ job.run = old.run ∧ s.Carries t j old job

theorem Begins.program (h : Begins env P s t j job) (hrun : job.run ≠ none) :
    s.world.jobs[j]? = none ∧ ∃ source, t.left j job = .await none fun _ => (env.program source).run := by
  obtain ⟨hnew, code, hleft, -, hprogram⟩ := h
  obtain ⟨r, hr⟩ := Option.ne_none_iff_exists'.1 hrun
  obtain ⟨source, rfl⟩ := hprogram r hr
  exact ⟨hnew, source, hleft⟩

/-- What a routine receives that is not what is held leaves that held. -/
theorem Onward.sequential {before after : Routine (Except FaultId Value)} {requested : Prop} {held : Option FutureId}
    (h : Onward w v requested before after) (hbefore : before.Sequential (fun _ _ => True) held) :
    ∃ held', after.Sequential (fun _ _ => True) held' ∧
      ∀ future, held = some future → w.isDone future = false → held' = some future := by
  cases h with
  | stays => exact ⟨held, hbefore, fun _ hheld _ => hheld⟩
  | @receives awaited received k hreceived =>
    refine ⟨_, hbefore received, fun future hheld hopen => ?_⟩
    have hother : awaited ≠ some future := by
      intro hawaited
      rw [hreceived.settled hawaited] at hopen
      cases hopen
    rw [hheld, if_neg hother]

theorem Effect.quietly (h : Effect env Op.IsQuiet s t) (hs : s.world.Sound) : Quietly env s t where
  follows := h.follows
  pending p hp := by
    obtain ⟨o, hquiet, hworld⟩ | hcalm := h.world
    · rw [hworld] at hp
      exact (perform_touches hquiet s.world).pending hs hp
    · exact hcalm.spares.pending p hp
  ended j job hj hbegun := by
    obtain hsame | hends := h.ended j job hj
    · exact .inl hsame
    · cases hends with
      | @finished taken result hturn hworld => exact .inr ⟨taken, result, hturn, hworld⟩
      | unbegun _ hnot =>
        rw [hbegun] at hnot
        cases hnot
  left j job hj hrun hopen := by
    obtain hbegins | ⟨old, hold, hfuture, hsame, honward⟩ := h.left j job hj hopen
    · exact .inl (hbegins.program hrun)
    · exact .inr ⟨old, hold, hfuture, hsame, fun _ hheld => honward.sequential hheld⟩

/-- A job performs an operation that makes no call boundary. -/
theorem quietly_op (henv : env.Confined) {o : Op} {k : o.Reply → Routine (Except FaultId Value)} (hquiet : o.IsQuiet)
    (hs : ({ world := w, activity := .turn ⟨id, job, .op o k⟩ } : Scene).Governed Op.IsQuiet) :
    Quietly env { world := w, activity := .turn ⟨id, job, .op o k⟩ }
      { world := (w.perform env o).2, activity := .turn ⟨id, job, k (w.perform env o).1⟩ } := by
  have hextends := (grows_perform env o w hs.world.toSound).2
  refine ⟨hextends.follows, fun p hp => (perform_touches hquiet w).pending hs.world.toSound hp,
    fun j now hj _ => .inl (hextends.owned j now hj), fun j now hj hrun hopen => ?_⟩
  obtain hbegins | ⟨old, hold, hfuture, hsame, hleft⟩ := left_op Op.guards_quiet henv hs hj
  · exact .inl (hbegins.program hrun)
  · refine .inr ⟨old, hold, hfuture, hsame, fun held hheld => ⟨held, ?_, fun _ h _ => h⟩⟩
    by_cases h : id = j
    · subst h
      rw [left_self] at hheld ⊢
      exact (Routine.sequential_op hquiet).1 hheld _
    · rw [hleft h]
      exact hheld

/-- Either a job makes a call boundary, or none is made. -/
theorem Step.hook_or_quietly (henv : env.Confined) (hs : s.Governed Op.IsQuiet) (h : Step env Op.IsQuiet s t) :
    (∃ w id job call k r, s = { world := w, activity := .turn ⟨id, job, .op (.hook call) k⟩ } ∧
      t = { world := (w.perform env (.hook call)).2, activity := .turn ⟨id, job, k (w.perform env (.hook call)).1⟩ } ∧
        job.run = some r ∧ w.session.isActive = true) ∨ Quietly env s t := by
  obtain ⟨w, id, job, o, k, rfl, rfl⟩ | ⟨-, heffect⟩ := h.op_or_effect Op.guards_quiet henv hs
  · obtain hquiet | ⟨call, r, rfl, hrun, hactive⟩ := hs.quiet_or_hook Op.guards_quiet
    · exact .inr (quietly_op henv hquiet hs)
    · exact .inl ⟨w, id, job, call, k, r, rfl, rfl, hrun, hactive⟩
  · exact .inr (heffect.quietly hs.world.toSound)

/-- The gate is free when a job of a run makes a call boundary. -/
theorem Sequenced.free (h : s.Sequenced) (hs : s.Governed Op.IsQuiet) {call : Call}
    {k : Op.Reply (.hook call) → Routine (Except FaultId Value)} (hturn : s.activity = .turn ⟨id, job, .op (.hook call) k⟩) :
    s.world.gate.pending = none := by
  have hup : s.world.Up id job := hs.turn _ hturn
  obtain ⟨now, hnow, hfuture, hrun, -⟩ := hup.get
  obtain ⟨w, activity⟩ := s
  obtain rfl : activity = _ := hturn
  have hopen : w.isDone now.future = false := isDone_eq_false.2 (hup.outcome?_get hnow)
  have hjobrun : job.run ≠ none := by
    obtain hquiet | ⟨_, r, -, hr, -⟩ := hs.quiet_or_hook Op.guards_quiet
    · cases hquiet
    · rw [hr]
      nofun
  cases hpending : w.gate.pending with
  | none => rfl
  | some p =>
    obtain ⟨q, hq⟩ := hs.world.pending_step p hpending
    obtain ⟨j, old, hj, hrunj, hopenj, -, hinhand⟩ | hstranded := h.pending p q hpending hq
    case inr =>
      rw [hstranded.done hs.world.toSound hnow (hrun ▸ hjobrun)] at hopen
      cases hopen
    obtain rfl := job_of_open hs.world.toSound hnow (hrun ▸ hjobrun) hopen hj hrunj (.inl hopenj)
    cases hinhand with
    | held _ hleft =>
      rw [left_self] at hleft
      cases hleft.1
    | waited hwaits =>
      have hidle : w.waits id = none := waits_of_up hup
      have hwaits : w.waits id = some q.future := hwaits
      rw [hidle] at hwaits
      cases hwaits

/-- A job that holds the step at the gate does not end before the step is off the gate, unless an interrupt stops
it. -/
theorem Quietly.stays_open (h : Quietly env s t) (hs : s.Governed Op.IsQuiet) (ht : t.world.Sound)
    (hj : s.world.jobs[j]? = some old)
    (hrun : old.run ≠ none) (hopen : s.world.isDone old.future = false) (hbegun : old.begun = true)
    (hpending : s.world.gate.pending = some p) (hpending' : t.world.gate.pending = some p)
    (hq : s.world.gate.steps[p]? = some q) (hinhand : s.InHand j old q) :
    t.world.isDone old.future = false ∨ t.world.Stranded := by
  obtain hsame | ⟨taken, result, hturn, hworld⟩ := h.ended j old hj hbegun
  · rw [isDone, hsame]
    exact .inl hopen
  · -- its turn ends, and its run with it
    have hup : s.world.Up j taken := hs.turn _ hturn
    obtain ⟨now, hnow, -, hsameRun, -⟩ := hup.get
    rw [hj] at hnow
    cases hnow
    obtain ⟨r, hr⟩ := Option.ne_none_iff_exists'.1 hrun
    cases hinhand with
    | held hstill =>
      obtain ⟨fault, heq, -⟩ := endRun_some s.world r result
      obtain ⟨o, hend⟩ := endJob_eq (s.world.endRun (some r) result).2 j taken.future (s.world.endRun (some r) result).1
      have hput : t.world = (s.world.endRun (some r) result).2.settle taken.future o := by
        rw [hworld, ← hend, ← hr, hsameRun]
        rfl
      obtain hfree | hstays := pending_conclude (r := r) hq hstill hpending fault
      · rw [hput, settle_gate, heq, hfree] at hpending'
        cases hpending'
      · -- the run is left as it was, so that it cannot be over
        have hsession : t.world.session = s.world.session := by rw [hput, settle_session, heq, hstays]
        obtain ⟨run, hget, -, hrunning⟩ := hs.world.job_run j old r hj hr
        have hactive : run.status.isActive = true := hrunning (.inl hopen)
        cases hdone : t.world.isDone old.future with
        | false => exact .inl rfl
        | true =>
          obtain ⟨now, hnow, hfuture, hnowRun, hnowBegun⟩ := h.follows.job j old hj
          obtain ⟨run', hget', hover, -⟩ := ht.job_run j now r hnow (hnowRun.trans hr)
          rw [hsession, hget] at hget'
          cases hget'
          obtain ⟨hstatus, -⟩ | ⟨-, hinterrupted⟩ := hover (hfuture ▸ hdone) ((hnowBegun (.inr hbegun)).trans hbegun)
          · obtain hstatus | hstatus := hstatus <;> rw [hstatus] at hactive <;> cases hactive
          · exact .inr ⟨j, now, hnow, hnowRun.trans hr ▸ Option.some_ne_none r, hinterrupted⟩
    | waited hwaits =>
      rw [waits_of_up hup] at hwaits
      cases hwaits

/-- A step that stays at the gate stays in the hands of the job: if it is settled, then the job waits for it
and is cancelled. -/
theorem Step.inHand {now : Job} {q' : PacedStep} (henv : env.Confined)
    (hs : s.Governed Op.IsQuiet) (hstep : Step env Op.IsQuiet s t) (hcancels : s.CancelsThroughRuns t)
    (hseq : s.Sequenced) (hstaged : t.world.Staged) (hpending : s.world.gate.pending = some p)
      (hpending' : t.world.gate.pending = some p)
    (hq : s.world.gate.steps[p]? = some q) (hq' : t.world.gate.steps[p]? = some q') (hfuture : q'.future = q.future)
    (hj : t.world.jobs[j]? = some now) (hrun : now.run ≠ none) (hopen : t.world.isDone now.future = false)
    (hcarries : s.Carries t j old now) (hinhand : s.InHand j old q) : t.InHand j now q' := by
  have ht := (hstep.governed Op.guards_quiet henv hs).world.toSound
  cases hinhand with
  | waited hwaits =>
    have hkeeps := hstep.keeps_waiting Op.guards_quiet henv hs hseq.woken hseq.staged hpending hq hwaits
    exact .waited (hfuture ▸ hkeeps)
  | held hstill hheld =>
    cases hdone : t.world.isDone q'.future with
    | false =>
      obtain ⟨held', hleft, hsame⟩ := hcarries _ hheld
      rw [hsame q.future rfl hstill, ← hfuture] at hleft
      exact .held hdone hleft
    | true =>
      have hcancelled : t.world.outcome? q'.future = some .cancelled := by
        cases hstaged.stage p q' hq' with
        | waiting hf hstillOpen =>
          rw [isDone, outcome?_of_get hf, hstillOpen] at hdone
          cases hdone
        | leaving hout => exact hout
        | retracted _ _ hoff => exact absurd hpending' hoff
      obtain ⟨k, other, hk, hotherRun, hotherOpen, hwaiting⟩ := hcancels p q hq hstill (hfuture ▸ hcancelled)
      obtain rfl := job_of_open ht hk hotherRun hotherOpen hj hrun (.inl hopen)
      exact .waited (by rw [waits_of_get hk, hwaiting, hfuture])

/-- A job makes a call boundary, and holds the step that it is given. -/
theorem sequenced_hook (henv : env.Confined)
    (hsequential : ∀ source, (env.program source).run.Sequential (fun _ _ => True) none) {call : Call}
    {k : Op.Reply (.hook call) → Routine (Except FaultId Value)}
    (hs : ({ world := w, activity := .turn ⟨id, job, .op (.hook call) k⟩ } : Scene).Governed Op.IsQuiet)
    (hrun : job.run ≠ none) (hactive : w.session.isActive = true)
    (h : ({ world := w, activity := .turn ⟨id, job, .op (.hook call) k⟩ } : Scene).Sequenced)
    (ht : ({ world := (w.perform env (.hook call)).2,
             activity := .turn ⟨id, job, k (w.perform env (.hook call)).1⟩ } : Scene).Governed Op.IsQuiet)
    (hwoken : (w.perform env (.hook call)).2.Woken (w.perform env (.hook call)).2.waits)
    (hstaged : (w.perform env (.hook call)).2.Staged) :
    ({ world := (w.perform env (.hook call)).2,
       activity := .turn ⟨id, job, k (w.perform env (.hook call)).1⟩ } : Scene).Sequenced := by
  have hup : w.Up id job := hs.turn _ rfl
  obtain ⟨before, hbefore, -, hsameRun, -⟩ := hup.get
  obtain ⟨held, hheld⟩ := h.left id before hbefore (hsameRun ▸ hrun) (isDone_eq_false.2 (hup.outcome?_get hbefore))
  rw [left_self] at hheld
  have hgoes := hheld.2 (w.perform env (.hook call)).1
  refine ⟨hwoken, hstaged, fun j now hj hnowRun hopen => ?_, fun p q hpending hq => ?_⟩
  · obtain hbegins | ⟨old, hold, hfuture, hsame, hleft⟩ := left_op Op.guards_quiet henv hs hj
    · obtain ⟨-, source, hleft⟩ := hbegins.program hnowRun
      rw [hleft]
      exact ⟨none, fun _ => hsequential source⟩
    · by_cases hid : id = j
      · subst hid
        rw [left_self]
        exact ⟨_, hgoes⟩
      · rw [hleft hid]
        have hextends := (grows_perform env (.hook call) w hs.world.toSound).2
        exact h.left j old hold (hsame ▸ hnowRun) (hextends.futures.open_before (hfuture ▸ hopen))
  · have hfree : w.gate.pending = none := h.free hs rfl
    have hupAfter : (w.perform env (.hook call)).2.Up id job := ht.turn _ rfl
    obtain ⟨now, hnow, -, hnowRun, hbegun, -⟩ := hupAfter.get
    refine .inl ⟨id, now, hnow, hnowRun ▸ hrun, isDone_eq_false.2 (hupAfter.outcome?_get hnow), hbegun, ?_⟩
    obtain ⟨u, htouches, -, -, ⟨fault, heq⟩ | ⟨-, -, heq⟩⟩ :=
      perform_hook_cases henv hs.world.toSound hs.world.tidy hactive call
    · simp only [heq] at hpending
      rw [htouches.pending hs.world.toSound hpending] at hfree
      cases hfree
    · have hu : u.Sound := (Changes.grows (Touches.changes htouches) hs.world.toSound).1
      simp only [heq] at hpending hq hgoes ⊢
      obtain ⟨q', hq', hfuture, hopen⟩ := pending_installFor hu hpending
      rw [hq] at hq'
      cases hq'
      refine .held hopen ?_
      rw [left_self, hfuture]
      exact hgoes

/-- Programs that wait for each call boundary keep the step at the gate in hand. -/
theorem Step.sequenced (henv : env.Confined)
    (hsequential : ∀ source, (env.program source).run.Sequential (fun _ _ => True) none)
    (hs : s.Governed Op.IsQuiet) (hstep : Step env Op.IsQuiet s t) (hcancels : s.CancelsThroughRuns t)
    (h : s.Sequenced) : t.Sequenced := by
  have ht := hstep.governed Op.guards_quiet henv hs
  have hwoken := hstep.woken Op.guards_quiet henv hs h.woken
  have hparts := (hstep.parts ⟨hs.world.toSound, hs.turn⟩).2
  obtain ⟨w, id, job, call, k, r, rfl, rfl, hrun, hactive⟩ | hquietly := hstep.hook_or_quietly henv hs
  · have hjobRun : job.run ≠ none := by
      rw [hrun]
      nofun
    exact sequenced_hook henv hsequential hs hjobRun hactive h ht hwoken (hparts.staged h.staged)
  · refine ⟨hwoken, hparts.staged h.staged, fun j now hj hrun hopen => ?_, fun p q' hpending' hq' => ?_⟩
    · obtain ⟨-, source, hleft⟩ | ⟨old, hold, hfuture, hsame, hcarries⟩ := hquietly.left j now hj hrun hopen
      · rw [hleft]
        exact ⟨none, fun _ => hsequential source⟩
      · have hbefore : s.world.isDone old.future = false := hquietly.follows.futures.open_before (hfuture ▸ hopen)
        obtain ⟨held, hheld⟩ := h.left j old hold (hsame ▸ hrun) hbefore
        obtain ⟨held', hleft, -⟩ := hcarries held hheld
        exact ⟨held', hleft⟩
    · have hpending := hquietly.pending p hpending'
      obtain ⟨q, hq⟩ := hs.world.pending_step p hpending
      obtain ⟨timer, hsame⟩ := hparts.step hq
      rw [hq'] at hsame
      cases hsame
      obtain ⟨j, old, hj, hrun, hopen, hbegun, hinhand⟩ | hstranded := h.pending p q hpending hq
      case inr => exact .inr (hstranded.follows hquietly.follows)
      obtain hstays | hstranded := hquietly.stays_open hs ht.world.toSound hj hrun hopen hbegun hpending hpending' hq hinhand
      case inr => exact .inr hstranded
      obtain ⟨now, hnow, hfuture, hnowRun, hnowBegun⟩ := hquietly.follows.job j old hj
      have hrun' : now.run ≠ none := by rwa [hnowRun]
      have hopen' : t.world.isDone now.future = false := by rwa [hfuture]
      obtain ⟨hnew, -⟩ | ⟨old', hold, -, -, hcarries⟩ := hquietly.left j now hnow hrun' hopen'
      · rw [hj] at hnew
        cases hnew
      · rw [hj] at hold
        cases hold
        exact .inl ⟨j, now, hnow, hrun', hopen', (hnowBegun (.inr hbegun)).trans hbegun,
          hstep.inHand henv hs hcancels h (hparts.staged h.staged) hpending hpending' hq hq' rfl hnow hrun' hopen' hcarries hinhand⟩

/-- Steps from scene to scene in which steps of the gate are cancelled through the tasks of runs alone. -/
abbrev TaskSteps (env : Env) : Scene → Scene → Prop :=
  Relation.ReflTransGen fun s t => Step env Op.IsQuiet s t ∧ s.CancelsThroughRuns t

theorem TaskSteps.steps (h : TaskSteps env s t) : Steps env Op.IsQuiet s t :=
  Relation.ReflTransGen.mono (fun _ _ hstep => hstep.1) _ _ h

theorem sequenced_fresh (hw : w.Fresh) : ({ world := w } : Scene).Sequenced := by
  refine ⟨hw.woken, hw.staged, fun j job hj => ?_, fun p q hpending => ?_⟩
  · have hj : w.jobs[j]? = some job := hj
    simp [hw.jobs] at hj
  · have hpending : w.gate.pending = some p := hpending
    rw [hw.pending] at hpending
    cases hpending

theorem TaskSteps.sequenced (henv : env.Confined)
    (hsequential : ∀ source, (env.program source).run.Sequential (fun _ _ => True) none) (hw : w.Fresh)
    (h : TaskSteps env { world := w } s) : s.Sequenced := by
  induction h with
  | refl => exact sequenced_fresh hw
  | @tail t u hbefore hstep ih =>
    have ht : t.Governed Op.IsQuiet := Reachable.governed Op.guards_quiet henv ⟨w, hw, TaskSteps.steps hbefore⟩
    exact hstep.1.sequenced henv hsequential ht hstep.2 ih

/-- Let listeners be `Confined` and every program `Sequential`: it waits for each call boundary before it makes the next.
From a fresh world, over all steps in which steps are cancelled through the tasks of runs alone (which `cancelFuture` of a
task, `cancelRun` and `requestBreak` do), nothing is pending whenever a job performs `hook`, and `hook` never fails with a
`stepPending` fault. -/
theorem boundaries_never_overlap (henv : env.Confined)
    (hsequential : ∀ source, (env.program source).run.Sequential (fun _ _ => True) none) :
    (∀ (w : World) (j : JobId) (job : Job), w.Sound → w.WaitedByRuns → w.jobs[j]? = some job →
      CancelsThroughRuns { world := w } { world := (w.perform env (.cancelFuture job.future)).2 }) ∧
    (∀ (w : World) (o : Op) (reason : Value), o = .cancelRun reason ∨ o = .requestBreak reason →
      CancelsThroughRuns { world := w } { world := (w.perform env o).2 }) ∧
    ∀ (w : World) (s : Scene), w.Fresh → TaskSteps env { world := w } s →
      ∀ (id : JobId) (job : Job) (call : Call) (k : Op.Reply (.hook call) → Routine (Except FaultId Value)),
        s.activity = .turn ⟨id, job, .op (.hook call) k⟩ →
          s.world.gate.pending = none ∧ ∀ fault, (s.world.perform env (.hook call)).1 = .error fault →
            (s.world.perform env (.hook call)).2.faults.kindOf fault ≠ .stepPending := by
  refine ⟨fun w j job hw hwaited hj => cancelsThroughRuns_task hw hwaited hj, fun w o reason ho => ?_,
    fun w s hfresh hsteps id job call k hturn => ?_⟩
  · have hcancels := cancelsThroughRuns_cancelRun w reason
    obtain rfl | rfl := ho
    · exact hcancels
    · exact hcancels
  · have hgoverned := Reachable.governed Op.guards_quiet henv ⟨w, hfresh, TaskSteps.steps hsteps⟩
    have hfree := (TaskSteps.sequenced henv hsequential hfresh hsteps).free hgoverned hturn
    exact ⟨hfree, fun fault => kindOf_refused hfree⟩

/-- Programs that make a call boundary, and another one whatever has come of waiting for the first. -/
def heedlessEnv : Env where
  program _ := ExceptT.mk do
    match ← Routine.perform (.hook { func := .text "first" }) with
    | .error fault => return .error fault
    | .ok step =>
      let _ ← (Work.wait step.future).run
      match ← Routine.perform (.hook { func := .text "second" }) with
      | .error fault => return .error fault
      | .ok step => (Work.wait step.future).run
  react _ _ := pure ()

theorem heedlessEnv_confined : heedlessEnv.Confined := by
  refine ⟨fun _ _ => trivial, fun _ => ⟨trivial, fun reply => ?_⟩⟩
  cases reply with
  | error => trivial
  | ok step =>
    refine fun _ => ⟨trivial, fun reply => ?_⟩
    cases reply with
    | error => trivial
    | ok step => exact fun _ => trivial

theorem heedlessEnv_sequential (source : String) :
    (heedlessEnv.program source).run.Sequential (fun _ _ => True) none := by
  refine ⟨rfl, fun reply => ?_⟩
  cases reply with
  | error => trivial
  | ok step =>
    refine fun _ => ⟨if_pos rfl, fun reply => ?_⟩
    cases reply with
    | error => trivial
    | ok step => exact fun _ => trivial

/-- The program waits for its first call boundary. -/
def heedlessWaiting : Scene :=
  ((after heedlessEnv 1 { world := (World.perform heedlessEnv (.start "first second") {}).2 }).after heedlessEnv 1).after heedlessEnv 1

/-- Its task has been cancelled while it waited, and it is about to make the second one. -/
def heedlessCancelled : Scene :=
  (after heedlessEnv 1 { world := (heedlessWaiting.world.perform heedlessEnv (.cancelFuture 0)).2 }).after heedlessEnv 1

/-- One step in which no step of the gate is settled. -/
theorem taskSteps_after (s : Scene)
    (hcheck : (s.world.gate.steps.all fun q => s.world.isDone q.future || !(s.after env 1).world.isDone q.future) = true) :
    TaskSteps env s (s.after env 1) := by
  cases hnext : s.next? env with
  | none =>
    have hsame : s.after env 1 = s := by
      simp only [after, hnext, Option.getD_none]
    rw [hsame]
  | some t =>
    have hsame : s.after env 1 = t := by
      simp only [after, hnext, Option.getD_some]
    rw [hsame] at hcheck ⊢
    refine .single ⟨.next hnext, fun i q hq hopen hcancelled => ?_⟩
    obtain ⟨hlt, rfl⟩ := Array.getElem?_eq_some_iff.1 hq
    have hsettled := Array.all_eq_true.1 hcheck i hlt
    rw [hopen, isDone, hcancelled] at hsettled
    cases hsettled

theorem taskSteps_heedlessWaiting : TaskSteps heedlessEnv { world := {} } heedlessWaiting := by
  have hstart : TaskSteps heedlessEnv { world := {} } { world := (World.perform heedlessEnv (.start "first second") {}).2 } :=
    .single ⟨.perform _ trivial, fun i q hq => by cases hq⟩
  exact ((hstart.trans (taskSteps_after _ (by decide +kernel))).trans (taskSteps_after _ (by decide +kernel))).trans
    (taskSteps_after _ (by decide +kernel))

theorem heedlessWaiting_waited : heedlessWaiting.world.WaitedByRuns := by
  have hsize : heedlessWaiting.world.jobs.size = 1 := by decide +kernel
  have hjob : ((heedlessWaiting.world.jobs[0]?).all fun job =>
      job.run.isSome && !heedlessWaiting.world.isDone job.future) = true := by decide +kernel
  intro j job i q hj _ _
  have hlt : j < 1 := hsize ▸ (Array.getElem?_eq_some_iff.1 hj).1
  obtain rfl : j = 0 := Nat.lt_one_iff.1 hlt
  simp only [hj, Option.all_some, Bool.and_eq_true, Bool.not_eq_true'] at hjob
  refine ⟨fun hnone => ?_, hjob.2⟩
  rw [hnone] at hjob
  cases hjob.1

/-- A task that is cancelled while it waits for a step, and goes on regardless, finds the gate free when it performs its
next `hook`. -/
theorem heedlessCancelled_free : heedlessWaiting.world.gate.pending = some 0 ∧
    ∃ (id : JobId) (job : Job) (call : Call) (k : Op.Reply (.hook call) → Routine (Except FaultId Value)),
      heedlessCancelled.activity = .turn ⟨id, job, .op (.hook call) k⟩ ∧ heedlessCancelled.world.gate.pending = none := by
  have hnever := boundaries_never_overlap heedlessEnv_confined heedlessEnv_sequential
  have hidle : heedlessWaiting = { world := heedlessWaiting.world } := rfl
  have hsound : heedlessWaiting.world.Sound :=
    (Reachable.governed Op.guards_quiet heedlessEnv_confined
      ⟨{}, World.fresh_empty, TaskSteps.steps taskSteps_heedlessWaiting⟩).world.toSound
  obtain ⟨job, hjob, hfuture⟩ : ∃ job : Job, heedlessWaiting.world.jobs[0]? = some job ∧ job.future = 0 := ⟨_, rfl, rfl⟩
  have hcancel : TaskSteps heedlessEnv heedlessWaiting
      { world := (heedlessWaiting.world.perform heedlessEnv (.cancelFuture 0)).2 } := by
    rw [hidle, ← hfuture]
    exact .single ⟨.perform _ trivial, hnever.1 _ 0 job hsound heedlessWaiting_waited hjob⟩
  have hsteps : TaskSteps heedlessEnv { world := {} } heedlessCancelled :=
    ((taskSteps_heedlessWaiting.trans hcancel).trans (taskSteps_after _ (by decide +kernel))).trans
      (taskSteps_after _ (by decide +kernel))
  obtain ⟨id, job, call, k, hturn⟩ : ∃ (id : JobId) (job : Job) (call : Call)
      (k : Op.Reply (.hook call) → Routine (Except FaultId Value)),
      heedlessCancelled.activity = .turn ⟨id, job, .op (.hook call) k⟩ := ⟨_, _, _, _, rfl⟩
  exact ⟨by decide +kernel, id, job, call, k, hturn, (hnever.2.2 {} _ World.fresh_empty hsteps id job call k hturn).1⟩

end Scene

end SteppedLogo
