import SteppedLogo.Proofs.Session.Overlap
import SteppedLogo.Proofs.Session.Vacant

namespace SteppedLogo

open World

namespace World

variable {env : Env} {v w : World}

/-- A step that is settled while it is at the gate is waited for by the job of a run that is under way. -/
def Attended (w : World) : Prop :=
  ∀ (p : StepId) (q : PacedStep), w.gate.pending = some p → w.gate.steps[p]? = some q → w.isDone q.future = true →
    ∃ (j : JobId) (job : Job), w.jobs[j]? = some job ∧ job.run ≠ none ∧ w.isDone job.future = false ∧
      job.waiting = some q.future

/-- No step is at the gate while no run is active. -/
theorem Attended.free (hattended : w.Attended) (hw : w.Governed) (hinactive : w.session.isActive = false) :
    w.gate.pending = none := by
  cases hpending : w.gate.pending with
  | none => rfl
  | some p =>
    have hclear : w.Clear := by
      refine hw.barred fun hrunning => ?_
      rw [Session.isActive, hrunning] at hinactive
      cases hinactive
    obtain ⟨q, hq⟩ := hw.pending_step p hpending
    have hdone : w.isDone q.future = true := by
      by_contra hopen
      exact hclear p ⟨q, hq, by simpa using hopen⟩
    obtain ⟨j, job, hj, hrun, hopen, -⟩ := hattended p q hpending hq hdone
    obtain ⟨r, hr⟩ := Option.ne_none_iff_exists'.1 hrun
    have hactive := (hw.toSound.active_of_open hj hr (.inl hopen)).2.2
    rw [hinactive] at hactive
    cases hactive

/-- No operation brings a run to its end. -/
theorem Extends.stays_active (h : w.Extends v) {r : RunId} {run now : Run} (hrun : w.session.runs[r]? = some run)
    (hactive : run.status.isActive = true) (hnow : v.session.runs[r]? = some now) : now.status.isActive = true := by
  obtain ⟨run', hrun', -, hsame | ⟨-, hcanceling⟩⟩ := h.run r run hrun
  · rw [hnow] at hrun'
    cases hrun'
    rw [hsame.1]
    exact hactive
  · rw [hnow] at hrun'
    cases hrun'
    rw [hcanceling]
    rfl

end World

namespace Scene

variable {env : Env} {P : Op → Prop} {s t : Scene} {w : World} {j : JobId} {job : Job} {p : StepId} {q : PacedStep}

/-- A step is at the gate that was there before, or it waits. -/
theorem Step.pending_or_open (henv : env.Confined) (hs : s.Governed Op.IsQuiet) (h : Step env Op.IsQuiet s t)
    (hpending : t.world.gate.pending = some p) (hq : t.world.gate.steps[p]? = some q) :
    s.world.gate.pending = some p ∨ t.world.isDone q.future = false := by
  obtain ⟨w, id, job, call, k, r, rfl, rfl, -, hactive⟩ | hquietly := h.hook_or_quietly henv hs
  · obtain ⟨u, htouches, -, -, ⟨fault, heq⟩ | ⟨-, -, heq⟩⟩ :=
      perform_hook_cases henv hs.world.toSound hs.world.tidy hactive call
    · simp only [heq] at hpending
      exact .inl (htouches.pending hs.world.toSound hpending)
    · have hu : u.Sound := (Changes.grows (Touches.changes htouches) hs.world.toSound).1
      simp only [heq] at hpending hq ⊢
      obtain ⟨q', hq', -, hopen⟩ := pending_installFor hu hpending
      rw [hq] at hq'
      cases hq'
      exact .inr hopen
  · exact .inl (hquietly.pending p hpending)

/-- A job that goes on waiting has not ended. -/
theorem Step.waiting_open (henv : env.Confined) (hs : s.Governed Op.IsQuiet) (h : Step env Op.IsQuiet s t)
    (hbegun : s.world.BegunFirst) (hj : s.world.jobs[j]? = some job) (hwaiting : job.waiting ≠ none)
    (hopen : s.world.isDone job.future = false) : t.world.isDone job.future = false := by
  obtain ⟨w, id, turn, call, k, r, rfl, rfl, -, hactive⟩ | hquietly := h.hook_or_quietly henv hs
  · rw [isDone, (grows_perform env (.hook call) w hs.world.toSound).2.owned j job hj]
    exact hopen
  · obtain hsame | ⟨taken, result, hturn, -⟩ := hquietly.ended j job hj (hbegun j job hj hwaiting)
    · rw [isDone, hsame]
      exact hopen
    · have hidle : s.world.waits j = none := waits_of_up (hs.turn _ hturn)
      rw [waits_of_get hj] at hidle
      exact absurd hidle hwaiting

/-- A step that is settled while it stays at the gate has been cancelled, through the task that waits for it. -/
theorem Step.attended (henv : env.Confined) (hs : s.Governed Op.IsQuiet) (h : Step env Op.IsQuiet s t)
    (hcancels : s.CancelsThroughRuns t) (hwoken : s.world.Woken s.world.waits) (hbegun : s.world.BegunFirst)
    (hstaged : s.world.Staged) (hattended : s.world.Attended) : t.world.Attended := by
  have hparts := (h.parts ⟨hs.world.toSound, hs.turn⟩).2
  have hstagedAfter : t.world.Staged := hparts.staged hstaged
  intro p q' hpending' hq' hdone'
  obtain hpending | hopen := h.pending_or_open henv hs hpending' hq'
  · obtain ⟨q, hq⟩ := hs.world.pending_step p hpending
    obtain ⟨timer, hsame⟩ := hparts.step hq
    rw [hq'] at hsame
    cases hsame
    cases hdone : s.world.isDone q.future with
    | true =>
      -- it was settled before: the job that waits for it has not been woken yet
      obtain ⟨j, job, hj, hrun, hopen, hwaiting⟩ := hattended p q hpending hq hdone
      have hwaits : s.world.waits j = some q.future := (waits_of_get hj).trans hwaiting
      have hkeeps := h.keeps_waiting Op.guards_quiet henv hs hwoken hstaged hpending hq hwaits
      obtain ⟨now, hnow, hfuture, hsameRun, -⟩ := (h.follows Op.guards_quiet henv hs).job j job hj
      rw [waits_of_get hnow] at hkeeps
      refine ⟨j, now, hnow, by rwa [hsameRun], ?_, hkeeps⟩
      rw [hfuture]
      exact h.waiting_open henv hs hbegun hj (by rw [hwaiting]; nofun) hopen
    | false =>
      have hcancelled : t.world.outcome? q.future = some .cancelled := by
        cases hstagedAfter.stage p _ hq' with
        | waiting hf hopen =>
          rw [isDone, outcome?_of_get hf, hopen] at hdone'
          cases hdone'
        | leaving hout => exact hout
        | retracted _ _ hoff => exact absurd hpending' hoff
      exact hcancels p q hq hdone hcancelled
  · rw [hdone'] at hopen
    cases hopen

theorem attended_fresh (hw : w.Fresh) : w.Attended := by
  intro p q hpending
  rw [hw.pending] at hpending
  cases hpending

theorem TaskSteps.attended (henv : env.Confined) (hw : w.Fresh) (h : TaskSteps env { world := w } s) :
    s.world.Attended := by
  induction h with
  | refl => exact attended_fresh hw
  | @tail t u hbefore hstep ih =>
    have hreach : Reachable env Op.IsQuiet t := ⟨w, hw, TaskSteps.steps hbefore⟩
    obtain ⟨-, v, hfresh, hparts⟩ := hreach.parts
    exact hstep.1.attended henv (hreach.governed Op.guards_quiet henv) hstep.2 (hreach.woken Op.guards_quiet henv)
      (hreach.begunFirst Op.guards_quiet henv) (hparts.staged hfresh.staged) ih

/-- In a step in which a run comes to its end, what was shown is given up, and the view is left alone. -/
theorem Step.trace_of_ended (hs : s.Intact) (h : Step env P s t) {r : RunId} {run now : Run}
    (hrun : s.world.session.runs[r]? = some run) (hactive : run.status.isActive = true)
    (hnow : t.world.session.runs[r]? = some now) (hover : now.status.isActive = false) :
    t.world.trace = s.world.trace.release := by
  cases h.sequel with
  | @performs o _ hworld =>
    rw [hworld] at hnow
    rw [(grows_perform env o s.world hs.sound).2.stays_active hrun hactive hnow] at hover
    cases hover
  | ends hturn hjob hworld =>
    rw [hworld] at hnow ⊢
    obtain hreleased | ⟨-, hsession⟩ := trace_finished s.world _ hjob _
    · exact hreleased
    · rw [hsession, hrun] at hnow
      cases hnow
      rw [hactive] at hover
      cases hover
  | aside haside =>
    rw [haside.session, hrun] at hnow
    cases hnow
    rw [hactive] at hover
    cases hover

/-- Let listeners be `Confined`, and the steps of a fresh session cancelled through the tasks of runs alone. While no run
is active nothing is pending, and the renderer has no body, marker, cache entry or node to look up. The step of the system
by which a run comes to its end leaves root, version and text of the view. -/
theorem inactive_holds_nothing (henv : env.Confined) (hfresh : w.Fresh) (hblank : w.trace.renderer = {})
    (hsteps : TaskSteps env { world := w } s) :
    (s.world.session.isActive = false →
      s.world.gate.pending = none ∧ s.world.trace.renderer.body = .none ∧ s.world.trace.renderer.active = none ∧
        s.world.trace.renderer.cache = [] ∧ ∀ v, s.world.trace.renderer.lookup? v = none) ∧
    ∀ t, Step env Op.IsQuiet s t → ∀ (r : RunId) (run now : Run), s.world.session.runs[r]? = some run →
      run.status.isActive = true → t.world.session.runs[r]? = some now → now.status = .completed ∨ now.status = .failed →
        t.world.trace.view.root = s.world.trace.view.root ∧ t.world.trace.view.version = s.world.trace.view.version ∧
          t.world.trace.view.toText true = s.world.trace.view.toText true := by
  have hreach : Reachable env Op.IsQuiet s := ⟨w, hfresh, TaskSteps.steps hsteps⟩
  have hgoverned := hreach.governed Op.guards_quiet henv
  refine ⟨fun hinactive => ?_, fun t hstep r run now hrun hactive hnow hstatus => ?_⟩
  · have hdark : s.world.Dark :=
      (Steps.dark Op.guards_quiet henv (governed_fresh hfresh) (TaskSteps.steps hsteps) fun _ => hblank).2
    have hfree := (TaskSteps.attended henv hfresh hsteps).free hgoverned.world hinactive
    rw [hdark hinactive]
    refine ⟨hfree, rfl, rfl, rfl, fun v => ?_⟩
    unfold Renderer.lookup?
    split <;> rfl
  · have hover : now.status.isActive = false := by
      obtain h | h := hstatus <;> rw [h] <;> rfl
    have htrace := hstep.trace_of_ended hreach.parts.1 hrun hactive hnow hover
    rw [htrace]
    exact ⟨rfl, rfl, rfl⟩

/-- Programs that make a call boundary in a body of one word, and return while the step is at the gate. -/
def hastyEnv : Env where
  program _ := do
    let body ← Work.perform (.newBody ["forward"])
    let _ ← Work.attempt (Routine.perform (.hook { func := .text "forward", body := .list body, cell := .list body }))
    return .none
  react _ _ := pure ()

theorem hastyEnv_confined : hastyEnv.Confined := by
  refine ⟨fun _ _ => trivial, fun _ => ⟨trivial, fun body => ⟨trivial, fun reply => ?_⟩⟩⟩
  cases reply with
  | error => trivial
  | ok => trivial

/-- The program has made its call boundary, and is about to return. -/
def hastyReturning : Scene := after hastyEnv 3 { world := (World.perform hastyEnv (.start "forward") {}).2 }

def hastyEnded : Scene := hastyReturning.after hastyEnv 1

theorem taskSteps_hastyReturning : TaskSteps hastyEnv { world := {} } hastyReturning := by
  have hstart : TaskSteps hastyEnv { world := {} } { world := (World.perform hastyEnv (.start "forward") {}).2 } :=
    .single ⟨.perform _ trivial, fun i q hq => by cases hq⟩
  exact ((hstart.trans (taskSteps_after _ (by decide +kernel))).trans (taskSteps_after _ (by decide +kernel))).trans
    (taskSteps_after _ (by decide +kernel))

/-- The step at the gate is rejected. -/
theorem taskSteps_hastyEnded : TaskSteps hastyEnv hastyReturning hastyEnded := by
  refine .single ⟨.next rfl, fun i q hq _ hcancelled => ?_⟩
  have hsize : hastyReturning.world.gate.steps.size = 1 := by decide +kernel
  obtain ⟨hlt, hget⟩ := Array.getElem?_eq_some_iff.1 hq
  obtain rfl : i = 0 := Nat.lt_one_iff.1 (hsize ▸ hlt)
  obtain ⟨fault, hrejected⟩ : ∃ fault, hastyEnded.world.outcome? q.future = some (.fault fault) := by
    rw [← hget]
    exact ⟨_, rfl⟩
  have hcancelled : hastyEnded.world.outcome? q.future = some .cancelled := hcancelled
  rw [hrejected] at hcancelled
  cases hcancelled

/-- After a run that has ended, gate and renderer are empty: it has left nothing behind but what the view shows. -/
theorem hastyEnded_empty :
    (hastyReturning.world.gate.pending = some 0 ∧ hastyReturning.world.trace.renderer.active ≠ none ∧
      hastyReturning.world.session.run.status = .running) ∧
    (hastyEnded.world.gate.pending = none ∧ hastyEnded.world.trace.renderer.active = none ∧
      hastyEnded.world.session.run.status = .completed) ∧
    hastyEnded.world.trace.view.toText true = "[>>forward<<]" := by
  have hempty := (inactive_holds_nothing hastyEnv_confined World.fresh_empty rfl
    (taskSteps_hastyReturning.trans taskSteps_hastyEnded)).1 (by decide +kernel)
  have hview := (inactive_holds_nothing hastyEnv_confined World.fresh_empty rfl taskSteps_hastyReturning).2 hastyEnded (.next rfl) 1
    hastyReturning.world.session.run hastyEnded.world.session.run rfl (by decide +kernel) rfl (.inl (by decide +kernel))
  refine ⟨⟨by decide +kernel, by decide +kernel, by decide +kernel⟩, ⟨hempty.1, hempty.2.2.1, by decide +kernel⟩, ?_⟩
  rw [hview.2.2]
  decide +kernel

end Scene

end SteppedLogo
