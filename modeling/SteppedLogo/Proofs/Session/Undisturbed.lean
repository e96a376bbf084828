import SteppedLogo.Proofs.Session.Halted
import SteppedLogo.Proofs.Session.History
import SteppedLogo.Proofs.Session.Overlap

namespace SteppedLogo

namespace Words

variable {words : Words}

end Words

namespace World

variable {w v u : World} {reason : Value}

theorem KeepsOver.refl (w : World) : w.KeepsOver w := fun _ _ hrun _ => hrun

theorem KeepsOver.trans (huv : u.KeepsOver v) (hvw : v.KeepsOver w) : u.KeepsOver w :=
  fun r run hrun hover => hvw r run (huv r run hrun hover) hover

theorem Marks.keepsOver (h : w.Marks v) : w.KeepsOver v := by
  intro r run hrun hover
  cases h with
  | stays hruns => rw [hruns, hrun]
  | begins source _ hruns =>
    rw [hruns]
    exact getElem?_push_of_some hrun
  | moves change hnext hruns =>
    rw [hruns, Array.getElem?_modify]
    by_cases hcurrent : w.session.current = r
    · subst hcurrent
      have hactive := hnext.active
      rw [run_of_get hrun, hover] at hactive
      cases hactive
    · rw [if_neg hcurrent, hrun]

theorem AllMarks.keepsOver (h : w.AllMarks v) : w.KeepsOver v := by
  induction h with
  | refl => exact .refl w
  | tail _ hmarks ih => exact ih.trans hmarks.keepsOver

/-- Where no step is outstanding, and none comes up, none is settled any more. -/
theorem Eases.settled_before (h : w.Eases v) (hclear : w.Clear) {i : StepId} {s : PacedStep} (hs : v.gate.steps[i]? = some s)
    {o : Outcome} (ho : v.outcome? s.future = some o) : w.outcome? s.future = some o := by
  obtain ⟨t, ht, hfuture⟩ := h.steps.symm.get hs
  have hdone : w.isDone t.future = true := by
    by_contra hopen
    exact hclear i ⟨t, ht, by simpa using hopen⟩
  obtain ⟨o', ho'⟩ := isDone_iff.1 hdone
  rw [hfuture] at ho'
  rw [h.futures.outcome? ho'] at ho
  rw [ho', ho]

theorem Rejected.stopsFor {i : StepId} (h : w.Rejected i reason) {s : PacedStep} (hs : w.gate.steps[i]? = some s)
    {o : Outcome}
    (ho : w.outcome? s.future = some o) : w.StopsFor reason o := by
  obtain ⟨s', fault, f, hs', hout, hf, hagrees⟩ := h
  rw [hs] at hs'
  cases hs'
  rw [ho] at hout
  cases hout
  exact ⟨fault, f, rfl, hf, hagrees⟩

end World

namespace Scene

open World

variable {env : Env} {s t u : Scene} {r : RunId} {id j : JobId} {job taken : Job} {task : FutureId} {size n : Nat}
variable {reason : Value} {Q : Telling (Routine (Except FaultId Value))} {E : Telling Outcome}

/-- What happens neither meets a request to cancel the job whose future is `task`, nor settles a step otherwise
than its pacing does, unless the run has been asked to stop. -/
structure Unhindered (task : FutureId) (s t : Scene) : Prop where
  task : ∀ (j : JobId) (job : Job), s.world.jobs[j]? = some job → job.future = task → job.cancelRequested = false
  paced : t.world.session.run.status ≠ .canceling → ∀ (i : StepId) (q : PacedStep),
    t.world.gate.steps[i]? = some q → ∀ o, t.world.outcome? q.future = some o →
      s.world.outcome? q.future = some o ∨ ∃ x, o = .value x

/-- A step on the way of the run whose job is told of in the future `task`. -/
structure Strides (env : Env) (task : FutureId) (s t : Scene) : Prop where
  step : Step env Op.Steers s t
  unhindered : s.Unhindered task t

/-- The way of a run that may have been asked to stop. -/
abbrev Way (env : Env) (task : FutureId) : Scene → Scene → Prop := Relation.ReflTransGen (Strides env task)

/-- The way of a run that has not been asked to stop. -/
abbrev FreeWay (env : Env) (task : FutureId) : Scene → Scene → Prop :=
  Relation.ReflTransGen fun s t => Strides env task s t ∧ t.world.session.run.status ≠ .canceling

/-- The program whose job is told of in the future `task` is about to make a call boundary. -/
def AtBoundary (task : FutureId) (s : Scene) : Prop :=
  ∃ (j : JobId) (job : Job) (call : Call) (k : Op.Reply (.hook call) → Routine (Except FaultId Value)),
    s.activity = .turn ⟨j, job, .op (.hook call) k⟩ ∧ job.future = task

theorem Way.steps (h : Way env task s t) : Steps env Op.Steers s t :=
  Relation.ReflTransGen.mono (fun _ _ hstride => hstride.step) _ _ h

theorem FreeWay.steps (h : FreeWay env task s t) : Steps env Op.Steers s t :=
  Relation.ReflTransGen.mono (fun _ _ hstride => hstride.1.step) _ _ h

/-- What is over stays as it is. -/
theorem Step.keepsOver (henv : env.Counted) (hs : Reachable env Op.Steers s) (h : Step env Op.Steers s t) :
    s.world.KeepsOver t.world := by
  obtain ⟨w, hfresh, hsteps⟩ := Reachable.mono (fun _ ho => Op.Steers.leavesCount ho) hs
  have hwithin : ({ world := w } : Scene).Within Op.KeepsCount := fun j job r hj => by
    have hj : w.jobs[j]? = some job := hj
    simp [hfresh.jobs] at hj
  obtain ⟨hgoverned, hinside, -⟩ := Steps.chronicled henv (governed_fresh hfresh) hwithin hsteps
  exact ((h.mono fun _ ho => ho.leavesCount).marks henv hgoverned hinside).keepsOver

/-- Where no call boundary is made no step comes up. -/
theorem Step.eases (henv : env.Confined) (hs : s.Governed Op.Steers) (h : Step env Op.Steers s t)
    (hnot : ∀ (j : JobId) (job : Job) (call : Call) (k : Op.Reply (.hook call) → Routine (Except FaultId Value)),
      s.activity ≠ .turn ⟨j, job, .op (.hook call) k⟩) : s.world.Eases t.world := by
  obtain ⟨w, j, job, o, k, rfl, rfl⟩ | ⟨-, heffect⟩ := h.op_or_effect Op.guards_steers henv hs
  · obtain hquiet | ⟨call, r, rfl, -⟩ := hs.quiet_or_hook Op.guards_steers
    · exact eases_perform env hquiet hs.world.toSound
    · exact absurd rfl (hnot j job call k)
  · obtain ⟨o, hsteers, hworld⟩ | hcalm := heffect.world
    · rw [hworld]
      exact eases_perform env hsteers.quiet hs.world.toSound
    · exact hcalm.subsides.eases

/-- While no later run has begun the call boundaries are those of the current one. -/
theorem Tells.atBoundary (h : s.Tells Q E r id task) (hs : s.Governed Op.Steers) (hsize : s.world.session.runs.size = r + 1)
    {call : Call} {k : Op.Reply (.hook call) → Routine (Except FaultId Value)}
    (hturn : s.activity = .turn ⟨j, taken, .op (.hook call) k⟩) : j = id ∧ s.AtBoundary task := by
  obtain ⟨job, hjob, hfuture, hrun, -⟩ := h.kept hsize
  obtain ⟨w, activity⟩ := s
  obtain rfl : activity = _ := hturn
  have hself : j = id := by
    by_contra hne
    exact (hs.others hjob hrun hsize hne).2
  obtain ⟨now, hnow, hnowFuture, -⟩ := (hs.turn _ rfl).get
  obtain rfl := hself
  have hnow : w.jobs[j]? = some now := hnow
  have hjob : w.jobs[j]? = some job := hjob
  rw [hjob] at hnow
  cases hnow
  exact ⟨rfl, j, taken, call, k, rfl, hnowFuture.symm.trans hfuture⟩

/-- Where none of its steps is outstanding and no call boundary is made, none is settled. -/
theorem Step.settles_nothing (henv : env.Confined) (hs : s.Governed Op.Steers) (h : Step env Op.Steers s t)
    (htells : s.Tells Q E r id task) (hsize : s.world.session.runs.size = r + 1) (hclear : s.world.Clear)
    (hnot : ¬ s.AtBoundary task) : Paces False s.world t.world := by
  have heases := h.eases henv hs fun j job call k hturn => hnot (htells.atBoundary hs hsize hturn).2
  intro i q hq o ho
  exact .inr (.inl (heases.settled_before hclear hq ho))

/-- In a run that is stopped each step is settled for that, unless it was before. -/
theorem Step.stops (hs : s.Intact) (h : Step env Op.Steers s t) (hfollows : s.world.Follows t.world)
    (hbarred : t.world.Barred size n reason) (hn : n ≤ s.world.gate.steps.size) (hsize : t.world.session.runs.size = size)
    (hrejected : ∀ i, s.world.Outstanding i → t.world.Rejected i reason) : Stops reason s.world t.world := by
  intro i q hq o ho
  by_cases hnew : s.world.gate.steps.size ≤ i
  · have hlt : i < t.world.gate.steps.size := (Array.getElem?_eq_some_iff.1 hq).1
    exact .inr ((hbarred.rejected hsize i (Nat.le_trans hn hnew) hlt).stopsFor hq ho)
  · obtain ⟨p, hp⟩ : ∃ p : PacedStep, s.world.gate.steps[i]? = some p :=
      ⟨_, Array.getElem?_eq_getElem (Nat.lt_of_not_le hnew)⟩
    obtain ⟨timer, hsame⟩ := (h.parts hs).2.step hp
    rw [hq] at hsame
    cases hsame
    cases hdone : s.world.isDone p.future with
    | false => exact .inr ((hrejected i ⟨p, hp, hdone⟩).stopsFor hq ho)
    | true =>
      obtain ⟨o', ho'⟩ := isDone_iff.1 hdone
      have hkept := hfollows.futures.outcome? ho'
      have ho : t.world.outcome? p.future = some o := ho
      rw [hkept] at ho
      cases ho
      exact .inl ho'

end Scene

end SteppedLogo
