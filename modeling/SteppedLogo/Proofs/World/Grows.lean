import SteppedLogo.Proofs.World.Sound

namespace SteppedLogo.World

variable {env : Env} {u v w : World}

/-- What happens aside neither wires anything nor queues turns. -/
theorem Aside.light (h : w.Aside v) : w.Light v := by
  obtain ⟨hloop, hfutures, hjobs, hpending, hsteps, hruns, -, -, hfaults⟩ := h
  exact {
    jobs := hjobs
    runs := hruns
    futures := fun id f hf => ⟨f, hfutures ▸ hf, rfl, fun _ h => h⟩
    value := fun id x hx => by rwa [outcome?, hfutures] at hx
    owned := fun id f _ _ => by rw [outcome?, outcome?, hfutures]
    step := fun i s hs => ⟨s.timer, hsteps ▸ hs⟩
    steps := .of_eq hsteps
    pending := fun i hi => hpending ▸ hi
    queued := fun c hc => .inl (hloop ▸ hc)
    attached := fun id f c hf hc => .inl ⟨f, hfutures ▸ hf, hc⟩
    timers := fun t ht => .inl (hloop ▸ ht)
    turns := by rw [hloop]
    faults := hfaults }

/-- Another loop, with nothing in it but what was queued or may be. -/
theorem light_loop {l : Loop Callback} (hqueued : ∀ c, l.Queued c → w.loop.Queued c ∨ w.Queueable c)
    (htimers : ∀ t ∈ l.timers, t ∈ w.loop.timers ∨ t.callback.turn? = none)
    (hturns : l.turns.Sublist w.loop.turns) : w.Light { w with loop := l } where
  jobs := rfl
  runs := rfl
  futures := .refl w
  value _ _ hx := hx
  owned _ _ _ _ := rfl
  step _ s hs := ⟨s.timer, hs⟩
  steps := .of_eq rfl
  pending _ hi := hi
  queued c hc := (hqueued c hc).imp_right (Queueable.mono (.refl w) (.of_eq rfl))
  attached _ f _ hf hc := .inl ⟨f, hf, hc⟩
  timers := htimers
  turns := hturns
  faults := .refl _

theorem light_soon (w : World) (d : Deed) : w.Light (w.soon (.deed d)) := by
  refine light_loop (fun c hc => ?_) (fun t ht => .inl ht) ?_
  · obtain hc | rfl := Loop.queued_soon.1 hc
    · exact .inl hc
    · exact .inr trivial
  · rw [Loop.turns_soon_of_none rfl]

/-- A timer may be set for what may be queued, as long as it gives no job a turn. -/
theorem light_later (w : World) (delay : Float) {c : Callback} (hc : w.Queueable c)
    (hturn : c.turn? = none) : w.Light (w.later delay c).2 := by
  refine light_loop (fun d hd => ?_) (fun t ht => ?_) (List.Sublist.refl _)
  · obtain hd | rfl := Loop.queued_later.1 hd
    · exact .inl hd
    · exact .inr hc
  · obtain rfl | ht := Loop.mem_insertByDue.1 ht
    · exact .inr hturn
    · exact .inl ht

theorem light_cancelTimer (w : World) (id : TimerId) : w.Light (w.cancelTimer id) :=
  light_loop (fun _ hc => .inl hc.of_cancel) (fun _ ht => .inl (List.mem_filter.1 ht).1)
    (Loop.turns_cancel w.loop id)

/-- Of a new future there is no callback. -/
theorem light_addFuture (w : World) : w.Light (w.addFuture {}).2 where
  jobs := rfl
  runs := rfl
  futures := .of_push rfl
  value id _ hx := (outcome?_of_push rfl rfl id).symm.trans hx
  owned id _ _ _ := outcome?_of_push rfl rfl id
  step _ s hs := ⟨s.timer, hs⟩
  steps := .of_eq rfl
  pending _ hi := hi
  queued _ hc := .inl hc
  attached id f c hf hc := by
    obtain hf | ⟨-, rfl⟩ := getElem?_push_eq_some.1 hf
    · exact .inl ⟨f, hf, hc⟩
    · cases hc
  timers _ ht := .inl ht
  turns := List.Sublist.refl _
  faults := .refl _

theorem light_clearTimer (w : World) (id : StepId) : w.Light (w.clearTimer id) where
  jobs := rfl
  runs := rfl
  futures := .refl w
  value _ _ hx := hx
  owned _ _ _ _ := rfl
  step i s hs := ⟨if id = i then none else s.timer, by
    by_cases h : id = i <;> simp [clearTimer, modifyGate, Array.getElem?_modify, h, hs]⟩
  steps i := by
    by_cases h : id = i <;> simp [clearTimer, modifyGate, Array.getElem?_modify, h, Function.comp_def]
  pending _ hi := hi
  queued _ hc := .inl hc
  attached _ f _ hf hc := .inl ⟨f, hf, hc⟩
  timers _ ht := .inl ht
  turns := List.Sublist.refl _
  faults := .refl _

theorem light_takeOff (w : World) : w.Light (w.modifyGate ({ · with pending := none })) where
  jobs := rfl
  runs := rfl
  futures := .refl w
  value _ _ hx := hx
  owned _ _ _ _ := rfl
  step _ s hs := ⟨s.timer, hs⟩
  steps := .of_eq rfl
  pending _ hi := by cases hi
  queued _ hc := .inl hc
  attached _ f _ hf hc := .inl ⟨f, hf, hc⟩
  timers _ ht := .inl ht
  turns := List.Sublist.refl _
  faults := .refl _

/-- Settling a future of no job, without a value. -/
theorem Wired.light_settle (hw : w.Wired) {id : FutureId} {o : Outcome}
    (hplain : ∀ f : Future, w.futures[id]? = some f → f.job = none) (ho : ∀ x, o ≠ .value x) :
    w.Light (w.settle id o) where
  jobs := settle_jobs
  runs := by rw [settle_session]
  futures := keepsFutures_settle w id o
  value other x hx := by
    obtain hx | ⟨-, rfl⟩ := outcome?_of_settle hx
    · exact hx
    · exact absurd rfl (ho x)
  owned other f hf hjob := by
    refine outcome?_settle_of_ne (fun h => ?_) o
    subst h
    exact hjob (hplain f hf)
  step i s hs := ⟨s.timer, by rw [settle_gate]; exact hs⟩
  steps := .of_eq (by rw [settle_gate])
  pending i hi := by rwa [settle_gate] at hi
  queued c hc := hw.queued_settle hc
  attached := attached_settle w id o
  timers t ht := .inl (by rwa [settle_timers] at ht)
  turns := by rw [hw.turns_settle]
  faults := by rw [settle_faults]; exact .refl _

/-- What is kept where the timer of a step is stopped, and where no step is pending any more, is kept when the
step is taken off the gate. -/
theorem retract_keeps {K : World → Prop} {id : StepId} (hw : K w)
    (hstop : ∀ timer, K ((w.cancelTimer timer).clearTimer id))
    (hoff : ∀ u, K u → K (u.modifyGate ({ · with pending := none }))) : K (w.retract id) := by
  have htaken (u : World) (hu : K u) :
      K (if u.gate.pending = some id then u.modifyGate ({ · with pending := none }) else u) := by
    split
    · exact hoff u hu
    · exact hu
  unfold retract
  cases (w.pacedStep? id).bind PacedStep.timer with
  | none => exact htaken w hw
  | some timer => exact htaken _ (hstop timer)

/-- A step may be taken off the gate. -/
theorem light_retract (w : World) (id : StepId) : w.Light (w.retract id) :=
  retract_keeps (K := w.Light) (Aside.refl w).light
    (fun timer => (light_cancelTimer w timer).trans (light_clearTimer _ id)) fun u hu => hu.trans (light_takeOff u)

/-- Taking a step off the gate settles nothing. -/
theorem futures_retract (w : World) (id : StepId) : (w.retract id).futures = w.futures :=
  retract_keeps (K := fun u => u.futures = w.futures) rfl (fun _ => rfl) fun _ hu => hu

theorem grows_retract (w : World) (id : StepId) : w.Grows (w.retract id) := (light_retract w id).grows

/-- A step that still waits is rejected: it is taken off the gate, and settled with the reason. -/
theorem cancelStep_cases (w : World) (id : StepId) (reason : Value) :
    (w.cancelStep id reason = (false, w) ∧
      ∀ s : PacedStep, w.gate.steps[id]? = some s → w.isDone s.future = true) ∨
    ∃ s : PacedStep, w.gate.steps[id]? = some s ∧ w.isDone s.future = false ∧
      w.cancelStep id reason =
        (true, ((((w.retract id).raise (.cancellation reason)).2.settle s.future
          (.fault ((w.retract id).raise (.cancellation reason)).1)).addLog .debug gateLogger
            ("step " ++ toString s.seq ++ " canceled: " ++ reason.display))) := by
  unfold cancelStep pacedStep?
  cases hs : w.gate.steps[id]? with
  | none => exact .inl ⟨rfl, fun s h => by cases h⟩
  | some s =>
    cases hdone : w.isDone s.future with
    | true => exact .inl ⟨by simp [hdone], fun t ht => by cases ht; exact hdone⟩
    | false => exact .inr ⟨s, rfl, hdone, by simp only [hdone, Bool.false_eq_true, if_false]⟩

/-- Cancelling a step leaves a sound state sound. -/
theorem grows_cancelStep (w : World) (id : StepId) (reason : Value) :
    w.Grows (w.cancelStep id reason).2 := by
  obtain ⟨heq, -⟩ | ⟨s, hs, -, heq⟩ := cancelStep_cases w id reason
  · rw [heq]
    exact .refl w
  · rw [heq]
    have hraise : w.Grows ((w.retract id).raise (.cancellation reason)).2 :=
      (grows_retract w id).trans (aside_raise _ _).light.grows
    intro hw
    obtain ⟨hraised, hextends⟩ := hraise hw
    obtain ⟨timer, ht⟩ := hextends.step id s hs
    have hplain (f : Future) (hf : ((w.retract id).raise (.cancellation reason)).2.futures[s.future]? = some f) :
        f.job = none := by
      obtain ⟨g, hg, hplain⟩ := hraised.step_future id _ ht
      rw [hf] at hg
      cases hg
      exact hplain
    have hsettle := hraised.toWired.light_settle (o := .fault ((w.retract id).raise (.cancellation reason)).1)
      hplain fun _ => nofun
    exact hraise.trans (hsettle.grows.trans (aside_addLog ..).light.grows) hw

theorem grows_cancelGate (w : World) (reason : Value) : w.Grows (w.cancelGate reason).2 :=
  cancelGate_keeps (K := w.Grows) (.refl w) fun id => grows_cancelStep w id reason

/-- A nap has a future and a timer of its own. -/
theorem grows_nap (w : World) (delay : Float) : w.Grows (w.nap delay).2 := by
  intro hw
  have hadd := (light_addFuture w).grows hw
  have hqueueable : (w.addFuture {}).2.Queueable (.rouse w.futures.size) := by
    refine ⟨{}, by simp [addFuture], rfl, fun i s hs hsize => ?_⟩
    obtain ⟨f, hf, -⟩ := hw.step_future i s hs
    rw [hsize, Array.getElem?_size] at hf
    cases hf
  obtain ⟨hsound, hextends⟩ := (light_later _ delay hqueueable rfl).grows hadd.1
  exact ⟨hsound, hadd.2.trans hextends⟩

/-- The jobs after `modifyJob`. -/
theorem modifyJob_get (w : World) (id : JobId) (change : Job → Job) (j : JobId) :
    (w.modifyJob id change).jobs[j]? = if id = j then (w.jobs[j]?).map change else w.jobs[j]? :=
  Array.getElem?_modify

/-- A job may change as long as it keeps its future and its run, waits for nothing where its turn is
queued, and begins before it ends. -/
theorem Sound.modifyJob (hw : w.Sound) (id : JobId) (change : Job → Job)
    (hfuture : ∀ job : Job, (change job).future = job.future)
    (hrun : ∀ job : Job, (change job).run = job.run)
    (hwaiting : ∀ job : Job, id ∈ w.loop.turns → job.waiting = none → (change job).waiting = none)
    (hbegun : ∀ job : Job, w.jobs[id]? = some job → w.isDone job.future = true →
      (change job).begun = job.begun) : (w.modifyJob id change).Sound := by
  have hback (j : JobId) (job : Job) (hj : (w.modifyJob id change).jobs[j]? = some job) :
      ∃ old : Job, w.jobs[j]? = some old ∧ job.future = old.future ∧ job.run = old.run ∧
        (w.isDone old.future = true → job.begun = old.begun) := by
    rw [modifyJob_get] at hj
    split at hj
    · next h =>
      subst h
      obtain ⟨old, hold, rfl⟩ := Option.map_eq_some_iff.1 hj
      exact ⟨old, hold, hfuture old, hrun old, hbegun old hold⟩
    · exact ⟨job, hj, rfl, rfl, fun _ => rfl⟩
  refine ⟨?_, ⟨hw.timers, hw.nodup, fun j hj => ?_⟩, ?_⟩
  · refine hw.toWired.mono (.refl w) (.of_eq rfl) (fun j job hj => ?_) (fun _ h => h) (fun _ h => .inl h)
      fun _ f _ hf hc => .inl ⟨f, hf, hc⟩
    obtain ⟨old, hold, hfuture, -⟩ := hback j job hj
    exact .inl ⟨old, hold, hfuture.symm⟩
  · obtain ⟨job, hjob, hidle⟩ := hw.idle j hj
    rw [modifyJob_get, hjob]
    by_cases h : id = j
    · subst h
      exact ⟨change job, by rw [if_pos rfl]; rfl, hwaiting job hj hidle⟩
    · exact ⟨job, by rw [if_neg h], hidle⟩
  · refine hw.toAccounted.mono rfl (.refl _) fun j job hj => ?_
    obtain ⟨old, hold, hfuture, hrun, hbegun⟩ := hback j job hj
    exact ⟨old, hold, hfuture, hrun, rfl, hbegun⟩

/-- To ask a job to be cancelled changes nothing else. -/
theorem grows_request (w : World) (id : JobId) :
    w.Grows (w.modifyJob id ({ · with cancelRequested := true })) := by
  intro hw
  refine ⟨hw.modifyJob id _ (fun _ => rfl) (fun _ => rfl) (fun _ _ h => h) fun _ _ _ => rfl, ?_⟩
  exact { Extends.refl w with
    job := fun j job hjob => by
      rw [modifyJob_get, hjob]
      by_cases h : id = j
      · exact ⟨true, by rw [if_pos h]; rfl⟩
      · exact ⟨job.cancelRequested, by rw [if_neg h]⟩ }

/-- An active run that has no job yet. -/
structure Unmanned (w : World) (r : RunId) : Prop where
  active : ∃ current : Run, w.session.runs[r]? = some current ∧ current.status.isActive = true
  free : ∀ (j : JobId) (job : Job), w.jobs[j]? = some job → job.run ≠ some r

/-- A new job has one turn queued, behind all others. -/
theorem turns_addJob (w : World) (code : Work Value) (run : Option RunId) :
    (w.addJob code run).2.loop.turns = w.loop.turns ++ [w.jobs.size] := Loop.turns_soon _ _

/-- A new job has a future of its own. -/
theorem Wired.addJob (hw : w.Wired) (code : Work Value) (run : Option RunId) : (w.addJob code run).2.Wired := by
  refine hw.mono (.of_push rfl) (.of_eq rfl) (fun j job hj => ?_) (fun _ h => h) (fun c hc => ?_) fun id f c hf hc => ?_
  · obtain hj | ⟨rfl, rfl⟩ := getElem?_push_eq_some.1 hj
    · exact .inl ⟨job, hj, rfl⟩
    · exact .inr ⟨{ job := some w.jobs.size }, by simp [World.addJob, addFuture, soon], rfl⟩
  · obtain hc | rfl := Loop.queued_soon.1 hc
    · exact .inl hc
    · exact .inr trivial
  · obtain hf | ⟨-, rfl⟩ := getElem?_push_eq_some.1 hf
    · exact .inl ⟨f, hf, hc⟩
    · cases hc

/-- A new job has one turn queued, and waits for nothing. -/
theorem Scheduled.addJob (hw : w.Scheduled) (code : Work Value) (run : Option RunId) : (w.addJob code run).2.Scheduled := by
  refine ⟨hw.timers, ?_, fun j hj => ?_⟩
  · rw [turns_addJob, List.nodup_append]
    refine ⟨hw.nodup, by simp, fun j hj k hk => ?_⟩
    obtain ⟨job, hjob, -⟩ := hw.idle j hj
    rw [List.mem_singleton.1 hk]
    exact Nat.ne_of_lt (Array.getElem?_eq_some_iff.1 hjob).1
  · rw [turns_addJob] at hj
    obtain hj | hj := List.mem_append.1 hj
    · obtain ⟨job, hjob, hwaiting⟩ := hw.idle j hj
      exact ⟨job, getElem?_push_of_some hjob, hwaiting⟩
    · rw [List.mem_singleton.1 hj]
      exact ⟨_, Array.getElem?_push_size, rfl⟩

/-- A new job may be the job of an active run that has none. -/
theorem Accounted.addJob (hw : w.Accounted) (code : Work Value) {run : Option RunId}
    (hrun : ∀ r, run = some r → w.Unmanned r) : (w.addJob code run).2.Accounted := by
  refine ⟨hw.nonempty, hw.active_current, fun i k job job' r hi hk hr hr' => ?_, fun j job r hj hr => ?_⟩
  · obtain hi | ⟨rfl, rfl⟩ := getElem?_push_eq_some.1 hi <;>
      obtain hk | ⟨rfl, rfl⟩ := getElem?_push_eq_some.1 hk
    · exact hw.job_unique i k job job' r hi hk hr hr'
    · exact absurd hr ((hrun r hr').free i job hi)
    · exact absurd hr' ((hrun r hr).free k job' hk)
    · rfl
  · obtain hj | ⟨rfl, rfl⟩ := getElem?_push_eq_some.1 hj
    · have hsame := outcome?_of_push (w := w) (v := (w.addJob code run).2)
        (g := { job := some w.jobs.size }) rfl rfl job.future
      obtain ⟨current, hcurrent, hover, hactive⟩ := hw.job_run j job r hj hr
      rw [isDone, hsame, ← isDone]
      exact ⟨current, hcurrent, fun hd hb => (hover hd hb).imp
        (And.imp_right fun h => h.mono hsame (.refl _)) (And.imp_right fun h => h.mono hsame (.refl _)), hactive⟩
    · obtain ⟨current, hcurrent, hactive⟩ := (hrun r hr).active
      exact ⟨current, hcurrent, fun _ hbegun => (by cases hbegun), fun _ => hactive⟩

/-- Adding a job leaves the other ones. -/
theorem extends_addJob (w : World) (code : Work Value) (run : Option RunId) : w.Extends (w.addJob code run).2 where
  futures := .of_push rfl
  value id _ hx := (outcome?_of_push rfl rfl id).symm.trans hx
  job _ job hj := ⟨job.cancelRequested, getElem?_push_of_some hj⟩
  owned _ job _ := outcome?_of_push rfl rfl job.future
  step _ s hs := ⟨s.timer, hs⟩
  turn j hj := by
    rw [turns_addJob] at hj
    obtain hj | hj := List.mem_append.1 hj
    · exact .inl hj
    · exact .inr (Nat.le_of_eq (List.mem_singleton.1 hj).symm)
  run _ run hrun := ⟨run, hrun, rfl, .inl ⟨rfl, rfl⟩⟩
  current _ := rfl
  faults := .refl _

/-- A new job may be that of an active run that has none. -/
theorem grows_addJob (w : World) (code : Work Value) {run : Option RunId} (hrun : ∀ r, run = some r → w.Unmanned r) :
    w.Grows (w.addJob code run).2 := fun hw =>
  ⟨⟨hw.toWired.addJob code run, hw.toScheduled.addJob code run, hw.toAccounted.addJob code hrun⟩, extends_addJob w code run⟩

/-- A job that performs no run. -/
theorem grows_spawn (w : World) (code : Work Value) : w.Grows (w.addJob code).2 :=
  grows_addJob w code fun _ hr => (by cases hr)

/-- The runs after `modifyRun`. -/
theorem modifyRun_get (w : World) (id r : RunId) (change : Run → Run) :
    (w.modifyRun id change).session.runs[r]? =
      if id = r then (w.session.runs[r]?).map change else w.session.runs[r]? := Array.getElem?_modify

theorem modifyRun_size (w : World) (id : RunId) (change : Run → Run) :
    (w.modifyRun id change).session.runs.size = w.session.runs.size := Array.size_modify

/-- A run is accounted for as before where it is active as before and, once it has ended, stays so. -/
theorem Accounted.modifyRun (hw : w.Accounted) {id : RunId} {change : Run → Run}
    (hactive : ∀ run : Run, w.session.runs[id]? = some run → (change run).status.isActive = run.status.isActive)
    (hover : ∀ run : Run, w.session.runs[id]? = some run → run.status = .completed ∨ run.status = .failed →
      (change run).status = .completed ∨ (change run).status = .failed) : (w.modifyRun id change).Accounted := by
  refine ⟨by rw [modifyRun_size]; exact hw.nonempty, fun r run hrun hstatus => ?_, hw.job_unique, fun j job r hj hr => ?_⟩
  · rw [modifyRun_get] at hrun
    rw [Session.current, modifyRun_size]
    split at hrun
    · next h =>
      subst h
      obtain ⟨old, hold, rfl⟩ := Option.map_eq_some_iff.1 hrun
      exact hw.active_current id old hold (hactive old hold ▸ hstatus)
    · exact hw.active_current r run hrun hstatus
  · obtain ⟨run, hrun, hended, hgoing⟩ := hw.job_run j job r hj hr
    by_cases h : id = r
    · subst h
      refine ⟨change run, by rw [modifyRun_get, if_pos rfl, hrun]; rfl, fun hd hb => ?_, fun hd => ?_⟩
      · exact (hended hd hb).imp (And.imp_left (hover run hrun)) (And.imp_left fun h => (hactive run hrun).trans h)
      · rw [hactive run hrun]
        exact hgoing hd
    · exact ⟨run, by rw [modifyRun_get, if_neg h, hrun], hended, hgoing⟩

/-- A change of a run that keeps its number, its status and its reason, or makes it one that is to
stop. -/
theorem grows_modifyRun (w : World) (id : RunId) (change : Run → Run)
    (hchange : ∀ run : Run, w.session.runs[id]? = some run → (change run).number = run.number ∧
      ((change run).status = run.status ∧ (change run).reason = run.reason ∨
        run.status = .running ∧ (change run).status = .canceling)) :
    w.Grows (w.modifyRun id change) := by
  intro hw
  have haccounted : (w.modifyRun id change).Accounted := by
    refine hw.toAccounted.modifyRun (fun run hrun => ?_) fun run hrun hstatus => ?_
    · obtain ⟨-, ⟨hsame, -⟩ | ⟨hrunning, hcanceling⟩⟩ := hchange run hrun
      · rw [hsame]
      · rw [hrunning, hcanceling]
        rfl
    · obtain ⟨-, ⟨hsame, -⟩ | ⟨hrunning, -⟩⟩ := hchange run hrun
      · rwa [hsame]
      · rw [hrunning] at hstatus
        obtain h | h := hstatus <;> cases h
  refine ⟨⟨hw.toWired.mono (.refl w) (.of_eq rfl) (fun j job hj => .inl ⟨job, hj, rfl⟩) (fun _ h => h)
    (fun _ h => .inl h) fun _ f _ hf hc => .inl ⟨f, hf, hc⟩,
    hw.toScheduled.mono hw.timers (List.Sublist.refl _) fun _ job hj => ⟨job, hj, rfl⟩, haccounted⟩, ?_⟩
  exact { Extends.refl w with
    run := fun r run hrun => by
      by_cases h : id = r
      · subst h
        exact ⟨change run, by rw [modifyRun_get, if_pos rfl, hrun]; rfl, hchange run hrun⟩
      · exact ⟨run, by rw [modifyRun_get, if_neg h, hrun], rfl, .inl ⟨rfl, rfl⟩⟩
    current := fun _ => modifyRun_size w id change }

/-- Cancellation of a run concerns one that is running; it rejects the pending step. -/
theorem cancelRun_cases (w : World) (reason : Value) :
    (w.session.run.status ≠ .running ∧ w.cancelRun reason = w) ∨
    w.session.run.status = .running ∧ ∃ message,
      w.cancelRun reason =
        ((w.modifyRun w.session.current ({ · with status := .canceling, reason })).cancelGate
          reason).2.info message := by
  unfold cancelRun
  by_cases h : w.session.run.status = .running
  · exact .inr ⟨h, by simp only [h, if_true]; exact ⟨_, rfl⟩⟩
  · exact .inl ⟨h, by simp only [h, if_false]⟩

/-- What holds of a world is kept when its run is asked to stop, provided it holds once a running run is canceling, its
pending step is rejected and the log says so. -/
theorem cancelRun_keeps {K : World → Prop} {w : World} {reason : Value} (hw : K w)
    (hasked : ∀ message, w.session.run.status = .running →
      K (((w.modifyRun w.session.current ({ · with status := .canceling, reason })).cancelGate reason).2.info message)) :
    K (w.cancelRun reason) := by
  obtain ⟨-, heq⟩ | ⟨hrunning, message, heq⟩ := cancelRun_cases w reason
  · rwa [heq]
  · rw [heq]
    exact hasked message hrunning

/-- The current run by its identity. -/
theorem run_of_get {run : Run} (hrun : w.session.runs[w.session.current]? = some run) :
    w.session.run = run := by
  simp only [Session.run, Array.back?]
  simp only [Session.current] at hrun
  rw [hrun, Option.getD_some]

theorem runOf_of_get {r : RunId} {run : Run} (hrun : w.session.runs[r]? = some run) : w.runOf r = run := by
  rw [runOf, hrun, Option.getD_some]

/-- The state in which a run that is cancelled has its pending step rejected. -/
theorem grows_canceling (hrunning : w.session.run.status = .running) (reason : Value) :
    w.Grows (w.modifyRun w.session.current ({ · with status := .canceling, reason })) :=
  grows_modifyRun w w.session.current ({ · with status := .canceling, reason })
    fun _ hrun => ⟨rfl, .inr ⟨run_of_get hrun ▸ hrunning, rfl⟩⟩

/-- Cancelling the run leaves a sound state sound. -/
theorem grows_cancelRun (w : World) (reason : Value) : w.Grows (w.cancelRun reason) :=
  cancelRun_keeps (K := w.Grows) (.refl w) fun _ hrunning =>
    ((grows_canceling hrunning reason).trans (grows_cancelGate _ reason)).trans (aside_addLog ..).light.grows

/-- A run is started unless one is active; then it becomes the current one, and gets a job. -/
theorem start_cases (program : Work Value) (source : String) (w : World) :
    (w.session.isActive = true ∧ w.start program source = w.complain (stillActive w.session.run)) ∨
    (w.session.isActive = false ∧ ∃ number nextNumber message,
      let u := (({ w with session := { w.session with
        runs := w.session.runs.push { status := .running, number, source }, nextNumber } }).resetGate).info message
      w.start program source =
        (.ok (u.addJob program (some w.session.runs.size)).1,
          (u.addJob program (some w.session.runs.size)).2)) := by
  unfold start
  by_cases h : w.session.isActive = true
  · exact .inl ⟨h, by rw [Session.isActive] at h; simp only [h, if_true]⟩
  · refine .inr ⟨by simpa using h, w.session.nextNumber, w.session.nextNumber + 1,
      "run " ++ toString w.session.nextNumber ++ " started (" ++ toString source.length ++ " chars)", ?_⟩
    rw [Session.isActive] at h
    simp only [h]
    rfl

/-- A new run, without a job yet, where no run is active. -/
theorem grows_pushRun (w : World) (run : Run) (nextNumber : Nat) (hinactive : w.session.isActive = false) :
    w.Grows { w with session := { w.session with runs := w.session.runs.push run, nextNumber } } := by
  intro hw
  have haccounted : Accounted { w with session :=
      { w.session with runs := w.session.runs.push run, nextNumber } } := by
    refine ⟨by simp, fun r current hrun hstatus => ?_, hw.job_unique, fun j job r hj hr => ?_⟩
    · obtain hrun | ⟨hr, -⟩ := getElem?_push_eq_some.1 hrun
      · obtain rfl := hw.active_current r current hrun hstatus
        rw [isActive_iff.2 ⟨current, hrun, hstatus⟩] at hinactive
        cases hinactive
      · simp [Session.current, hr]
    · obtain ⟨old, hold, hrest⟩ := hw.job_run j job r hj hr
      exact ⟨old, getElem?_push_of_some hold, hrest⟩
  refine ⟨⟨hw.toWired.mono (.refl w) (.of_eq rfl) (fun j job hj => .inl ⟨job, hj, rfl⟩) (fun _ h => h)
    (fun _ h => .inl h) fun _ f _ hf hc => .inl ⟨f, hf, hc⟩,
    hw.toScheduled.mono hw.timers (List.Sublist.refl _) fun _ job hj => ⟨job, hj, rfl⟩, haccounted⟩, ?_⟩
  exact { Extends.refl w with
    run := fun r old hold => ⟨old, getElem?_push_of_some hold, rfl, .inl ⟨rfl, rfl⟩⟩
    current := fun hactive => by rw [hinactive] at hactive; cases hactive }

/-- A start leaves a sound state sound: an accepted one adds a run together with its job. -/
theorem grows_start (program : Work Value) (source : String) (w : World) :
    w.Grows (w.start program source).2 := by
  obtain ⟨-, heq⟩ | ⟨hinactive, number, nextNumber, message, heq⟩ := start_cases program source w
  · rw [heq]
    exact (aside_complain w _).light.grows
  · rw [heq]
    intro hw
    have hpush := grows_pushRun w { status := .running, number, source } nextNumber hinactive
    refine Grows.trans (hpush.trans ((aside_modifyGate _ rfl rfl).trans (aside_addLog ..)).light.grows)
      (grows_addJob _ program fun r hr => ?_) hw
    cases hr
    refine ⟨⟨_, Array.getElem?_push_size, rfl⟩, fun j job hj hr => ?_⟩
    obtain ⟨old, hold, -⟩ := hw.job_run j job _ hj hr
    rw [Array.getElem?_size] at hold
    cases hold

/-- A new step has a new future, behind which it is taken off the gate, and a timer of its own. -/
theorem installStep_eq (w : World) : ∃ message, w.installStep =
    (⟨w.gate.steps.size, w.gate.seq, w.futures.size⟩,
      ({ w with
        futures := w.futures.push { callbacks := [.retract w.gate.steps.size] }
        loop := (w.loop.later w.gate.interval (.elapse w.gate.steps.size)).2
        gate := { w.gate with
          steps := w.gate.steps.push ⟨w.gate.seq, w.futures.size, some w.loop.nextTimer⟩
          pending := some w.gate.steps.size } }).addLog .debug gateLogger message) := by
  refine ⟨"step " ++ toString w.gate.seq ++ " waiting " ++ Decimal.fixedText 3 w.gate.interval ++ "s", ?_⟩
  simp only [installStep, addFuture, later, Loop.later, whenDone, isDone, outcome?, modifyGate,
    Array.getElem?_push_size, Option.bind_some, Option.isSome_none, Bool.false_eq_true, if_false, modify_push_size]
  rfl

/-- The state with a new step, before it is told of. -/
def withStep (w : World) : World :=
  { w with
    futures := w.futures.push { callbacks := [.retract w.gate.steps.size] }
    loop := (w.loop.later w.gate.interval (.elapse w.gate.steps.size)).2
    gate := { w.gate with
      steps := w.gate.steps.push ⟨w.gate.seq, w.futures.size, some w.loop.nextTimer⟩
      pending := some w.gate.steps.size } }

/-- A step has a future of its own, apart from those that there are. -/
theorem Queueable.withStep {c : Callback} (hc : w.Queueable c) : w.withStep.Queueable c := by
  cases c with
  | run | wake | elapse | deed => trivial
  | rouse id =>
    obtain ⟨f, hf, hplain, hother⟩ := hc
    refine ⟨f, getElem?_push_of_some hf, hplain, fun i s hs => ?_⟩
    obtain hs | ⟨-, rfl⟩ := getElem?_push_eq_some.1 hs
    · exact hother i s hs
    · exact (Nat.ne_of_lt (Array.getElem?_eq_some_iff.1 hf).1).symm
  | retract i =>
    obtain ⟨s, hs, hdone⟩ := hc
    exact ⟨s, getElem?_push_of_some hs, KeepsFutures.isDone (.of_push rfl) hdone⟩

/-- What is attached to a future stays so when a step is added. -/
theorem Attached.withStep {id : FutureId} {c : Callback} (hc : w.Attached id c) : w.withStep.Attached id c := by
  cases c with
  | wake => trivial
  | run | elapse | rouse | deed => cases hc
  | retract i =>
    obtain ⟨s, hs, hid⟩ := hc
    exact ⟨s, getElem?_push_of_some hs, hid⟩

/-- A new step has a future of its own, to which its retraction is attached, and a timer that is queued. -/
theorem Wired.withStep (hw : w.Wired) : w.withStep.Wired where
  job_future j job hj := by
    obtain ⟨f, hf, hfj⟩ := hw.job_future j job hj
    exact ⟨f, getElem?_push_of_some hf, hfj⟩
  step_future i s hs := by
    obtain hs | ⟨-, rfl⟩ := getElem?_push_eq_some.1 hs
    · obtain ⟨f, hf, hplain⟩ := hw.step_future i s hs
      exact ⟨f, getElem?_push_of_some hf, hplain⟩
    · exact ⟨_, Array.getElem?_push_size, rfl⟩
  step_unique i k s t hs ht hsame := by
    have hold (i : StepId) (s : PacedStep) (hs : w.gate.steps[i]? = some s) : s.future < w.futures.size := by
      obtain ⟨f, hf, -⟩ := hw.step_future i s hs
      exact (Array.getElem?_eq_some_iff.1 hf).1
    obtain hs | ⟨rfl, rfl⟩ := getElem?_push_eq_some.1 hs <;>
      obtain ht | ⟨rfl, rfl⟩ := getElem?_push_eq_some.1 ht
    · exact hw.step_unique i k s t hs ht hsame
    · exact absurd hsame (Nat.ne_of_lt (hold i s hs))
    · exact absurd hsame.symm (Nat.ne_of_lt (hold k t ht))
    · rfl
  pending_step i hi := by
    cases hi
    exact ⟨_, Array.getElem?_push_size⟩
  queued c hc := by
    obtain hc | rfl := Loop.queued_later.1 hc
    · exact (hw.queued c hc).withStep
    · trivial
  attached id f c hf hc := by
    obtain hf | ⟨rfl, rfl⟩ := getElem?_push_eq_some.1 hf
    · exact (hw.attached id f c hf hc).withStep
    · rw [List.mem_singleton.1 hc]
      exact ⟨_, Array.getElem?_push_size, rfl⟩

/-- A new step gives no job a turn. -/
theorem Scheduled.withStep (hw : w.Scheduled) : w.withStep.Scheduled := by
  refine ⟨fun t ht => ?_, hw.nodup, hw.idle⟩
  obtain rfl | ht := Loop.mem_insertByDue.1 ht
  · rfl
  · exact hw.timers t ht

theorem outcome?_withStep (w : World) (id : FutureId) : w.withStep.outcome? id = w.outcome? id :=
  outcome?_of_push rfl rfl id

/-- A state with a new step is sound. -/
theorem Sound.withStep (hw : w.Sound) : w.withStep.Sound := by
  exact ⟨hw.toWired.withStep, hw.toScheduled.withStep, hw.toAccounted.mono rfl (.refl _) fun j job hj =>
    ⟨job, hj, rfl, rfl, outcome?_withStep w job.future, fun _ => rfl⟩⟩

theorem extends_withStep (w : World) : w.Extends w.withStep where
  futures := .of_push rfl
  value id _ hx := (outcome?_withStep w id).symm.trans hx
  job _ job hj := ⟨job.cancelRequested, hj⟩
  owned _ job _ := outcome?_withStep w job.future
  step _ s hs := ⟨s.timer, getElem?_push_of_some hs⟩
  turn _ hj := .inl hj
  run _ run hrun := ⟨run, hrun, rfl, .inl ⟨rfl, rfl⟩⟩
  current _ := rfl
  faults := .refl _

/-- Setting up a step leaves a sound state sound. -/
theorem grows_installStep (w : World) : w.Grows w.installStep.2 := by
  obtain ⟨message, heq⟩ := installStep_eq w
  have hstep : w.Grows w.withStep := fun hw => ⟨hw.withStep, extends_withStep w⟩
  rw [heq]
  exact hstep.trans (aside_addLog ..).light.grows

/-- In a run that is to stop, a step is rejected as it is installed. -/
theorem installFor_cases (id : RunId) (w : World) :
    let u := w.installStep.2.modifyRun id ({ · with steps := w.installStep.1.seq })
    ((u.runOf id).status ≠ .canceling ∧ w.installFor id = (w.installStep.1, u)) ∨
      (u.runOf id).status = .canceling ∧
        w.installFor id = (w.installStep.1, (u.cancelStep w.installStep.1.id (u.runOf id).reason).2) := by
  intro u
  by_cases h : (u.runOf id).status = .canceling
  · exact .inr ⟨h, by simp only [installFor]; exact if_pos h⟩
  · exact .inl ⟨h, by simp only [installFor]; exact if_neg h⟩

/-- Before a step of the last run may be rejected, the run has taken its number over, and nothing else of the session has
changed. -/
theorem session_installed {runs : Array Run} {run : Run} (hruns : w.session.runs = runs.push run) :
    (w.installStep.2.modifyRun runs.size ({ · with steps := w.installStep.1.seq })).session =
      { w.session with runs := runs.push { run with steps := w.gate.seq } } := by
  obtain ⟨message, hinstall⟩ := installStep_eq w
  rw [hinstall]
  change { w.session with runs := w.session.runs.modify runs.size ({ · with steps := w.gate.seq }) } = _
  rw [hruns, modify_push_size]

/-- Setting up a step of a run leaves a sound state sound, also where the step is rejected at once. -/
theorem grows_installFor (id : RunId) (w : World) : w.Grows (w.installFor id).2 := by
  have hmodify := grows_modifyRun w.installStep.2 id ({ · with steps := w.installStep.1.seq })
    fun run _ => ⟨rfl, .inl ⟨rfl, rfl⟩⟩
  have hu := (grows_installStep w).trans hmodify
  obtain ⟨-, heq⟩ | ⟨-, heq⟩ := installFor_cases id w
  · rw [heq]
    exact hu
  · rw [heq]
    exact hu.trans (grows_cancelStep _ _ _)

theorem Cancels.grows (h : Cancels w v) : w.Grows v := by
  cases h with
  | plain hf hopen hjob =>
    intro hw
    refine (hw.toWired.light_settle (fun f hf' => ?_) fun _ h => by cases h).grows hw
    rw [hf] at hf'
    cases hf'
    exact hjob
  | request => exact grows_request w _

/-- Cancelling a future leaves a sound state sound, whatever the future stands for. -/
theorem grows_cancelFuture (w : World) (id : FutureId) : w.Grows (w.cancelFuture id).2 :=
  cancelFuture_keeps (K := w.Grows) (.refl w) (fun _ _ hu hstep => hu.trans hstep.grows) id

/-- What touches no step leaves a sound state sound. -/
theorem Touch.grows (h : Touch env w v) : w.Grows v := by
  cases h with
  | aside haside => exact haside.light.grows
  | defer => exact (light_soon w _).grows
  | deferLater delay => exact (light_later w delay (c := .deed _) trivial rfl).grows
  | nap => exact grows_nap w _
  | dropTimer => exact (light_cancelTimer w _).grows
  | cancelStep => exact grows_cancelStep w _ _
  | cancels hcancels => exact hcancels.grows
  | cancelRun => exact grows_cancelRun w _
  | start => exact grows_start _ _ w

/-- Each change leaves a sound state sound, and is one that running code may make. -/
theorem Change.grows (h : Change env w v) : w.Grows v := by
  cases h with
  | touch htouch => exact htouch.grows
  | defer => exact (light_soon w _).grows
  | deferLater delay d => exact (light_later w delay (c := .deed d) trivial rfl).grows
  | install => exact grows_installStep w
  | installFor => exact grows_installFor _ w

/-- Whatever running code does, a sound state stays sound and is only extended. -/
theorem Changes.grows (h : Changes env w v) : w.Grows v := by
  induction h with
  | refl => exact .refl w
  | tail _ hchange ih => exact ih.trans hchange.grows

/-- Every operation leaves a sound state sound, and is one that running code may make. -/
theorem grows_perform (env : Env) (o : Op) (w : World) : w.Grows (w.perform env o).2 := (perform_changes o w).grows

end SteppedLogo.World
