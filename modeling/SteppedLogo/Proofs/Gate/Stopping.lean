import SteppedLogo.Proofs.Gate.Apart

namespace SteppedLogo

/-- The listeners cancel nothing. -/
def Env.Peaceful (env : Env) : Prop := ∀ name event, (env.react name event).run.All fun o => ¬ o.MayCancel

namespace World

variable {env : Env} {u v w : World} {id : FutureId} {j : JobId} {job : Job}

/-- The steps are kept, and none comes to be settled but by being resolved. -/
structure StopsNone (w v : World) : Prop where
  steps : ∀ (i : StepId) (q : PacedStep), w.gate.steps[i]? = some q → ∃ timer, v.gate.steps[i]? = some { q with timer }
  settled : ∀ (i : StepId) (q : PacedStep), w.gate.steps[i]? = some q → ∀ o, v.outcome? q.future = some o →
    w.outcome? q.future = some o ∨ o = .value .none

theorem StopsNone.trans (huv : u.StopsNone v) (hvw : v.StopsNone w) : u.StopsNone w where
  steps i q hq := by
    obtain ⟨timer, ht⟩ := huv.steps i q hq
    exact hvw.steps i { q with timer } ht
  settled i q hq o ho := by
    obtain ⟨timer, ht⟩ := huv.steps i q hq
    obtain ho | hvalue := hvw.settled i { q with timer } ht o ho
    · exact huv.settled i q hq o ho
    · exact .inr hvalue

theorem stopsNone_of_outcomes (hsteps : v.gate.steps = w.gate.steps)
    (houtcome : ∀ (i : StepId) (q : PacedStep), w.gate.steps[i]? = some q → v.outcome? q.future = w.outcome? q.future) :
    w.StopsNone v where
  steps _ q hq := ⟨q.timer, hsteps ▸ hq⟩
  settled i q hq _ ho := .inl ((houtcome i q hq).symm.trans ho)

theorem stopsNone_of_futures (hsteps : v.gate.steps = w.gate.steps) (hfutures : v.futures = w.futures) : w.StopsNone v :=
  stopsNone_of_outcomes hsteps fun _ _ _ => by rw [outcome?, outcome?, hfutures]

theorem StopsNone.refl (w : World) : w.StopsNone w := stopsNone_of_futures rfl rfl

theorem Still.stopsNone (h : w.Still v) : w.StopsNone v := stopsNone_of_futures h.steps h.futures

/-- A future may be settled that is no step's. -/
theorem stopsNone_settle (o : Outcome) (hother : ∀ (i : StepId) (q : PacedStep), w.gate.steps[i]? = some q → q.future ≠ id) :
    w.StopsNone (w.settle id o) :=
  stopsNone_of_outcomes (by rw [settle_gate]) fun i q hq => outcome?_settle_of_ne (hother i q hq).symm o

/-- New futures settle none of the earlier ones. -/
theorem stopsNone_push {f : Future} (hopen : f.outcome = none) (hsteps : v.gate.steps = w.gate.steps)
    (hfutures : v.futures = w.futures.push f) : w.StopsNone v :=
  stopsNone_of_outcomes hsteps fun _ q _ => outcome?_of_push hfutures hopen q.future

theorem stopsNone_start (program : Work Value) (source : String) (w : World) : w.StopsNone (w.start program source).2 := by
  obtain ⟨-, heq⟩ | ⟨-, number, nextNumber, message, heq⟩ := start_cases program source w <;> rw [heq]
  · exact (aside_complain w _).still.stopsNone
  · exact stopsNone_push rfl rfl rfl

theorem stopsNone_retract (w : World) (i : StepId) : w.StopsNone (w.retract i) where
  steps k q hq := (light_retract w i).step k q hq
  settled k q _ o ho := .inl (by rwa [outcome?, futures_retract] at ho)

/-- The end of its pacing resolves a step. -/
theorem stopsNone_elapse (w : World) (i : StepId) : w.StopsNone (w.elapse i) := by
  obtain ⟨heq, -⟩ | ⟨s, hs, -, heq⟩ := elapse_cases w i <;> rw [heq]
  · exact .refl w
  · refine (stopsNone_retract w i).trans ⟨fun k q hq => ⟨q.timer, by rw [settle_gate, hq]⟩, fun k q _ o ho => ?_⟩
    obtain hold | ⟨-, hvalue⟩ := outcome?_of_settle ho
    · exact .inl hold
    · exact .inr hvalue

theorem stopsNone_endJob (hw : w.Wired) (hjob : w.jobs[j]? = some job) (result : Except FaultId Value) :
    w.StopsNone (w.endJob j job.future result) := by
  obtain ⟨o, heq⟩ := endJob_eq w j job.future result
  rw [heq]
  exact stopsNone_settle o (hw.step_future_ne hjob)

theorem installStep_fst (w : World) : w.installStep.1.id = w.gate.steps.size ∧
    w.installStep.2.gate.interval = w.gate.interval := by
  obtain ⟨message, heq⟩ := installStep_eq w
  rw [heq]
  exact ⟨rfl, rfl⟩

theorem stopsNone_installStep (hw : w.Wired) : w.StopsNone w.installStep.2 := by
  obtain ⟨message, heq⟩ := installStep_eq w
  rw [heq]
  refine ⟨fun i q hq => ⟨q.timer, getElem?_push_of_some hq⟩, fun i q hq o ho => .inl ?_⟩
  obtain ⟨g, hg, -⟩ := hw.step_future i q hq
  rw [outcome?_of_get (getElem?_push_of_some hg)] at ho
  exact (outcome?_of_get hg).trans ho

/-- The step of a run that is to be cancelled is stopped as soon as it is set up, and no other. -/
theorem stopsNone_installFor (hw : w.Sound) (r : RunId) : w.StopsNone (w.installFor r).2 := by
  have hset := stopsNone_installStep hw.toWired
  have hwired := (grows_installStep w hw).1.toWired
  obtain ⟨-, heq⟩ | ⟨-, heq⟩ := installFor_cases r w <;> rw [heq]
  · exact hset.trans (steady_modifyRun _ r _).toStill.stopsNone
  · generalize hu : w.installStep.2.modifyRun r ({ · with steps := w.installStep.1.seq }) = u
    have hcount : w.installStep.2.Still u := hu ▸ (steady_modifyRun w.installStep.2 r _).toStill
    have hmid : w.StopsNone u := hset.trans hcount.stopsNone
    have huw : u.Wired := by
      rw [← hu]
      exact hwired.same rfl rfl rfl rfl rfl
    obtain ⟨hsame, -⟩ | ⟨s, hs, -, heq⟩ := cancelStep_cases u w.installStep.1.id (u.runOf r).reason
    · rw [hsame]
      exact hmid
    · rw [heq]
      have hretract := hmid.trans (stopsNone_retract u w.installStep.1.id)
      refine ⟨fun i q hq => ?_, fun i q hq o ho => ?_⟩
      · obtain ⟨timer, ht⟩ := hretract.steps i q hq
        exact ⟨timer, by rw [← ht]; exact congrArg (·.steps[i]?) (settle_gate ..)⟩
      · refine hretract.settled i q hq o ?_
        obtain ⟨timer, ht⟩ := hmid.steps i q hq
        obtain hold | ⟨hother, -⟩ := outcome?_of_settle ho
        · exact hold
        · -- the step that is stopped is the new one
          have hi := huw.step_unique _ i s _ hs ht hother
          have hlt : i < w.gate.steps.size := (Array.getElem?_eq_some_iff.1 hq).1
          exact absurd (hi.symm.trans (installStep_fst w).1) (Nat.ne_of_lt hlt)

/-- Operations that neither cancel anything nor make a call boundary stop no step. -/
theorem stopsNone_performWith {notify : Notify} {o : Op} (hquiet : o.IsQuiet)
    (ho : ¬ o.MayCancel) : w.StopsNone (performWith env notify o w).2 := by
  by_cases haside : o.IsAside
  · exact (performWith_aside notify haside w).still.stopsNone
  cases o with
  | hook | step => cases hquiet
  | start source => exact stopsNone_start _ source w
  | defer delay deed => cases delay <;> exact stopsNone_of_futures rfl rfl
  | nap delay => exact stopsNone_push rfl rfl rfl
  | dropTimer timer => exact stopsNone_of_futures rfl rfl
  | cancelGate | cancelStep | cancelRun | requestBreak | interrupt | cancelTracked | cancelFuture | invoke =>
    exact absurd trivial ho
  | _ => exact absurd trivial haside

theorem stopsNone_performWithin (henv : env.Peaceful) (depth : Nat) {o : Op} (ho : ¬ o.MayCancel)
    (hu : u.Sound ∧ w.StopsNone u) :
    (performWithin env depth o u).2.Sound ∧ w.StopsNone (performWithin env depth o u).2 := by
  have haside (u v : World) (haside : u.Aside v) (hu : u.Sound ∧ w.StopsNone u) : v.Sound ∧ w.StopsNone v :=
    ⟨(haside.light.grows hu.1).1, hu.2.trans haside.still.stopsNone⟩
  have hwith {notify : Notify} (hnotify : ∀ event u, u.Sound ∧ w.StopsNone u →
      (notify event u).2.Sound ∧ w.StopsNone (notify event u).2) {o : Op} (ho : ¬ o.MayCancel) {u : World}
      (hu : u.Sound ∧ w.StopsNone u) :
      (performWith env notify o u).2.Sound ∧ w.StopsNone (performWith env notify o u).2 := by
    refine performWith_keeps (I := fun u => u.Sound ∧ w.StopsNone u) haside hnotify ?_ ?_ ?_ ?_ ?_ hu
    · exact fun u d hu => ⟨((Change.defer u d : Change env u _).grows hu.1).1, hu.2.trans (stopsNone_of_futures rfl rfl)⟩
    · exact fun u delay d hu =>
        ⟨((Change.deferLater u delay d : Change env u _).grows hu.1).1, hu.2.trans (stopsNone_of_futures rfl rfl)⟩
    · exact fun u hu => ⟨(grows_installStep u hu.1).1, hu.2.trans (stopsNone_installStep hu.1.toWired)⟩
    · exact fun u id hu => ⟨(grows_installFor id u hu.1).1, hu.2.trans (stopsNone_installFor hu.1 id)⟩
    · intro hquiet u hu
      have htouches : Touches env u (performWith env notify o u).2 := performWith_touches notify hquiet u
      exact ⟨(htouches.changes.grows hu.1).1, hu.2.trans (stopsNone_performWith hquiet ho)⟩
  induction depth generalizing o u with
  | zero => exact hwith (fun event u hu => notifyNone_keeps haside event hu) ho hu
  | succ depth ih =>
    exact hwith (fun event u hu => notifyWith_keeps (fun o ho u hu => ih ho hu)
      (fun u _ _ _ _ hu => haside u _ (aside_addLog ..) hu) (fun name => henv name event) hu) ho hu

/-- Operations that do not cancel anything stop no step, unless they make a call boundary and a listener cancels. -/
theorem stopsNone_perform (hw : w.Sound) {o : Op} (ho : ¬ o.MayCancel) (hboundary : o.IsQuiet ∨ env.Peaceful) :
    w.StopsNone (w.perform env o).2 := by
  obtain hquiet | hpeaceful := hboundary
  · exact stopsNone_performWith hquiet ho
  · exact (stopsNone_performWithin hpeaceful _ ho ⟨hw, .refl w⟩).2

/-- A job that is not to be cancelled comes to wait. -/
theorem stopsNone_park (hjob : w.jobs[j]? = some job) (hrequested : ¬ job.cancelRequested = true) (future : FutureId)
    (k : Except FaultId Value → Routine (Except FaultId Value)) : w.StopsNone (w.park j future k) := by
  generalize hu : w.modifyJob j ({ · with resume := k, waiting := some future }) = u
  have hset : w.Still u := hu ▸ still_modifyJob w j _
  have hwaits : w.StopsNone (u.whenDone future (.wake j)) :=
    hset.stopsNone.trans
      (stopsNone_of_outcomes (by unfold whenDone; split <;> rfl) fun _ q _ => outcome?_whenDone u future _ q.future)
  have hget : (u.whenDone future (.wake j)).jobs[j]? = some { job with resume := k, waiting := some future } := by
    rw [(light_whenDone u future j).jobs, ← hu, modifyJob_get, if_pos rfl, hjob]
    rfl
  have hpark : w.park j future k = u.whenDone future (.wake j) := by
    unfold park
    simp only [hu, hget, Option.map_some, Option.getD_some, if_neg hrequested]
  exact hpark ▸ hwaits

theorem stopsNone_takeUp (w : World) (j : JobId) (job : Job) (received : Except FaultId Value) :
    w.StopsNone (w.takeUp j job received).2 := (steady_takeUp w j job received).toStill.stopsNone

end World

namespace Scene

open World

variable {env : Env} {P : Op → Prop} {s t : Scene} {w : World} {j : JobId}

/-- What may stop a step between one scene and the next: an operation that cancels, or that makes a call boundary where
listeners cancel; the end of a run; and that a job which is to be cancelled comes to wait for the step. -/
inductive MayStop (env : Env) (s t : Scene) : Prop
  | op {o : Op} (hworld : t.world = (s.world.perform env o).2) (hcancel : o.MayCancel ∨ ¬ o.IsQuiet ∧ ¬ env.Peaceful)
  | ends {turn : Turn} {result : Except FaultId Value} (hturn : s.activity = .turn turn) (hrest : turn.rest = .done result)
    (hrun : turn.job.run ≠ none)
  | waits {turn : Turn} {future : FutureId} {k : Except FaultId Value → Routine (Except FaultId Value)} {job : Job}
    (hturn : s.activity = .turn turn) (hrest : turn.rest = .await (some future) k)
    (hjob : s.world.jobs[turn.id]? = some job) (hrequested : job.cancelRequested = true)

theorem stopsNone_resumed (hw : w.Sound) (received : Except FaultId Value) : w.StopsNone (resumed w j received).world := by
  obtain heq | ⟨job, hjob, hopen, ⟨hbegun, heq⟩ | ⟨hbegun, heq⟩⟩ := resumed_cases w j received <;> rw [heq]
  · exact .refl w
  · exact (stopsNone_takeUp w j job received).trans
      (stopsNone_endJob (proceeds_takeUp hjob hopen received hw).1.toWired (takeUp_get hjob received) _)
  · exact stopsNone_takeUp w j job received

/-- What a callback does stops no step. -/
theorem stopsNone_called (hw : w.Sound) {c : Callback} {l : Loop Callback} (hnext : w.loop.next? = some (some c, l)) :
    w.StopsNone (called env { w with loop := l } c).world := by
  have hsound : World.Sound { w with loop := l } := ((light_next hw hnext).grows hw).1
  refine (stopsNone_of_futures rfl rfl : w.StopsNone { w with loop := l }).trans ?_
  cases c with
  | run id => exact stopsNone_resumed hsound _
  | wake id =>
    simp only [called]
    split
    · exact .refl _
    · next o _ =>
      have haside := World.aside_receive { w with loop := l } o
      exact haside.still.stopsNone.trans (stopsNone_resumed (haside.light.grows hsound).1 _)
  | elapse i => exact stopsNone_elapse _ i
  | retract i => exact stopsNone_retract _ i
  | rouse future =>
    obtain ⟨-, -, -, hother⟩ := hw.queued _ ((Loop.Queued.of_next? hnext).2 _ rfl)
    exact rouse_keeps (I := fun v => World.StopsNone { w with loop := l } v) (.refl _) (stopsNone_settle _ hother)
  | deed d => exact .refl _

/-- What is none of that stops no step. -/
theorem Step.stopsNone_or (h : Step env P s t) (hs : s.Intact) : s.MayStop env t ∨ s.world.StopsNone t.world := by
  have hperform (o : Op) (ht : t.world = (s.world.perform env o).2) : s.MayStop env t ∨ s.world.StopsNone t.world := by
    by_cases hcancel : o.MayCancel ∨ ¬ o.IsQuiet ∧ ¬ env.Peaceful
    · exact .inl (.op ht hcancel)
    · obtain ⟨hnot, hboundary⟩ := not_or.1 hcancel
      rw [ht]
      exact .inr (stopsNone_perform hs.sound hnot (or_iff_not_and_not.2 hboundary))
  cases h with
  | clock w clock => exact .inr (stopsNone_of_futures rfl rfl)
  | @perform w o ho => exact hperform o rfl
  | @spawn w code hcode => exact .inr (stopsNone_push rfl rfl rfl)
  | next hnext =>
    obtain ⟨w, activity⟩ := s
    cases activity with
    | turn u =>
      cases hnext
      obtain ⟨id, job, rest⟩ := u
      have hup := hs.turn _ rfl
      cases rest with
      | done result =>
        by_cases hrun : job.run = none
        · obtain ⟨now, hnow, hfuture, -⟩ := hup.get
          have hend := stopsNone_endJob hs.sound.toWired hnow result
          rw [hfuture] at hend
          simp only [Turn.advance, putDown, hrun]
          exact .inr hend
        · exact .inl (.ends rfl rfl hrun)
      | op o k => exact hperform o rfl
      | await future k =>
        cases future with
        | none => exact .inr (stopsNone_of_futures rfl rfl)
        | some future =>
          simp only [Turn.advance]
          split
          · obtain ⟨now, hnow, -⟩ := hup.get
            by_cases hrequested : now.cancelRequested = true
            · exact .inl (.waits rfl rfl hnow hrequested)
            · exact .inr (stopsNone_park hnow hrequested future k)
          · next o _ => exact .inr (w.aside_receive o).still.stopsNone
    | deed c =>
      cases c with
      | done result =>
        cases hnext
        exact .inr (.refl _)
      | op o k =>
        cases hnext
        exact hperform o rfl
    | none =>
      simp only [next?] at hnext
      split at hnext
      · cases hnext
      · next l hloop =>
        cases hnext
        exact .inr (stopsNone_of_futures rfl rfl)
      · next c l hloop =>
        cases hnext
        exact .inr (stopsNone_called hs.sound hloop)

end Scene

end SteppedLogo
