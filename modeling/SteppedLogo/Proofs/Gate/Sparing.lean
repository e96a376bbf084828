import SteppedLogo.Proofs.Gate.Timers
import SteppedLogo.Proofs.Program.Naps
import SteppedLogo.Proofs.World.Brings

namespace SteppedLogo

/-- Listeners stop no timers by their numbers, and programs only those of their own naps. -/
structure Env.SparesSteps (env : Env) : Prop where
  react : ∀ name event, (env.react name event).run.All Op.KeepsTimers
  program : ∀ source, (env.program source).run.StopsOwn fun _ => False

/-- A program of words stops no timers, and a listener made of acts stops none. -/
theorem Env.sparesSteps_words {env : Env} (wrapping : Bool) (words : Words) (acts : String → List Act)
    (hprogram : env.program = words.interpret wrapping) (hreact : env.react = fun name => listenerCode name (acts name)) :
    env.SparesSteps where
  react name event := by
    rw [hreact]
    exact listenerCode_keepsTimers name (acts name) event
  program source := by
    rw [hprogram]
    exact (Words.interpret_keepsTimers wrapping words source).stopsOwn _

namespace World

variable {env : Env} {u v w : World} {id : JobId} {own : TimerId → Prop}

/-- Each job goes on without stopping timers but those in `own`, and those of its naps. -/
def Resuming (own : TimerId → Prop) (w : World) : Prop :=
  ∀ (j : JobId) (job : Job), w.jobs[j]? = some job → ∀ received, (job.resume received).StopsOwn own

theorem Resuming.of_jobs (h : w.Resuming own) (hjobs : v.jobs = w.jobs) : v.Resuming own :=
  fun j job hj => h j job (hjobs ▸ hj)

theorem Resuming.mono {own' : TimerId → Prop} (h : w.Resuming own) (himp : ∀ timer, own timer → own' timer) :
    w.Resuming own' := fun j job hj received => (h j job hj received).mono himp

theorem Resuming.modifyJob (h : w.Resuming own) (id : JobId) {change : Job → Job}
    (hchange : ∀ job : Job, (∀ received, (job.resume received).StopsOwn own) →
      ∀ received, ((change job).resume received).StopsOwn own) : (w.modifyJob id change).Resuming own := by
  intro j job hj
  rw [modifyJob_get] at hj
  split at hj
  · obtain ⟨old, hold, rfl⟩ := Option.map_eq_some_iff.1 hj
    exact hchange old (h j old hold)
  · exact h j job hj

theorem Resuming.keepsJobs (h : w.Resuming own) (henv : env.SparesSteps) (hjobs : KeepsJobs env w v) : v.Resuming own := by
  intro j job hj received
  obtain ⟨old, hold, -, -, hresume, -⟩ | ⟨-, r, source, -, hresume⟩ := hjobs j job hj
  · rw [hresume]
    exact h j old hold received
  · rw [hresume]
    exact (henv.program source).mono nofun

theorem Resuming.perform (h : w.Resuming own) (henv : env.SparesSteps) (hw : w.Sound) (o : Op) :
    (w.perform env o).2.Resuming own := h.keepsJobs henv ((perform_changes o w).keepsJobs hw)

theorem Resuming.addJob (h : w.Resuming own) {code : Work Value} (hcode : code.run.StopsOwn own) (run : Option RunId) :
    (w.addJob code run).2.Resuming own := by
  intro j job hj received
  obtain hj | ⟨-, rfl⟩ := getElem?_push_eq_some.1 hj
  · exact h j job hj received
  · exact hcode

theorem Resuming.endJob (h : w.Resuming own) (id : JobId) (future : FutureId) (result : Except FaultId Value) :
    (w.endJob id future result).Resuming own := by
  obtain ⟨o, heq⟩ := endJob_eq w id future result
  rw [heq]
  exact h.of_jobs settle_jobs

theorem Resuming.takeUp (h : w.Resuming own) (id : JobId) (job : Job) (received : Except FaultId Value) :
    (w.takeUp id job received).2.Resuming own := by
  rw [takeUp_eq]
  exact (h.of_jobs (w.aside_resumption job received).jobs).modifyJob id fun _ hjob => hjob

/-- A job goes on as it has said where it stopped. -/
theorem Resuming.putDown (h : w.Resuming own) (henv : env.SparesSteps) (hw : w.Sound) {job : Job} (hup : w.Up id job)
    (stop : Stop (Except FaultId Value)) (hstop : match stop with
      | .finished _ => True
      | .parked _ k | .paused k => ∀ received, (k received).StopsOwn own) : (w.putDown id job stop).Resuming own := by
  cases stop with
  | finished result => exact (h.of_jobs (jobs_endRun w job.run result)).endJob id job.future _
  | paused k =>
    have hset : (w.modifyJob id ({ · with resume := k })).Resuming own := h.modifyJob id fun _ _ => hstop
    exact hset.of_jobs rfl
  | parked future k =>
    have hset : (w.modifyJob id ({ · with resume := k, waiting := some future })).Resuming own :=
      h.modifyJob id fun _ _ => hstop
    have hwait : (w.waiting id future k).Resuming own := hset.of_jobs (by unfold waiting whenDone; split <;> rfl)
    have hcancel : ((w.waiting id future k).cancelFuture future).2.Resuming own :=
      hwait.keepsJobs henv (leaves_cancelFuture (sound_waiting hw hup.off future k) future).brings.job
    change (w.park id future k).Resuming own
    unfold park
    dsimp only
    split
    · split
      · exact hcancel.modifyJob id fun _ hjob => hjob
      · exact hcancel
    · exact hwait

end World

namespace Scene

open World

variable {env : Env} {P : Op → Prop} {s t : Scene} {w : World} {id : JobId}

/-- What is under way, and what is to go on, stops no timer of a step. -/
structure Sparing (s : Scene) : Prop where
  jobs : s.world.Resuming s.world.Spare
  rest : ∀ t, s.activity = .turn t → t.rest.StopsOwn s.world.Spare
  deed : ∀ c, s.activity = .deed c → c.All Op.KeepsTimers

theorem sparing_fresh (hfresh : w.Fresh) : ({ world := w } : Scene).Sparing :=
  ⟨fun j job hj => (by have hj : w.jobs[j]? = some job := hj; simp [hfresh.jobs] at hj), fun _ h => (by cases h),
    fun _ h => by cases h⟩

theorem sparing_of_jobs (h : w.Resuming w.Spare) : ({ world := w } : Scene).Sparing :=
  ⟨h, fun _ h => (by cases h), fun _ h => by cases h⟩

/-- The timer of a nap is no step's. -/
theorem spare_gains (hw : w.Timed) (o : Op) {timer : TimerId}
    (h : o.gains (w.perform env o).1 (w.perform env o).2.Spare timer) : (w.perform env o).2.Spare timer := by
  cases o with
  | nap delay =>
    obtain rfl | h := h
    · refine ⟨Nat.lt_succ_self _, fun i s hs hsame => ?_⟩
      exact Nat.lt_irrefl _ (hw.set i s _ hs hsame)
    · exact h
  | _ => exact h

theorem sparing_resumed {own : TimerId → Prop} (hw : w.Resuming own) (received : Except FaultId Value)
    (hown : ∀ timer, own timer → (resumed w id received).world.Spare timer) : (resumed w id received).Sparing := by
  obtain heq | ⟨job, hjob, -, ⟨-, heq⟩ | ⟨-, heq⟩⟩ := resumed_cases w id received <;> rw [heq] at hown ⊢
  · exact sparing_of_jobs (hw.mono hown)
  · exact sparing_of_jobs (((hw.takeUp id job received).endJob id job.future _).mono hown)
  · refine ⟨(hw.takeUp id job received).mono hown, fun t ht => ?_, fun _ h => by cases h⟩
    cases ht
    exact (hw id job hjob _).mono hown

theorem sparing_called {c : Callback} {l : Loop Callback} (hw : w.Resuming w.Spare) (hsound : w.Sound)
    (hnext : w.loop.next? = some (some c, l)) : (called env { w with loop := l } c).Sparing := by
  have hown (timer : TimerId) : w.Spare timer → (called env { w with loop := l } c).world.Spare timer :=
    (pieces_called (b := true) hsound hnext).2.parts.spare
  have htaken : Resuming w.Spare { w with loop := l } := hw.of_jobs rfl
  cases c with
  | run id => exact sparing_resumed htaken _ hown
  | wake id =>
    simp only [called] at hown ⊢
    split at hown
    · exact sparing_of_jobs (htaken.mono hown)
    · next o _ => exact sparing_resumed (htaken.of_jobs (World.aside_receive _ o).jobs) _ hown
  | elapse i => exact sparing_of_jobs ((htaken.of_jobs (jobs_elapse _ i)).mono hown)
  | retract i => exact sparing_of_jobs ((htaken.of_jobs (light_retract _ i).jobs).mono hown)
  | rouse future => exact sparing_of_jobs ((htaken.of_jobs (jobs_rouse _ future)).mono hown)
  | deed d =>
    refine ⟨htaken.mono hown, fun _ h => (by cases h), fun c hc => ?_⟩
    cases hc
    exact d.code_keepsTimers

theorem sparing_advance {t : Turn} (henv : env.SparesSteps) (hw : w.Resuming w.Spare) (hsound : w.Sound) (htimed : w.Timed)
    (hup : w.Up t.id t.job) (hrest : t.rest.StopsOwn w.Spare) : (t.advance env w).Sparing := by
  obtain ⟨id, job, rest⟩ := t
  have hown (timer : TimerId) : w.Spare timer → (Turn.advance env ⟨id, job, rest⟩ w).world.Spare timer :=
    (parts_advance hsound hup).2.spare
  cases rest with
  | done result => exact sparing_of_jobs ((hw.putDown henv hsound hup (.finished result) trivial).mono hown)
  | op o k =>
    refine ⟨(hw.perform henv hsound o).mono hown, fun t ht => ?_, fun _ h => by cases h⟩
    cases ht
    refine (hrest.2 (w.perform env o).1).mono fun timer ht => spare_gains htimed o ?_
    exact Op.gains_mono hown timer ht
  | await future k =>
    cases future with
    | none => exact sparing_of_jobs ((hw.putDown henv hsound hup (.paused k) hrest).mono hown)
    | some future =>
      simp only [Turn.advance] at hown ⊢
      split at hown
      · exact sparing_of_jobs ((hw.putDown henv hsound hup (.parked future k) hrest).mono hown)
      · next o _ =>
        refine ⟨(hw.of_jobs (w.aside_receive o).jobs).mono hown, fun t ht => ?_, fun _ h => by cases h⟩
        cases ht
        exact (hrest _).mono hown

theorem Step.sparing (henv : env.SparesSteps) (hP : ∀ o, P o → o.KeepsTimers) (h : Step env P s t) (hs : s.Intact)
    (htimed : s.world.Timed) (hsparing : s.Sparing) : t.Sparing := by
  have hown (timer : TimerId) : s.world.Spare timer → t.world.Spare timer := (h.parts hs).2.spare
  cases h with
  | clock w clock => exact sparing_of_jobs ((hsparing.jobs.of_jobs rfl).mono hown)
  | @perform w o ho => exact sparing_of_jobs ((hsparing.jobs.perform henv hs.sound o).mono hown)
  | @spawn w code hcode =>
    exact sparing_of_jobs ((hsparing.jobs.addJob ((hcode.imp hP).stopsOwn _) none).mono hown)
  | next hnext =>
    obtain ⟨w, activity⟩ := s
    cases activity with
    | turn u =>
      cases hnext
      exact sparing_advance henv hsparing.jobs hs.sound htimed (hs.turn u rfl) (hsparing.rest u rfl)
    | deed c =>
      cases c with
      | done result =>
        cases hnext
        exact sparing_of_jobs hsparing.jobs
      | op o k =>
        cases hnext
        refine ⟨(hsparing.jobs.perform henv hs.sound o).mono hown, fun _ h => (by cases h), fun c hc => ?_⟩
        cases hc
        exact (hsparing.deed _ rfl).2 _
    | none =>
      simp only [next?] at hnext
      split at hnext
      · cases hnext
      · next l hloop =>
        cases hnext
        exact sparing_of_jobs ((hsparing.jobs.of_jobs rfl).mono hown)
      · next c l hloop =>
        cases hnext
        exact sparing_called hsparing.jobs hs.sound hloop

end Scene

end SteppedLogo
