import SteppedLogo.Proofs.World.Move
import SteppedLogo.Program.Words

namespace SteppedLogo.World

variable {env : Env} {P : Op → Prop} {w v : World} {j : JobId} {job : Job} {r : RunId}

/-- A run is accepted where none is active. -/
theorem start_accepted (program : Work Value) (source : String)
    (hinactive : w.session.isActive = false) : ∃ future v, w.start program source = (.ok future, v) := by
  obtain ⟨hactive, -⟩ | ⟨-, number, nextNumber, message, heq⟩ := start_cases program source w
  · rw [hinactive] at hactive
    cases hactive
  · exact ⟨_, _, heq⟩

/-- A run is refused where one is active. -/
theorem start_refused (program : Work Value) (source : String) (hactive : w.session.isActive = true) :
    ∃ fault v, w.start program source = (.error fault, v) ∧ v.faults.kindOf fault = .busy := by
  obtain ⟨-, heq⟩ | ⟨hinactive, -⟩ := start_cases program source w
  · refine ⟨_, _, heq, ?_⟩
    have hget := Faults.get?_add w.faults (.ofComplaint (stillActive w.session.run))
    change (w.faults.add (.ofComplaint (stillActive w.session.run))).2.kindOf
      (w.faults.add (.ofComplaint (stillActive w.session.run))).1 = .busy
    rw [Faults.kindOf, hget]
    rfl
  · rw [hactive] at hinactive
    cases hinactive

theorem Sound.run_lt (hw : w.Sound) (hjob : w.jobs[j]? = some job) (hrun : job.run = some r) :
    r < w.session.runs.size := by
  obtain ⟨run, hget, -⟩ := hw.job_run j job r hjob hrun
  exact (Array.getElem?_eq_some_iff.1 hget).1

/-- The run of a job that has begun is over once the job has ended, unless an interrupt stopped it. -/
theorem Sound.over_of_begun (hw : w.Sound) (hjob : w.jobs[j]? = some job) (hrun : job.run = some r)
    (hdone : w.isDone job.future = true) (hbegun : job.begun = true) (hplain : ¬ w.Interrupted job.future) :
    (w.runOf r).status = .completed ∨ (w.runOf r).status = .failed := by
  obtain ⟨run, hget, hover, -⟩ := hw.job_run j job r hjob hrun
  rw [runOf_of_get hget]
  obtain ⟨hended, -⟩ | ⟨-, hinterrupted⟩ := hover hdone hbegun
  · exact hended
  · exact absurd hinterrupted hplain

/-- The run of a job that has not ended, or never began, or was stopped by an interrupt, is the active one. -/
theorem Sound.active_of_open (hw : w.Sound) (hjob : w.jobs[j]? = some job) (hrun : job.run = some r)
    (hopen : w.isDone job.future = false ∨ job.begun = false ∨ w.Interrupted job.future) :
    (w.runOf r).status.isActive = true ∧ r = w.session.current ∧ w.session.isActive = true := by
  obtain ⟨run, hget, hover, hactive⟩ := hw.job_run j job r hjob hrun
  have hstatus : run.status.isActive = true := by
    cases hdone : w.isDone job.future with
    | false => exact hactive (.inl hdone)
    | true =>
      cases hbegun : job.begun with
      | false => exact hactive (.inr hbegun)
      | true =>
        obtain ⟨-, hanswered⟩ | ⟨hstatus, -⟩ := hover hdone hbegun
        · obtain h | h | h := hopen
          · rw [hdone] at h
            cases h
          · rw [hbegun] at h
            cases h
          · exact absurd h hanswered.not_interrupted
        · exact hstatus
  have hcurrent := hw.active_current r run hget hstatus
  refine ⟨?_, hcurrent, isActive_iff.2 ⟨run, hcurrent ▸ hget, hstatus⟩⟩
  rw [runOf_of_get hget]
  exact hstatus

/-- A run that is over does not keep the session active. -/
theorem inactive_of_over (hr : r < w.session.runs.size)
    (hover : (w.runOf r).status = .completed ∨ (w.runOf r).status = .failed) :
    (w.session.isActive = true → r < w.session.current) ∧
      (r = w.session.current → w.session.isActive = false) := by
  have hstill : r = w.session.current → w.session.isActive = false := by
    intro hcurrent
    by_contra hactive
    obtain ⟨run, hget, hstatus⟩ := isActive_iff.1 (by simpa using hactive)
    rw [hcurrent, runOf_of_get hget] at hover
    obtain h | h := hover <;> rw [h] at hstatus <;> cases hstatus
  refine ⟨fun hactive => ?_, hstill⟩
  have hne : r ≠ w.session.current := by
    intro hcurrent
    rw [hstill hcurrent] at hactive
    cases hactive
  have hle : r ≤ w.session.current := Nat.le_sub_one_of_lt hr
  exact Nat.lt_of_le_of_ne hle hne

/-- At its first turn a job begins for good, unless it is to be cancelled. -/
theorem Sound.begun_resume (hw : w.Sound) (env : Env) (hoff : j ∉ w.loop.turns)
    (hjob : w.jobs[j]? = some job) (hopen : w.isDone job.future = false)
    (hrequested : job.cancelRequested = false) :
    ∃ now : Job, (w.resume env j (.ok .none)).jobs[j]? = some now ∧ now.begun = true := by
  have htakeUp : w.takeUp j job (.ok .none) = (.ok .none, w.modifyJob j
      ({ · with waiting := none, cancelRequested := false, begun := job.begun || true })) := by
    simp only [takeUp_eq, resumption, hrequested, Bool.false_eq_true, if_false]
    rfl
  obtain ⟨-, hnot⟩ | ⟨other, hother, -, ⟨hbegun, -⟩ | ⟨hbegun, heq⟩⟩ := resume_cases env w j (.ok .none)
  · rw [hnot job hjob] at hopen
    cases hopen
  · rw [hjob] at hother
    cases hother
    simp [htakeUp, Except.isOk, Except.toBool] at hbegun
  · rw [hjob] at hother
    cases hother
    have hsound := (proceeds_takeUp hjob hopen (.ok .none) hw).1
    have hup := up_takeUp hjob hopen hoff (.ok .none) hbegun
    have hrun := ((job.resume (w.takeUp j job (.ok .none)).1).run_changes env
      (w.takeUp j job (.ok .none)).2).grows hsound
    have hput := (proceeds_putDown (hrun.2.up hup)
      ((job.resume (w.takeUp j job (.ok .none)).1).run env (w.takeUp j job (.ok .none)).2).1 hrun.1).2
    obtain ⟨now, hnow, -, -, hnowbegun, -⟩ := (hrun.2.up hup).get
    obtain ⟨later, hlater, -, -, hsame⟩ := hput.job j now hnow
    exact ⟨later, heq ▸ hlater, (hsame (.inr hnowbegun)).trans hnowbegun⟩

/-- A job that is to be cancelled at its first turn ends without having begun. -/
theorem Sound.ended_resume (hw : w.Sound) (env : Env) (hjob : w.jobs[j]? = some job)
    (hopen : w.isDone job.future = false) (hbegun : job.begun = false)
    (hrequested : job.cancelRequested = true) :
    (w.resume env j (.ok .none)).isDone job.future = true ∧
      ∃ now : Job, (w.resume env j (.ok .none)).jobs[j]? = some now ∧ now.begun = false := by
  have hreceived : (w.resumption job (.ok .none)).1.isOk = false := by
    simp only [resumption, hrequested, if_true]
    rfl
  have hjobs := (w.aside_resumption job (.ok .none)).jobs
  obtain ⟨-, hnot⟩ | ⟨other, hother, -, ⟨-, heq⟩ | ⟨hok, -⟩⟩ := resume_cases env w j (.ok .none)
  · rw [hnot job hjob] at hopen
    cases hopen
  · rw [hjob] at hother
    cases hother
    obtain ⟨o, hend⟩ := endJob_eq (w.takeUp j job (.ok .none)).2 j job.future (w.takeUp j job (.ok .none)).1
    have hsound := (proceeds_takeUp hjob hopen (.ok .none) hw).1
    have hget : (w.takeUp j job (.ok .none)).2.jobs[j]? = some { job with
        waiting := none, cancelRequested := false, begun := false } := by
      rw [takeUp_eq, modifyJob_get, if_pos rfl, hjobs, hjob]
      simp only [Option.map_some, hbegun, hreceived, Bool.or_false]
    rw [heq, hend]
    exact ⟨isDone_settle_self hsound.toWired hget o, _, by rw [settle_jobs]; exact hget, rfl⟩
  · rw [hjob] at hother
    cases hother
    rw [takeUp_eq, hbegun, hreceived] at hok
    cases hok

/-- Once the job of a run has ended, the run is over exactly if the job has begun and no interrupt
stopped it; until then it is active. In a reachable state, with `start`, the operations of the host, the
cancellation of any task and everything else at any time before, let the job of the run `r` be the one
that `start` queued. While it is open its run is active, and the job begins with its first turn unless
it is cancelled before, and then it ends with that turn. Once it has ended with its run over, `start`
accepts the next run. A job that is cancelled before its first turn, or ends with an interrupt, which
is no error, leaves its run active for good, and each further `start` is refused on account of it. -/
theorem over_iff_begun_of_ended (hw : Reachable env P w) (hjob : w.jobs[j]? = some job)
    (hrun : job.run = some r) :
    (w.isDone job.future = false →
      (w.runOf r).status.isActive = true ∧
        (job.begun = false → ∀ l v, w.loop.next? = some (some (.run j), l) → w.tick? env = some v →
          ∃ now : Job, v.jobs[j]? = some now ∧ (now.begun = true ↔ job.cancelRequested = false) ∧
            (job.cancelRequested = true → v.isDone job.future = true))) ∧
    (w.isDone job.future = true →
      (((w.runOf r).status = .completed ∨ (w.runOf r).status = .failed) ↔
        job.begun = true ∧ ¬ w.Interrupted job.future) ∧
      (job.begun = true ∧ ¬ w.Interrupted job.future →
        (w.session.isActive = true → r < w.session.current) ∧
          (r = w.session.current → ∀ program source, ∃ future v,
            w.start program source = (.ok future, v))) ∧
      (job.begun = false ∨ w.Interrupted job.future → ∀ v, Moves env P w v →
        v.session.current = r ∧ (v.runOf r).status.isActive = true ∧
          ∀ program source, ∃ fault u,
            v.start program source = (.error fault, u) ∧ u.faults.kindOf fault = .busy)) := by
  have hsound := hw.sound
  refine ⟨fun hopen => ⟨(hsound.active_of_open hjob hrun (.inl hopen)).1, fun hbegun l v hnext htick => ?_⟩,
    fun hdone => ⟨⟨fun hover => ?_, fun ⟨hbegun, hplain⟩ => hsound.over_of_begun hjob hrun hdone hbegun hplain⟩,
      fun ⟨hbegun, hplain⟩ => ?_, fun hstays v hmoves => ?_⟩⟩
  · have hnextSound := ((light_next hsound hnext).grows hsound).1
    have hv : v = World.resume env { w with loop := l } j (.ok .none) := by
      simp only [tick?, hnext, Option.some.injEq] at htick
      exact htick.symm
    rw [hv]
    cases hrequested : job.cancelRequested with
    | false =>
      obtain ⟨now, hnow, hnowbegun⟩ := hnextSound.begun_resume env (hsound.off_of_next hnext) hjob hopen hrequested
      exact ⟨now, hnow, by simp [hnowbegun], nofun⟩
    | true =>
      obtain ⟨hended, now, hnow, hnowbegun⟩ := hnextSound.ended_resume env hjob hopen hbegun hrequested
      exact ⟨now, hnow, by simp [hnowbegun], fun _ => hended⟩
  · have hnot (hstays : job.begun = false ∨ w.Interrupted job.future) : False := by
      have hactive := (hsound.active_of_open hjob hrun (.inr hstays)).1
      obtain h | h := hover <;> rw [h] at hactive <;> cases hactive
    exact ⟨by by_contra h; exact hnot (.inl (by simpa using h)), fun h => hnot (.inr h)⟩
  · have hover := hsound.over_of_begun hjob hrun hdone hbegun hplain
    obtain ⟨hlater, hinactive⟩ := inactive_of_over (hsound.run_lt hjob hrun) hover
    exact ⟨hlater, fun hcurrent program source => start_accepted program source (hinactive hcurrent)⟩
  · have hfollows := hw.follows hmoves
    obtain ⟨now, hnow, hfuture, hnowrun, hsame⟩ := hfollows.job j job hjob
    have hnowstays : now.begun = false ∨ v.Interrupted now.future := by
      refine hstays.imp (fun hbegun => (hsame (.inl hdone)).trans hbegun) fun hinterrupted => ?_
      obtain ⟨o, ho⟩ := isDone_iff.1 hdone
      exact hfuture ▸ hinterrupted.mono ((hfollows.futures.outcome? ho).trans ho.symm) hfollows.faults
    obtain ⟨hactive, hcurrent, hsession⟩ :=
      (hw.moves hmoves).sound.active_of_open hnow (hnowrun.trans hrun) (.inr hnowstays)
    exact ⟨hcurrent.symm, hactive, fun program source => start_refused program source hsession⟩

/-- Programs are made of the turtle's words, and no listener does anything. -/
def turtleEnv : Env := { program := Words.execute turtleWords, react := fun _ _ => pure () }

/-- A session with a run whose job is cancelled before its first turn. -/
def cancelledAtOnce : World :=
  (World.perform turtleEnv (.cancelFuture 0) (World.perform turtleEnv (.start "forward 10") {}).2).2

/-- The same session after that turn. -/
def endedAtOnce : World := (cancelledAtOnce.tick? turtleEnv).getD cancelledAtOnce

theorem endedAtOnce_reachable : Reachable turtleEnv (fun _ => True) endedAtOnce := by
  have hstart : Moves turtleEnv (fun _ => True) {} (World.perform turtleEnv (.start "forward 10") {}).2 :=
    .single (.perform _ trivial)
  have hcancel : Moves turtleEnv (fun _ => True) {} cancelledAtOnce := hstart.tail (.perform _ trivial)
  have hsome : (cancelledAtOnce.tick? turtleEnv).isSome = true := rfl
  obtain ⟨v, hv⟩ := Option.isSome_iff_exists.1 hsome
  have hended : endedAtOnce = v := by rw [endedAtOnce, hv, Option.getD_some]
  exact ⟨{}, fresh_empty, hended ▸ hcancel.tail (.tick hv)⟩

/-- The job of the first run is cancelled before its first turn: it has ended without having begun, and its run is not
over. -/
theorem endedAtOnce_not_over : ∃ job : Job, endedAtOnce.jobs[0]? = some job ∧ job.run = some 1 ∧
    endedAtOnce.isDone job.future = true ∧
      (((endedAtOnce.runOf 1).status = .completed ∨ (endedAtOnce.runOf 1).status = .failed) ↔
        job.begun = true ∧ ¬ endedAtOnce.Interrupted job.future) :=
  ⟨_, rfl, rfl, rfl, ((over_iff_begun_of_ended (j := 0) endedAtOnce_reachable rfl rfl).2 rfl).1⟩

/-- A run need not be over once its job has ended: `endedAtOnce` is reachable, and its run is still running. -/
theorem not_over_of_ended : ¬ ∀ (env : Env) (w : World) (j : JobId) (job : Job) (r : RunId),
    Reachable env (fun _ => True) w → w.jobs[j]? = some job → job.run = some r →
      w.isDone job.future = true →
        (w.runOf r).status = .completed ∨ (w.runOf r).status = .failed := by
  intro hover
  have hend := hover turtleEnv endedAtOnce 0 _ 1 endedAtOnce_reachable rfl rfl rfl
  have hrunning : (endedAtOnce.runOf 1).status = .running := rfl
  rw [hrunning] at hend
  obtain h | h := hend <;> cases h

end SteppedLogo.World
