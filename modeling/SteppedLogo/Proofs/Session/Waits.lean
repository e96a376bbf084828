import SteppedLogo.Proofs.Gate.Woken
import SteppedLogo.Proofs.Session.Scenes

namespace SteppedLogo

open World

namespace World

variable {env : Env} {u v w : World} {j : JobId} {job : Job} {id : JobId} {received : Except FaultId Value}

/-- The future that a job waits for. -/
def waits (w : World) (j : JobId) : Option FutureId := (w.jobs[j]?).bind Job.waiting

theorem waits_of_get (hj : w.jobs[j]? = some job) : w.waits j = job.waiting := by
  rw [waits, hj, Option.bind_some]

theorem waits_of_jobs (hjobs : v.jobs = w.jobs) : v.waits = w.waits := by
  funext j
  rw [waits, waits, hjobs]

/-- Whoever waits has begun. -/
def BegunFirst (w : World) : Prop :=
  ∀ (j : JobId) (job : Job), w.jobs[j]? = some job → job.waiting ≠ none → job.begun = true

/-- The jobs wait as before where each goes on waiting, and new ones do not wait. -/
theorem waits_eq (hback : ∀ (j : JobId) (job : Job), v.jobs[j]? = some job → job.waiting = w.waits j)
    (hkeeps : ∀ (j : JobId) (job : Job), w.jobs[j]? = some job → ∃ now, v.jobs[j]? = some now) : v.waits = w.waits := by
  funext j
  cases hv : v.jobs[j]? with
  | some job => rw [waits_of_get hv, hback j job hv]
  | none =>
    cases hw : w.jobs[j]? with
    | none => rw [waits, waits, hv, hw]
    | some job =>
      obtain ⟨now, hnow⟩ := hkeeps j job hw
      rw [hv] at hnow
      cases hnow

theorem Brings.waits (h : w.Brings env v) (hextends : w.Extends v) : v.waits = w.waits := by
  refine waits_eq (fun j job hj => ?_) fun j job hj => ?_
  · obtain ⟨old, hold, -, -, -, hwaiting⟩ | ⟨hwaiting, r, source, hrun, hresume⟩ := h.job j job hj
    · rw [waits_of_get hold, hwaiting]
    · cases hold : w.jobs[j]? with
      | none => rw [World.waits, hold, hwaiting, Option.bind_none]
      | some old =>
        obtain ⟨b, hb⟩ := hextends.job j old hold
        rw [hj] at hb
        cases hb
        exact (waits_of_get hold).symm
  · obtain ⟨b, hb⟩ := hextends.job j job hj
    exact ⟨_, hb⟩

theorem waits_modifyJob (w : World) (id : JobId) (change : Job → Job) {future? : Option FutureId}
    (hchange : ∀ job : Job, w.jobs[id]? = some job → (change job).waiting = future?) (hjob : w.jobs[id]? = some job) :
    (w.modifyJob id change).waits = Function.update w.waits id future? := by
  funext j
  rw [waits, modifyJob_get]
  by_cases h : id = j
  · subst h
    rw [if_pos rfl, hjob, Function.update_self]
    exact hchange job hjob
  · rw [if_neg h, Function.update_of_ne (Ne.symm h), waits]

/-- A change of a job that has nothing to do with what it waits for. -/
theorem waits_modifyJob_same (w : World) (id : JobId) (change : Job → Job)
    (hchange : ∀ job : Job, (change job).waiting = job.waiting) : (w.modifyJob id change).waits = w.waits := by
  funext j
  rw [waits, modifyJob_get, waits]
  split
  · cases w.jobs[j]? with
    | none => rfl
    | some job => exact hchange job
  · rfl

theorem waits_takeUp (w : World) {id : JobId} (hjob : w.jobs[id]? = some job) (received : Except FaultId Value) :
    (w.takeUp id job received).2.waits = Function.update w.waits id none := by
  have haside := w.aside_resumption job received
  rw [← waits_of_jobs haside.jobs]
  exact waits_modifyJob _ id _ (fun _ _ => rfl) (haside.jobs.symm ▸ hjob)

theorem waits_endJob (w : World) (id : JobId) (future : FutureId) (result : Except FaultId Value) :
    (w.endJob id future result).waits = w.waits := by
  obtain ⟨o, heq⟩ := endJob_eq w id future result
  rw [heq, waits_of_jobs settle_jobs]

theorem waits_waiting {id : JobId} (hjob : w.jobs[id]? = some job) (future : FutureId)
    (k : Except FaultId Value → Routine (Except FaultId Value)) :
    (w.waiting id future k).waits = Function.update w.waits id (some future) := by
  have hset : (w.modifyJob id ({ · with resume := k, waiting := some future })).waits =
      Function.update w.waits id (some future) := waits_modifyJob w id _ (fun _ _ => rfl) hjob
  exact (waits_of_jobs (light_whenDone _ future id).jobs).trans hset

theorem waits_park {id : JobId} (hw : w.Sound) (hoff : id ∉ w.loop.turns) (hjob : w.jobs[id]? = some job) (future : FutureId)
    (k : Except FaultId Value → Routine (Except FaultId Value)) :
    (w.park id future k).waits = Function.update w.waits id (some future) := by
  have hwaiting := sound_waiting hw hoff future k
  let idle : Env := ⟨fun _ => pure .none, fun _ _ => pure (), false⟩
  have hbrings : (w.waiting id future k).Brings idle ((w.waiting id future k).cancelFuture future).2 :=
    (leaves_cancelFuture hwaiting future).brings
  have hcancel : ((w.waiting id future k).cancelFuture future).2.waits = (w.waiting id future k).waits :=
    hbrings.waits (grows_cancelFuture _ future hwaiting).2
  rw [← waits_waiting hjob future k]
  unfold park
  dsimp only
  split
  · split
    · exact (waits_modifyJob_same _ id ({ · with cancelRequested := false }) fun _ => rfl).trans hcancel
    · exact hcancel
  · rfl

end World

namespace Scene

variable {env : Env} {P : Op → Prop} {s t : Scene} {w : World} {id j : JobId} {job : Job} {future : FutureId}

/-- A job is taken up, and waits no longer, or nothing changes. -/
theorem waits_resumed (w : World) (id : JobId) (received : Except FaultId Value) :
    (resumed w id received).world.waits = w.waits ∨
      (resumed w id received).world.waits = Function.update w.waits id none := by
  obtain heq | ⟨job, hjob, -, ⟨-, heq⟩ | ⟨-, heq⟩⟩ := resumed_cases w id received
  · rw [heq]
    exact .inl rfl
  · rw [heq]
    exact .inr ((waits_endJob _ _ _ _).trans (waits_takeUp w hjob received))
  · rw [heq]
    exact .inr (waits_takeUp w hjob received)

/-- What becomes of the jobs that wait: nothing; one is taken up as the callback that does it is called;
or one comes to wait, and no other. -/
inductive Awaits (s t : Scene) : Prop
  | same (hwaits : t.world.waits = s.world.waits) (hparts : PartsOf false true s.world t.world)
  | taken {j : JobId} {c : Callback} {l : Loop Callback} (hidle : s.activity = .none)
    (hnext : s.world.loop.next? = some (some c, l)) (hc : c = .run j ∨ c = .wake j)
    (hwaits : t.world.waits = Function.update s.world.waits j none)
    (hparts : PartsOf false true { s.world with loop := l } t.world)
  | parked {j : JobId} {job : Job} {future : FutureId} {k : Except FaultId Value → Routine (Except FaultId Value)}
    (hturn : s.activity = .turn ⟨j, job, .await (some future) k⟩) (hopen : s.world.isDone future = false)
    (hwaits : t.world.waits = Function.update s.world.waits j (some future))
    (hparts : PartsOf false true (s.world.waiting j future k) t.world)

theorem waits_called {c : Callback} {l : Loop Callback} (hw : w.Sound) (hnext : w.loop.next? = some (some c, l)) :
    Awaits { world := w } (called env { w with loop := l } c) := by
  have hsound : World.Sound { w with loop := l } := ((light_next hw hnext).grows hw).1
  have hparts : PartsOf false true w (called env { w with loop := l } c).world := (pieces_called hw hnext).2.parts
  cases c with
  | run id =>
    have hoff : id ∉ l.turns := hw.off_of_next hnext
    obtain hsame | hupdate := waits_resumed { w with loop := l } id (.ok .none)
    · exact .same hsame hparts
    · exact .taken rfl hnext (.inl rfl) hupdate (pieces_resumed hsound hoff _).2.parts
  | wake id =>
    simp only [called] at hparts ⊢
    cases houtcome : ((w.jobs[id]?).bind Job.waiting).bind (World.outcome? { w with loop := l }) with
    | none =>
      simp only [houtcome] at hparts
      exact .same rfl hparts
    | some o =>
      simp only [houtcome] at hparts
      have haside := World.aside_receive { w with loop := l } o
      have hoff : id ∉ ((World.receive { w with loop := l } o).2).loop.turns := by
        rw [haside.loop]
        exact hsound.off_of_waiting houtcome
      have hreceived : PartsOf false true { w with loop := l } _ := haside.still.parts hsound.toWired
      have hwaits : (World.receive { w with loop := l } o).2.waits = w.waits := waits_of_jobs haside.jobs
      obtain hsame | hupdate := waits_resumed _ id (World.receive { w with loop := l } o).1
      · exact .same (hsame.trans hwaits) hparts
      · refine .taken rfl hnext (.inr rfl) (hupdate.trans (by rw [hwaits])) ?_
        exact hreceived.trans (pieces_resumed (haside.light.grows hsound).1 hoff _).2.parts
  | elapse i => exact .same (waits_of_jobs (jobs_elapse _ i)) hparts
  | retract i => exact .same (waits_of_jobs (light_retract _ i).jobs) hparts
  | rouse future => exact .same (waits_of_jobs (jobs_rouse _ future)) hparts
  | deed d => exact .same rfl hparts

theorem waits_advance {r : Routine (Except FaultId Value)} (hP : Op.Guards P) (henv : env.Confined)
    (hs : ({ world := w, activity := .turn ⟨id, job, r⟩ } : Scene).Governed P) :
    Awaits { world := w, activity := .turn ⟨id, job, r⟩ } (Turn.advance env ⟨id, job, r⟩ w) := by
  have hw := hs.world.toSound
  have hup : w.Up id job := hs.turn _ rfl
  obtain ⟨now, hnow, -⟩ := hup.get
  cases r with
  | done result =>
    refine .same ?_ (pieces_finished hw hup result).parts
    exact (waits_endJob _ _ _ _).trans (waits_of_jobs (jobs_endRun w job.run result))
  | op o k =>
    obtain ⟨-, hbrings, hextends⟩ := Performs.governed henv (hs.performs hP) hs.world
    exact .same (hbrings.waits hextends) (parts_perform env o hw)
  | await future k =>
    cases future with
    | none =>
      have hparts : PartsOf false true w (w.putDown id job (.paused k)) := (pieces_paused hw k).parts
      exact .same (waits_modifyJob_same w id _ fun _ => rfl) hparts
    | some future =>
      simp only [Turn.advance]
      cases ho : w.outcome? future with
      | none =>
        exact .parked rfl (isDone_eq_false.2 ho) (waits_park hw hup.off hnow future k)
          (pieces_waiting hw hup.off future k).parts
      | some o =>
        have haside := w.aside_receive o
        exact .same (waits_of_jobs haside.jobs) (haside.still.parts hw.toWired)

theorem Step.waits (hP : Op.Guards P) (henv : env.Confined) (hs : s.Governed P) (h : Step env P s t) : Awaits s t := by
  have hw := hs.world.toSound
  have hquiet {o : Op} (ho : P o) : Awaits s { world := (s.world.perform env o).2 } := by
    have hbrings : s.world.Brings env _ := (perform_touches (hP.quiet o ho) s.world).brings hw
    exact .same (hbrings.waits (grows_perform env o _ hw).2) (parts_perform env o hw)
  cases h with
  | clock w clock => exact .same rfl ((Part.clock w clock).parts hw.toWired)
  | perform w ho => exact hquiet ho
  | @spawn w code hcode =>
    refine .same (waits_eq (fun j job hj => ?_) fun j job hj => ⟨job, getElem?_push_of_some hj⟩)
      (pieces_addJob hw.toWired code none).parts
    obtain hj | ⟨rfl, rfl⟩ := getElem?_push_eq_some.1 hj
    · exact (waits_of_get hj).symm
    · rw [World.waits, Array.getElem?_size, Option.bind_none]
  | next hnext =>
    obtain ⟨w, activity⟩ := s
    cases activity with
    | turn u =>
      cases hnext
      exact waits_advance hP henv hs
    | deed c =>
      cases c with
      | done result =>
        cases hnext
        exact .same rfl .refl
      | op o k =>
        cases hnext
        have hcode := hs.deed _ rfl
        have hbrings : w.Brings env _ := (perform_touches (hP.quiet o hcode.1) w).brings hw
        exact .same (hbrings.waits (grows_perform env o _ hw).2) (parts_perform env o hw)
    | none =>
      simp only [next?] at hnext
      split at hnext
      · cases hnext
      · next l hloop =>
        cases hnext
        exact .same rfl ((Part.next hloop fun i h => by cases h).parts hw.toWired)
      · next c l hloop =>
        cases hnext
        exact waits_called hw hloop

/-- The job that is taken up for its turn does not wait. -/
theorem waits_of_turn {c : Callback} {l : Loop Callback} (hw : w.Sound) (hnext : w.loop.next? = some (some c, l))
    (hc : c = .run j) : w.waits j = none := by
  subst hc
  obtain ⟨job, hjob, hwaiting⟩ := hw.idle j ((Loop.turns_next hw.timers hnext).1 ▸ List.mem_cons_self)
  rw [waits_of_get hjob, hwaiting]

theorem waits_of_up (hup : w.Up id job) : w.waits id = none := by
  obtain ⟨now, hnow, -, -, -, hwaiting⟩ := hup.get
  rw [waits_of_get hnow, hwaiting]

/-- Jobs are woken in order, whatever happens. -/
theorem Step.woken (hP : Op.Guards P) (henv : env.Confined) (hs : s.Governed P) (h : Step env P s t)
    (hwoken : s.world.Woken s.world.waits) : t.world.Woken t.world.waits := by
  cases h.waits hP henv hs with
  | same hwaits hparts =>
    rw [hwaits]
    exact hparts.woken hwoken
  | @taken j c l _ hnext hc hwaits hparts =>
    rw [hwaits]
    have hnext' := hwoken.next hnext
    refine hparts.woken (hnext'.update ?_ none)
    obtain hrun | rfl := hc
    · exact hnext'.idle (waits_of_turn hs.world.toSound hnext hrun)
    · obtain ⟨-, hbehind, hcallbacks⟩ := hwoken.first hnext
      exact ⟨fun hmem => (hbehind _ hmem j rfl).1 rfl, hcallbacks⟩
  | @parked j job future k hturn hopen hwaits hparts =>
    rw [hwaits]
    have hset := hwoken.still (still_modifyJob s.world j ({ · with resume := k, waiting := some future }))
    exact hparts.woken (hset.await (waits_of_up (hs.turn _ hturn)) hopen)

theorem Reachable.woken (hP : Op.Guards P) (henv : env.Confined) (hs : Reachable env P s) : s.world.Woken s.world.waits := by
  obtain ⟨w, hfresh, hsteps⟩ := hs
  induction hsteps with
  | refl => exact hfresh.woken
  | tail hbefore hstep ih => exact hstep.woken hP henv (Reachable.governed hP henv ⟨w, hfresh, hbefore⟩) ih

/-- No job waits before it has begun, whatever happens. -/
theorem Step.begunFirst (hP : Op.Guards P) (henv : env.Confined) (hs : s.Governed P) (h : Step env P s t)
    (hbegun : s.world.BegunFirst) : t.world.BegunFirst := by
  intro j job hj hwaiting
  have hfollows := h.follows hP henv hs
  -- a job that waited before has begun before
  have hbefore (hsame : t.world.waits j = s.world.waits j) : job.begun = true := by
    rw [waits_of_get hj] at hsame
    cases hold : s.world.jobs[j]? with
    | none =>
      rw [World.waits, hold] at hsame
      exact absurd hsame hwaiting
    | some old =>
      rw [waits_of_get hold] at hsame
      apply hfollows.begun hold hj
      exact hbegun j old hold (hsame ▸ hwaiting)
  cases h.waits hP henv hs with
  | same hwaits => exact hbefore (by rw [hwaits])
  | @taken k c l _ _ _ hwaits =>
    by_cases hk : j = k
    · subst hk
      rw [← waits_of_get hj, hwaits, Function.update_self] at hwaiting
      exact absurd rfl hwaiting
    · apply hbefore
      rw [hwaits, Function.update_of_ne hk]
  | @parked k taken future resume hturn _ hwaits =>
    by_cases hk : j = k
    · subst hk
      obtain ⟨now, hnow, -, -, hnowBegun, -⟩ := (hs.turn _ hturn).get
      exact hfollows.begun hnow hj hnowBegun
    · apply hbefore
      rw [hwaits, Function.update_of_ne hk]

theorem Reachable.begunFirst (hP : Op.Guards P) (henv : env.Confined) (hs : Reachable env P s) : s.world.BegunFirst := by
  obtain ⟨w, hfresh, hsteps⟩ := hs
  induction hsteps with
  | refl =>
    intro j job hj
    simp [hfresh.jobs] at hj
  | tail hbefore hstep ih => exact hstep.begunFirst hP henv (Reachable.governed hP henv ⟨w, hfresh, hbefore⟩) ih

/-- A job that waits for the step at the gate goes on to wait for it: if the step is settled, it is taken
off the gate before the job is woken. -/
theorem Step.keeps_waiting (hP : Op.Guards P) (henv : env.Confined) (hs : s.Governed P) (h : Step env P s t)
    (hwoken : s.world.Woken s.world.waits) (hstaged : s.world.Staged) {p : StepId} {q : PacedStep}
    (hpending : s.world.gate.pending = some p) (hq : s.world.gate.steps[p]? = some q)
    (hwaiting : s.world.waits j = some q.future) : t.world.waits j = some q.future := by
  have hother {k : JobId} (hk : k ≠ j) (future? : Option FutureId)
      (hwaits : t.world.waits = Function.update s.world.waits k future?) : t.world.waits j = some q.future := by
    rw [hwaits, Function.update_of_ne hk.symm, hwaiting]
  cases h.waits hP henv hs with
  | same hwaits => rw [hwaits, hwaiting]
  | @taken k c l _ hnext hc hwaits =>
    refine hother ?_ none hwaits
    rintro rfl
    obtain hrun | rfl := hc
    · rw [waits_of_turn hs.world.toSound hnext hrun] at hwaiting
      cases hwaiting
    · exact hwoken.not_first hstaged hpending hq hwaiting hnext
  | @parked k job future _ hturn _ hwaits =>
    refine hother ?_ (some future) hwaits
    rintro rfl
    rw [waits_of_up (hs.turn _ hturn)] at hwaiting
    cases hwaiting

end Scene

end SteppedLogo
