import SteppedLogo.Proofs.Session.Scenes
import SteppedLogo.Proofs.World.Parts

namespace SteppedLogo

namespace World

variable {env : Env} {u v w : World} {j : JobId} {mine : Option JobId}

/-- A job goes on as it would have: nothing happens to it but that it may be asked to end. -/
structure Bides (j : JobId) (w v : World) : Prop where
  job : ∀ job : Job, w.jobs[j]? = some job → ∃ now : Job, v.jobs[j]? = some now ∧ now.future = job.future ∧
    now.run = job.run ∧ now.resume = job.resume ∧ now.waiting = job.waiting ∧ (job.begun = true → now.begun = true)
  outcome : ∀ job : Job, w.jobs[j]? = some job → v.outcome? job.future = w.outcome? job.future

theorem Bides.refl (w : World) : Bides j w w := ⟨fun job hj => ⟨job, hj, rfl, rfl, rfl, rfl, id⟩, fun _ _ => rfl⟩

theorem Bides.trans (huv : Bides j u v) (hvw : Bides j v w) : Bides j u w := by
  refine ⟨fun job hj => ?_, fun job hj => ?_⟩
  · obtain ⟨now, hnow, hfuture, hrun, hresume, hwaiting, hbegun⟩ := huv.job job hj
    obtain ⟨later, hlater, hfuture', hrun', hresume', hwaiting', hbegun'⟩ := hvw.job now hnow
    exact ⟨later, hlater, hfuture'.trans hfuture, hrun'.trans hrun, hresume'.trans hresume, hwaiting'.trans hwaiting,
      fun h => hbegun' (hbegun h)⟩
  · obtain ⟨now, hnow, hfuture, -⟩ := huv.job job hj
    rw [← hfuture, hvw.outcome now hnow, hfuture]
    exact huv.outcome job hj

theorem Extends.bides (h : w.Extends v) : Bides j w v := by
  refine ⟨fun job hj => ?_, fun job hj => h.owned j job hj⟩
  obtain ⟨b, hb⟩ := h.job j job hj
  exact ⟨_, hb, rfl, rfl, rfl, rfl, fun h => h⟩

/-- Where another job is set apart. -/
theorem Passes.bides (h : w.Passes mine v) (hw : w.Wired) (hfollows : w.Follows v) (hne : mine ≠ some j) :
    Bides j w v := by
  refine ⟨fun job hj => ?_, fun job hj => h.ended hw hj hne⟩
  obtain ⟨now, hnow, hfuture, hrun, -⟩ := hfollows.job j job hj
  obtain ⟨old, hold, -, -, hsame⟩ := h.leaves.job j now hnow
  rw [hj] at hold
  cases hold
  exact ⟨now, hnow, hfuture, hrun, (hsame hne).1, (hsame hne).2, hfollows.begun hj hnow⟩

end World

namespace Scene

open World

variable {env : Env} {P : Op → Prop} {s t u : Scene} {v w : World} {id j : JobId} {job : Job} {task : FutureId}

/-- Whether a job has its turn. -/
def HasTurn (s : Scene) (j : JobId) : Prop := ∃ taken rest, s.activity = .turn ⟨j, taken, rest⟩

theorem not_hasTurn_of_idle (hidle : s.activity.turn? = none) : ¬ s.HasTurn j := by
  rintro ⟨taken, rest, hturn⟩
  rw [hturn] at hidle
  cases hidle

/-- What becomes in a step of a job that has not ended and does not have its turn. -/
inductive Fate (s t : Scene) (j : JobId) (job : Job) : Prop
  | bides (hbides : Bides j s.world t.world) (hnot : ¬ t.HasTurn j)
  | taken {received : Except FaultId Value} (hturn : t.activity = .turn ⟨j, job, job.resume received⟩)
    (hreceived : Receives s.world t.world (job.cancelRequested = true) job.waiting received)
  | unbegun {fault : FaultId} (hbegun : job.begun = false)
    (hreceived : Receives s.world t.world (job.cancelRequested = true) job.waiting (.error fault))
    (hout : t.world.outcome? job.future =
      some (if t.world.faults.kindOf fault = .taskCancelled then .cancelled else .fault fault))

/-- The callback that takes up a job is called. -/
theorem fate_resumed (hw : w.Sound) (hproceeds : w.Proceeds v) (hpasses : w.Passes none v) (hjobs : v.jobs = w.jobs)
    {received : Except FaultId Value}
    (hreceived : ∀ job : Job, v.jobs[id]? = some job → Receives w v False job.waiting received)
    (hj : w.jobs[j]? = some job) : Fate { world := w } (resumed v id received) j job := by
  obtain ⟨hv, hfollows⟩ := hproceeds hw
  have hbides : Bides j w v := hpasses.bides hw.toWired hfollows nofun
  obtain heq | ⟨taken, hid, hopen, hcases⟩ := resumed_cases v id received
  · rw [heq]
    exact .bides hbides (not_hasTurn_of_idle rfl)
  have hresumed := receives_resumption (hreceived taken hid) taken
  obtain ⟨htaken, htook⟩ := proceeds_takeUp hid hopen received hv
  obtain ⟨f, hf, howner⟩ := htaken.job_future id _ (takeUp_get hid received)
  have hf : (v.takeUp id taken received).2.futures[taken.future]? = some f := hf
  by_cases hself : id = j
  · subst hself
    obtain rfl : taken = job := by
      rw [hjobs, hj] at hid
      exact (Option.some.inj hid).symm
    obtain ⟨hbegun, heq⟩ | ⟨-, heq⟩ := hcases
    · rw [heq]
      cases ends_unbegun hw hproceeds hid hopen (hreceived taken hid) hbegun with
      | finished hturn => cases hturn
      | unbegun _ hnot hreceived hout => exact .unbegun hnot hreceived hout
    · rw [heq]
      exact .taken rfl (hresumed.mono (.refl _) fun h => h)
  · have hne : some id ≠ some j := fun h => hself (Option.some.inj h)
    have htakes : Bides j v (v.takeUp id taken received).2 := (passes_takeUp v id taken received).bides hv.toWired htook hne
    obtain ⟨hbegun, heq⟩ | ⟨-, heq⟩ := hcases
    · rw [heq]
      have hends : Passes (some id) (v.takeUp id taken received).2
          ((v.takeUp id taken received).2.endJob id taken.future (v.takeUp id taken received).1) :=
        passes_endJob htaken.toWired hf howner _
      have hafter := (proceeds_unbegun hid hopen received hbegun hv).2
      have hboth := (passes_takeUp v id taken received).trans hends
      exact .bides (hbides.trans (hboth.bides hv.toWired hafter hne)) (not_hasTurn_of_idle rfl)
    · rw [heq]
      refine .bides (hbides.trans htakes) ?_
      rintro ⟨other, rest, hturn⟩
      exact hself (congrArg Turn.id (Activity.turn.inj hturn))

/-- A callback is taken off the queue and called. -/
theorem fate_called {c : Callback} {l : Loop Callback} (hw : w.Sound) (hnext : w.loop.next? = some (some c, l))
    (hj : w.jobs[j]? = some job) : Fate { world := w } (called env { w with loop := l } c) j job := by
  have htaken : w.Passes none { w with loop := l } := passes_next hw hnext
  have hloop : w.Proceeds { w with loop := l } := (light_next hw hnext).grows.proceeds
  have hsound := (hloop hw).1
  have hqueued : w.loop.Queued c := (Loop.Queued.of_next? hnext).2 c rfl
  -- callbacks that do at once what they do
  have hpasses {v : World} (hpasses : World.Passes none { w with loop := l } v)
      (hproceeds : World.Proceeds { w with loop := l } v) {a : Activity} (ha : a.turn? = none) :
      Fate { world := w } { world := v, activity := a } j job := by
    have hafter := (hloop.trans hproceeds hw).2
    exact .bides ((htaken.trans hpasses).bides hw.toWired hafter nofun) (not_hasTurn_of_idle ha)
  cases c with
  | run id =>
    exact fate_resumed hw hloop htaken rfl (fun now hnow => .nothing (hw.idle_of_next hnext hnow)) hj
  | wake id =>
    simp only [called]
    cases houtcome : ((w.jobs[id]?).bind Job.waiting).bind (World.outcome? { w with loop := l }) with
    | none => exact hpasses (.refl _) (.refl _) rfl
    | some o =>
      obtain ⟨future, hwaits, ho⟩ := Option.bind_eq_some_iff.1 houtcome
      obtain ⟨waiter, hwaiter, hwaiting⟩ := Option.bind_eq_some_iff.1 hwaits
      have haside := World.aside_receive { w with loop := l } o
      refine fate_resumed hw (hloop.trans haside.light.grows.proceeds) (htaken.trans (passes_receive _ o)) haside.jobs
        (fun now hnow => ?_) hj
      rw [haside.jobs, hwaiter] at hnow
      cases hnow
      have ho : w.outcome? future = some o := ho
      rw [hwaiting]
      exact receives_outcome ho _ _
  | elapse i => exact hpasses (passes_elapse hsound i) (proceeds_elapse _ i) rfl
  | retract i =>
    refine hpasses (passes_retract { w with loop := l } fun q hq => ?_) (grows_retract _ i).proceeds rfl
    obtain ⟨settled, hget, hdone⟩ := hw.queued _ hqueued
    have hq : w.gate.steps[i]? = some q := hq
    rw [hget] at hq
    cases hq
    exact hdone
  | rouse future =>
    obtain ⟨f, hf, hplain, hother⟩ := hw.queued _ hqueued
    exact hpasses (rouse_keeps (.refl _) (passes_settle hsound.toWired hf hplain hother (.value .none)))
      (proceeds_rouse hf hplain) rfl
  | deed d => exact hpasses (.refl _) (.refl _) rfl

/-- Another job has its turn. -/
theorem fate_advance {turn : Turn} (hw : w.Sound) (hup : w.Up turn.id turn.job) (hne : turn.id ≠ j) :
    Fate { world := w, activity := .turn turn } (turn.advance env w) j job := by
  obtain ⟨id, taken, r⟩ := turn
  have hother : some id ≠ some j := fun h => hne (Option.some.inj h)
  have hnot {v : World} {rest : Routine (Except FaultId Value)} :
      ¬ ({ world := v, activity := .turn ⟨id, taken, rest⟩ } : Scene).HasTurn j := by
    rintro ⟨other, rest, hturn⟩
    exact hne (congrArg Turn.id (Activity.turn.inj hturn))
  have hputDown (stop : Stop (Except FaultId Value)) :
      Fate { world := w, activity := .turn ⟨id, taken, r⟩ } { world := w.putDown id taken stop } j job :=
    .bides ((passes_putDown hw hup stop).bides hw.toWired (proceeds_putDown hup stop hw).2 hother) (not_hasTurn_of_idle rfl)
  cases r with
  | done result => exact hputDown (.finished result)
  | op o k => exact .bides (grows_perform env o w hw).2.bides hnot
  | await future k =>
    cases future with
    | none => exact hputDown (.paused k)
    | some future =>
      simp only [Turn.advance]
      cases w.outcome? future with
      | none => exact hputDown (.parked future k)
      | some o => exact .bides ((w.aside_receive o).light.grows hw).2.bides hnot

theorem Step.fate (hs : s.Intact) (h : Step env P s t) (hj : s.world.jobs[j]? = some job) (hnot : ¬ s.HasTurn j) :
    Fate s t j job := by
  have hw := hs.sound
  cases h with
  | clock w clock => exact .bides ((light_setClock w clock).grows hw).2.bides (not_hasTurn_of_idle rfl)
  | @perform w o => exact .bides (grows_perform env o w hw).2.bides (not_hasTurn_of_idle rfl)
  | @spawn w code => exact .bides (grows_spawn w code hw).2.bides (not_hasTurn_of_idle rfl)
  | next hnext =>
    obtain ⟨w, activity⟩ := s
    cases activity with
    | turn turn =>
      cases hnext
      refine fate_advance hw (hs.turn _ rfl) fun hself => ?_
      subst hself
      exact hnot ⟨_, _, rfl⟩
    | deed c =>
      cases c with
      | done result =>
        cases hnext
        exact .bides (.refl w) (not_hasTurn_of_idle rfl)
      | op o k =>
        cases hnext
        exact .bides (grows_perform env o w hw).2.bides (not_hasTurn_of_idle rfl)
    | none =>
      simp only [next?] at hnext
      split at hnext
      · cases hnext
      · next l hloop =>
        cases hnext
        exact .bides ((light_next hw hloop).grows hw).2.bides (not_hasTurn_of_idle rfl)
      · next c l hloop =>
        cases hnext
        exact fate_called hw hloop hj

/-- An operation is performed in a step, or nothing happens but what happens between operations. -/
theorem Step.performs_or_calm (hs : s.Intact) (h : Step env P s t) :
    (∃ o, t.world = (s.world.perform env o).2) ∨ s.world.Calm t.world ∧ s.world.Follows t.world := by
  have hw := hs.sound
  have hpasses {v : World} (hpasses : s.world.Passes none v) (hproceeds : s.world.Proceeds v) :
      (∃ o, v = (s.world.perform env o).2) ∨ s.world.Calm v ∧ s.world.Follows v :=
    .inr ⟨hpasses.calm, (hproceeds hw).2⟩
  have heffect {t : Scene} (h : Effect env (fun _ => True) s t) :
      (∃ o, t.world = (s.world.perform env o).2) ∨ s.world.Calm t.world ∧ s.world.Follows t.world := by
    obtain ⟨o, -, hworld⟩ | hcalm := h.world
    · exact .inl ⟨o, hworld⟩
    · exact .inr ⟨hcalm, h.follows⟩
  cases h with
  | clock w clock => exact hpasses (passes_setClock w clock) (light_setClock w clock).grows.proceeds
  | perform w ho => exact .inl ⟨_, rfl⟩
  | @spawn w code => exact .inr ⟨calm_addJob w code, (grows_spawn w code hw).2.follows⟩
  | next hnext =>
    obtain ⟨w, activity⟩ := s
    cases activity with
    | turn turn =>
      cases hnext
      obtain ⟨id, taken, r⟩ := turn
      by_cases hop : ∃ o k, r = .op o k
      · obtain ⟨o, k, rfl⟩ := hop
        exact .inl ⟨o, rfl⟩
      · exact heffect (effect_advance hw (hs.turn _ rfl) fun o k hr => hop ⟨o, k, hr⟩)
    | deed c =>
      cases c with
      | done result =>
        cases hnext
        exact hpasses (.refl w) (.refl w)
      | op o k =>
        cases hnext
        exact .inl ⟨o, rfl⟩
    | none =>
      simp only [next?] at hnext
      split at hnext
      · cases hnext
      · next l hloop =>
        cases hnext
        exact hpasses (passes_next hw hloop) (light_next hw hloop).grows.proceeds
      · next c l hloop =>
        cases hnext
        exact heffect (effect_called hw (fun d _ => Code.all_true _) hloop)

/-- What holds of what has happened is not lost. -/
theorem Step.goes_on (hs : s.Intact) (h : Step env P s t) :
    s.world.Follows t.world ∧ s.world.faults.Keeps t.world.faults := by
  obtain ⟨o, hworld⟩ | ⟨hcalm, hfollows⟩ := h.performs_or_calm hs
  · have hextends := (grows_perform env o s.world hs.sound).2
    rw [hworld]
    exact ⟨hextends.follows, hextends.faults⟩
  · exact ⟨hfollows, hcalm.spares.faults⟩

/-- A job waits for a task, and is to go on with what comes of it. -/
structure Parked (s : Scene) (j : JobId) (task : FutureId) (k : Except FaultId Value → Routine (Except FaultId Value)) :
    Prop where
  idle : ¬ s.HasTurn j
  job : ∃ job : Job, s.world.jobs[j]? = some job ∧ job.begun = true ∧ s.world.isDone job.future = false ∧
    job.waiting = some task ∧ job.resume = k

/-- A job that is put down waits for what it is put down with. -/
theorem parked_putDown (hw : w.Sound) (hup : w.Up j job) (task : FutureId)
    (k : Except FaultId Value → Routine (Except FaultId Value)) :
    ({ world := w.putDown j job (.parked task k) } : Scene).Parked j task k := by
  obtain ⟨now, hnow, hfuture, -, hbegun, -⟩ := hup.get
  obtain ⟨-, hfollows⟩ := proceeds_putDown hup (.parked task k) hw
  obtain ⟨later, hlater, hlaterFuture, -⟩ := hfollows.job j now hnow
  -- it waits before anything comes of a request to cancel it
  have hset := proceeds_modifyJob w j ({ · with resume := k, waiting := some task }) (fun _ => rfl) (fun _ => rfl)
    (fun _ hturn => absurd hturn hup.off) (fun _ _ _ => rfl) hw
  have hpasses : Passes none _ (w.putDown j job (.parked task k)) := passes_parked hw hup.off task k
  obtain ⟨waiter, hwaiter, hsameFuture, hresume, hwaiting⟩ : ∃ waiter : Job,
      (w.modifyJob j ({ · with resume := k, waiting := some task })).jobs[j]? = some waiter ∧
        waiter.future = now.future ∧ waiter.resume = k ∧ waiter.waiting = some task := by
    rw [modifyJob_get, if_pos rfl, hnow]
    exact ⟨_, rfl, rfl, rfl, rfl⟩
  have hopen : (w.putDown j job (.parked task k)).outcome? waiter.future = w.outcome? waiter.future :=
    hpasses.ended hset.1.toWired hwaiter nofun
  obtain ⟨old, hold, -, -, hsame⟩ := hpasses.leaves.job j later hlater
  rw [hwaiter] at hold
  cases hold
  obtain ⟨hlaterResume, hlaterWaiting⟩ := hsame nofun
  refine ⟨not_hasTurn_of_idle rfl, later, hlater, hfollows.begun hnow hlater hbegun, ?_,
    hlaterWaiting.trans hwaiting, hlaterResume.trans hresume⟩
  rw [hlaterFuture, ← hsameFuture]
  refine isDone_eq_false.2 (hopen.trans ?_)
  rw [hsameFuture]
  exact hup.outcome?_get hnow

/-- What a job receives that waits for a task: what the task has been settled with, or its own cancellation. -/
inductive Answers (w : World) (task : FutureId) : Except FaultId Value → Prop
  | value {x : Value} (hvalue : w.outcome? task = some (.value x)) : Answers w task (.ok x)
  | fault {id : FaultId} (hfault : w.outcome? task = some (.fault id)) : Answers w task (.error id)
  | cancelled {id : FaultId} {fault : Fault} (hget : w.faults.get? id = some fault)
    (hkind : fault.kind = .taskCancelled) : Answers w task (.error id)

theorem Receives.answers {requested : Prop} {received : Except FaultId Value}
    (h : Receives v w requested (some task) received)
    (hfollows : v.Follows w) : Answers w task received := by
  have hkept {o : Outcome} (ho : v.outcome? task = some o) : w.outcome? task = some o := hfollows.futures.outcome? ho
  cases h with
  | nothing hnone => cases hnone
  | value hawaited hvalue =>
    cases hawaited
    exact .value (hkept hvalue)
  | fault hawaited hfault =>
    cases hawaited
    exact .fault (hkept hfault)
  | cancelled hget hkind => exact .cancelled hget hkind

variable {k : Except FaultId Value → Routine (Except FaultId Value)}

/-- It goes on waiting, or has its turn. -/
theorem Step.parked (hs : s.Intact) (h : Step env P s t) (hparked : s.Parked j task k) :
    t.Parked j task k ∨ ∃ taken received, t.activity = .turn ⟨j, taken, k received⟩ ∧ Answers t.world task received := by
  obtain ⟨job, hj, hbegun, hopen, hwaiting, hresume⟩ := hparked.job
  cases h.fate hs hj hparked.idle with
  | bides hbides hnot =>
    obtain ⟨now, hnow, hfuture, -, hsame, hstill, hbegan⟩ := hbides.job job hj
    refine .inl ⟨hnot, now, hnow, hbegan hbegun, ?_, hstill.trans hwaiting, hsame.trans hresume⟩
    rw [hfuture, isDone, hbides.outcome job hj]
    exact hopen
  | taken hturn hreceived =>
    rw [hwaiting] at hreceived
    exact .inr ⟨job, _, hresume ▸ hturn, hreceived.answers (h.goes_on hs).1⟩
  | unbegun hnot =>
    rw [hbegun] at hnot
    cases hnot

end Scene

end SteppedLogo
