import SteppedLogo.Proofs.World.Scene
import SteppedLogo.Proofs.Session.Subsides

namespace SteppedLogo

/-- The step that a callback is about. -/
def Callback.step? : Callback → Option StepId
  | .elapse i | .retract i => some i
  | .run _ | .wake _ | .rouse _ | .deed _ => none

/-- Callbacks that are about no step, and wake no job. -/
def Callback.isPlain : Callback → Bool
  | .run _ | .rouse _ | .deed _ => true
  | .wake _ | .elapse _ | .retract _ => false

/-- A plain callback is about no step. -/
theorem Callback.step?_of_isPlain {c : Callback} (hc : c.isPlain = true) : c.step? = none := by
  cases c with
  | run | rouse | deed => rfl
  | wake | elapse | retract => cases hc

namespace World

variable {env : Env} {P : Op → Prop} {u v w : World} {id j : JobId} {job : Job} {b n : Bool}

/-- Two states that differ neither in the loop, nor in its futures, nor in the steps of the gate. -/
structure Still (w v : World) : Prop where
  loop : v.loop = w.loop
  futures : v.futures = w.futures
  pending : v.gate.pending = w.gate.pending
  steps : v.gate.steps = w.gate.steps
  resettled : v.resettled = w.resettled

/-- What may be queued anew: what is about no step and wakes no job; the end of a nap that has just begun. -/
structure Admits (w : World) (c : Callback) : Prop where
  plain : c.isPlain = true
  fresh : ∀ id, c = .rouse id → w.outcome? id = none ∧ ¬ w.loop.Queued (.rouse id)

/-- A callback that may be queued anew does not end the pacing of a step. -/
theorem Admits.ne_elapse {c : Callback} (h : w.Admits c) (i : StepId) : c ≠ .elapse i := by
  rintro rfl
  cases h.plain

/-- The first turn of a job may be queued. -/
theorem admits_run (w : World) (id : JobId) : w.Admits (.run id) := ⟨rfl, nofun⟩

/-- A deed may be queued. -/
theorem admits_deed (w : World) (d : Deed) : w.Admits (.deed d) := ⟨rfl, nofun⟩

/-- Two states that differ neither in the loop, nor in its futures, nor in the steps of the gate, and whose earlier
faults are told of in the same way. -/
structure Steady (w v : World) : Prop extends w.Still v where
  faults : w.faults.Keeps v.faults

/-- The kinds of pieces; the indices tell whether a job may come to wait in one, and whether a callback is taken off
the queue. What is settled is open, but for a nap that may have been cancelled. A step is rejected with the fault of a
cancellation, and released with a value only where the callback of its timer is called. -/
inductive Piece : Bool → Bool → World → World → Prop
  | steady {b n : Bool} {w v : World} (hsteady : w.Steady v) : Piece b n w v
  | addFuture {b n : Bool} {w v : World} {f : Future} (hopen : f.outcome = none) (hbare : f.callbacks = [])
    (hsteady : (w.addFuture f).2.Steady v) : Piece b n w v
  | soon {b n : Bool} (w : World) {c : Callback} (hc : w.Admits c) : Piece b n w (w.soon c)
  | later {b n : Bool} (w : World) (delay : Float) {c : Callback} (hc : w.Admits c) : Piece b n w (w.later delay c).2
  | await {n : Bool} (w : World) (future : FutureId) (j : JobId) : Piece true n w (w.whenDone future (.wake j))
  | settle {b n : Bool} (w : World) {id : FutureId} (o : Outcome) (hopen : w.isDone id = false)
    (hnap : o = .cancelled ∨ ¬ w.loop.Queued (.rouse id))
    (hother : ∀ (i : StepId) (s : PacedStep), w.gate.steps[i]? = some s → s.future ≠ id) :
    Piece b n w (w.settle id o)
  | cancel {b n : Bool} {w : World} {i : StepId} {s : PacedStep} (hs : w.gate.steps[i]? = some s)
    (hopen : w.isDone s.future = false) : Piece b n w (w.settle s.future .cancelled)
  | reject {b n : Bool} {w u v : World} {i : StepId} {s : PacedStep} {id : FaultId} {f : Fault}
    (hs : w.gate.steps[i]? = some s) (hopen : w.isDone s.future = false) (hretract : (w.retract i).Steady u)
    (hf : u.faults.get? id = some f) (hkind : f.kind = .cancellation)
    (hsteady : (u.settle s.future (.fault id)).Steady v) : Piece b n w v
  | next {b : Bool} {w : World} {c : Option Callback} {l : Loop Callback} (hnext : w.loop.next? = some (c, l))
    (hc : ∀ i, c ≠ some (.elapse i) ∧ c ≠ some (.retract i)) : Piece b true w { w with loop := l }
  | elapse {b : Bool} {w : World} {i : StepId} {l : Loop Callback} (hnext : w.loop.next? = some (some (.elapse i), l)) :
    Piece b true w (World.elapse { w with loop := l } i)
  | retract {b : Bool} {w : World} {i : StepId} {l : Loop Callback} (hnext : w.loop.next? = some (some (.retract i), l)) :
    Piece b true w (World.retract { w with loop := l } i)
  | rouse {b : Bool} {w : World} {id : FutureId} {l : Loop Callback} (hnext : w.loop.next? = some (some (.rouse id), l)) :
    Piece b true w (World.rouse { w with loop := l } id)
  | install {b n : Bool} (w : World) : Piece b n w w.installStep.2

/-- Any number of pieces, each from a state that is wired; in none of them a job comes to wait, unless `b`
allows for it, and no callback is taken off the queue, unless `n` does. -/
abbrev PiecesOf (b n : Bool) : World → World → Prop := Relation.ReflTransGen fun w v => w.Wired ∧ Piece b n w v

/-- Any number of pieces. -/
abbrev Pieces : World → World → Prop := PiecesOf true true

/-- What each piece keeps is kept by any number of them. -/
theorem PiecesOf.keeps {I : World → Prop} (hpiece : ∀ w v, w.Wired → Piece b n w v → I w → I v) (h : PiecesOf b n w v)
    (hw : I w) : I v := by
  induction h with
  | refl => exact hw
  | tail _ hstep ih => exact hpiece _ _ hstep.1 hstep.2 ih

/-- A piece from a state that is wired is one of `PiecesOf`. -/
theorem Piece.pieces (h : Piece b n w v) (hw : w.Wired) : PiecesOf b n w v := .single ⟨hw, h⟩

theorem Still.refl (w : World) : w.Still w := ⟨rfl, rfl, rfl, rfl, rfl⟩

theorem Still.trans (huv : u.Still v) (hvw : v.Still w) : u.Still w :=
  ⟨hvw.loop.trans huv.loop, hvw.futures.trans huv.futures, hvw.pending.trans huv.pending,
    hvw.steps.trans huv.steps, hvw.resettled.trans huv.resettled⟩

theorem Steady.refl (w : World) : w.Steady w := ⟨.refl w, .refl _⟩

theorem Steady.trans (huv : u.Steady v) (hvw : v.Steady w) : u.Steady w :=
  ⟨huv.toStill.trans hvw.toStill, huv.faults.trans hvw.faults⟩

/-- What happens aside changes neither the loop nor the futures. -/
theorem Aside.still (h : w.Aside v) : w.Still v := ⟨h.loop, h.futures, h.pending, h.steps, h.resettled⟩

theorem Aside.steady (h : w.Aside v) : w.Steady v := ⟨h.still, h.faults⟩

theorem still_modifyJob (w : World) (id : JobId) (change : Job → Job) : w.Still (w.modifyJob id change) :=
  ⟨rfl, rfl, rfl, rfl, rfl⟩

theorem steady_modifyJob (w : World) (id : JobId) (change : Job → Job) : w.Steady (w.modifyJob id change) :=
  ⟨still_modifyJob w id change, .refl _⟩

theorem steady_modifyRun (w : World) (id : RunId) (change : Run → Run) : w.Steady (w.modifyRun id change) :=
  ⟨⟨rfl, rfl, rfl, rfl, rfl⟩, .refl _⟩

/-- A steady change is a piece. -/
theorem Steady.pieces (h : w.Steady v) (hw : w.Wired) : PiecesOf b n w v := (Piece.steady h).pieces hw

/-- Cancelling a step of a wired state comes down to pieces: it is taken off the gate, and rejected if it was open. -/
theorem pieces_cancelStep (hw : w.Wired) (i : StepId) (reason : Value) : PiecesOf b n w (w.cancelStep i reason).2 := by
  obtain ⟨heq, -⟩ | ⟨s, hs, hopen, heq⟩ := cancelStep_cases w i reason
  · rw [heq]
  · rw [heq]
    exact (Piece.reject hs hopen (aside_raise _ (.cancellation reason)).steady (Faults.get?_add _ _) rfl
      (aside_addLog ..).steady).pieces hw

/-- Cancelling the pending step of a wired state comes down to pieces. -/
theorem pieces_cancelGate (hw : w.Wired) (reason : Value) : PiecesOf b n w (w.cancelGate reason).2 :=
  cancelGate_keeps (K := PiecesOf b n w) .refl fun id => pieces_cancelStep hw id reason

/-- Cancelling the run of a sound state comes down to pieces. -/
theorem pieces_cancelRun (hw : w.Sound) (reason : Value) : PiecesOf b n w (w.cancelRun reason) := by
  refine cancelRun_keeps (K := PiecesOf b n w) .refl fun _ hrunning => ?_
  have hsound := (grows_canceling hrunning reason hw).1
  have hcancel : PiecesOf b n w _ :=
    ((steady_modifyRun w _ _).pieces hw.toWired).trans (pieces_cancelGate hsound.toWired reason)
  exact hcancel.trans ((aside_addLog ..).steady.pieces (grows_cancelGate _ reason hsound).1.toWired)

/-- Settling a future that may be that of a step, as a cancellation does. -/
theorem Cancels.piece (h : Cancels w v) : Piece b n w v := by
  cases h with
  | @plain id f hf hopen hjob =>
    by_cases hstep : ∃ (i : StepId) (s : PacedStep), w.gate.steps[i]? = some s ∧ s.future = id
    · obtain ⟨i, s, hs, rfl⟩ := hstep
      exact .cancel hs (isDone_eq_false.2 ((outcome?_of_get hf).trans hopen))
    · exact .settle w _ (isDone_eq_false.2 ((outcome?_of_get hf).trans hopen)) (.inl rfl)
        fun i s hs hid => hstep ⟨i, s, hs, hid⟩
  | request id => exact .steady (steady_modifyJob w id _)

/-- Cancelling a future of a sound state comes down to pieces; what is settled in the end is the future of no job. -/
theorem pieces_cancelFuture (hw : w.Sound) (id : FutureId) : PiecesOf b n w (w.cancelFuture id).2 :=
  (cancelFuture_keeps (K := fun v => v.Sound ∧ PiecesOf b n w v) ⟨hw, .refl⟩
    (fun _ _ hu hstep => ⟨(hstep.grows hu.1).1, hu.2.trans (hstep.piece.pieces hu.1.toWired)⟩) id).2

/-- Queueing the turn of a job keeps a state wired. -/
theorem wired_soon_run (hw : w.Wired) (id : JobId) : (w.soon (.run id)).Wired := by
  refine hw.mono (.refl w) (.of_eq rfl) (fun j job hj => .inl ⟨job, hj, rfl⟩) (fun _ h => h) (fun c hc => ?_)
    fun _ f _ hf hc => .inl ⟨f, hf, hc⟩
  obtain hc | rfl := Loop.queued_soon.1 hc
  · exact .inl hc
  · exact .inr trivial

/-- A job is added in two pieces, its future and its first turn. -/
theorem pieces_addJob (hw : w.Wired) (code : Work Value) (run : Option RunId) : PiecesOf b n w (w.addJob code run).2 := by
  have hturn : PiecesOf b n w (w.soon (.run w.jobs.size)) := (Piece.soon w (admits_run w _)).pieces hw
  refine hturn.trans ((Piece.addFuture (f := { job := some w.jobs.size }) rfl rfl ?_).pieces (wired_soon_run hw _))
  exact ⟨⟨rfl, rfl, rfl, rfl, rfl⟩, .refl _⟩

/-- A start comes down to pieces. -/
theorem pieces_start (program : Work Value) (source : String) (hw : w.Wired) :
    PiecesOf b n w (w.start program source).2 := by
  obtain ⟨-, heq⟩ | ⟨-, number, nextNumber, message, heq⟩ := start_cases program source w
  · rw [heq]
    exact (aside_complain w _).steady.pieces hw
  · rw [heq]
    generalize hu : ({ w with session := { w.session with
      runs := w.session.runs.push { status := .running, number, source }, nextNumber } }).resetGate.info message = u
    have hrun : w.Steady u := by
      rw [← hu]
      exact ⟨⟨rfl, rfl, rfl, rfl, rfl⟩, .refl _⟩
    have hjobs : u.jobs = w.jobs := by
      rw [← hu]
      rfl
    have hwired := hw.same hjobs hrun.futures hrun.steps hrun.pending hrun.loop
    exact (hrun.pieces hw).trans (pieces_addJob hwired program _)

/-- A future that has just been added is that of no nap yet. -/
theorem admits_nap (hw : w.Wired) : (w.addFuture {}).2.Admits (.rouse w.futures.size) := by
  refine ⟨rfl, fun id h => ?_⟩
  cases h
  refine ⟨by simp [outcome?, addFuture], fun hqueued => ?_⟩
  obtain ⟨f, hf, -⟩ := hw.queued _ hqueued
  rw [Array.getElem?_size] at hf
  cases hf

/-- What an operation does in one go comes down to pieces. -/
theorem Nudge.pieces (h : Nudge env w v) (hw : w.Sound) : PiecesOf b n w v := by
  cases h with
  | aside haside => exact haside.steady.pieces hw.toWired
  | defer => exact (Piece.soon w (admits_deed w _)).pieces hw.toWired
  | deferLater delay => exact (Piece.later w delay (admits_deed w _)).pieces hw.toWired
  | nap delay =>
    have hadd : PiecesOf b n w (w.addFuture {}).2 := (Piece.addFuture rfl rfl (.refl _)).pieces hw.toWired
    exact hadd.trans ((Piece.later _ delay (admits_nap hw.toWired)).pieces ((light_addFuture w).grows hw).1.toWired)
  | cancelStep i reason => exact pieces_cancelStep hw.toWired i reason
  | cancels hcancels => exact hcancels.piece.pieces hw.toWired
  | cancelRun reason => exact pieces_cancelRun hw reason
  | start source => exact pieces_start _ source hw.toWired

/-- What follows where a step is set up for a run. -/
theorem pieces_installed (hw : w.Sound) (id : RunId) : PiecesOf b n w.installStep.2 (w.installFor id).2 := by
  have hwired := (grows_installStep w hw).1.toWired
  have hcount := (steady_modifyRun w.installStep.2 id ({ · with steps := w.installStep.1.seq })).pieces (b := b)
    (n := n) hwired
  obtain ⟨-, heq⟩ | ⟨-, heq⟩ := installFor_cases id w
  · rw [heq]
    exact hcount
  · rw [heq]
    have hcounted : (w.installStep.2.modifyRun id ({ · with steps := w.installStep.1.seq })).Wired :=
      hwired.same rfl rfl rfl rfl rfl
    exact hcount.trans (pieces_cancelStep hcounted _ _)

/-- A step is set up, and rejected at once in a run that is to stop, in pieces. -/
theorem pieces_installFor (hw : w.Sound) (id : RunId) : PiecesOf b n w (w.installFor id).2 :=
  ((Piece.install w).pieces hw.toWired).trans (pieces_installed hw id)

/-- What an operation does comes down to pieces, and the state stays sound. -/
theorem Nudges.pieces (h : Nudges env w v) (hw : w.Sound) : v.Sound ∧ PiecesOf b n w v := by
  induction h with
  | refl => exact ⟨hw, .refl⟩
  | tail _ hnudge ih =>
    exact ⟨(Change.grows (.touch hnudge.touch) ih.1).1, ih.2.trans (hnudge.pieces ih.1)⟩

/-- What running code does comes about in pieces, and makes no job wait, unless it stops a timer by its number. -/
theorem pieces_performWith {notify : Notify}
    (hnotify : ∀ event u, u.Sound ∧ PiecesOf b n w u → (notify event u).2.Sound ∧ PiecesOf b n w (notify event u).2) {o : Op}
    (hkeeps : o.KeepsTimers) {u : World} (hu : u.Sound ∧ PiecesOf b n w u) :
    (performWith env notify o u).2.Sound ∧ PiecesOf b n w (performWith env notify o u).2 := by
  refine performWith_keeps (I := fun u => u.Sound ∧ PiecesOf b n w u) ?_ hnotify ?_ ?_ ?_ ?_ ?_ hu
  · exact fun u v haside hu => ⟨(haside.light.grows hu.1).1, hu.2.trans (haside.steady.pieces hu.1.toWired)⟩
  · exact fun u d hu => ⟨((Change.defer u d : Change env u _).grows hu.1).1,
      hu.2.trans ((Piece.soon u (admits_deed u d)).pieces hu.1.toWired)⟩
  · exact fun u delay d hu => ⟨((Change.deferLater u delay d : Change env u _).grows hu.1).1,
      hu.2.trans ((Piece.later u delay (admits_deed u d)).pieces hu.1.toWired)⟩
  · exact fun u hu => ⟨(grows_installStep u hu.1).1, hu.2.trans ((Piece.install u).pieces hu.1.toWired)⟩
  · exact fun u id hu => ⟨(grows_installFor id u hu.1).1, hu.2.trans (pieces_installFor hu.1 id)⟩
  · intro hquiet u hu
    have hnudges : Nudges env u (performWith env notify o u).2 := performWith_nudges notify hquiet hkeeps u
    obtain ⟨hsound, hpieces⟩ := hnudges.pieces hu.1
    exact ⟨hsound, hu.2.trans hpieces⟩

/-- Where listeners stop no timers, an operation that stops none comes down to pieces at every depth of nesting. -/
theorem pieces_performWithin (hlisteners : ∀ name event, (env.react name event).run.All Op.KeepsTimers)
    (depth : Nat) {o : Op}
    (hkeeps : o.KeepsTimers) {u : World} (hu : u.Sound ∧ PiecesOf b n w u) :
    (performWithin env depth o u).2.Sound ∧ PiecesOf b n w (performWithin env depth o u).2 := by
  have haside (u v : World) (haside : u.Aside v) (hu : u.Sound ∧ PiecesOf b n w u) : v.Sound ∧ PiecesOf b n w v :=
    ⟨(haside.light.grows hu.1).1, hu.2.trans (haside.steady.pieces hu.1.toWired)⟩
  induction depth generalizing o u with
  | zero => exact pieces_performWith (fun event u hu => notifyNone_keeps haside event hu) hkeeps hu
  | succ depth ih =>
    exact pieces_performWith (fun event u hu => notifyWith_keeps (fun o ho u hu => ih ho hu)
      (fun u _ _ _ _ hu => haside u _ (aside_addLog ..) hu) (fun name => hlisteners name event) hu) hkeeps hu

/-- Where listeners stop no timers, an operation that stops none comes down to pieces. -/
theorem pieces_perform (hlisteners : ∀ name event, (env.react name event).run.All Op.KeepsTimers) {o : Op}
    (hkeeps : o.KeepsTimers) (hw : w.Sound) : PiecesOf b n w (w.perform env o).2 :=
  (pieces_performWithin hlisteners _ hkeeps ⟨hw, .refl⟩).2

/-- No step settles with the future of a job. -/
theorem Wired.step_future_ne (hw : w.Wired) (hjob : w.jobs[j]? = some job) (i : StepId) (s : PacedStep)
    (hs : w.gate.steps[i]? = some s) : s.future ≠ job.future := by
  intro hsame
  obtain ⟨f, hf, howner⟩ := hw.job_future j job hjob
  obtain ⟨g, hg, hplain⟩ := hw.step_future i s hs
  rw [hsame, hf] at hg
  cases hg
  rw [howner] at hplain
  cases hplain

/-- No nap ends with the future of a job. -/
theorem Wired.not_rouse (hw : w.Wired) (hjob : w.jobs[j]? = some job) : ¬ w.loop.Queued (.rouse job.future) := by
  intro hqueued
  obtain ⟨f, hf, howner⟩ := hw.job_future j job hjob
  obtain ⟨g, hg, hplain, -⟩ := hw.queued _ hqueued
  rw [hf] at hg
  cases hg
  rw [howner] at hplain
  cases hplain

/-- The end of a job settles its future, which was open. -/
theorem pieces_endJob (hw : w.Wired) (hjob : w.jobs[j]? = some job) (hopen : w.outcome? job.future = none)
    (result : Except FaultId Value) : PiecesOf b n w (w.endJob j job.future result) := by
  obtain ⟨o, heq⟩ := endJob_eq w j job.future result
  rw [heq]
  exact (Piece.settle w o (isDone_eq_false.2 hopen) (.inr (hw.not_rouse hjob)) (hw.step_future_ne hjob)).pieces hw

theorem steady_takeUp (w : World) (id : JobId) (job : Job) (received : Except FaultId Value) :
    w.Steady (w.takeUp id job received).2 := by
  rw [takeUp_eq]
  exact (w.aside_resumption job received).steady.trans (steady_modifyJob _ id _)

/-- The end of a run comes down to pieces, whatever it ends with. -/
theorem pieces_conclude (hw : w.Sound) (r : RunId) (fault : Option FaultId) : PiecesOf b n w (w.conclude r fault).2 := by
  obtain ⟨e, -, -, hstays⟩ | ⟨-, u, reason, status, error, hu, -, hv⟩ := conclude_eq w r fault
  · rw [hstays]
  have hsound := (hu.light.grows hw).1
  have hcancel : PiecesOf b n w _ := (hu.steady.pieces hw.toWired).trans (pieces_cancelGate hsound.toWired reason)
  have hrest : (u.cancelGate reason).2.Steady (w.conclude r fault).2 :=
    ((aside_modifyTrace _ Trace.release).steady.trans (steady_modifyRun _ r _)).trans hv.steady
  exact hcancel.trans (hrest.pieces (grows_cancelGate u reason hsound).1.toWired)

/-- The end of a job's run comes down to pieces in a sound state, and there are none if it is the job of no run. -/
theorem pieces_endRun (hw : w.Sound) (run : Option RunId) (result : Except FaultId Value) :
    PiecesOf b n w (w.endRun run result).2 := by
  cases run with
  | none => exact .refl
  | some r =>
    obtain ⟨fault, heq, -⟩ := endRun_some w r result
    rw [heq]
    exact pieces_conclude hw r fault

/-- The end of a run changes no job. -/
theorem jobs_endRun (w : World) (run : Option RunId) (result : Except FaultId Value) :
    (w.endRun run result).2.jobs = w.jobs := by
  cases run with
  | none => rfl
  | some r =>
    obtain ⟨fault, heq, -⟩ := endRun_some w r result
    rw [heq]
    obtain ⟨e, -, -, hstays⟩ | ⟨-, u, reason, status, error, hu, -, hv⟩ := conclude_eq w r fault
    · rw [hstays]
    have hcancel : (u.cancelGate reason).2.jobs = u.jobs := by
      unfold cancelGate
      split
      · rfl
      · next i _ =>
        obtain ⟨hsame, -⟩ | ⟨s, -, -, hrejected⟩ := cancelStep_cases u i reason
        · rw [hsame]
        · rw [hrejected]
          exact settle_jobs.trans (light_retract u i).jobs
    exact (hv.jobs.trans hcancel).trans hu.jobs

/-- A job that waits for a future, from the moment at which it does, before a request to cancel it is met. -/
def waiting (w : World) (id : JobId) (future : FutureId)
    (k : Except FaultId Value → Routine (Except FaultId Value)) : World :=
  (w.modifyJob id ({ · with resume := k, waiting := some future })).whenDone future (.wake id)

/-- A job may come to wait if it has no turn queued. -/
theorem sound_waiting (hw : w.Sound) (hoff : id ∉ w.loop.turns) (future : FutureId)
    (k : Except FaultId Value → Routine (Except FaultId Value)) : (w.waiting id future k).Sound := by
  have hset := (proceeds_modifyJob w id ({ · with resume := k, waiting := some future }) (fun _ => rfl)
    (fun _ => rfl) (fun _ hturn => absurd hturn hoff) (fun _ _ _ => rfl) hw).1
  exact ((light_whenDone _ future id).grows hset).1

/-- A request to cancel the job is met once it waits. -/
theorem pieces_waiting (hw : w.Sound) (hoff : id ∉ w.loop.turns) (future : FutureId)
    (k : Except FaultId Value → Routine (Except FaultId Value)) :
    PiecesOf b n (w.waiting id future k) (w.park id future k) := by
  have hwaiting := sound_waiting hw hoff future k
  unfold park
  dsimp only
  split
  · have hcancel : PiecesOf b n (w.waiting id future k) _ := pieces_cancelFuture hwaiting future
    split
    · exact hcancel.trans ((steady_modifyJob _ id _).pieces (grows_cancelFuture _ future hwaiting).1.toWired)
    · exact hcancel
  · exact .refl

/-- A job that parks comes to wait in pieces, of which one cancels what it waits for if that was requested before. -/
theorem pieces_park (hw : w.Sound) (hoff : id ∉ w.loop.turns) (future : FutureId)
    (k : Except FaultId Value → Routine (Except FaultId Value)) : Pieces w (w.park id future k) := by
  have hset := (proceeds_modifyJob w id ({ · with resume := k, waiting := some future }) (fun _ => rfl)
    (fun _ => rfl) (fun _ hturn => absurd hturn hoff) (fun _ _ _ => rfl) hw).1
  have hwait : Pieces w (w.waiting id future k) :=
    ((steady_modifyJob w id ({ · with resume := k, waiting := some future })).pieces hw.toWired).trans
    ((Piece.await _ future id).pieces hset.toWired)
  exact hwait.trans (pieces_waiting hw hoff future k)

/-- A job that has its turn ends in pieces. -/
theorem pieces_finished (hw : w.Sound) (hup : w.Up id job) (result : Except FaultId Value) :
    PiecesOf b n w (w.putDown id job (.finished result)) := by
  obtain ⟨now, hnow, hfuture, -⟩ := hup.get
  have hnow' : (w.endRun job.run result).2.jobs[id]? = some now := by rw [jobs_endRun, hnow]
  have hopen : (w.endRun job.run result).2.outcome? now.future = none := by
    rw [owned_endRun hw hnow, hfuture, hup.undone]
  have hend : PiecesOf b n _ _ := pieces_endJob (wired_endRun hw job.run result) hnow' hopen (w.endRun job.run result).1
  rw [hfuture] at hend
  exact (pieces_endRun hw job.run result).trans hend

/-- A job that pauses has its next turn queued. -/
theorem pieces_paused (hw : w.Sound) (k : Except FaultId Value → Routine (Except FaultId Value)) :
    PiecesOf b n w (w.putDown id job (.paused k)) := by
  have hset : PiecesOf b n w _ := (steady_modifyJob w id ({ · with resume := k })).pieces hw.toWired
  have hwired := (hw.modifyJob id ({ · with resume := k }) (fun _ => rfl) (fun _ => rfl) (fun _ _ h => h)
    fun _ _ _ => rfl).toWired
  exact hset.trans ((Piece.soon _ (admits_run _ id)).pieces hwired)

/-- A job that has its turn is put down in pieces, however it leaves off. -/
theorem pieces_putDown (hw : w.Sound) (hup : w.Up id job) (stop : Stop (Except FaultId Value)) :
    Pieces w (w.putDown id job stop) := by
  cases stop with
  | finished result => exact pieces_finished hw hup result
  | parked future k => exact pieces_park hw hup.off future k
  | paused k => exact pieces_paused hw k

end World

namespace Scene

open World

variable {env : Env} {P : Op → Prop} {s t : Scene} {u v w : World} {id : JobId} {job : Job} {b n : Bool}

/-- The state is sound, and the job that has its turn is up. -/
structure Intact (s : Scene) : Prop where
  sound : s.world.Sound
  turn : ∀ t, s.activity = .turn t → s.world.Up t.id t.job

/-- A sound state in which no job has its turn is intact. -/
theorem intact_of_sound (hw : w.Sound) {a : Activity} (ha : ∀ t, a ≠ .turn t) :
    ({ world := w, activity := a } : Scene).Intact := ⟨hw, fun t ht => absurd ht (ha t)⟩

/-- A job is taken up once the callback that does it is off the queue. -/
theorem pieces_resumed (hw : w.Sound) (hoff : id ∉ w.loop.turns) (received : Except FaultId Value) :
    (resumed w id received).Intact ∧ PiecesOf b n w (resumed w id received).world := by
  obtain heq | ⟨job, hjob, hopen, ⟨hbegun, heq⟩ | ⟨hbegun, heq⟩⟩ := resumed_cases w id received
  · rw [heq]
    exact ⟨intact_of_sound hw fun _ h => (by cases h), .refl⟩
  · rw [heq]
    have htaken := (proceeds_takeUp hjob hopen received hw).1.toWired
    refine ⟨intact_of_sound (proceeds_unbegun hjob hopen received hbegun hw).1 fun _ h => (by cases h), ?_⟩
    have hstill : (w.takeUp id job received).2.outcome? job.future = none :=
      (outcome?_takeUp w id job received job.future).trans (isDone_eq_false.1 hopen)
    exact ((steady_takeUp w id job received).pieces hw.toWired).trans
      (pieces_endJob htaken (takeUp_get hjob received) hstill _)
  · rw [heq]
    refine ⟨⟨(proceeds_takeUp hjob hopen received hw).1, fun t ht => ?_⟩,
      (steady_takeUp w id job received).pieces hw.toWired⟩
    cases ht
    exact up_takeUp hjob hopen hoff received hbegun

/-- A callback that is taken from the queue is called in pieces. -/
theorem pieces_called {c : Callback} {l : Loop Callback} (hw : w.Sound)
    (hnext : w.loop.next? = some (some c, l)) :
    (called env { w with loop := l } c).Intact ∧ PiecesOf b true w (called env { w with loop := l } c).world := by
  have hsound : World.Sound { w with loop := l } := ((light_next hw hnext).grows hw).1
  have htaken (hc : c.step? = none) : PiecesOf b true w { w with loop := l } := by
    refine (Piece.next hnext fun i => ⟨fun h => ?_, fun h => ?_⟩).pieces hw.toWired <;> cases h <;> cases hc
  cases c with
  | run id =>
    obtain ⟨hintact, hparts⟩ := pieces_resumed hsound (hw.off_of_next hnext) (.ok .none)
    exact ⟨hintact, (htaken rfl).trans hparts⟩
  | wake id =>
    simp only [called]
    cases houtcome : ((w.jobs[id]?).bind Job.waiting).bind (World.outcome? { w with loop := l }) with
    | none =>
      dsimp only
      exact ⟨intact_of_sound hsound fun _ h => (by cases h), htaken rfl⟩
    | some o =>
      dsimp only
      have haside := World.aside_receive { w with loop := l } o
      have hoff : id ∉ ((World.receive { w with loop := l } o).2).loop.turns := by
        rw [haside.loop]
        exact hsound.off_of_waiting houtcome
      obtain ⟨hintact, hparts⟩ := pieces_resumed (haside.light.grows hsound).1 hoff (World.receive { w with loop := l } o).1
      exact ⟨hintact, ((htaken rfl).trans (haside.steady.pieces hsound.toWired)).trans hparts⟩
  | elapse i =>
    exact ⟨intact_of_sound (proceeds_elapse _ i hsound).1 fun _ h => (by cases h), (Piece.elapse hnext).pieces hw.toWired⟩
  | retract i =>
    exact ⟨intact_of_sound (grows_retract _ i hsound).1 fun _ h => (by cases h), (Piece.retract hnext).pieces hw.toWired⟩
  | rouse future =>
    obtain ⟨f, hf, hplain, -⟩ := hw.queued _ ((Loop.Queued.of_next? hnext).2 _ rfl)
    exact ⟨intact_of_sound (proceeds_rouse (w := { w with loop := l }) hf hplain hsound).1 fun _ h => (by cases h),
      (Piece.rouse hnext).pieces hw.toWired⟩
  | deed d => exact ⟨intact_of_sound hsound fun _ h => (by cases h), htaken rfl⟩

end Scene

end SteppedLogo
