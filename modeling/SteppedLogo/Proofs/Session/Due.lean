import SteppedLogo.Proofs.Session.Concluded
import SteppedLogo.Proofs.Session.Waits

namespace SteppedLogo

namespace Loop

variable {α : Type} {l l' : Loop α} {c : α}

/-- The callbacks that are ready and come from no timer, which only their turn takes off the queue. -/
def steady (l : Loop α) : List α := l.ready.filterMap fun r => if r.timer.isNone then r.callback else none

/-- Callbacks added at the end of the queue are added to those that nothing can cancel. -/
theorem steady_append (cs : List α) (hready : l'.ready = l.ready ++ cs.map fun c => { callback := some c }) :
    l'.steady = l.steady ++ cs := by
  simp only [steady, hready, List.filterMap_append, List.filterMap_map]
  refine congrArg _ ?_
  induction cs with
  | nil => rfl
  | cons c cs ih => simp

/-- Cancelling a timer leaves the callbacks that nothing can cancel. -/
theorem steady_cancel (l : Loop α) (id : TimerId) : (l.cancel id).steady = l.steady := by
  simp only [steady, cancel, List.filterMap_map]
  refine List.filterMap_congr fun r _ => ?_
  simp only [Function.comp, Ready.drop]
  split
  · next htimer => simp [htimer]
  · rfl

/-- Gathering the timers that are due leaves the callbacks that nothing can cancel. -/
theorem steady_gathered (l : Loop α) : l.gathered.steady = l.steady := by
  unfold gathered
  split
  · simp [steady, gather, List.filterMap_append, List.filterMap_map]
  · rfl

/-- What is taken off the queue is one callback at most. -/
theorem mem_steady_next {c : Option α} (hnext : l.next? = some (c, l')) {d : α} (hd : d ∈ l.steady) :
    c = some d ∨ d ∈ l'.steady := by
  obtain ⟨r, rest, hready, rfl, rfl⟩ := next?_eq_some hnext
  rw [← steady_gathered, steady, hready, List.filterMap_cons] at hd
  split at hd
  · exact .inr hd
  · next e he =>
    obtain rfl | hd := List.mem_cons.1 hd
    · split at he
      · exact .inl he
      · cases he
    · exact .inr hd

/-- Nothing is ready where nothing is to be called next. -/
theorem steady_of_next?_eq_none (hnext : l.next? = none) : l.steady = [] := by
  rw [← steady_gathered]
  unfold next? at hnext
  dsimp only at hnext
  split at hnext
  · next hready =>
    have hready : l.gathered.ready = [] := hready
    rw [steady, hready]
    rfl
  · cases hnext

end Loop

namespace World

variable {env : Env} {u v w : World} {id j : JobId} {job : Job} {b : Bool} {future : FutureId} {c : Callback}

/-- A callback waits for a future that is not settled. -/
def Attends (w : World) (future : FutureId) (c : Callback) : Prop :=
  ∃ f : Future, w.futures[future]? = some f ∧ f.outcome = none ∧ c ∈ f.callbacks

/-- No callback is lost: those that are ready stay so, and those that wait for a future are ready once that one
is settled. -/
structure Minds (w v : World) : Prop where
  steady : ∀ c ∈ w.loop.steady, c ∈ v.loop.steady
  attends : ∀ (future : FutureId) (c : Callback), w.Attends future c → v.Attends future c ∨ c ∈ v.loop.steady

theorem Minds.refl (w : World) : w.Minds w := ⟨fun _ hc => hc, fun _ _ h => .inl h⟩

theorem Minds.trans (huv : u.Minds v) (hvw : v.Minds w) : u.Minds w := by
  refine ⟨fun c hc => hvw.steady c (huv.steady c hc), fun future c h => ?_⟩
  obtain h | hc := huv.attends future c h
  · exact hvw.attends future c h
  · exact .inr (hvw.steady c hc)

/-- A change that leaves the futures and drops no callback minds all who wait. -/
theorem minds_of_futures (hsteady : ∀ c ∈ w.loop.steady, c ∈ v.loop.steady) (hfutures : v.futures = w.futures) :
    w.Minds v := by
  refine ⟨hsteady, fun future c h => .inl ?_⟩
  rwa [Attends, hfutures]

/-- A change that moves nothing minds all who wait. -/
theorem Still.minds (h : w.Still v) : w.Minds v :=
  minds_of_futures (fun c hc => by rwa [h.loop]) h.futures

theorem minds_soon (w : World) (c : Callback) : w.Minds (w.soon c) := by
  refine minds_of_futures (fun d hd => ?_) rfl
  change d ∈ (w.loop.soon c).steady
  rw [Loop.steady_append [c] rfl]
  exact List.mem_append_left _ hd

theorem minds_addFuture (w : World) (f : Future) : w.Minds (w.addFuture f).2 :=
  ⟨fun _ hc => hc, fun _ _ ⟨g, hg, h⟩ => .inl ⟨g, getElem?_push_of_some hg, h⟩⟩

/-- Settling a future minds all who wait: those who waited for it are queued. -/
theorem minds_settle (w : World) (id : FutureId) (o : Outcome) : w.Minds (w.settle id o) := by
  obtain ⟨f, hf, hopen⟩ | ⟨-, vain, hsame⟩ := settle_cases w id o
  · have hsteady : (w.settle id o).loop.steady = w.loop.steady ++ f.callbacks := by
      refine Loop.steady_append _ ?_
      rw [settle_of_open hf hopen]
    refine ⟨fun c hc => ?_, fun future c ⟨g, hg, hgopen, hc⟩ => ?_⟩
    · rw [hsteady]
      exact List.mem_append_left _ hc
    · by_cases hsame : id = future
      · subst hsame
        rw [hf] at hg
        cases hg
        rw [hsteady]
        exact .inr (List.mem_append_right _ hc)
      · refine .inl ⟨g, ?_, hgopen, hc⟩
        rw [settle_get, if_neg hsame, hg]
  · rw [hsame]
    exact minds_of_futures (fun _ hc => hc) rfl

theorem minds_whenDone (w : World) (future : FutureId) (c : Callback) : w.Minds (w.whenDone future c) := by
  unfold whenDone
  split
  · exact minds_soon w c
  · refine ⟨fun _ hc => hc, fun other d ⟨g, hg, hopen, hd⟩ => .inl ?_⟩
    by_cases hsame : future = other
    · refine ⟨{ g with callbacks := g.callbacks ++ [c] }, ?_, hopen, List.mem_append_left _ hd⟩
      simp [Array.getElem?_modify, hsame, hg]
    · refine ⟨g, ?_, hopen, hd⟩
      simp [Array.getElem?_modify, hsame, hg]

/-- Retracting a step minds all who wait. -/
theorem minds_retract (w : World) (i : StepId) : w.Minds (w.retract i) := by
  refine minds_of_futures (fun c hc => ?_) (futures_retract w i)
  rw [loop_retract]
  split
  · rwa [Loop.steady_cancel]
  · exact hc

/-- No callback is lost in a part in which none is taken off the queue. -/
theorem Part.minds (h : Part b false w v) : w.Minds v := by
  cases h with
  | still hstill => exact hstill.minds
  | clock clock => exact minds_of_futures (fun _ hc => hc) rfl
  | addFuture _ _ hstill => exact (minds_addFuture w _).trans hstill.minds
  | soon => exact minds_soon w _
  | later => exact minds_of_futures (fun _ hc => hc) rfl
  | dropTimer _ timer =>
    refine minds_of_futures (fun c hc => ?_) rfl
    change c ∈ (w.loop.cancel timer).steady
    rwa [Loop.steady_cancel]
  | await _ future j => exact minds_whenDone w future _
  | settle _ o => exact minds_settle w _ o
  | cancel => exact minds_settle w _ _
  | release _ _ hretract _ hstill =>
    exact (((minds_retract w _).trans hretract.minds).trans (minds_settle _ _ _)).trans hstill.minds
  | install =>
    obtain ⟨message, heq⟩ := installStep_eq w
    rw [heq]
    exact ⟨fun _ hc => hc, fun _ _ ⟨g, hg, h⟩ => .inl ⟨g, getElem?_push_of_some hg, h⟩⟩

/-- Any parts of a change mind all who wait. -/
theorem PartsOf.minds (h : PartsOf b false w v) : w.Minds v := by
  induction h with
  | refl => exact .refl w
  | tail _ hpart ih => exact ih.trans hpart.2.minds

/-- A quiet operation has nobody wait who did not, and ends nobody's waiting. -/
theorem waits_perform {o : Op} (hquiet : o.IsQuiet) (hw : w.Sound) : (w.perform env o).2.waits = w.waits :=
  ((perform_touches hquiet w).brings hw).waits (grows_perform env o w hw).2

/-- Every operation in a sound world minds all who wait. -/
theorem minds_perform (env : Env) (o : Op) (hw : w.Sound) : w.Minds (w.perform env o).2 :=
  (parts_perform env o hw : PartsOf false false _ _).minds

/-- How a job goes on that has not its turn, and waits for the given future. -/
inductive Minded (w : World) (j : JobId) : Option FutureId → Prop
  | queued (hqueued : .run j ∈ w.loop.steady) : Minded w j none
  | woken {future : FutureId} (hqueued : .wake j ∈ w.loop.steady) : Minded w j (some future)
  | attends {future : FutureId} (hattends : w.Attends future (.wake j)) : Minded w j (some future)

/-- A job that is minded stays so over a change that minds all who wait. -/
theorem Minded.minds {future? : Option FutureId} (h : w.Minded j future?) (hminds : w.Minds v) : v.Minded j future? := by
  cases h with
  | queued hqueued => exact .queued (hminds.steady _ hqueued)
  | woken hqueued => exact .woken (hminds.steady _ hqueued)
  | attends hattends =>
    obtain hattends | hqueued := hminds.attends _ _ hattends
    · exact .attends hattends
    · exact .woken hqueued

/-- Something else is taken off the queue. -/
theorem Minded.next {future? : Option FutureId} (h : w.Minded j future?) {c : Option Callback} {l : Loop Callback}
    (hnext : w.loop.next? = some (c, l)) (hrun : c ≠ some (.run j)) (hwake : c ≠ some (.wake j)) :
    Minded { w with loop := l } j future? := by
  cases h with
  | queued hqueued => exact .queued ((Loop.mem_steady_next hnext hqueued).resolve_left hrun)
  | woken hqueued => exact .woken ((Loop.mem_steady_next hnext hqueued).resolve_left hwake)
  | attends hattends => exact .attends hattends

end World

namespace Scene

open World

variable {env : Env} {P : Op → Prop} {s t : Scene} {w : World} {id j : JobId} {job old : Job}

/-- Unless a job has its turn, or has ended, it is queued, or it will be. -/
def Due (id : JobId) (s : Scene) : Prop :=
  (∀ u, s.activity = .turn u → u.id ≠ id) → ∀ job : Job, s.world.jobs[id]? = some job →
    s.world.isDone job.future = false → s.world.Minded id job.waiting

/-- A job that has its turn is due. -/
theorem due_of_turn {w : World} {job : Job} {r : Routine (Except FaultId Value)} :
    ({ world := w, activity := .turn ⟨id, job, r⟩ } : Scene).Due id := fun hnot => absurd rfl (hnot _ rfl)

/-- Nothing happens to a job that is not taken up. -/
theorem Due.minds (h : s.Due id) (hjob : s.world.jobs[id]? = some old) (hfollows : s.world.Follows t.world)
    (hwaits : t.world.waits id = s.world.waits id)
    (hminded : ∀ future?, s.world.Minded id future? → t.world.Minded id future?)
    (hturn : ∀ u, s.activity = .turn u → u.id = id → ∃ u', t.activity = .turn u' ∧ u'.id = id) : t.Due id := by
  intro hnot job hj hopen
  obtain ⟨now, hnow, hfuture, -⟩ := hfollows.job id old hjob
  rw [hj] at hnow
  cases hnow
  have hbefore : s.world.isDone old.future = false := hfollows.futures.open_before (hfuture ▸ hopen)
  rw [← waits_of_get hj, hwaits, waits_of_get hjob]
  refine hminded _ (h (fun u hu hid => ?_) old hjob hbefore)
  obtain ⟨u', hu', hid'⟩ := hturn u hu hid
  exact hnot u' hu' hid'

/-- A job that is taken up has its turn, or has ended. -/
theorem due_resumed (hw : w.Sound) (hjob : w.jobs[id]? = some job) (received : Except FaultId Value) :
    (resumed w id received).Due id := by
  cases hdone : w.isDone job.future with
  | true =>
    simp only [resumed, hjob, hdone, if_true]
    intro _ now hnow hopen
    have hnow : w.jobs[id]? = some now := hnow
    rw [hjob] at hnow
    cases hnow
    have hopen : w.isDone job.future = false := hopen
    rw [hdone] at hopen
    cases hopen
  | false =>
    simp only [resumed, hjob, hdone, Bool.false_eq_true, if_false]
    split
    · exact due_of_turn
    · intro _ now hnow hopen
      have htaken := (proceeds_takeUp hjob hdone received hw).1
      obtain ⟨f, hf, -⟩ := htaken.job_future id _ (takeUp_get hjob received)
      obtain ⟨o, heq⟩ := endJob_eq (w.takeUp id job received).2 id job.future (w.takeUp id job received).1
      have hnow : ((w.takeUp id job received).2.endJob id job.future (w.takeUp id job received).1).jobs[id]? =
        some now := hnow
      rw [heq, settle_jobs, takeUp_get hjob received] at hnow
      cases hnow
      have hended := isDone_endJob hf id (w.takeUp id job received).1
      have hopen : World.isDone _ job.future = false := hopen
      rw [hended] at hopen
      cases hopen

/-- What becomes of a job where another callback than its own is called. -/
theorem Due.called_beside {c : Callback} {l : Loop Callback} {t : Scene} (hjob : w.jobs[id]? = some old)
    (hnext : w.loop.next? = some (some c, l)) (hdue : ({ world := w } : Scene).Due id) (hfollows : w.Follows t.world)
    (hrun : c ≠ .run id) (hwake : c ≠ .wake id) (hwaits : t.world.waits id = w.waits id)
    (hminds : World.Minds { w with loop := l } t.world) : t.Due id := by
  refine hdue.minds hjob hfollows hwaits (fun future? h => ?_) fun u hu => by cases hu
  exact (h.next hnext (fun hc => hrun (Option.some.inj hc)) fun hc => hwake (Option.some.inj hc)).minds hminds

/-- A callback that has a job go on, be it that one or another. -/
theorem Due.called_resumed {c : Callback} {l : Loop Callback} {j : JobId} {received : Except FaultId Value}
    (hjob : w.jobs[id]? = some old) (hnext : w.loop.next? = some (some c, l)) (hdue : ({ world := w } : Scene).Due id)
    (hc : c = .run j ∨ c = .wake j) (hjobs : u.jobs = w.jobs) (hu : u.Sound) (hoff : j ∉ u.loop.turns)
    (hminds : World.Minds { w with loop := l } u) (hfollows : w.Follows (resumed u j received).world) :
    (resumed u j received).Due id := by
  by_cases hself : j = id
  · subst hself
    exact due_resumed hu (hjobs ▸ hjob) received
  · have hparts : PartsOf false false u (resumed u j received).world := (pieces_resumed hu hoff received).2.parts
    refine hdue.called_beside hjob hnext hfollows ?_ ?_ ?_ (hminds.trans hparts.minds)
    · rintro rfl
      obtain hc | hc := hc <;> cases hc
      exact hself rfl
    · rintro rfl
      obtain hc | hc := hc <;> cases hc
      exact hself rfl
    · have hwaits : u.waits = w.waits := waits_of_jobs hjobs
      obtain hsame | hupdate := waits_resumed u j received
      · rw [hsame, hwaits]
      · rw [hupdate, hwaits, Function.update_of_ne (Ne.symm hself)]

/-- A job that is due stays so when a callback is called, provided the call follows from the loop. -/
theorem due_called {c : Callback} {l : Loop Callback} (hw : w.Sound) (hwoken : w.Woken w.waits)
    (hjob : w.jobs[id]? = some old) (hnext : w.loop.next? = some (some c, l)) (hdue : ({ world := w } : Scene).Due id)
    (hfollows : w.Follows (called env { w with loop := l } c).world) : (called env { w with loop := l } c).Due id := by
  have hsound : World.Sound { w with loop := l } := ((light_next hw hnext).grows hw).1
  cases c with
  | run j => exact hdue.called_resumed hjob hnext (.inl rfl) rfl hsound (hw.off_of_next hnext) (.refl _) hfollows
  | wake j =>
    simp only [called] at hfollows ⊢
    cases houtcome : ((w.jobs[j]?).bind Job.waiting).bind (World.outcome? { w with loop := l }) with
    | none =>
      simp only [houtcome] at hfollows ⊢
      refine hdue.called_beside hjob hnext hfollows (by simp) ?_ rfl (.refl _)
      intro hc
      cases hc
      obtain ⟨⟨future, hwaits, hdone⟩, -⟩ := hwoken.first hnext
      obtain ⟨o, ho⟩ := isDone_iff.1 hdone
      have hnone : (w.waits id).bind w.outcome? = none := houtcome
      rw [hwaits, Option.bind_some, ho] at hnone
      cases hnone
    | some o =>
      simp only [houtcome] at hfollows ⊢
      have haside := World.aside_receive { w with loop := l } o
      refine hdue.called_resumed hjob hnext (.inr rfl) haside.jobs
        (haside.light.grows hsound).1 ?_ haside.still.minds hfollows
      rw [haside.loop]
      exact hsound.off_of_waiting houtcome
  | elapse i =>
    have hparts : PartsOf false false { w with loop := l } (World.elapse { w with loop := l } i) :=
      parts_elapse hsound.toWired i
    exact hdue.called_beside hjob hnext hfollows (by simp) (by simp)
      (congrFun (waits_of_jobs (jobs_elapse _ i)) id) hparts.minds
  | retract i =>
    exact hdue.called_beside hjob hnext hfollows (by simp) (by simp)
      (congrFun (waits_of_jobs (light_retract _ i).jobs) id) (minds_retract _ i)
  | rouse future =>
    exact hdue.called_beside hjob hnext hfollows (by simp) (by simp)
      (congrFun (waits_of_jobs (jobs_rouse _ future)) id) (rouse_keeps (.refl _) (minds_settle _ future _))
  | deed d => exact hdue.called_beside hjob hnext hfollows (by simp) (by simp) rfl (.refl _)

/-- A job that comes to wait for a future that is not settled yet is woken once that one is. -/
theorem minded_park (hw : w.Sound) (hup : w.Up id job) {future : FutureId} {f : Future} (hf : w.futures[future]? = some f)
    (hopen : w.outcome? future = none) (k : Except FaultId Value → Routine (Except FaultId Value)) :
    (w.park id future k).Minded id (some future) := by
  have hparts : PartsOf false false (w.waiting id future k) (w.park id future k) :=
    (pieces_waiting hw hup.off future k).parts
  have hundone : World.isDone (w.modifyJob id ({ · with resume := k, waiting := some future })) future = false :=
    isDone_eq_false.2 hopen
  refine Minded.minds (.attends ⟨{ f with callbacks := f.callbacks ++ [.wake id] }, ?_, ?_, ?_⟩) hparts.minds
  · have hf : (w.modifyJob id ({ · with resume := k, waiting := some future })).futures[future]? = some f := hf
    simp only [World.waiting, whenDone, hundone, Bool.false_eq_true, if_false, Array.getElem?_modify, if_true, hf]
    rfl
  · rwa [outcome?_of_get hf] at hopen
  · simp

/-- What becomes of a job in its own turn. -/
theorem due_self {r : Routine (Except FaultId Value)} (hw : w.Sound) (hup : w.Up id job)
    (hawaits : ∀ (future : FutureId) (k : Except FaultId Value → Routine (Except FaultId Value)),
      r = .await (some future) k → ∃ f, w.futures[future]? = some f) : (Turn.advance env ⟨id, job, r⟩ w).Due id := by
  obtain ⟨before, hbefore, hfuture, -, -, hwaiting⟩ := hup.get
  cases r with
  | op o k => exact due_of_turn
  | done result =>
    intro _ now hnow hopen
    obtain ⟨g, hg, -⟩ := open_endRun hw.toWired hup result
    have hdone : (w.putDown id job (.finished result)).isDone job.future = true := isDone_endJob hg id _
    obtain ⟨later, hlater, hsame, -⟩ := (proceeds_putDown hup (.finished result) hw).2.job id before hbefore
    have hnow : (w.putDown id job (.finished result)).jobs[id]? = some now := hnow
    rw [hlater] at hnow
    cases hnow
    have hopen : (w.putDown id job (.finished result)).isDone now.future = false := hopen
    rw [hsame, hfuture, hdone] at hopen
    cases hopen
  | await future? k =>
    cases future? with
    | none =>
      intro _ now hnow _
      have hwaits : (w.putDown id job (.paused k)).waits id = w.waits id :=
        congrFun (waits_modifyJob_same w id ({ · with resume := k }) fun _ => rfl) id
      have hnow : (w.putDown id job (.paused k)).jobs[id]? = some now := hnow
      rw [waits_of_get hnow, waits_of_get hbefore, hwaiting] at hwaits
      rw [hwaits]
      refine .queued ?_
      change .run id ∈ (w.loop.soon (.run id)).steady
      rw [Loop.steady_append [.run id] rfl]
      exact List.mem_append_right _ (List.mem_singleton_self _)
    | some future =>
      simp only [Turn.advance]
      cases ho : w.outcome? future with
      | some o => exact due_of_turn
      | none =>
        intro _ now hnow _
        obtain ⟨f, hf⟩ := hawaits future k rfl
        have hnow : (w.park id future k).jobs[id]? = some now := hnow
        have hwaits := congrFun (waits_park hw hup.off hbefore future k) id
        rw [Function.update_self, waits_of_get hnow] at hwaits
        rw [hwaits]
        exact minded_park hw hup hf ho k

/-- What becomes of a job in a turn. -/
theorem due_advance {r : Routine (Except FaultId Value)} (hP : Op.Guards P) (henv : env.Confined)
    (hs : ({ world := w, activity := .turn ⟨j, job, r⟩ } : Scene).Governed P) (hjob : w.jobs[id]? = some old)
    (hawaits : ∀ (future : FutureId) (k : Except FaultId Value → Routine (Except FaultId Value)),
      j = id → r = .await (some future) k → ∃ f, w.futures[future]? = some f)
    (hfollows : w.Follows (Turn.advance env ⟨j, job, r⟩ w).world)
    (hdue : ({ world := w, activity := .turn ⟨j, job, r⟩ } : Scene).Due id) : (Turn.advance env ⟨j, job, r⟩ w).Due id := by
  have hw := hs.world.toSound
  have hup : w.Up j job := hs.turn _ rfl
  by_cases hself : j = id
  · subst hself
    exact due_self hw hup fun future k hr => hawaits future k rfl hr
  · have hwaits : (Turn.advance env ⟨j, job, r⟩ w).world.waits id = w.waits id := by
      cases waits_advance hP henv hs with
      | same hwaits => exact congrFun hwaits id
      | taken hidle => cases hidle
      | parked hturn _ hwaits =>
        cases hturn
        rw [hwaits, Function.update_of_ne (Ne.symm hself)]
    have hminds : w.Minds (Turn.advance env ⟨j, job, r⟩ w).world := by
      cases r with
      | op o k => exact minds_perform env o hw
      | done result => exact ((pieces_finished hw hup result).parts : PartsOf false false _ _).minds
      | await future? k =>
        cases future? with
        | none => exact ((pieces_paused hw k).parts : PartsOf false false _ (w.putDown j job (.paused k))).minds
        | some future =>
          simp only [Turn.advance]
          split
          · have hset := (still_modifyJob w j ({ · with resume := k, waiting := some future })).minds
            have hparts : PartsOf false false (w.waiting j future k) (w.park j future k) :=
              (pieces_waiting hw hup.off future k).parts
            exact (hset.trans (minds_whenDone _ future _)).trans hparts.minds
          · exact (w.aside_receive _).still.minds
    refine hdue.minds hjob hfollows hwaits (fun _ h => h.minds hminds) fun u hu hid => ?_
    cases hu
    exact absurd hid hself

/-- A job that has not ended goes on, whatever happens. -/
theorem Step.due (hP : Op.Guards P) (henv : env.Confined) (hs : s.Governed P) (hwoken : s.world.Woken s.world.waits)
    (h : Step env P s t) (hjob : s.world.jobs[id]? = some old)
    (hawaits : ∀ (job : Job) (future : FutureId) (k : Except FaultId Value → Routine (Except FaultId Value)),
      s.activity = .turn ⟨id, job, .await (some future) k⟩ → ∃ f, s.world.futures[future]? = some f)
    (hdue : s.Due id) : t.Due id := by
  have hw := hs.world.toSound
  have hfollows := h.follows hP henv hs
  have hperformed {o : Op} (ho : P o) {a : Activity} (hidle : s.activity.turn? = none)
      (hfollows : s.world.Follows (s.world.perform env o).2) :
      ({ world := (s.world.perform env o).2, activity := a } : Scene).Due id := by
    refine hdue.minds hjob hfollows (congrFun (waits_perform (hP.quiet o ho) hw) id)
      (fun _ h => h.minds (minds_perform env o hw)) ?_
    intro u hu
    rw [hu] at hidle
    cases hidle
  cases h with
  | clock w clock =>
    have hminds : w.Minds (w.setClock clock) := minds_of_futures (fun _ hc => hc) rfl
    exact hdue.minds hjob hfollows rfl (fun _ h => h.minds hminds) fun u hu => by cases hu
  | perform w ho => exact hperformed ho rfl hfollows
  | @spawn w code hcode =>
    have hparts : PartsOf false false w (w.addJob code).2 := (pieces_addJob hw.toWired code none).parts
    refine hdue.minds hjob hfollows ?_ (fun _ h => h.minds hparts.minds) fun u hu => by cases hu
    rw [waits_of_get hjob, waits_of_get (getElem?_push_of_some hjob)]
  | next hnext =>
    obtain ⟨w, activity⟩ := s
    cases activity with
    | turn u =>
      cases hnext
      obtain ⟨j, job, r⟩ := u
      refine due_advance hP henv hs hjob (fun future k hself hr => ?_) hfollows hdue
      subst hself hr
      exact hawaits job future k rfl
    | deed c =>
      have hcode : c.All P := hs.deed c rfl
      cases c with
      | done result =>
        cases hnext
        exact hdue.minds hjob hfollows rfl (fun _ h => h) fun u hu => by cases hu
      | op o k =>
        cases hnext
        exact hperformed hcode.1 rfl hfollows
    | none =>
      simp only [next?] at hnext
      split at hnext
      · cases hnext
      · next l hloop =>
        cases hnext
        exact hdue.minds hjob hfollows rfl (fun _ h => h.next hloop (by simp) (by simp)) fun u hu => by cases hu
      · next c l hloop =>
        cases hnext
        exact due_called hw hwoken hjob hloop hdue hfollows

end Scene

end SteppedLogo
