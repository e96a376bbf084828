import SteppedLogo.Proofs.World.Turn

namespace SteppedLogo.World

variable {env : Env} {P : Op → Prop} {u v w : World}

/-- A bridge on which nothing has happened yet. -/
structure Fresh (w : World) : Prop where
  ready : w.loop.ready = []
  timers : w.loop.timers = []
  futures : w.futures = #[]
  jobs : w.jobs = #[]
  pending : w.gate.pending = none
  steps : w.gate.steps = #[]
  runs : w.session.runs = #[{}]
  resettled : w.resettled = #[]

/-- What may happen next. The operations of the host, and of the jobs that it spawns, satisfy `P`;
what programs, listeners and deeds may do is a matter of `env`. -/
inductive Move (env : Env) (P : Op → Prop) : World → World → Prop
  | tick {w v : World} (htick : w.tick? env = some v) : Move env P w v
  | clock (w : World) (clock : Float) : Move env P w (w.setClock clock)
  | perform (w : World) {o : Op} (ho : P o) : Move env P w (w.perform env o).2
  | spawn (w : World) {code : Work Value} (hcode : code.run.All P) : Move env P w (w.addJob code).2

/-- Any number of moves. -/
abbrev Moves (env : Env) (P : Op → Prop) : World → World → Prop := Relation.ReflTransGen (Move env P)

/-- A state that comes about from a fresh one. -/
def Reachable (env : Env) (P : Op → Prop) (w : World) : Prop := ∃ u, Fresh u ∧ Moves env P u w

theorem fresh_empty : Fresh {} := ⟨rfl, rfl, rfl, rfl, rfl, rfl, rfl, rfl⟩

/-- A session that is opened is fresh. -/
theorem openSession_fresh {seconds : Float} {traceOn ownView : Bool} {w : World}
    (hopen : openSession seconds traceOn ownView = .ok w) : w.Fresh := by
  unfold openSession openGate at hopen
  cases hinterval : checkInterval seconds with
  | error c => simp [hinterval, bind, Except.bind] at hopen
  | ok interval =>
    simp only [hinterval, bind, Except.bind, pure, Except.pure, Except.ok.injEq] at hopen
    subst hopen
    exact ⟨rfl, rfl, rfl, rfl, rfl, rfl, rfl, rfl⟩

/-- A fresh world is sound. -/
theorem Fresh.sound (h : w.Fresh) : w.Sound := by
  obtain ⟨hready, htimers, hfutures, hjobs, hpending, hsteps, hruns, -⟩ := h
  have hturns : w.loop.turns = [] := by rw [Loop.turns, hready]; rfl
  refine ⟨⟨?_, ?_, ?_, ?_, ?_, ?_⟩, ⟨?_, ?_, ?_⟩, ⟨?_, ?_, ?_, ?_⟩⟩
  · intro j job hj
    simp [hjobs] at hj
  · intro i s hs
    simp [hsteps] at hs
  · intro i k s t hs
    simp [hsteps] at hs
  · intro i hi
    simp [hpending] at hi
  · rintro c (⟨r, hr, -⟩ | ⟨t, ht, -⟩)
    · simp [hready] at hr
    · simp [htimers] at ht
  · intro id f c hf
    simp [hfutures] at hf
  · intro t ht
    simp [htimers] at ht
  · simp [hturns]
  · intro j hj
    simp [hturns] at hj
  · simp [hruns]
  · intro r run hrun hactive
    rw [hruns] at hrun
    obtain ⟨rfl, rfl⟩ : r = 0 ∧ run = {} := by
      cases r with
      | zero => exact ⟨rfl, (Option.some.inj hrun).symm⟩
      | succ r => simp at hrun
    cases hactive
  · intro i k job job' r hi
    simp [hjobs] at hi
  · intro j job r hj
    simp [hjobs] at hj

theorem light_setClock (w : World) (clock : Float) : w.Light (w.setClock clock) :=
  light_loop (fun _ hc => .inl hc) (fun _ ht => .inl ht) (List.Sublist.refl _)

/-- Taking a callback off the loop. -/
theorem light_next {l : Loop Callback} {c : Option Callback} (hw : w.Sound)
    (hnext : w.loop.next? = some (c, l)) : w.Light { w with loop := l } := by
  have hturns := Loop.turns_next hw.timers hnext
  refine light_loop (fun d hd => .inl ((Loop.Queued.of_next? hnext).1 d hd)) (fun t ht => .inl (hturns.2 t ht)) ?_
  rw [hturns.1]
  exact List.sublist_append_right _ _

/-- A turn that is taken off the loop is not queued any more. -/
theorem Scheduled.off_of_next (hw : w.Scheduled) {id : JobId} {l : Loop Callback}
    (hnext : w.loop.next? = some (some (.run id), l)) : id ∉ l.turns := by
  have hnodup := hw.nodup
  rw [(Loop.turns_next hw.timers hnext).1] at hnodup
  exact (List.nodup_cons.1 hnodup).1

/-- The job whose turn it is waits for nothing. -/
theorem Scheduled.idle_of_next (hw : w.Scheduled) {id : JobId} {l : Loop Callback}
    (hnext : w.loop.next? = some (some (.run id), l)) {job : Job} (hjob : w.jobs[id]? = some job) : job.waiting = none := by
  obtain ⟨idle, hidle, hwaiting⟩ := hw.idle id ((Loop.turns_next hw.timers hnext).1 ▸ List.mem_cons_self)
  rw [hidle] at hjob
  cases hjob
  exact hwaiting

/-- No turn is queued of a job that waits for a future. -/
theorem Scheduled.off_of_waiting (hw : w.Scheduled) {id : JobId} {f : FutureId → Option Outcome} {o : Outcome}
    (houtcome : ((w.jobs[id]?).bind Job.waiting).bind f = some o) : id ∉ w.loop.turns := by
  intro hturn
  obtain ⟨job, hjob, hwaiting⟩ := hw.idle id hturn
  rw [hjob, Option.bind_some, hwaiting] at houtcome
  cases houtcome

/-- Settling a future of no job. -/
theorem Sound.settle_plain (hw : w.Sound) {id : FutureId}
    (hplain : ∀ f : Future, w.futures[id]? = some f → f.job = none) (o : Outcome) :
    (w.settle id o).Sound := by
  refine ⟨hw.toWired.settle id o, hw.toScheduled.settle hw.toWired id o, ?_⟩
  refine hw.toAccounted.mono (by rw [settle_session]) (by rw [settle_faults]; exact .refl _) fun j job hj => ?_
  rw [settle_jobs] at hj
  have hne : id ≠ job.future := by
    rintro rfl
    obtain ⟨f, hf, hfj⟩ := hw.owned hj
    exact hfj (hplain f hf)
  exact ⟨job, hj, rfl, rfl, outcome?_settle_of_ne hne o, fun _ => rfl⟩

/-- A nap ends unless it was cancelled. -/
theorem rouse_cases (w : World) (id : FutureId) :
    (w.rouse id = w ∧ w.outcome? id = some .cancelled) ∨
      (w.rouse id = w.settle id (.value .none) ∧ w.outcome? id ≠ some .cancelled) := by
  unfold rouse
  split
  · next h => exact .inl ⟨rfl, h⟩
  · next h => exact .inr ⟨rfl, h⟩

/-- What settling a future keeps is kept when those who wait for it are roused. -/
theorem rouse_keeps {I : World → Prop} {id : FutureId} (hw : I w) (hsettle : I (w.settle id (.value .none))) :
    I (w.rouse id) := by
  obtain ⟨heq, -⟩ | ⟨heq, -⟩ := rouse_cases w id
  · rwa [heq]
  · rwa [heq]

theorem jobs_rouse (w : World) (id : FutureId) : (w.rouse id).jobs = w.jobs :=
  rouse_keeps (I := fun v => v.jobs = w.jobs) rfl settle_jobs

/-- Rousing those who wait for a future proceeds, provided the future is no job's. -/
theorem proceeds_rouse {id : FutureId} {f : Future} (hf : w.futures[id]? = some f) (hplain : f.job = none) :
    w.Proceeds (w.rouse id) := by
  obtain ⟨heq, -⟩ | ⟨heq, -⟩ := rouse_cases w id
  · rw [heq]
    exact .refl w
  · rw [heq]
    intro hw
    refine ⟨hw.settle_plain (fun g hg => ?_) _, follows_settle _ id _⟩
    rw [hf] at hg
    cases hg
    exact hplain

/-- A step whose pacing is over is taken off the gate and settled, unless it is settled already. -/
theorem elapse_cases (w : World) (id : StepId) :
    (w.elapse id = w ∧ ∀ s : PacedStep, w.gate.steps[id]? = some s → w.isDone s.future = true) ∨
    ∃ s : PacedStep, w.gate.steps[id]? = some s ∧ w.isDone s.future = false ∧
      w.elapse id = (w.retract id).settle s.future (.value .none) := by
  unfold elapse pacedStep?
  cases hs : w.gate.steps[id]? with
  | none => exact .inl ⟨rfl, fun s h => by cases h⟩
  | some s =>
    cases hdone : w.isDone s.future with
    | true => exact .inl ⟨by simp only [hdone, if_true], fun t ht => by cases ht; exact hdone⟩
    | false => exact .inr ⟨s, rfl, hdone, by simp only [hdone, Bool.false_eq_true, if_false]⟩

theorem jobs_elapse (w : World) (id : StepId) : (w.elapse id).jobs = w.jobs := by
  obtain ⟨heq, -⟩ | ⟨s, -, -, heq⟩ := elapse_cases w id
  · rw [heq]
  · rw [heq, settle_jobs, (light_retract w id).jobs]

/-- The end of a step's time proceeds. -/
theorem proceeds_elapse (w : World) (id : StepId) : w.Proceeds (w.elapse id) := by
  obtain ⟨heq, -⟩ | ⟨s, hs, -, heq⟩ := elapse_cases w id
  · rw [heq]
    exact .refl w
  · rw [heq]
    intro hw
    obtain ⟨hretract, hextends⟩ := grows_retract w id hw
    obtain ⟨timer, ht⟩ := hextends.step id s hs
    refine ⟨hretract.settle_plain (fun f hf => ?_) _, hextends.follows.trans (follows_settle _ _ _)⟩
    obtain ⟨g, hg, hplain⟩ := hretract.step_future id _ ht
    rw [hf] at hg
    cases hg
    exact hplain

/-- Waking a job proceeds. -/
theorem proceeds_wake (env : Env) (w : World) (id : JobId) : w.Proceeds (w.wake env id) := by
  unfold wake
  split
  · exact .refl w
  · next outcome houtcome =>
    intro hw
    have hoff : id ∉ w.loop.turns := hw.off_of_waiting houtcome
    have haside := w.aside_receive outcome
    have hresume : (w.receive outcome).2.Proceeds ((w.receive outcome).2.resume env id (w.receive outcome).1) :=
      proceeds_resume env (by rwa [haside.loop]) _
    exact (haside.light.grows.proceeds.trans hresume) hw

/-- A callback that is taken off the loop runs. -/
theorem tick?_eq_some (htick : w.tick? env = some v) :
    ∃ l, (w.loop.next? = some (none, l) ∧ v = { w with loop := l }) ∨
      ∃ c, w.loop.next? = some (some c, l) ∧ v = { w with loop := l }.runCallback env c := by
  unfold tick? at htick
  split at htick
  · cases htick
  · next l hnext => exact ⟨l, .inl ⟨hnext, (Option.some.inj htick).symm⟩⟩
  · next c l hnext => exact ⟨l, .inr ⟨c, hnext, (Option.some.inj htick).symm⟩⟩

/-- Every turn of the loop proceeds. -/
theorem proceeds_tick (htick : w.tick? env = some v) : w.Proceeds v := by
  intro hw
  obtain ⟨l, ⟨hnext, rfl⟩ | ⟨c, hnext, rfl⟩⟩ := tick?_eq_some htick
  · exact (light_next hw hnext).grows.proceeds hw
  · have htaken : w.Proceeds { w with loop := l } := (light_next hw hnext).grows.proceeds
    refine htaken.trans ?_ hw
    cases c with
    | run id => exact proceeds_resume env (hw.off_of_next hnext) _
    | wake id => exact proceeds_wake env _ id
    | elapse id => exact proceeds_elapse _ id
    | retract id => exact (grows_retract _ id).proceeds
    | rouse id =>
      obtain ⟨f, hf, hplain, -⟩ := hw.queued _ ((Loop.Queued.of_next? hnext).2 _ rfl)
      exact proceeds_rouse (w := { w with loop := l }) hf hplain
    | deed d =>
      have hdeed : Changes env { w with loop := l } (runCallback env { w with loop := l } (.deed d)) :=
        Code.run_keeps (I := Changes env { w with loop := l })
          (fun o _ u hu => Relation.ReflTransGen.trans hu (perform_changes o u)) (Code.all_true _) .refl
      exact hdeed.grows.proceeds

/-- To run the next callback, if there is one. -/
theorem moves_tick (w : World) : Moves env P w ((w.tick? env).getD w) := by
  cases htick : w.tick? env with
  | none => exact .refl
  | some v => exact .single (.tick htick)

/-- Every move of a bridge proceeds. -/
theorem Move.proceeds (h : Move env P w v) : w.Proceeds v := by
  cases h with
  | tick htick => exact proceeds_tick htick
  | clock clock => exact (light_setClock w clock).grows.proceeds
  | perform ho => exact (grows_perform env _ w).proceeds
  | spawn hcode => exact (grows_spawn w _).proceeds

/-- Any moves of a bridge proceed. -/
theorem Moves.proceeds (h : Moves env P w v) : w.Proceeds v := by
  induction h with
  | refl => exact .refl w
  | tail _ hmove ih => exact ih.trans hmove.proceeds

/-- Every state that comes about is sound. -/
theorem Reachable.sound (h : Reachable env P w) : w.Sound := by
  obtain ⟨u, hfresh, hmoves⟩ := h
  exact (hmoves.proceeds hfresh.sound).1

/-- What is reached by moves from a reachable world is reachable. -/
theorem Reachable.moves (h : Reachable env P w) (hmoves : Moves env P w v) : Reachable env P v := by
  obtain ⟨u, hfresh, hbefore⟩ := h
  exact ⟨u, hfresh, hbefore.trans hmoves⟩

/-- A world reached by moves follows from the reachable one they started at. -/
theorem Reachable.follows (h : Reachable env P w) (hmoves : Moves env P w v) : w.Follows v :=
  (hmoves.proceeds h.sound).2

end SteppedLogo.World
