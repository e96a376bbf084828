import SteppedLogo.Proofs.World.Move

namespace SteppedLogo

open World

/-- A job that has its turn, as it was when it was taken up, and what is left of its routine. -/
structure Turn where
  id : JobId
  job : Job
  rest : Routine (Except FaultId Value)

/-- What is under way: nothing between two moves, the turn of a job, or a deed. -/
inductive Activity
  | none
  | turn (t : Turn)
  | deed (rest : Code (Except FaultId Unit))

structure Scene where
  world : World
  activity : Activity := .none

/-- The next thing that happens in a turn: an operation, the receipt of what is settled already, or
the end of the turn. -/
def Turn.advance (env : Env) (t : Turn) (w : World) : Scene :=
  match t.rest with
  | .done result => { world := w.putDown t.id t.job (.finished result) }
  | .op o k =>
    { world := (w.perform env o).2, activity := .turn { t with rest := k (w.perform env o).1 } }
  | .await none k => { world := w.putDown t.id t.job (.paused k) }
  | .await (some future) k =>
    match w.outcome? future with
    | none => { world := w.putDown t.id t.job (.parked future k) }
    | some outcome =>
      { world := (w.receive outcome).2, activity := .turn { t with rest := k (w.receive outcome).1 } }

namespace Scene

/-- A job is taken up, unless it has ended or is cancelled before it has begun. -/
def resumed (w : World) (id : JobId) (received : Except FaultId Value) : Scene :=
  match w.jobs[id]? with
  | none => { world := w }
  | some job =>
    if w.isDone job.future then { world := w }
    else
      let (received, w) := w.takeUp id job received
      if job.begun || received.isOk then
        { world := w, activity := .turn ⟨id, job, job.resume received⟩ }
      else { world := w.endJob id job.future received }

/-- A callback gives a job its turn, begins a deed, or does at once what it does. -/
def called (env : Env) (w : World) : Callback → Scene
  | .run id => resumed w id (.ok .none)
  | .wake id =>
    match ((w.jobs[id]?).bind Job.waiting).bind w.outcome? with
    | none => { world := w }
    | some outcome => resumed (w.receive outcome).2 id (w.receive outcome).1
  | .deed d => { world := w, activity := .deed d.code.run }
  | c => { world := w.runCallback env c }

/-- The next thing that happens in a scene without the host; nothing where nothing is ready. -/
def next? (env : Env) (s : Scene) : Option Scene :=
  match s.activity with
  | .turn t => some (t.advance env s.world)
  | .deed (.done _) => some { world := s.world }
  | .deed (.op o k) =>
    some { world := (s.world.perform env o).2, activity := .deed (k (s.world.perform env o).1) }
  | .none =>
    match s.world.loop.next? with
    | none => none
    | some (none, loop) => some { world := { s.world with loop } }
    | some (some c, loop) => some (called env { s.world with loop } c)

/-- What may happen next. The host acts while nothing is under way; its operations, and those of
the jobs that it spawns, satisfy `P`. -/
inductive Step (env : Env) (P : Op → Prop) : Scene → Scene → Prop
  | next {s t : Scene} (hnext : s.next? env = some t) : Step env P s t
  | clock (w : World) (clock : Float) : Step env P { world := w } { world := w.setClock clock }
  | perform (w : World) {o : Op} (ho : P o) : Step env P { world := w } { world := (w.perform env o).2 }
  | spawn (w : World) {code : Work Value} (hcode : code.run.All P) :
    Step env P { world := w } { world := (w.addJob code).2 }

/-- Any number of steps. -/
abbrev Steps (env : Env) (P : Op → Prop) : Scene → Scene → Prop := Relation.ReflTransGen (Step env P)

/-- A scene that comes about from a fresh state. -/
def Reachable (env : Env) (P : Op → Prop) (s : Scene) : Prop :=
  ∃ w : World, w.Fresh ∧ Steps env P { world := w } s

variable {env : Env} {P Q : Op → Prop} {w v : World} {s t : Scene}

theorem Step.mono (himp : ∀ o, P o → Q o) (h : Step env P s t) : Step env Q s t := by
  cases h with
  | next hnext => exact .next hnext
  | clock w clock => exact .clock w clock
  | perform w ho => exact .perform w (himp _ ho)
  | spawn w hcode => exact .spawn w (hcode.imp himp)

theorem Steps.mono (himp : ∀ o, P o → Q o) (h : Steps env P s t) : Steps env Q s t :=
  Relation.ReflTransGen.mono (fun _ _ hstep => hstep.mono himp) _ _ h

theorem Reachable.mono (himp : ∀ o, P o → Q o) (h : Reachable env P s) : Reachable env Q s := by
  obtain ⟨w, hfresh, hsteps⟩ := h
  exact ⟨w, hfresh, Steps.mono himp hsteps⟩

theorem Reachable.steps (h : Reachable env P s) (hsteps : Steps env P s t) : Reachable env P t := by
  obtain ⟨w, hfresh, hbefore⟩ := h
  exact ⟨w, hfresh, hbefore.trans hsteps⟩

/-- A turn comes to its end. -/
theorem steps_turn (id : JobId) (job : Job) (r : Routine (Except FaultId Value)) (w : World) :
    Steps env P { world := w, activity := .turn ⟨id, job, r⟩ }
      { world := (r.run env w).2.putDown id job (r.run env w).1 } := by
  induction r generalizing w with
  | done result => exact .single (.next rfl)
  | op o k ih => exact .head (.next rfl) (ih _ _)
  | await future k ih =>
    cases future with
    | none => exact .single (.next rfl)
    | some future =>
      have hfirst : Step env P { world := w, activity := .turn ⟨id, job, .await (some future) k⟩ } _ := .next rfl
      cases houtcome : w.outcome? future with
      | none =>
        simp only [Turn.advance, houtcome] at hfirst
        simp only [Routine.run, houtcome]
        exact .single hfirst
      | some outcome =>
        simp only [Turn.advance, houtcome] at hfirst
        simp only [Routine.run, houtcome]
        exact .head hfirst (ih _ _)

theorem steps_deed (c : Code (Except FaultId Unit)) (w : World) :
    Steps env P { world := w, activity := .deed c } { world := (c.run (perform env) w).2 } := by
  induction c generalizing w with
  | done a => exact .single (.next rfl)
  | op o k ih => exact .head (.next rfl) (ih _ _)

theorem steps_resumed (w : World) (id : JobId) (received : Except FaultId Value) :
    Steps env P (resumed w id received) { world := w.resume env id received } := by
  unfold resumed World.resume
  cases w.jobs[id]? with
  | none => exact .refl
  | some job =>
    dsimp only
    split
    · exact .refl
    · split
      · exact steps_turn id job _ _
      · exact .refl

theorem steps_called (w : World) (c : Callback) :
    Steps env P (called env w c) { world := w.runCallback env c } := by
  cases c with
  | run id => exact steps_resumed w id _
  | wake id =>
    simp only [called, runCallback, wake]
    cases ((w.jobs[id]?).bind Job.waiting).bind w.outcome? with
    | none => exact .refl
    | some outcome => exact steps_resumed _ id _
  | deed d => exact steps_deed d.code.run w
  | elapse | retract | rouse => exact .refl

/-- Every move comes about in steps. -/
theorem steps_of_move (h : World.Move env P w v) : Steps env P { world := w } { world := v } := by
  cases h with
  | tick htick =>
    obtain ⟨l, ⟨hnext, rfl⟩ | ⟨c, hnext, rfl⟩⟩ := tick?_eq_some htick
    · exact .single (.next (by simp only [next?, hnext]))
    · exact .head (.next (by simp only [next?, hnext])) (steps_called _ c)
  | clock clock => exact .single (.clock w clock)
  | perform ho => exact .single (.perform w ho)
  | spawn hcode => exact .single (.spawn w hcode)

theorem steps_of_moves (h : Moves env P w v) : Steps env P { world := w } { world := v } := by
  induction h with
  | refl => exact .refl
  | tail _ hmove ih => exact Relation.ReflTransGen.trans ih (steps_of_move hmove)

/-- Each state that comes about in moves comes about in steps. -/
theorem reachable_of_world (h : World.Reachable env P w) : Reachable env P { world := w } := by
  obtain ⟨u, hfresh, hmoves⟩ := h
  exact ⟨u, hfresh, steps_of_moves hmoves⟩

/-- What comes about in a number of steps without the host, where there are that many. -/
def after (env : Env) : Nat → Scene → Scene
  | 0, s => s
  | n + 1, s => after env n ((s.next? env).getD s)

theorem after_add (n m : Nat) (s : Scene) : s.after env (n + m) = (s.after env n).after env m := by
  induction n generalizing s with
  | zero => simp only [Nat.zero_add, after]
  | succ n ih =>
    rw [Nat.succ_add, after, ih]
    simp only [after]

/-- Where nothing is ready nothing happens. -/
theorem after_of_next?_eq_none (h : s.next? env = none) (n : Nat) : s.after env n = s := by
  induction n with
  | zero => simp only [after]
  | succ n ih => simpa only [after, h, Option.getD_none] using ih

theorem steps_after (n : Nat) (s : Scene) : Steps env P s (s.after env n) := by
  induction n generalizing s with
  | zero => exact .refl
  | succ n ih =>
    unfold after
    cases hnext : s.next? env with
    | none => exact ih s
    | some t => exact .head (.next hnext) (ih t)

theorem resumed_cases (w : World) (id : JobId) (received : Except FaultId Value) :
    resumed w id received = { world := w } ∨
    ∃ job : Job, w.jobs[id]? = some job ∧ w.isDone job.future = false ∧
      (((job.begun || (w.takeUp id job received).1.isOk) = false ∧ resumed w id received =
          { world := (w.takeUp id job received).2.endJob id job.future (w.takeUp id job received).1 }) ∨
      ((job.begun || (w.takeUp id job received).1.isOk) = true ∧ resumed w id received =
          { world := (w.takeUp id job received).2,
            activity := .turn ⟨id, job, job.resume (w.takeUp id job received).1⟩ })) := by
  unfold resumed
  cases hjob : w.jobs[id]? with
  | none => exact .inl rfl
  | some job =>
    cases hdone : w.isDone job.future with
    | true => exact .inl (by simp only [hdone, if_true])
    | false =>
      refine .inr ⟨job, rfl, hdone, ?_⟩
      cases hbegun : job.begun || (w.takeUp id job received).1.isOk with
      | true => exact .inr ⟨rfl, by simp only [hdone, hbegun, Bool.false_eq_true, if_false, if_true]⟩
      | false => exact .inl ⟨rfl, by simp only [hdone, hbegun, Bool.false_eq_true, if_false]⟩

/-- A turn of which nothing is left comes to its end. -/
theorem Step.finished {id : JobId} {job : Job} {result : Except FaultId Value} (h : Step env P s t)
    (hturn : s.activity = .turn ⟨id, job, .done result⟩) :
    t = { world := s.world.putDown id job (.finished result) } := by
  cases h with
  | clock | perform | spawn => cases hturn
  | next hnext =>
    simp only [next?, hturn, Option.some.injEq] at hnext
    exact hnext.symm

end Scene

end SteppedLogo
