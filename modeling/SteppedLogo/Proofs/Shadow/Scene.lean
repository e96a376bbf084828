import SteppedLogo.Proofs.Shadow.Perform
import SteppedLogo.Proofs.World.Scene

namespace SteppedLogo

namespace World.Shadows

variable {σ : Skew} {T : Pairing} {w v : World}

theorem receive (h : w.Shadows σ T v) {o o' : Outcome} (ho : o.Told T o') :
    AnsweredAlike σ T (fun U : Pairing => U.Told) (w.receive o) (v.receive o') := by
  cases ho with
  | value x => exact h.answers (.ok x)
  | fault hid => exact h.answers (.error hid)
  | cancelled =>
    obtain ⟨U, hle, hid, hraised⟩ := h.raise (f := { kind := .taskCancelled }) (g := { kind := .taskCancelled })
      ⟨rfl, .inl rfl, rfl, .none, .none, .none⟩
    exact ⟨U, hle, .error hid, hraised⟩

/-- `takeUp` has two jobs at the same point go on with the same. -/
theorem takeUp (h : w.Shadows σ T v) (id : JobId) {job mate : Job} (hjob : job.Level mate)
    {received received' : Except FaultId Value} (htold : T.Told received received') :
    AnsweredAlike σ T (fun U : Pairing => U.Told) (w.takeUp id job received) (v.takeUp id mate received') := by
  have hresumption : AnsweredAlike σ T (fun U : Pairing => U.Told) (w.resumption job received)
    (v.resumption mate received') := by
    unfold World.resumption
    rw [hjob.cancelRequested]
    split
    · cases htold with
      | ok => exact h.receive .cancelled
      | error hid =>
        dsimp only
        rw [h.faults.kindOf hid]
        split
        · exact h.answers (.error hid)
        · exact h.receive .cancelled
    · exact h.answers htold
  obtain ⟨U, hle, hreceived, hafter⟩ := hresumption
  have hok : (w.resumption job received).1.isOk = (v.resumption mate received').1.isOk := by
    generalize (w.resumption job received).1 = x at hreceived
    generalize (v.resumption mate received').1 = y at hreceived
    cases hreceived <;> rfl
  unfold World.takeUp
  dsimp only
  rw [hok, hjob.begun]
  refine ⟨U, hle, hreceived, hafter.modifyJob id (fun _ => rfl) (fun _ _ hm => ⟨hm.future, rfl, rfl, rfl⟩) ?_⟩
  exact fun _ _ ⟨hrun, hfirst, hresume⟩ => ⟨hrun, hfirst, hresume⟩

theorem endJob (h : w.Shadows σ T v) (id : JobId) (future : FutureId) {result result' : Except FaultId Value}
    (htold : T.Told result result') : (w.endJob id future result).Shadows σ T (v.endJob id future result') := by
  cases htold with
  | ok x =>
    unfold World.endJob
    dsimp only
    rw [h.requested]
    split
    · exact h.settle future .cancelled
    · exact h.settle future (.value x)
  | error hid =>
    unfold World.endJob
    dsimp only
    rw [h.faults.kindOf hid]
    split
    · exact h.settle future .cancelled
    · exact h.settle future (.fault hid)

section

variable {k k' : Except FaultId Value → Routine (Except FaultId Value)}
  (hk : ∀ U received received', T ≤ U → U.Told received received' → (k received).Abreast σ Pairing.Told U (k' received'))

include hk

/-- `park` has a job wait for the same future, to go on alike. -/
theorem park (h : w.Shadows σ T v) (id : JobId) (future : FutureId) :
    (w.park id future k).Shadows σ T (v.park id future k') := by
  have hset : Shadows σ T (w.modifyJob id ({ · with resume := k, waiting := some future }))
      (v.modifyJob id ({ · with resume := k', waiting := some future })) :=
    h.modifyJob id (fun _ => rfl) (fun _ _ hm => ⟨hm.future, rfl, hm.cancelRequested, hm.begun⟩)
      fun _ _ haccords => ⟨haccords.run, haccords.first, hk⟩
  have hwaits : Shadows σ T ((w.modifyJob id ({ · with resume := k, waiting := some future })).whenDone future (.wake id))
      ((v.modifyJob id ({ · with resume := k', waiting := some future })).whenDone future (.wake id)) :=
    hset.whenDone future (.wake id)
  obtain ⟨hcancelled, hcancels⟩ := hwaits.cancelFuture future
  unfold World.park
  dsimp only
  rw [hwaits.requested, hcancelled]
  split
  · split
    · exact hcancels.request id false
    · exact hcancels
  · exact hwaits

/-- A job lets the loop go round, to go on alike. -/
theorem pause (h : w.Shadows σ T v) (id : JobId) :
    ((w.modifyJob id ({ · with resume := k })).soon (.run id)).Shadows σ T
      ((v.modifyJob id ({ · with resume := k' })).soon (.run id)) := by
  have hset : Shadows σ T (w.modifyJob id ({ · with resume := k })) (v.modifyJob id ({ · with resume := k' })) :=
    h.modifyJob id (fun _ => rfl) (fun _ _ hm => ⟨hm.future, hm.waiting, hm.cancelRequested, hm.begun⟩)
      fun _ _ haccords => ⟨haccords.run, haccords.first, hk⟩
  exact hset.soon (.run id)

end

end World.Shadows

/-- Two turns of jobs that go on side by side. -/
structure Turn.Shadows (σ : Skew) (T : Pairing) (t u : Turn) : Prop where
  id : t.id = u.id
  future : t.job.future = u.job.future
  run : t.job.run = u.job.run.map (· + σ.runs)
  first : ∀ r, u.job.run = some r → σ.first ≤ r
  rest : t.rest.Abreast σ Pairing.Told T u.rest

inductive Activity.Shadows (σ : Skew) (T : Pairing) : Activity → Activity → Prop
  | none : Shadows σ T .none .none
  | turn {t u : Turn} (h : t.Shadows σ T u) : Shadows σ T (.turn t) (.turn u)
  | deed {c d : Code (Except FaultId Unit)} (h : c.toRoutine.Abreast σ Pairing.Told T d.toRoutine) :
    Shadows σ T (.deed c) (.deed d)

namespace Scene

/-- Two scenes in which the same is under way, in sessions that differ as `σ` says. -/
def Shadows (σ : Skew) (s t : Scene) : Prop := ∃ T, s.world.Shadows σ T t.world ∧ s.activity.Shadows σ T t.activity

variable {σ : Skew} {T : Pairing} {env env' : Env} {w v : World} {s t : Scene}

theorem shadows_idle (h : w.Shadows σ T v) : Shadows σ { world := w } { world := v } := ⟨T, h, .none⟩

/-- Both turns do the same next. -/
theorem shadows_advance (h : w.Shadows σ T v) (henv : env.Shadows σ env') {t u : Turn} (hturn : t.Shadows σ T u) :
    (t.advance env w).Shadows σ (u.advance env' v) := by
  obtain ⟨id, job, r⟩ := t
  obtain ⟨id', mate, r'⟩ := u
  obtain ⟨hid, hfuture, hrun, hfirst, hrest⟩ := hturn
  dsimp only at hid hfuture hrun hfirst hrest
  subst hid
  have hperformed {o o' : Op} {k : o.Reply → Routine (Except FaultId Value)} {k' : o'.Reply → Routine (Except FaultId Value)}
      (hop : (Routine.op o k).Abreast σ Pairing.Told T (.op o' k')) :
      (Turn.advance env ⟨id, job, .op o k⟩ w).Shadows σ (Turn.advance env' ⟨id, mate, .op o' k'⟩ v) := by
    obtain ⟨U, -, hrest, hafter⟩ := h.performed henv.toAgrees henv.notifies hop
    exact ⟨U, hafter, .turn ⟨rfl, hfuture, hrun, hfirst, hrest⟩⟩
  cases hrest with
  | done htold =>
    obtain ⟨U, -, hended, hafter⟩ := h.endRun hfirst htold
    refine shadows_idle (T := U) ?_
    unfold World.putDown
    dsimp only
    rw [hrun, hfuture]
    exact hafter.endJob id mate.future hended
  | op ho hk => exact hperformed (.op ho hk)
  | cancelStep hk => exact hperformed (.cancelStep hk)
  | describe hid hk => exact hperformed (.describe hid hk)
  | setCause hid hcause hk => exact hperformed (.setCause hid hcause hk)
  | raiseWhile hhandled hid hk => exact hperformed (.raiseWhile hhandled hid hk)
  | print htext hk => exact hperformed (.print htext hk)
  | log hk => exact hperformed (.log hk)
  | @await _ future k k' hk =>
    cases future with
    | none => exact shadows_idle (h.pause hk id)
    | some future =>
      have houtcome := h.outcome? future
      simp only [Turn.advance]
      generalize w.outcome? future = o at houtcome
      generalize v.outcome? future = o' at houtcome
      cases houtcome with
      | none => exact shadows_idle (h.park hk id future)
      | some ho =>
        obtain ⟨U, hle, hreceived, hafter⟩ := h.receive ho
        exact ⟨U, hafter, .turn ⟨rfl, hfuture, hrun, hfirst, hk U _ _ hle hreceived⟩⟩

/-- The same job is taken up, unless it has ended. -/
theorem shadows_resumed (h : w.Shadows σ T v) (id : JobId) {received received' : Except FaultId Value}
    (htold : T.Told received received') : (resumed w id received).Shadows σ (resumed v id received') := by
  unfold resumed
  obtain ⟨hj, hm⟩ | ⟨job, mate, hj, hm, hlevel, hgoes⟩ := h.jobs.cases id
  · rw [hj, hm]
    exact shadows_idle h
  · rw [hj, hm]
    dsimp only
    rw [h.isDone, hlevel.future]
    cases hdone : v.isDone mate.future with
    | true => exact shadows_idle h
    | false =>
      -- A job that has not ended goes on alike in both.
      have haccords := hgoes.resolve_left (by rw [hdone]; exact Bool.false_ne_true)
      obtain ⟨U, hle, hreceived, hup⟩ := h.takeUp id hlevel htold
      rw [hlevel.begun]
      generalize w.takeUp id job received = x at hreceived hup
      generalize v.takeUp id mate received' = y at hreceived hup
      obtain ⟨result, w'⟩ := x
      obtain ⟨result', v'⟩ := y
      have hok : result.isOk = result'.isOk := by cases hreceived <;> rfl
      simp only [Bool.false_eq_true, if_false, hok]
      split
      · exact ⟨U, hup, .turn ⟨rfl, hlevel.future, haccords.run, haccords.first, haccords.resume U _ _ hle hreceived⟩⟩
      · exact shadows_idle (hup.endJob id mate.future hreceived)

/-- The same callback is called. -/
theorem shadows_called (h : w.Shadows σ T v) (c : Callback) : (called env w (c.shift σ.steps)).Shadows σ
    (called env' v c) := by
  cases c with
  | run id => exact shadows_resumed h id (.ok Value.none)
  | wake id =>
    simp only [Callback.shift, called, h.waiting]
    cases (v.jobs[id]?).bind Job.waiting with
    | none => exact shadows_idle h
    | some future =>
      have houtcome := h.outcome? future
      simp only [Option.bind_some]
      generalize w.outcome? future = o at houtcome
      generalize v.outcome? future = o' at houtcome
      cases houtcome with
      | none => exact shadows_idle h
      | some ho =>
        obtain ⟨U, -, hreceived, hafter⟩ := h.receive ho
        exact shadows_resumed hafter id hreceived
  | elapse i => exact shadows_idle (h.elapse i)
  | retract i => exact shadows_idle (h.retract i)
  | rouse future => exact shadows_idle (h.rouse future)
  | deed d => exact ⟨T, h, .deed (d.steady T)⟩

/-- What happens next is the same. -/
theorem shadows_next (h : s.Shadows σ t) (henv : env.Shadows σ env') :
    Shadows σ ((s.next? env).getD s) ((t.next? env').getD t) := by
  obtain ⟨w, a⟩ := s
  obtain ⟨v, b⟩ := t
  obtain ⟨T, hworld, hactivity⟩ := h
  dsimp only at hworld hactivity
  cases hactivity with
  | turn hturn => exact shadows_advance hworld henv hturn
  | @deed c d hc =>
    cases c with
    | done =>
      cases d with
      | done => exact shadows_idle hworld
      | op => cases hc
    | op o k =>
      cases d with
      | done => cases hc
      | op o' k' =>
        obtain ⟨U, -, hrest, hafter⟩ := hworld.performed henv.toAgrees henv.notifies hc
        exact ⟨U, hafter, .deed hrest⟩
  | none =>
    have hnext : w.loop.next? = v.loop.next?.map
        fun taken => (taken.1.map (Callback.shift σ.steps), taken.2.map (Callback.shift σ.steps)) := by
      rw [hworld.loop, Loop.next?_map]
    simp only [next?, hnext]
    cases v.loop.next? with
    | none => exact shadows_idle hworld
    | some taken =>
      obtain ⟨c, l⟩ := taken
      have htaken := hworld.withLoop (m := l) rfl
      cases c with
      | none => exact shadows_idle htaken
      | some c => exact shadows_called htaken c

end Scene

/-- What a host may do, or have done: let the next thing happen, let time pass, perform an operation, spawn a job, or
reject one of the steps that have been taken since its first request. -/
inductive Request
  | proceed
  | clock (clock : Float)
  | perform (o : Op)
  | spawn (code : Work Value)
  | reject (step : StepId) (reason : Value)

/-- A request of a host that names no fault, and has only steady programs run. -/
def Request.IsPublic (σ : Skew) : Request → Prop
  | proceed | clock _ | reject .. => True
  | perform o => o.IsPublic σ
  | spawn code => code.run.Steady σ

theorem Request.isPublic_program {σ : Skew} (source : String) : (Request.spawn (Launch.runProgram source)).IsPublic σ :=
  Launch.steady_runProgram source

namespace Scene

/-- The host is served while nothing is under way; `n` steps had been taken before its first request. -/
def serve (env : Env) (n : Nat) (s : Scene) (r : Request) : Scene :=
  match r, s.activity with
  | .proceed, _ => (s.next? env).getD s
  | .clock clock, .none => { world := s.world.setClock clock }
  | .perform o, .none => { world := (s.world.perform env o).2 }
  | .spawn code, .none => { world := (s.world.addJob code).2 }
  | .reject step reason, .none => { world := (s.world.perform env (.cancelStep (step + n) reason)).2 }
  | _, _ => s

/-- What comes about as a host has its requests served, one after the other. -/
def serveAll (env : Env) (n : Nat) (s : Scene) (rs : List Request) : Scene := rs.foldl (serve env n) s

variable {σ : Skew} {env env' : Env} {s t : Scene}

theorem serve_proceed (n : Nat) (s : Scene) : s.serve env n .proceed = (s.next? env).getD s := by
  unfold serve
  cases s.activity <;> rfl

/-- A public request is served alike. -/
theorem shadows_serve (h : s.Shadows σ t) (henv : env.Shadows σ env') {r : Request} (hr : r.IsPublic σ) :
    (s.serve env σ.steps r).Shadows σ (t.serve env' 0 r) := by
  have hnext := shadows_next h henv
  obtain ⟨w, a⟩ := s
  obtain ⟨v, b⟩ := t
  have hstays := h
  obtain ⟨T, hworld, hactivity⟩ := h
  dsimp only at hworld hactivity
  cases r with
  | proceed => rwa [serve_proceed, serve_proceed]
  | clock clock =>
    cases hactivity with
    | none => exact shadows_idle (hworld.setClock clock)
    | turn | deed => exact hstays
  | perform o =>
    cases hactivity with
    | none =>
      obtain ⟨U, -, -, hafter⟩ := hworld.perform henv hr
      exact shadows_idle hafter
    | turn | deed => exact hstays
  | spawn code =>
    cases hactivity with
    | none =>
      have hnorun (r : RunId) (h : none = some r) : σ.first ≤ r := nomatch h
      exact shadows_idle (hworld.addJob hr hnorun).2
    | turn | deed => exact hstays
  | reject step reason =>
    cases hactivity with
    | none =>
      obtain ⟨U, -, -, hafter⟩ := hworld.cancelStep step reason
      exact shadows_idle hafter
    | turn | deed => exact hstays

/-- Requests that are public are served alike, one after the other. -/
theorem shadows_serveAll (h : s.Shadows σ t) (henv : env.Shadows σ env') {rs : List Request} (hrs : ∀ r ∈ rs, r.IsPublic σ) :
    (s.serveAll env σ.steps rs).Shadows σ (t.serveAll env' 0 rs) := by
  induction rs generalizing s t with
  | nil => exact h
  | cons r rest ih =>
    have hserved := shadows_serve h henv (hrs r List.mem_cons_self)
    exact ih hserved fun r hr => hrs r (List.mem_cons_of_mem _ hr)

end Scene

end SteppedLogo
