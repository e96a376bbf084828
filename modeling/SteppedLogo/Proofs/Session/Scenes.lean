import SteppedLogo.Proofs.Session.Governed

namespace SteppedLogo

open World

def Activity.turn? : Activity → Option Turn
  | .turn t => some t
  | _ => .none

namespace Scene

variable {env : Env} {P : Op → Prop} {s t : Scene} {u v w : World} {id j : JobId} {job job' : Job}

/-- What is left for a job to do. -/
def left (s : Scene) (j : JobId) (job : Job) : Routine (Except FaultId Value) :=
  match s.activity.turn? with
  | some t => if t.id = j then t.rest else .await job.waiting job.resume
  | none => .await job.waiting job.resume

/-- The code that is under way may be: a job has its turn, the operations of a deed satisfy `P`, and
what is left for a job to do is permitted. -/
structure Governed (P : Op → Prop) (s : Scene) : Prop where
  world : s.world.Governed
  turn : ∀ t, s.activity = .turn t → s.world.Up t.id t.job
  deed : ∀ c, s.activity = .deed c → c.All P
  code : ∀ (j : JobId) (job : Job), s.world.jobs[j]? = some job → s.world.isDone job.future = false →
    (s.left j job).All (permitted P job.run)

/-- What a routine receives that waits for a future, or has let the loop go round: what the future
was settled with in the state `w`, unless it is cancelled by a fault that is raised in `v`, as was
`requested`, or as the future was cancelled. -/
inductive Receives (w v : World) (requested : Prop) (awaited : Option FutureId) : Except FaultId Value → Prop
  | nothing (hnone : awaited = none) : Receives w v requested awaited (.ok .none)
  | value {future : FutureId} {x : Value} (hawaited : awaited = some future)
    (hvalue : w.outcome? future = some (.value x)) : Receives w v requested awaited (.ok x)
  | fault {future : FutureId} {id : FaultId} (hawaited : awaited = some future)
    (hfault : w.outcome? future = some (.fault id)) : Receives w v requested awaited (.error id)
  | cancelled {id : FaultId} {fault : Fault} (hget : v.faults.get? id = some fault)
    (hkind : fault.kind = .taskCancelled) (hsettled : ∀ future, awaited = some future → w.isDone future = true)
    (hwhy : requested ∨ ∃ future, awaited = some future ∧ w.outcome? future = some .cancelled) :
    Receives w v requested awaited (.error id)

/-- What becomes of what is left for a job to do while it performs nothing: it stays, or receives
what it waits for. -/
inductive Onward (w v : World) (requested : Prop) :
    Routine (Except FaultId Value) → Routine (Except FaultId Value) → Prop
  | stays (r : Routine (Except FaultId Value)) : Onward w v requested r r
  | receives {awaited : Option FutureId} {received : Except FaultId Value}
    (k : Except FaultId Value → Routine (Except FaultId Value)) (hreceived : Receives w v requested awaited received)
    (hcalm : w.Calm v) : Onward w v requested (.await awaited k) (k received)

/-- A job is new, and runs the program of a run or what the host has spawned. -/
structure Begins (env : Env) (P : Op → Prop) (s t : Scene) (j : JobId) (job : Job) : Prop where
  new : s.world.jobs[j]? = none
  code : ∃ code : Work Value, t.left j job = .await none (fun _ => code.run) ∧
    code.run.All (permitted P job.run) ∧ ∀ r, job.run = some r → ∃ source, code = env.program source

/-- How a job comes to its end in a step: its turn ends, or it is cancelled before it has begun. -/
inductive Ends (s t : Scene) (j : JobId) (job : Job) : Prop
  | finished {taken : Job} {result : Except FaultId Value} (hturn : s.activity = .turn ⟨j, taken, .done result⟩)
    (hworld : t.world = s.world.putDown j taken (.finished result))
  | unbegun {fault : FaultId} (hidle : s.activity.turn? = none) (hbegun : job.begun = false)
    (hreceived : Receives s.world t.world (job.cancelRequested = true) job.waiting (.error fault))
    (hout : t.world.outcome? job.future =
      some (if t.world.faults.kindOf fault = .taskCancelled then .cancelled else .fault fault))

/-- What a step does in which no job performs an operation. -/
structure Effect (env : Env) (P : Op → Prop) (s t : Scene) : Prop where
  sound : t.world.Sound
  follows : s.world.Follows t.world
  turn : ∀ u, t.activity = .turn u → t.world.Up u.id u.job
  deed : ∀ c, t.activity = .deed c → c.All P
  world : (∃ o, P o ∧ t.world = (s.world.perform env o).2) ∨ s.world.Calm t.world
  ended : ∀ (j : JobId) (job : Job), s.world.jobs[j]? = some job →
    t.world.outcome? job.future = s.world.outcome? job.future ∨ Ends s t j job
  left : ∀ (j : JobId) (job : Job), t.world.jobs[j]? = some job → t.world.isDone job.future = false →
    Begins env P s t j job ∨ ∃ old : Job, s.world.jobs[j]? = some old ∧ job.future = old.future ∧
      job.run = old.run ∧ Onward s.world t.world (old.cancelRequested = true) (s.left j old) (t.left j job)

/-- While no job has its turn, each has left to do what it resumes with. -/
theorem left_of_idle (hidle : s.activity.turn? = none) (j : JobId) (job : Job) :
    s.left j job = .await job.waiting job.resume := by
  simp only [left, hidle]

/-- A job that has not its turn has left to do what it resumes with. -/
theorem left_of_not_turn (hnot : ∀ u, s.activity = .turn u → u.id ≠ j) (job : Job) :
    s.left j job = .await job.waiting job.resume := by
  obtain ⟨w, activity⟩ := s
  cases activity with
  | none | deed => rfl
  | turn u => exact if_neg (hnot u rfl)

/-- The job that has its turn has left to do what is left of its turn. -/
theorem left_self (w : World) (id : JobId) (job : Job) (r : Routine (Except FaultId Value)) (now : Job) :
    ({ world := w, activity := .turn ⟨id, job, r⟩ } : Scene).left id now = r := if_pos rfl

/-- The turn of one job leaves to the others what they resume with. -/
theorem left_other (w : World) (hne : id ≠ j) (job : Job) (r : Routine (Except FaultId Value)) (now : Job) :
    ({ world := w, activity := .turn ⟨id, job, r⟩ } : Scene).left j now = .await now.waiting now.resume :=
  if_neg hne

/-- Nothing is performed, and no job has its turn. -/
theorem effect_passes (hidle : s.activity.turn? = none) (hw : s.world.Sound) (hproceeds : s.world.Proceeds v)
    (hpasses : s.world.Passes none v) {a : Activity} (ha : a.turn? = none)
    (hdeed : ∀ c, a = .deed c → c.All P) : Effect env P s { world := v, activity := a } where
  sound := (hproceeds hw).1
  follows := (hproceeds hw).2
  turn u hu := by
    change a = .turn u at hu
    rw [hu] at ha
    cases ha
  deed := hdeed
  world := .inr hpasses.calm
  ended j job hj := .inl (hpasses.ended hw.toWired hj (Option.some_ne_none j).symm)
  left j job hj _ := by
    obtain ⟨old, hold, hfuture, hrun, hsame⟩ := hpasses.leaves.job j job hj
    obtain ⟨hresume, hwaiting⟩ := hsame (Option.some_ne_none _).symm
    refine .inr ⟨old, hold, hfuture, hrun, ?_⟩
    rw [left_of_idle hidle, left_of_idle ha, hresume, hwaiting]
    exact .stays _

/-- What comes up is a new job, or was there before and goes on as it would have. -/
theorem begins_or_same (henv : env.Confined) (hbrings : w.Brings env v) (hextends : w.Extends v)
    (hj : v.jobs[j]? = some job) :
    (w.jobs[j]? = none ∧ job.waiting = none ∧ ∃ source, job.resume = (fun _ => (env.program source).run) ∧
      (env.program source).run.All (permitted P job.run)) ∨
    ∃ old : Job, w.jobs[j]? = some old ∧ job.future = old.future ∧ job.run = old.run ∧
      job.resume = old.resume ∧ job.waiting = old.waiting := by
  cases hold : w.jobs[j]? with
  | some old =>
    obtain ⟨b, hb⟩ := hextends.job j old hold
    rw [hb] at hj
    cases hj
    exact .inr ⟨old, rfl, rfl, rfl, rfl, rfl⟩
  | none =>
    obtain ⟨old, hsome, -⟩ | ⟨hwaiting, r, source, hrun, hresume⟩ := hbrings.job j job hj
    · rw [hold] at hsome
      cases hsome
    · refine .inl ⟨rfl, hwaiting, source, hresume, ?_⟩
      rw [hrun]
      exact henv.programs source

/-- An operation is performed, and no job has its turn. -/
theorem effect_performs (hP : Op.Guards P) (henv : env.Confined) (hw : s.world.Governed)
    (hidle : s.activity.turn? = none) {o : Op} (ho : P o) {a : Activity} (ha : a.turn? = none)
    (hdeed : ∀ c, a = .deed c → c.All P) : Effect env P s { world := (s.world.perform env o).2, activity := a } where
  sound := (grows_perform env o s.world hw.toSound).1
  follows := (grows_perform env o s.world hw.toSound).2.follows
  turn u hu := by
    change a = .turn u at hu
    rw [hu] at ha
    cases ha
  deed := hdeed
  world := .inl ⟨o, ho, rfl⟩
  ended j job hj := .inl ((grows_perform env o s.world hw.toSound).2.owned j job hj)
  left j job hj _ := by
    have hbrings : s.world.Brings env _ := (perform_touches (hP.quiet o ho) s.world).brings hw.toSound
    obtain ⟨hnew, hwaiting, source, hresume, hcode⟩ | ⟨old, hold, hfuture, hrun, hresume, hwaiting⟩ :=
      begins_or_same (P := P) henv hbrings (grows_perform env o s.world hw.toSound).2 hj
    · refine .inl ⟨hnew, env.program source, ?_, hcode, fun _ _ => ⟨source, rfl⟩⟩
      rw [left_of_idle ha, hwaiting, hresume]
    · refine .inr ⟨old, hold, hfuture, hrun, ?_⟩
      rw [left_of_idle hidle, left_of_idle ha, hresume, hwaiting]
      exact .stays _

/-- A new job is an effect of the system, provided its code keeps to the operations allowed. -/
theorem effect_spawn (hw : w.Sound) {code : Work Value} (hcode : code.run.All P) :
    Effect env P { world := w } { world := (w.addJob code).2 } where
  sound := (grows_spawn w code hw).1
  follows := (grows_spawn w code hw).2.follows
  turn _ hu := by cases hu
  deed _ hc := by cases hc
  world := .inr (calm_addJob w code)
  ended j job hj := .inl ((grows_spawn w code hw).2.owned j job hj)
  left j job hj _ := by
    obtain hj | ⟨rfl, rfl⟩ := getElem?_push_eq_some.1 hj
    · exact .inr ⟨job, hj, rfl, rfl, .stays _⟩
    · exact .inl ⟨Array.getElem?_size, code, rfl, hcode, fun r hr => by cases hr⟩

/-- What a routine waits for is settled when it receives it. -/
theorem Receives.settled {requested : Prop} {awaited : Option FutureId} {received : Except FaultId Value}
    (h : Receives w v requested awaited received) {future : FutureId} (hawaited : awaited = some future) :
    w.isDone future = true := by
  cases h with
  | nothing hnone =>
    rw [hnone] at hawaited
    cases hawaited
  | value hvalue ho | fault hvalue ho =>
    rw [hvalue] at hawaited
    cases hawaited
    exact isDone_iff.2 ⟨_, ho⟩
  | cancelled _ _ hsettled => exact hsettled future hawaited

/-- What a job received stays so where the faults are kept. -/
theorem Receives.mono {requested requested' : Prop} {awaited : Option FutureId} {received : Except FaultId Value}
    (h : Receives w u requested awaited received) (hfaults : u.faults.Keeps v.faults)
    (hrequested : requested → requested') : Receives w v requested' awaited received := by
  cases h with
  | nothing hnone => exact .nothing hnone
  | value hawaited hvalue => exact .value hawaited hvalue
  | fault hawaited hfault => exact .fault hawaited hfault
  | cancelled hget hkind hsettled hwhy =>
    obtain ⟨g, hg, hagrees⟩ := hfaults _ _ hget
    exact .cancelled hg (hagrees.kind.trans hkind) hsettled (hwhy.imp_left hrequested)

/-- A job that is to be cancelled receives that instead. -/
theorem receives_resumption {awaited : Option FutureId} {received : Except FaultId Value}
    (h : Receives w u False awaited received) (job : Job) :
    Receives w (u.resumption job received).2 (job.cancelRequested = true) awaited (u.resumption job received).1 := by
  have hsame : Receives w u (job.cancelRequested = true) awaited received := h.mono (.refl _) False.elim
  unfold resumption
  split
  · next hrequested =>
    have hraised : Receives w (u.receive .cancelled).2 (job.cancelRequested = true) awaited (u.receive .cancelled).1 :=
      .cancelled (Faults.get?_add u.faults { kind := .taskCancelled }) rfl (fun _ => h.settled) (.inl hrequested)
    split
    · split
      · exact hsame
      · exact hraised
    · exact hraised
  · exact hsame

/-- A job that is woken by a future receives its outcome. -/
theorem receives_outcome {future : FutureId} {o : Outcome} (ho : w.outcome? future = some o) (u : World)
    (requested : Prop) : Receives w (u.receive o).2 requested (some future) (u.receive o).1 := by
  cases o with
  | value x => exact .value rfl ho
  | fault id => exact .fault rfl ho
  | cancelled =>
    refine .cancelled (Faults.get?_add u.faults { kind := .taskCancelled }) rfl (fun _ hawaited => ?_)
      (.inr ⟨future, rfl, ho⟩)
    cases hawaited
    exact isDone_iff.2 ⟨_, ho⟩

/-- A job that cannot begin ends with what it receives. -/
theorem ends_unbegun (hw : w.Sound) (hproceeds : w.Proceeds u) (hjob : u.jobs[id]? = some job)
    (hopen : u.isDone job.future = false) {received : Except FaultId Value}
    (hreceived : Receives w u False job.waiting received)
    (hunbegun : (job.begun || (u.takeUp id job received).1.isOk) = false) :
    Ends { world := w }
      { world := (u.takeUp id job received).2.endJob id job.future (u.takeUp id job received).1 } id job := by
  obtain ⟨htaken, -⟩ := (hproceeds.trans (proceeds_takeUp hjob hopen received)) hw
  obtain ⟨f, hf, -⟩ := htaken.job_future id _ (takeUp_get hjob received)
  have hf : (u.takeUp id job received).2.futures[job.future]? = some f := hf
  obtain ⟨fault, hfault⟩ : ∃ fault, (u.takeUp id job received).1 = .error fault := by
    cases hresult : (u.takeUp id job received).1 with
    | ok x => simp [hresult, Except.isOk, Except.toBool] at hunbegun
    | error fault => exact ⟨fault, rfl⟩
  have hundone : f.outcome = none := by
    rw [← outcome?_of_get hf, outcome?_takeUp]
    exact isDone_eq_false.1 hopen
  have hresumed : Receives w (u.resumption job received).2 (job.cancelRequested = true) job.waiting
      (u.resumption job received).1 := receives_resumption hreceived job
  have hfault' : (u.resumption job received).1 = .error fault := hfault
  rw [hfault'] at hresumed
  rw [hfault]
  refine .unbegun rfl (Bool.or_eq_false_iff.1 hunbegun).1 (hresumed.mono ?_ fun h => h) ?_
  · rw [faults_endJob]
    exact .refl _
  · rw [faults_endJob]
    exact outcome?_endJob_error hf hundone id fault

/-- A job that is taken up and cannot begin ends at once. -/
theorem effect_unbegun (hw : w.Sound) (hproceeds : w.Proceeds u) (hpasses : w.Passes none u) (hjobs : u.jobs = w.jobs)
    (hjob : u.jobs[id]? = some job) (hopen : u.isDone job.future = false) {received : Except FaultId Value}
    (hreceived : Receives w u False job.waiting received)
    (hunbegun : (job.begun || (u.takeUp id job received).1.isOk) = false) :
    Effect env P { world := w }
      { world := (u.takeUp id job received).2.endJob id job.future (u.takeUp id job received).1 } := by
  have hbefore : w.jobs[id]? = some job := hjobs ▸ hjob
  obtain ⟨htaken, -⟩ := (hproceeds.trans (proceeds_takeUp hjob hopen received)) hw
  obtain ⟨f, hf, howner⟩ := htaken.job_future id _ (takeUp_get hjob received)
  have hf : (u.takeUp id job received).2.futures[job.future]? = some f := hf
  have hended : w.Passes (some id)
      ((u.takeUp id job received).2.endJob id job.future (u.takeUp id job received).1) :=
    (hpasses.set_apart.trans (passes_takeUp u id job received)).trans (passes_endJob htaken.toWired hf howner _)
  obtain ⟨hsound, hends⟩ := (hproceeds.trans (proceeds_unbegun hjob hopen received hunbegun)) hw
  refine ⟨hsound, hends, fun _ hturn => (by cases hturn), fun _ hdeed => (by cases hdeed), .inr hended.calm,
    fun j job' hj => ?_, fun j job' hj hstill => .inr ?_⟩
  · by_cases h : id = j
    · subst h
      have hj : w.jobs[id]? = some job' := hj
      rw [hbefore] at hj
      cases hj
      exact .inr (ends_unbegun hw hproceeds hjob hopen hreceived hunbegun)
    · exact .inl (hended.ended hw.toWired hj fun hmine => h (Option.some.inj hmine))
  · obtain ⟨old, hold, hfuture, hrun, hsame⟩ := hended.leaves.job j job' hj
    refine ⟨old, hold, hfuture, hrun, ?_⟩
    by_cases h : id = j
    · subst h
      have hold : w.jobs[id]? = some old := hold
      rw [hbefore] at hold
      cases hold
      rw [hfuture, isDone_endJob hf] at hstill
      cases hstill
    · obtain ⟨hresume, hwaiting⟩ := hsame fun hmine => h (Option.some.inj hmine)
      rw [left_of_idle rfl, left_of_idle rfl, hresume, hwaiting]
      exact .stays _

/-- A job that is taken up otherwise goes on with what it receives. -/
theorem effect_takeUp (hw : w.Sound) (hproceeds : w.Proceeds u) (hpasses : w.Passes none u) (hoff : id ∉ u.loop.turns)
    (hjobs : u.jobs = w.jobs) (hjob : u.jobs[id]? = some job) (hopen : u.isDone job.future = false)
    {received : Except FaultId Value} (hreceived : Receives w u False job.waiting received)
    (hbegun : (job.begun || (u.takeUp id job received).1.isOk) = true) :
    Effect env P { world := w } { world := (u.takeUp id job received).2,
                                  activity := .turn ⟨id, job, job.resume (u.takeUp id job received).1⟩ } := by
  have hbefore : w.jobs[id]? = some job := hjobs ▸ hjob
  obtain ⟨htaken, hfollows⟩ := (hproceeds.trans (proceeds_takeUp hjob hopen received)) hw
  have hafter : w.Passes (some id) (u.takeUp id job received).2 :=
    hpasses.set_apart.trans (passes_takeUp u id job received)
  refine ⟨htaken, hfollows, fun t ht => ?_, fun _ hdeed => (by cases hdeed), .inr hafter.calm,
    fun j job' hj => ?_, fun j job' hj _ => .inr ?_⟩
  · cases ht
    exact up_takeUp hjob hopen hoff received hbegun
  · exact .inl ((outcome?_takeUp u id job received _).trans (hpasses.ended hw.toWired hj (Option.some_ne_none j).symm))
  · obtain ⟨old, hold, hfuture, hrun, hsame⟩ := hafter.leaves.job j job' hj
    refine ⟨old, hold, hfuture, hrun, ?_⟩
    by_cases h : id = j
    · subst h
      have hold : w.jobs[id]? = some old := hold
      rw [hbefore] at hold
      cases hold
      rw [left_of_idle rfl, left_self]
      exact .receives job.resume ((receives_resumption hreceived job).mono (.refl _) fun h => h) hafter.calm
    · obtain ⟨hresume, hwaiting⟩ := hsame fun hmine => h (Option.some.inj hmine)
      rw [left_of_idle rfl, left_other _ h, hresume, hwaiting]
      exact .stays _

/-- A job is taken up once the callback that does it is off the queue. -/
theorem effect_resumed (hw : w.Sound) (hproceeds : w.Proceeds u) (hpasses : w.Passes none u) (hoff : id ∉ u.loop.turns)
    (hjobs : u.jobs = w.jobs) {received : Except FaultId Value}
    (hreceived : ∀ job : Job, u.jobs[id]? = some job → Receives w u False job.waiting received) :
    Effect env P { world := w } (resumed u id received) := by
  obtain heq | ⟨job, hjob, hopen, ⟨hunbegun, heq⟩ | ⟨hbegun, heq⟩⟩ := resumed_cases u id received
  · rw [heq]
    exact effect_passes rfl hw hproceeds hpasses rfl fun _ hdeed => by cases hdeed
  · rw [heq]
    exact effect_unbegun hw hproceeds hpasses hjobs hjob hopen (hreceived job hjob) hunbegun
  · rw [heq]
    exact effect_takeUp hw hproceeds hpasses hoff hjobs hjob hopen (hreceived job hjob) hbegun

/-- What is left of the turn of a job is permitted. -/
theorem Governed.permitted_turn {r : Routine (Except FaultId Value)}
    (hs : ({ world := w, activity := .turn ⟨id, job, r⟩ } : Scene).Governed P) : r.All (permitted P job.run) := by
  have hup : w.Up id job := hs.turn _ rfl
  obtain ⟨now, hnow, hfuture, hrun, -⟩ := hup.get
  have hopen : w.isDone now.future = false := by
    rw [hfuture]
    exact isDone_eq_false.2 hup.undone
  have hcode := hs.code id now hnow hopen
  rwa [left_self, hrun] at hcode

/-- A job that has its turn may perform its next operation; the hook is that of the active run. -/
theorem Governed.quiet_or_hook (hP : Op.Guards P) {o : Op} {k : o.Reply → Routine (Except FaultId Value)}
    (hs : ({ world := w, activity := .turn ⟨id, job, .op o k⟩ } : Scene).Governed P) :
    o.IsQuiet ∨ ∃ call r, o = .hook call ∧ job.run = some r ∧ w.session.isActive = true := by
  have hup : w.Up id job := hs.turn _ rfl
  have hcode := hs.permitted_turn
  cases hjob : job.run with
  | none =>
    rw [hjob] at hcode
    exact .inl (hP.quiet o hcode.1)
  | some r =>
    rw [hjob] at hcode
    have hactive := (hup.active hs.world.toSound hjob).2
    cases o with
    | hook call => exact .inr ⟨call, r, rfl, rfl, hactive⟩
    | step => exact absurd hcode.1 not_false
    | defer => exact .inl hcode.1
    | _ => exact .inl trivial

/-- An operation in a governed scene does what operations do to a sound world. -/
theorem Governed.performs (hP : Op.Guards P) {o : Op} {k : o.Reply → Routine (Except FaultId Value)}
    (hs : ({ world := w, activity := .turn ⟨id, job, .op o k⟩ } : Scene).Governed P) :
    w.Performs env (w.perform env o).2 := by
  obtain hquiet | ⟨call, r, rfl, -, hactive⟩ := hs.quiet_or_hook hP
  · exact ⟨o, rfl, .inl hquiet⟩
  · exact ⟨_, rfl, .inr ⟨call, rfl, hactive⟩⟩

/-- The other jobs are left as they were when one performs an operation. -/
theorem left_op (hP : Op.Guards P) (henv : env.Confined) {o : Op} {k : o.Reply → Routine (Except FaultId Value)}
    (hs : ({ world := w, activity := .turn ⟨id, job, .op o k⟩ } : Scene).Governed P) {now : Job}
    (hj : (w.perform env o).2.jobs[j]? = some now) :
    Begins env P { world := w, activity := .turn ⟨id, job, .op o k⟩ }
      { world := (w.perform env o).2, activity := .turn ⟨id, job, k (w.perform env o).1⟩ } j now ∨
    ∃ old : Job, w.jobs[j]? = some old ∧ now.future = old.future ∧ now.run = old.run ∧
      (id ≠ j →
        ({ world := (w.perform env o).2, activity := .turn ⟨id, job, k (w.perform env o).1⟩ } : Scene).left j now =
          ({ world := w, activity := .turn ⟨id, job, .op o k⟩ } : Scene).left j old) := by
  have hup : w.Up id job := hs.turn _ rfl
  obtain ⟨-, hbrings, hextends⟩ := Performs.governed henv (hs.performs hP) hs.world
  obtain ⟨hnew, hwaiting, source, hresume, hcode⟩ | ⟨old, hold, hfuture, hrun, hresume, hwaiting⟩ :=
    begins_or_same (P := P) henv hbrings hextends hj
  · have hne : id ≠ j := by
      rintro rfl
      obtain ⟨before, hbefore, -⟩ := hup.get
      rw [hnew] at hbefore
      cases hbefore
    refine .inl ⟨hnew, env.program source, ?_, hcode, fun _ _ => ⟨source, rfl⟩⟩
    rw [left_other _ hne, hwaiting, hresume]
  · refine .inr ⟨old, hold, hfuture, hrun, fun hne => ?_⟩
    rw [left_other _ hne, left_other _ hne, hresume, hwaiting]

/-- A governed scene stays so over an operation of the job that has its turn. -/
theorem governed_op (hP : Op.Guards P) (henv : env.Confined) {o : Op} {k : o.Reply → Routine (Except FaultId Value)}
    (hs : ({ world := w, activity := .turn ⟨id, job, .op o k⟩ } : Scene).Governed P) :
    ({ world := (w.perform env o).2, activity := .turn ⟨id, job, k (w.perform env o).1⟩ } : Scene).Governed P := by
  have hup : w.Up id job := hs.turn _ rfl
  obtain ⟨hgoverned, -, hextends⟩ := Performs.governed henv (hs.performs hP) hs.world
  refine ⟨hgoverned, fun u hu => ?_, fun _ hdeed => (by cases hdeed), fun j now hj hopen => ?_⟩
  · cases hu
    exact hextends.up hup
  · obtain ⟨-, code, hleft, hcode, -⟩ | ⟨old, hold, hfuture, hrun, hsame⟩ := left_op hP henv hs hj
    · rw [hleft]
      exact fun _ => hcode
    · have holdOpen : w.isDone old.future = false := hextends.futures.open_before (hfuture ▸ hopen)
      have hbefore := hs.code j old hold holdOpen
      rw [hrun]
      by_cases h : id = j
      · subst h
        rw [left_self] at hbefore ⊢
        exact hbefore.2 _
      · rw [hsame h]
        exact hbefore

/-- Receiving the outcome of a future that is done is an effect of the system. -/
theorem effect_receive (hw : w.Sound) (hup : w.Up id job) {future : FutureId}
    (k : Except FaultId Value → Routine (Except FaultId Value)) {o : Outcome} (ho : w.outcome? future = some o) :
    Effect env P { world := w, activity := .turn ⟨id, job, .await (some future) k⟩ }
      { world := (w.receive o).2, activity := .turn ⟨id, job, k (w.receive o).1⟩ } := by
  have haside := w.aside_receive o
  have hgrows := haside.light.grows hw
  have hpasses : w.Passes none (w.receive o).2 := passes_receive w o
  refine ⟨hgrows.1, hgrows.2.follows, fun u hu => ?_, fun _ hdeed => (by cases hdeed), .inr hpasses.calm,
    fun j now hj => .inl (hpasses.ended hw.toWired hj (Option.some_ne_none j).symm),
    fun j now hj _ => .inr ⟨now, haside.jobs ▸ hj, rfl, rfl, ?_⟩⟩
  · cases hu
    exact hgrows.2.up hup
  · by_cases h : id = j
    · subst h
      rw [left_self, left_self]
      exact .receives k (receives_outcome ho w _) hpasses.calm
    · rw [left_other _ h, left_other _ h]
      exact .stays _

/-- A turn ends: the job has ended, or goes on later where its routine has stopped. -/
theorem effect_putDown {r : Routine (Except FaultId Value)} (hw : w.Sound) (hup : w.Up id job)
    (stop : Stop (Except FaultId Value))
    (hstop : (∃ result, r = .done result ∧ stop = .finished result) ∨
      (w.putDown id job stop).outcome? job.future = w.outcome? job.future ∧
        ∀ now : Job, (w.putDown id job stop).jobs[id]? = some now → r = .await now.waiting now.resume) :
    Effect env P { world := w, activity := .turn ⟨id, job, r⟩ } { world := w.putDown id job stop } := by
  have hpasses := passes_putDown hw hup stop
  obtain ⟨before, hbefore, hfuture, -⟩ := hup.get
  obtain ⟨hsound, hfollows⟩ := proceeds_putDown hup stop hw
  refine ⟨hsound, hfollows, fun _ hturn => (by cases hturn), fun _ hdeed => (by cases hdeed), .inr hpasses.calm,
    fun j now hj => ?_, fun j now hj hopen => .inr ?_⟩
  · by_cases h : id = j
    · subst h
      have hj : w.jobs[id]? = some now := hj
      rw [hbefore] at hj
      cases hj
      obtain ⟨result, rfl, rfl⟩ | ⟨hopen, -⟩ := hstop
      · exact .inr (.finished rfl rfl)
      · rw [hfuture]
        exact .inl hopen
    · exact .inl (hpasses.ended hw.toWired hj fun hmine => h (Option.some.inj hmine))
  obtain ⟨old, hold, hsameFuture, hrun, hsame⟩ := hpasses.leaves.job j now hj
  refine ⟨old, hold, hsameFuture, hrun, ?_⟩
  by_cases h : id = j
  · subst h
    obtain ⟨result, rfl, rfl⟩ | ⟨-, hrest⟩ := hstop
    · -- the job has ended, so that nothing is left for it to do
      have hended : w.Passes none (w.endRun job.run result).2 := passes_endRun hw job.run result
      obtain ⟨f, hf, -⟩ := hw.job_future id before hbefore
      obtain ⟨g, hg, -⟩ := hended.subsides.eases.futures before.future f hf
      have hold : w.jobs[id]? = some old := hold
      rw [hbefore] at hold
      cases hold
      rw [hfuture] at hg hsameFuture
      have hdone : (w.putDown id job (.finished result)).isDone job.future = true := isDone_endJob hg id _
      have hopen : (w.putDown id job (.finished result)).isDone now.future = false := hopen
      rw [hsameFuture, hdone] at hopen
      cases hopen
    · rw [left_self, left_of_idle rfl, hrest now hj]
      exact .stays _
  · obtain ⟨hresume, hwaiting⟩ := hsame fun hmine => h (Option.some.inj hmine)
    rw [left_other _ h, left_of_idle rfl, hresume, hwaiting]
    exact .stays _

/-- Advancing a turn past anything but an operation is an effect of the system. -/
theorem effect_advance {r : Routine (Except FaultId Value)} (hw : w.Sound) (hup : w.Up id job)
    (hop : ∀ o k, r ≠ .op o k) :
    Effect env P { world := w, activity := .turn ⟨id, job, r⟩ } (Turn.advance env ⟨id, job, r⟩ w) := by
  obtain ⟨before, hbefore, hfuture, -, -, hwaiting⟩ := hup.get
  cases r with
  | done result => exact effect_putDown hw hup (.finished result) (.inl ⟨result, rfl, rfl⟩)
  | op o k => exact absurd rfl (hop o k)
  | await future k =>
    cases future with
    | none =>
      refine effect_putDown hw hup (.paused k) (.inr ⟨rfl, fun now hnow => ?_⟩)
      have hnow : (w.modifyJob id ({ · with resume := k })).jobs[id]? = some now := hnow
      rw [modifyJob_get, if_pos rfl, hbefore] at hnow
      cases hnow
      exact congrArg (Routine.await · k) hwaiting.symm
    | some future =>
      cases ho : w.outcome? future with
      | some o =>
        have hreceive : Effect env P _ _ := effect_receive hw hup k ho
        simpa only [Turn.advance, ho] using hreceive
      | none =>
        have hparked : Effect env P { world := w, activity := .turn ⟨id, job, .await (some future) k⟩ }
            { world := w.putDown id job (.parked future k) } := by
          have hpasses : Passes none _ (w.park id future k) := passes_parked hw hup.off future k
          have hset : (w.modifyJob id ({ · with resume := k, waiting := some future })).jobs[id]? =
              some { before with resume := k, waiting := some future } := by
            rw [modifyJob_get, if_pos rfl, hbefore]
            rfl
          refine effect_putDown hw hup (.parked future k) (.inr ⟨?_, fun now hnow => ?_⟩)
          · obtain ⟨f, hf, howner⟩ := hw.job_future id before hbefore
            rw [hfuture] at hf
            exact hpasses.owned job.future f id hf howner (Option.some_ne_none id).symm
          · obtain ⟨old, hold, -, -, hsame⟩ := hpasses.leaves.job id now hnow
            obtain ⟨hresume, hawaits⟩ := hsame (Option.some_ne_none _).symm
            rw [hset] at hold
            cases hold
            rw [hresume, hawaits]
        simpa only [Turn.advance, ho] using hparked

/-- Calling the next callback is an effect of the system, provided the deeds queued keep to the operations allowed. -/
theorem effect_called (hw : w.Sound) (hdeeds : ∀ d, w.loop.Queued (.deed d) → d.code.run.All P) {c : Callback}
    {l : Loop Callback} (hnext : w.loop.next? = some (some c, l)) :
    Effect env P { world := w } (called env { w with loop := l } c) := by
  have htaken : w.Passes none { w with loop := l } := passes_next hw hnext
  have hloop : w.Proceeds { w with loop := l } := (light_next hw hnext).grows.proceeds
  have hsound := (hloop hw).1
  have hqueued : w.loop.Queued c := (Loop.Queued.of_next? hnext).2 c rfl
  cases c with
  | run id =>
    exact effect_resumed hw hloop htaken (hw.off_of_next hnext) rfl fun job hjob => .nothing (hw.idle_of_next hnext hjob)
  | wake id =>
    simp only [called]
    cases houtcome : ((w.jobs[id]?).bind Job.waiting).bind (World.outcome? { w with loop := l }) with
    | none =>
      dsimp only
      exact effect_passes rfl hw hloop htaken rfl fun _ hdeed => by cases hdeed
    | some o =>
      dsimp only
      obtain ⟨future, hwaits, ho⟩ := Option.bind_eq_some_iff.1 houtcome
      obtain ⟨job, hjob, hwaiting⟩ := Option.bind_eq_some_iff.1 hwaits
      have haside := World.aside_receive { w with loop := l } o
      refine effect_resumed hw (hloop.trans haside.light.grows.proceeds) (htaken.trans (passes_receive _ o)) ?_ haside.jobs
        fun now hnow => ?_
      · rw [haside.loop]
        exact hsound.off_of_waiting houtcome
      · rw [haside.jobs, hjob] at hnow
        cases hnow
        have ho : w.outcome? future = some o := ho
        rw [hwaiting]
        exact receives_outcome ho _ _
  | elapse id =>
    have hend : w.Passes none _ := htaken.trans (passes_elapse hsound id)
    exact effect_passes rfl hw (hloop.trans (proceeds_elapse _ id)) hend rfl fun _ hdeed => by cases hdeed
  | retract id =>
    have hdone (s : PacedStep) (hs : w.gate.steps[id]? = some s) : w.isDone s.future = true := by
      obtain ⟨settled, hget, hdone⟩ := hw.queued _ hqueued
      rw [hget] at hs
      cases hs
      exact hdone
    have hend : w.Passes none (World.retract { w with loop := l } id) :=
      htaken.trans (passes_retract { w with loop := l } hdone)
    exact effect_passes rfl hw (hloop.trans (grows_retract _ id).proceeds) hend rfl fun _ hdeed => by cases hdeed
  | rouse future =>
    obtain ⟨f, hf, hplain, hother⟩ := hw.queued _ hqueued
    have hend : w.Passes none (World.rouse { w with loop := l } future) :=
      rouse_keeps htaken (htaken.trans (passes_settle hsound.toWired hf hplain hother (.value .none)))
    exact effect_passes rfl hw (hloop.trans (proceeds_rouse hf hplain)) hend rfl fun _ hdeed => by cases hdeed
  | deed d =>
    exact effect_passes rfl hw hloop htaken rfl fun c hc => by cases hc; exact hdeeds d hqueued

theorem not_op_of_idle (hidle : s.activity.turn? = none) (id : JobId) (job : Job) (o : Op)
    (k : o.Reply → Routine (Except FaultId Value)) : s.activity ≠ .turn ⟨id, job, .op o k⟩ := by
  intro hturn
  rw [hturn] at hidle
  cases hidle

/-- A job performs its next operation, or a step has no such effect. -/
theorem Step.op_or_effect (hP : Op.Guards P) (henv : env.Confined) (hs : s.Governed P) (h : Step env P s t) :
    (∃ w id job o k, s = { world := w, activity := .turn ⟨id, job, .op o k⟩ } ∧
      t = { world := (w.perform env o).2, activity := .turn ⟨id, job, k (w.perform env o).1⟩ }) ∨
    (∀ id job o k, s.activity ≠ .turn ⟨id, job, .op o k⟩) ∧ Effect env P s t := by
  cases h with
  | clock w clock =>
    exact .inr ⟨not_op_of_idle rfl, effect_passes rfl hs.world.toSound (light_setClock w clock).grows.proceeds
      (passes_setClock w clock) rfl fun _ hdeed => by cases hdeed⟩
  | perform w ho => exact .inr ⟨not_op_of_idle rfl, effect_performs hP henv hs.world rfl ho rfl
    fun _ hdeed => by cases hdeed⟩
  | spawn w hcode => exact .inr ⟨not_op_of_idle rfl, effect_spawn hs.world.toSound hcode⟩
  | next hnext =>
    obtain ⟨w, activity⟩ := s
    cases activity with
    | turn u =>
      cases hnext
      obtain ⟨id, job, r⟩ := u
      by_cases hop : ∃ o k, r = .op o k
      · obtain ⟨o, k, rfl⟩ := hop
        exact .inl ⟨w, id, job, o, k, rfl, rfl⟩
      · refine .inr ⟨fun id' job' o k hturn => ?_, effect_advance hs.world.toSound (hs.turn _ rfl) fun o k hr => hop
          ⟨o, k, hr⟩⟩
        cases hturn
        exact hop ⟨o, k, rfl⟩
    | deed c =>
      have hcode : c.All P := hs.deed c rfl
      cases c with
      | done result =>
        cases hnext
        exact .inr ⟨not_op_of_idle rfl, effect_passes rfl hs.world.toSound (.refl w) (.refl w) rfl
          fun _ hdeed => by cases hdeed⟩
      | op o k =>
        cases hnext
        exact .inr ⟨not_op_of_idle rfl, effect_performs hP henv hs.world rfl hcode.1 rfl fun c hc => by
          cases hc
          exact hcode.2 _⟩
    | none =>
      simp only [next?] at hnext
      split at hnext
      · cases hnext
      · next l hloop =>
        cases hnext
        exact .inr ⟨not_op_of_idle rfl, effect_passes rfl hs.world.toSound (light_next hs.world.toSound hloop).grows.proceeds
          (passes_next hs.world.toSound hloop) rfl fun _ hdeed => by cases hdeed⟩
      · next c l hloop =>
        cases hnext
        exact .inr ⟨not_op_of_idle rfl, effect_called hs.world.toSound (fun d hd => hP.deed d (hs.world.deed d hd)) hloop⟩

/-- A governed scene stays so over every effect. -/
theorem Effect.governed (hP : Op.Guards P) (h : Effect env P s t) (hs : s.Governed P) : t.Governed P := by
  refine ⟨?_, h.turn, h.deed, fun j job hj hopen => ?_⟩
  · obtain ⟨o, ho, hworld⟩ | hcalm := h.world
    · rw [hworld]
      have htouches : Touches env s.world (s.world.perform env o).2 := perform_touches (hP.quiet o ho) s.world
      exact hs.world.touches htouches
    · exact hs.world.subsides h.sound hcalm.subsides hcalm.deed
  · obtain ⟨-, code, hleft, hcode, -⟩ | ⟨old, hold, hfuture, hrun, honward⟩ := h.left j job hj hopen
    · rw [hleft]
      exact fun _ => hcode
    · have holdOpen : s.world.isDone old.future = false :=
        h.follows.futures.open_before (hfuture ▸ hopen)
      have hbefore := hs.code j old hold holdOpen
      rw [hrun]
      generalize s.left j old = before at honward hbefore
      generalize t.left j job = after at honward ⊢
      cases honward with
      | stays => exact hbefore
      | receives k hreceived => exact hbefore _

/-- A governed scene stays so over every step, provided listeners are confined. -/
theorem Step.governed (hP : Op.Guards P) (henv : env.Confined) (hs : s.Governed P) (h : Step env P s t) :
    t.Governed P := by
  obtain ⟨w, id, job, o, k, rfl, rfl⟩ | ⟨-, heffect⟩ := h.op_or_effect hP henv hs
  · exact governed_op hP henv hs
  · exact heffect.governed hP hs

/-- The world after a step of a governed scene follows from the world before. -/
theorem Step.follows (hP : Op.Guards P) (henv : env.Confined) (hs : s.Governed P) (h : Step env P s t) :
    s.world.Follows t.world := by
  obtain ⟨w, id, job, o, k, rfl, rfl⟩ | ⟨-, heffect⟩ := h.op_or_effect hP henv hs
  · exact (grows_perform env o w hs.world.toSound).2.follows
  · exact heffect.follows

/-- A fresh world is governed whatever operations are allowed. -/
theorem governed_fresh (hfresh : w.Fresh) : ({ world := w } : Scene).Governed P := by
  have hclear : w.Clear := by
    rintro i ⟨s, hs, -⟩
    simp [hfresh.steps] at hs
  refine ⟨⟨hfresh.sound, hclear.tidy, fun _ => hclear, fun d hd => ?_⟩, fun _ hturn => (by cases hturn),
    fun _ hdeed => (by cases hdeed), fun j job hj => ?_⟩
  · obtain ⟨r, hr, -⟩ | ⟨t, ht, -⟩ := hd
    · simp [hfresh.ready] at hr
    · simp [hfresh.timers] at ht
  · have hj : w.jobs[j]? = some job := hj
    simp [hfresh.jobs] at hj

/-- Every scene that comes about is governed. -/
theorem Reachable.governed (hP : Op.Guards P) (henv : env.Confined) (hs : Reachable env P s) : s.Governed P := by
  obtain ⟨w, hfresh, hsteps⟩ := hs
  induction hsteps with
  | refl => exact governed_fresh hfresh
  | tail _ hstep ih => exact hstep.governed hP henv ih

end Scene

end SteppedLogo
