import SteppedLogo.Proofs.Session.Concluded
import SteppedLogo.Proofs.Session.Waits

namespace SteppedLogo

namespace World

variable {env : Env} {v w : World} {r : RunId}

/-- Something that is said of what is left of a program, or of the outcome of its job. -/
abbrev Telling (α : Type) : Type := World → α → Prop

/-- `Q` is told of what is left of the program of the run `r`, and `E` of the outcome of its job, over all changes
that satisfy `K`. The job is cancelled only if that is `requested`. -/
structure Lasting (env : Env) (r : RunId) (requested : Prop) (K : World → World → Prop)
    (Q : Telling (Routine (Except FaultId Value))) (E : Telling Outcome) : Prop where
  performs : ∀ (w : World) (o : Op) (k : o.Reply → Routine (Except FaultId Value)), w.Sound →
    w.session.isActive = true → w.session.current = r → K w (w.perform env o).2 → Q w (.op o k) →
      Q (w.perform env o).2 (k (w.perform env o).1)
  waits : ∀ (w v : World) (awaited : Option FutureId) (k : Except FaultId Value → Routine (Except FaultId Value)),
    w.Spares v → K w v → Q w (.await awaited k) → Q v (.await awaited k)
  receives : ∀ (w v : World) (awaited : Option FutureId) (k : Except FaultId Value → Routine (Except FaultId Value))
    (received : Except FaultId Value), w.Spares v → K w v → Scene.Receives w v requested awaited received →
      Q w (.await awaited k) → Q v (k received)
  unbegun : requested → ∀ (w v : World) (k : Except FaultId Value → Routine (Except FaultId Value)),
    w.Spares v → Q w (.await none k) → E v .cancelled
  finishes : ∀ (w : World) (id : JobId) (job : Job) (result : Except FaultId Value), w.Sound → w.Up id job →
    job.run = some r → (∀ now : Job, w.jobs[id]? = some now → now.cancelRequested = true → requested) →
    Q w (.done result) → ∃ o, (w.putDown id job (.finished result)).outcome? job.future = some o ∧
      E (w.putDown id job (.finished result)) o
  ended : ∀ (w v : World) (o : Outcome), w.Spares v → K w v → E w o → E v o

/-- How a run stands: something is left of its program, or its job has ended. -/
inductive Stands (Q : Telling (Routine (Except FaultId Value))) (E : Telling Outcome) (task : FutureId) (w : World)
    (rest : Routine (Except FaultId Value)) : Prop
  | under (hopen : w.outcome? task = none) (hleft : Q w rest)
  | concluded {o : Outcome} (hout : w.outcome? task = some o) (hended : E w o)

end World

namespace Scene

open World

variable {env : Env} {u v w : World} {s t : Scene} {r : RunId} {id j : JobId} {job : Job} {task : FutureId}
variable {result : Except FaultId Value} {requested : Prop} {K : World → World → Prop}
variable {Q : Telling (Routine (Except FaultId Value))} {E : Telling Outcome}

/-- The job of a run that has just been started has not begun, so that its program is queued. -/
theorem left_started {P : Op → Prop} {program : Work Value} {source : String} (hs : s.Governed P)
    (hstarted : Started program source task w s.world) {job : Job} (hjob : s.world.jobs[w.jobs.size]? = some job) :
    s.left w.jobs.size job = .await none fun _ => program.run := by
  rw [hstarted.job] at hjob
  cases hjob
  refine left_of_not_turn (fun u hu hid => ?_) _
  obtain ⟨now, hnow, -, -, hbegun, -⟩ := (hs.turn u hu).get
  rw [hid, hstarted.job] at hnow
  cases hnow
  cases hbegun

/-- Where a job neither performs an operation nor ends, it waits. -/
theorem left_await (hop : ∀ id job o k, s.activity ≠ .turn ⟨id, job, .op o k⟩)
    (hdone : ∀ job result, s.activity ≠ .turn ⟨j, job, .done result⟩) (job : Job) :
    ∃ awaited k, s.left j job = .await awaited k := by
  obtain ⟨w, activity⟩ := s
  cases activity with
  | none | deed => exact ⟨_, _, rfl⟩
  | turn u =>
    obtain ⟨id, taken, rest⟩ := u
    by_cases h : id = j
    · subst h
      rw [left_self]
      cases rest with
      | op o k => exact absurd rfl (hop id taken o k)
      | done result => exact absurd rfl (hdone taken result)
      | await awaited k => exact ⟨awaited, k, rfl⟩
    · exact ⟨_, _, left_other w h taken rest job⟩

theorem Effect.spares (h : Effect env Op.Steers s t) (hs : s.world.Sound)
    (hsize : t.world.session.runs.size = s.world.session.runs.size) : s.world.Spares t.world := by
  obtain ⟨o, hsteers, hworld⟩ | hcalm := h.world
  · rw [hworld] at hsize ⊢
    exact (perform_beside hsteers hs.toWired).spares hsize
  · exact hcalm.spares

/-- While no later run has begun, the other jobs are of no run, and do only what those may. -/
theorem Governed.others {P : Op → Prop} {taken : Job} {o : Op} {k : o.Reply → Routine (Except FaultId Value)}
    (hs : ({ world := w, activity := .turn ⟨j, taken, .op o k⟩ } : Scene).Governed P)
    (hjob : w.jobs[id]? = some job) (hrun : job.run = some r) (hsize : w.session.runs.size = r + 1) (hne : j ≠ id) :
    taken.run = none ∧ P o := by
  have hup : w.Up j taken := hs.turn _ rfl
  have hcode := hs.permitted_turn
  cases htaken : taken.run with
  | none =>
    rw [htaken] at hcode
    exact ⟨rfl, hcode.1⟩
  | some q =>
    obtain ⟨now, hnow, -, hnowRun, -⟩ := hup.get
    have hcurrent := (hup.active hs.world.toSound htaken).1
    rw [Session.current, hsize, Nat.add_sub_cancel] at hcurrent
    exact absurd (hs.world.job_unique j id now job r hnow hjob (by rw [hnowRun, htaken, hcurrent]) hrun) hne

/-- What is said of a run while no later one has begun. -/
structure Tells (Q : Telling (Routine (Except FaultId Value))) (E : Telling Outcome) (r : RunId) (id : JobId)
    (task : FutureId) (s : Scene) : Prop where
  begun : r < s.world.session.runs.size
  kept : s.world.session.runs.size = r + 1 → ∃ job : Job, s.world.jobs[id]? = some job ∧ job.future = task ∧
    job.run = some r ∧ Stands Q E task s.world (s.left id job)

/-- A job performs its next operation: it is that of the program, or goes on beside it. -/
theorem Tells.performs (hlasting : Lasting env r requested K Q E) {taken : Job} {o : Op}
    {k : o.Reply → Routine (Except FaultId Value)}
    (hs : ({ world := w, activity := .turn ⟨j, taken, .op o k⟩ } : Scene).Governed Op.Steers)
    (hK : K w (w.perform env o).2)
    (h : Tells Q E r id task { world := w, activity := .turn ⟨j, taken, .op o k⟩ }) :
    Tells Q E r id task { world := (w.perform env o).2, activity := .turn ⟨j, taken, k (w.perform env o).1⟩ } := by
  have hsound := hs.world.toSound
  have hup : w.Up j taken := hs.turn _ rfl
  have hextends := (grows_perform env o w hsound).2
  refine ⟨Nat.lt_of_lt_of_le h.begun hextends.runs_size_le, fun hsize => ?_⟩
  have hsame : w.session.runs.size = r + 1 := Nat.le_antisymm (hsize ▸ hextends.runs_size_le) h.begun
  obtain ⟨job, hjob, hfuture, hrun, hstands⟩ := h.kept hsame
  have hjob : w.jobs[id]? = some job := hjob
  obtain ⟨b, hb⟩ := hextends.job id job hjob
  have hstill : (w.perform env o).2.outcome? task = w.outcome? task := hfuture ▸ hextends.owned id job hjob
  refine ⟨_, hb, hfuture, hrun, ?_⟩
  by_cases hown : j = id
  · subst hown
    rw [left_self] at hstands
    rw [left_self]
    have hopen : w.outcome? task = none := hfuture ▸ hup.outcome?_get hjob
    cases hstands with
    | under _ hleft =>
      obtain ⟨-, hcurrent, hactive⟩ := hsound.active_of_open hjob hrun (.inl (isDone_eq_false.2 (hfuture ▸ hopen)))
      exact .under (hstill.trans hopen) (hlasting.performs w o k hsound hactive hcurrent.symm hK hleft)
    | concluded hout =>
      rw [hopen] at hout
      cases hout
  · have hbeside : w.Beside (w.perform env o).2 := perform_beside (hs.others hjob hrun hsame hown).2 hsound.toWired
    have hspares := hbeside.spares (hsize.trans hsame.symm)
    rw [left_other _ hown] at hstands
    rw [left_other _ hown]
    cases hstands with
    | under hopen hleft => exact .under (hstill.trans hopen) (hlasting.waits w _ _ _ hspares hK hleft)
    | concluded hout hended => exact .concluded (hstill.trans hout) (hlasting.ended w _ _ hspares hK hended)

/-- The program has ended, and with it the job of the run. -/
theorem Tells.finished (hlasting : Lasting env r requested K Q E) {taken : Job}
    (hs : ({ world := w, activity := .turn ⟨id, taken, .done result⟩ } : Scene).Governed Op.Steers)
    (hrequested : ∀ job : Job, w.jobs[id]? = some job → job.future = task → job.cancelRequested = true → requested)
    (h : Tells Q E r id task { world := w, activity := .turn ⟨id, taken, .done result⟩ }) :
    Tells Q E r id task { world := w.putDown id taken (.finished result) } := by
  have hsound := hs.world.toSound
  have hup : w.Up id taken := hs.turn _ rfl
  have hfollows := (proceeds_putDown hup (.finished result) hsound).2
  refine ⟨Nat.lt_of_lt_of_le h.begun hfollows.runs, fun hsize => ?_⟩
  have hsame : w.session.runs.size = r + 1 := Nat.le_antisymm (hsize ▸ hfollows.runs) h.begun
  obtain ⟨job, hjob, hfuture, hrun, hstands⟩ := h.kept hsame
  have hjob : w.jobs[id]? = some job := hjob
  obtain ⟨now, hnow, hnowFuture, hnowRun, -⟩ := hfollows.job id job hjob
  refine ⟨now, hnow, hnowFuture.trans hfuture, hnowRun.trans hrun, ?_⟩
  obtain ⟨before, hbefore, hbeforeFuture, hbeforeRun, -⟩ := hup.get
  rw [hjob] at hbefore
  cases hbefore
  rw [left_self] at hstands
  cases hstands with
  | under _ hleft =>
    have hnow (now : Job) (hnow : w.jobs[id]? = some now) (hcancel : now.cancelRequested = true) : requested := by
      rw [hjob] at hnow
      cases hnow
      exact hrequested job hjob hfuture hcancel
    obtain ⟨o, hout, hended⟩ := hlasting.finishes w id taken result hsound hup (hbeforeRun.symm.trans hrun) hnow hleft
    rw [← hbeforeFuture, hfuture] at hout
    exact .concluded hout hended
  | concluded hout =>
    rw [← hfuture, hup.outcome?_get hjob] at hout
    cases hout

/-- What happens while the program waits leaves it there, has it go on, or ends its job. -/
theorem Effect.stands (hlasting : Lasting env r requested K Q E) (h : Effect env Op.Steers s t)
    (hspares : s.world.Spares t.world) (hK : K s.world t.world)
    (hfirst : s.world.BegunFirst) (hdone : ∀ job result, s.activity ≠ .turn ⟨id, job, .done result⟩) {now : Job}
    (hjob : s.world.jobs[id]? = some job) (hrequested : job.cancelRequested = true → requested)
    (hnow : t.world.jobs[id]? = some now) (hfuture : now.future = job.future)
    (hopen : s.world.outcome? job.future = none) {awaited : Option FutureId}
    {k : Except FaultId Value → Routine (Except FaultId Value)} (hleft : s.left id job = .await awaited k)
    (hwaits : Q s.world (.await awaited k)) : Stands Q E job.future t.world (t.left id now) := by
  obtain hsame | hends := h.ended id job hjob
  · have hstill : t.world.outcome? job.future = none := hsame.trans hopen
    refine .under hstill ?_
    obtain hbegins | ⟨old, hold, -, -, honward⟩ := h.left id now hnow (isDone_eq_false.2 (hfuture ▸ hstill))
    · rw [hbegins.new] at hjob
      cases hjob
    · rw [hjob] at hold
      cases hold
      rw [hleft] at honward
      generalize t.left id now = after at honward ⊢
      cases honward with
      | stays => exact hlasting.waits _ _ _ _ hspares hK hwaits
      | receives _ hreceives =>
        exact hlasting.receives _ _ _ _ _ hspares hK (hreceives.mono (.refl _) hrequested) hwaits
  · cases hends with
    | finished hturn => exact absurd hturn (hdone _ _)
    | unbegun hidle hbegun hreceives hout =>
      have hwaiting : job.waiting = none := by
        by_contra hwaiting
        rw [hfirst id job hjob hwaiting] at hbegun
        cases hbegun
      rw [left_of_idle hidle, hwaiting] at hleft
      cases hleft
      rw [hwaiting] at hreceives
      cases hreceives with
      | fault hawaited => cases hawaited
      | cancelled hget hkind _ hwhy =>
        obtain hcancel | ⟨_, hawaited, -⟩ := hwhy
        · rw [kindOf_of_get hget, if_pos hkind] at hout
          exact .concluded hout (hlasting.unbegun (hrequested hcancel) _ _ _ hspares hwaits)
        · cases hawaited

theorem Effect.tells (hlasting : Lasting env r requested K Q E) (h : Effect env Op.Steers s t) (hs : s.world.Sound)
    (hfirst : s.world.BegunFirst) (hK : K s.world t.world)
    (hrequested : ∀ job : Job, s.world.jobs[id]? = some job → job.future = task → job.cancelRequested = true → requested)
    (hop : ∀ id job o k, s.activity ≠ .turn ⟨id, job, .op o k⟩)
    (hdone : ∀ job result, s.activity ≠ .turn ⟨id, job, .done result⟩) (htells : s.Tells Q E r id task) :
    t.Tells Q E r id task := by
  refine ⟨Nat.lt_of_lt_of_le htells.begun h.follows.runs, fun hsize => ?_⟩
  have hsame : s.world.session.runs.size = r + 1 := Nat.le_antisymm (hsize ▸ h.follows.runs) htells.begun
  have hspares := h.spares hs (hsize.trans hsame.symm)
  obtain ⟨job, hjob, rfl, hrun, hstands⟩ := htells.kept hsame
  obtain ⟨now, hnow, hfuture, hnowRun, -⟩ := h.follows.job id job hjob
  refine ⟨now, hnow, hfuture, hnowRun.trans hrun, ?_⟩
  cases hstands with
  | under hopen hwaits =>
    obtain ⟨awaited, k, hleft⟩ := left_await hop hdone job
    rw [hleft] at hwaits
    exact h.stands hlasting hspares hK hfirst hdone hjob (hrequested job hjob rfl) hnow hfuture hopen hleft hwaits
  | concluded hout hended =>
    exact .concluded (h.follows.futures.outcome? hout) (hlasting.ended _ _ _ hspares hK hended)

/-- What lasts can still be said after each step. -/
theorem Step.tells (hlasting : Lasting env r requested K Q E) (henv : env.Confined) (hs : s.Governed Op.Steers)
    (hfirst : s.world.BegunFirst)
    (hK : (∀ taken result, s.activity ≠ .turn ⟨id, taken, .done result⟩) → K s.world t.world)
    (hrequested : ∀ job : Job, s.world.jobs[id]? = some job → job.future = task → job.cancelRequested = true → requested)
    (h : Step env Op.Steers s t) (htells : s.Tells Q E r id task) : t.Tells Q E r id task := by
  by_cases hdone : ∃ taken result, s.activity = .turn ⟨id, taken, .done result⟩
  · obtain ⟨taken, result, hturn⟩ := hdone
    rw [h.finished hturn]
    obtain ⟨w, activity⟩ := s
    cases hturn
    exact htells.finished hlasting hs hrequested
  · have hgoing (taken : Job) (result : Except FaultId Value) : s.activity ≠ .turn ⟨id, taken, .done result⟩ :=
      fun hturn => hdone ⟨taken, result, hturn⟩
    obtain ⟨w, j, taken, o, k, rfl, rfl⟩ | ⟨hop, heffect⟩ := h.op_or_effect Op.guards_steers henv hs
    · exact htells.performs hlasting hs (hK hgoing)
    · exact heffect.tells hlasting hs.world.toSound hfirst (hK hgoing) hrequested hop hgoing htells

end Scene

end SteppedLogo
