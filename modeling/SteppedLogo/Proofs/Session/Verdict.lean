import SteppedLogo.Proofs.Session.Parked
import SteppedLogo.Proofs.Session.Reported
import SteppedLogo.Proofs.Session.Vacant

namespace SteppedLogo

namespace World

variable {env : Env} {u v w : World} {r : RunId} {id j : JobId} {job : Job} {task : FutureId} {o : Outcome}

/-- What is over stays as it has ended. -/
def KeepsEnds (w v : World) : Prop :=
  ∀ (r : RunId) (status : Status) (error : Option FaultId), status.isActive = false → w.Over r status error →
    v.Over r status error

theorem KeepsEnds.refl (w : World) : w.KeepsEnds w := fun _ _ _ _ h => h

theorem KeepsEnds.trans (huv : u.KeepsEnds v) (hvw : v.KeepsEnds w) : u.KeepsEnds w :=
  fun r status error hover h => hvw r status error hover (huv r status error hover h)

theorem keepsEnds_of_runs (hruns : v.session.runs = w.session.runs) : w.KeepsEnds v := by
  rintro r status error - ⟨run, hrun, hends⟩
  exact ⟨run, hruns ▸ hrun, hends⟩

/-- A run may be changed that is under way, or kept from having ended otherwise. -/
theorem keepsEnds_modifyRun (w : World) (id : RunId) (change : Run → Run)
    (hchange : ∀ run : Run, w.session.runs[id]? = some run →
      run.status.isActive = true ∨ (change run).status = run.status ∧ (change run).error = run.error) :
    w.KeepsEnds (w.modifyRun id change) := by
  rintro r status error hinactive ⟨run, hrun, rfl, rfl⟩
  have hget : (w.modifyRun id change).session.runs[r]? = if id = r then some (change run) else some run := by
    rw [modifyRun_get, hrun, Option.map_some]
  by_cases hself : id = r
  · subst hself
    rw [if_pos rfl] at hget
    obtain hactive | hsame := hchange run hrun
    · rw [hinactive] at hactive
      cases hactive
    · exact ⟨_, hget, hsame⟩
  · rw [if_neg hself] at hget
    exact ⟨run, hget, rfl, rfl⟩

theorem keepsEnds_start (program : Work Value) (source : String) (w : World) :
    w.KeepsEnds (w.start program source).2 := by
  obtain ⟨-, heq⟩ | ⟨-, number, nextNumber, message, heq⟩ := start_cases program source w
  · rw [heq]
    exact keepsEnds_of_runs rfl
  · rw [heq]
    rintro r status error - ⟨run, hrun, hends⟩
    exact ⟨run, getElem?_push_of_some hrun, hends⟩

theorem keepsEnds_cancelRun (w : World) (reason : Value) : w.KeepsEnds (w.cancelRun reason) := by
  refine cancelRun_keeps (K := w.KeepsEnds) (.refl w) fun _ hrunning => ?_
  refine (keepsEnds_modifyRun w w.session.current ({ · with status := .canceling, reason }) fun run hrun => .inl ?_).trans
    (keepsEnds_of_runs (runs_cancelGate _ reason))
  rw [← run_of_get hrun, hrunning]
  rfl

theorem keepsEnds_installFor (w : World) (id : RunId) : w.KeepsEnds (w.installFor id).2 := by
  obtain ⟨message, hinstall⟩ := installStep_eq w
  have hcounted : w.installStep.2.KeepsEnds (w.installStep.2.modifyRun id ({ · with steps := w.installStep.1.seq })) :=
    keepsEnds_modifyRun _ id _ fun _ _ => .inr ⟨rfl, rfl⟩
  have hset : w.KeepsEnds w.installStep.2 := keepsEnds_of_runs (by rw [hinstall]; rfl)
  unfold installFor
  dsimp only
  split
  · exact (hset.trans hcounted).trans (keepsEnds_of_runs (runs_cancelStep _ _ _))
  · exact hset.trans hcounted

theorem Touch.keepsEnds (h : Touch env w v) : w.KeepsEnds v := by
  cases h with
  | aside haside => exact keepsEnds_of_runs haside.runs
  | cancelStep i reason => exact keepsEnds_of_runs (runs_cancelStep w i reason)
  | cancels hcancels =>
    cases hcancels with
    | plain => exact keepsEnds_of_runs (congrArg Session.runs settle_session)
    | request => exact keepsEnds_of_runs rfl
  | cancelRun reason => exact keepsEnds_cancelRun w reason
  | start source => exact keepsEnds_start _ source w
  | defer | deferLater | nap | dropTimer => exact keepsEnds_of_runs rfl

theorem Change.keepsEnds (h : Change env w v) : w.KeepsEnds v := by
  cases h with
  | touch htouch => exact htouch.keepsEnds
  | defer | deferLater => exact keepsEnds_of_runs rfl
  | install =>
    obtain ⟨message, heq⟩ := installStep_eq w
    exact keepsEnds_of_runs (by rw [heq]; rfl)
  | installFor id => exact keepsEnds_installFor w id

theorem Changes.keepsEnds (h : Changes env w v) : w.KeepsEnds v := by
  induction h with
  | refl => exact .refl w
  | tail _ hchange ih => exact ih.trans hchange.keepsEnds

theorem session_finished (w : World) (id : JobId) (job : Job) (result : Except FaultId Value) :
    (w.putDown id job (.finished result)).session = (w.endRun job.run result).2.session := by
  unfold putDown
  exact (alongside_endJob ..).session

/-- A run is over with what it is concluded with, once its program has ended. -/
theorem over_finished (hw : w.Sound) (hup : w.Up id job) (hrun : job.run = some r) {result : Except FaultId Value}
    {status : Status} {error : Option FaultId}
    (hruns : (w.endRun (some r) result).2.session.runs = w.session.runs.modify r ({ · with status, error })) :
    (w.putDown id job (.finished result)).Over r status error := by
  obtain ⟨run, hget, -⟩ := hup.run hw hrun
  refine over_of_modify hget ?_
  rw [session_finished, hrun]
  exact hruns

/-- The end of a run leaves the others alone. -/
theorem keepsEnds_finished (hw : w.Sound) (hup : w.Up id job) (hrun : job.run = some r) (result : Except FaultId Value) :
    w.KeepsEnds (w.putDown id job (.finished result)) := by
  obtain ⟨run, hget, hactive⟩ := hup.run hw hrun
  obtain ⟨fault, hended, -⟩ := endRun_some w r result
  have hput : (w.putDown id job (.finished result)).session = (w.conclude r fault).2.session := by
    rw [session_finished, hrun, hended]
  obtain ⟨e, -, -, hstays⟩ | ⟨-, v, reason, status, error, hv, -, hafter⟩ := conclude_eq w r fault
  · rw [hstays] at hput
    exact keepsEnds_of_runs (congrArg Session.runs hput)
  have hruns : (v.cancelGate reason).2.session.runs = w.session.runs := (runs_cancelGate v reason).trans hv.runs
  have hchanged := keepsEnds_modifyRun (v.cancelGate reason).2 r ({ · with status, error }) fun run' hrun' => .inl (by
    rw [hruns, hget] at hrun'
    cases hrun'
    exact hactive)
  exact ((keepsEnds_of_runs hruns).trans hchanged).trans
    (keepsEnds_of_runs ((congrArg Session.runs hput).trans hafter.runs))

/-- What the job of a run ends with accords with how the run has ended: it has completed, it was stopped
deliberately, or it has failed for another reason. What is no error passes, as a cancellation does. -/
inductive Accords (w : World) (r : RunId) : Outcome → Prop
  | completed {x : Value} (hover : w.Over r .completed none) : Accords w r (.value x)
  | stopped {c : FaultId} (hover : w.Over r .failed (some c)) (hstop : w.faults.IsStop c) : Accords w r (.fault c)
  | failed {failure e : FaultId} {g f : Fault} (hover : w.Over r .failed (some e))
    (hget : w.faults.get? failure = some g) (hkind : g.kind = .program) (hinner : g.inner = some e)
    (herror : w.faults.get? e = some f) (hplain : f.kind ≠ .cancellation) : Accords w r (.fault failure)
  | passes {id : FaultId} {g : Fault} (hget : w.faults.get? id = some g) (hpasses : g.kind.isError = false) :
    Accords w r (.fault id)
  | cancelled : Accords w r .cancelled

theorem Accords.mono (h : w.Accords r o) (hends : w.KeepsEnds v) (hfaults : w.faults.Keeps v.faults) : v.Accords r o := by
  cases h with
  | completed hover => exact .completed (hends r _ _ rfl hover)
  | stopped hover hstop =>
    obtain ⟨f, hf, hkind⟩ := hstop
    obtain ⟨f', hf', hagrees⟩ := hfaults _ f hf
    exact .stopped (hends r _ _ rfl hover) ⟨f', hf', hagrees.kind.trans hkind⟩
  | failed hover hget hkind hinner herror hplain =>
    obtain ⟨g', hg', hagrees⟩ := hfaults _ _ hget
    obtain ⟨f', hf', hagrees'⟩ := hfaults _ _ herror
    exact .failed (hends r _ _ rfl hover) hg' (hagrees.kind.trans hkind) (hagrees.inner.trans hinner) hf'
      (hagrees'.kind ▸ hplain)
  | passes hget hpasses =>
    obtain ⟨g', hg', hagrees⟩ := hfaults _ _ hget
    exact .passes hg' (hagrees.kind ▸ hpasses)
  | cancelled => exact .cancelled

theorem accords_ok (hw : w.Sound) (hup : w.Up id job) (hrun : job.run = some r) (x : Value)
    (ho : (w.putDown id job (.finished (.ok x))).outcome? job.future = some o) :
    (w.putDown id job (.finished (.ok x))).Accords r o := by
  obtain hcancelled | hvalue := outcome?_putDown_ok hw hup hrun x
  · rw [hcancelled] at ho
    cases ho
    exact .cancelled
  · rw [hvalue] at ho
    cases ho
    exact .completed (over_finished hw hup hrun (runs_completed w r))

theorem accords_error (hw : w.Sound) (hup : w.Up id job) (hrun : job.run = some r) {e : FaultId} {f : Fault}
    (he : w.faults.get? e = some f) (ho : (w.putDown id job (.finished (.error e))).outcome? job.future = some o) :
    (w.putDown id job (.finished (.error e))).Accords r o := by
  obtain ⟨run, hget, -⟩ := hup.run hw hrun
  have hkept := (spares_conclude hw.toWired r (some e)).faults
  obtain ⟨f', hf', hagrees⟩ := hkept e f he
  cases herror : f.kind.isError with
  | false =>
    have hresult : (w.conclude r (some e)).1 = .error e := by
      simp only [conclude, kindOf_of_get he, herror]
      split <;> rfl
    obtain ⟨hfaults, -, hout⟩ := outcome?_putDown_error hw.toWired hup hrun hresult
    rw [hout] at ho
    cases ho
    split
    · exact .cancelled
    · exact .passes (hfaults ▸ hf') (hagrees.kind ▸ herror)
  | true =>
    cases hfound : w.faults.findCancellation e with
    | some c =>
      obtain ⟨hresult, hruns⟩ := conclude_stopped (r := r) he herror hfound
      have hends := endsStopped_putDown hw.toWired hup hrun hget he herror hfound
      rw [hends.outcome] at ho
      cases ho
      exact .stopped (over_finished hw hup hrun hruns) hends.stop
    | none =>
      obtain ⟨⟨failure, g, hresult, -⟩, hruns⟩ := conclude_failed (r := r) hw.toWired he herror hfound
      obtain ⟨hfaults, -⟩ := outcome?_putDown_error hw.toWired hup hrun hresult
      obtain ⟨failure, g, hout, hg, hkind, hinner, -⟩ :=
        (endsFailed_putDown hw.toWired hup hrun hget he herror hfound).outcome
      rw [hout] at ho
      cases ho
      refine .failed (over_finished hw hup hrun hruns) hg hkind hinner (hfaults ▸ hf') fun hstop => ?_
      exact Faults.findCancellation_eq_none_iff.1 hfound e .refl ⟨f, he, hagrees.kind.symm.trans hstop⟩

/-- A job runs the program of a run, and what it ends with accords with how the run does. -/
structure Serves (w : World) (j : JobId) (task : FutureId) (r : RunId) : Prop where
  job : ∃ job : Job, w.jobs[j]? = some job ∧ job.future = task ∧ job.run = some r ∧
    (w.isDone task = false → job.begun = false → job.waiting = none)
  accords : ∀ o, w.outcome? task = some o → w.Accords r o

end World

namespace Scene

open World

variable {env : Env} {P : Op → Prop} {s t : Scene} {r : RunId} {j : JobId} {task : FutureId}

theorem Step.keepsEnds (hs : s.Intact) (h : Step env P s t) : s.world.KeepsEnds t.world := by
  cases h.sequel with
  | @performs o _ hworld =>
    rw [hworld]
    exact Changes.keepsEnds (perform_changes o s.world)
  | ends hturn hrun hworld =>
    rw [hworld]
    exact keepsEnds_finished hs.sound (hs.turn _ hturn) hrun _
  | aside haside => exact keepsEnds_of_runs (congrArg Session.runs haside.session)

/-- A turn does not end with a fault that nobody has raised. -/
def Raises (s : Scene) : Prop :=
  ∀ (id : JobId) (job : Job) (e : FaultId), s.activity = .turn ⟨id, job, .done (.error e)⟩ →
    ∃ f, s.world.faults.get? e = some f

/-- What the job of a run does in its turn. -/
theorem serves_turn (hs : s.Intact) (h : Step env P s t) (hraises : s.Raises) (hserves : s.world.Serves j task r)
    (hturn : s.HasTurn j) : ∀ o, t.world.outcome? task = some o → t.world.Accords r o := by
  obtain ⟨taken, rest, hturn⟩ := hturn
  have hup : s.world.Up j taken := hs.turn _ hturn
  obtain ⟨job, hj, hfuture, hrun, -⟩ := hserves.job
  obtain ⟨now, hnow, hsameFuture, hsameRun, -⟩ := hup.get
  rw [hj] at hnow
  cases hnow
  have htask : taken.future = task := hsameFuture.symm.trans hfuture
  have htakenRun : taken.run = some r := hsameRun.symm.trans hrun
  intro o ho
  obtain ⟨w, activity⟩ := s
  cases hturn
  by_cases hdone : ∃ result, rest = .done result
  · obtain ⟨result, rfl⟩ := hdone
    rw [congrArg Scene.world (h.finished rfl)] at ho ⊢
    rw [← htask] at ho
    cases result with
    | ok x => exact accords_ok hs.sound hup htakenRun x ho
    | error e =>
      obtain ⟨f, he⟩ := hraises j taken e rfl
      exact accords_error hs.sound hup htakenRun he ho
  · -- its turn goes on, or it is put down and has not ended
    exfalso
    have hsame : t.world.outcome? job.future = w.outcome? job.future := by
      cases h with
      | next hnext =>
        cases hnext
        by_cases hop : ∃ o k, rest = .op o k
        · obtain ⟨o, k, rfl⟩ := hop
          exact (grows_perform env o w hs.sound).2.owned j job hj
        · have heffect : Effect env (fun _ => True) _ _ :=
            effect_advance hs.sound hup fun o k hr => hop ⟨o, k, hr⟩
          obtain hsame | hends := heffect.ended j job hj
          · exact hsame
          · cases hends with
            | finished hturn => exact absurd ⟨_, congrArg Turn.rest (Activity.turn.inj hturn)⟩ hdone
            | unbegun hidle => cases hidle
    rw [hfuture] at hsame
    have hopen : w.outcome? task = none := htask ▸ hup.undone
    rw [ho, hopen] at hsame
    cases hsame

/-- Whatever happens, a job of a run goes on to serve it. -/
theorem Step.serves (hs : s.Intact) (h : Step env P s t) (hraises : s.Raises) (hserves : s.world.Serves j task r) :
    t.world.Serves j task r := by
  obtain ⟨hfollows, hfaults⟩ := h.goes_on hs
  obtain ⟨job, hj, hfuture, hrun, hidle⟩ := hserves.job
  obtain ⟨now, hnow, hnowFuture, hnowRun, -⟩ := hfollows.job j job hj
  have hkept {o : Outcome} (ho : s.world.outcome? task = some o) : t.world.Accords r o :=
    (hserves.accords o ho).mono (h.keepsEnds hs) hfaults
  have hbefore (hopen : t.world.isDone task = false) : s.world.isDone task = false := hfollows.futures.open_before hopen
  by_cases hturn : s.HasTurn j
  · obtain ⟨taken, rest, hturn'⟩ := hturn
    obtain ⟨begun, hbegun, -, -, hhas, -⟩ := (hs.turn _ hturn').get
    refine ⟨⟨now, hnow, hnowFuture.trans hfuture, hnowRun.trans hrun, fun _ hnot => ?_⟩,
      serves_turn hs h hraises hserves ⟨taken, rest, hturn'⟩⟩
    rw [hfollows.begun hbegun hnow hhas] at hnot
    cases hnot
  cases hopen : s.world.isDone task with
  | true =>
    obtain ⟨o, ho⟩ := isDone_iff.1 hopen
    refine ⟨⟨now, hnow, hnowFuture.trans hfuture, hnowRun.trans hrun, fun hstill => ?_⟩, fun o' ho' => ?_⟩
    · rw [hbefore hstill] at hopen
      cases hopen
    · rw [hfollows.futures.outcome? ho] at ho'
      cases ho'
      exact hkept ho
  | false =>
    cases h.fate hs hj hturn with
    | bides hbides hnot =>
      obtain ⟨now, hnow, hnowFuture, hnowRun, -, hwaiting, hbegun⟩ := hbides.job job hj
      refine ⟨⟨now, hnow, hnowFuture.trans hfuture, hnowRun.trans hrun, fun _ hunbegun => ?_⟩, fun o ho => ?_⟩
      · rw [hwaiting]
        refine hidle hopen ?_
        by_contra hbegan
        rw [hbegun (by simpa using hbegan)] at hunbegun
        cases hunbegun
      · rw [← hfuture, hbides.outcome job hj, hfuture] at ho
        exact hkept ho
    | taken hhas =>
      have hup : t.world.Up j job := (h.parts hs).1.turn _ hhas
      obtain ⟨begun, hget, -, -, hbegun, -⟩ := hup.get
      refine ⟨⟨now, hnow, hnowFuture.trans hfuture, hnowRun.trans hrun, fun _ hunbegun => ?_⟩, fun o ho => ?_⟩
      · rw [hnow] at hget
        cases hget
        rw [hbegun] at hunbegun
        cases hunbegun
      · have hundone := hup.undone
        rw [hfuture, ho] at hundone
        cases hundone
    | unbegun hnot hreceived hout =>
      -- it waits for nothing yet, so that it is its own cancellation that it receives
      rw [hidle hopen hnot] at hreceived
      cases hreceived with
      | fault hawaited => cases hawaited
      | cancelled hget hkind =>
        rw [kindOf_of_get hget, hkind, if_pos rfl, hfuture] at hout
        refine ⟨⟨now, hnow, hnowFuture.trans hfuture, hnowRun.trans hrun, fun hstill => ?_⟩, fun o ho => ?_⟩
        · rw [isDone, hout] at hstill
          cases hstill
        · rw [hout] at ho
          cases ho
          exact .cancelled

end Scene

end SteppedLogo
