import SteppedLogo.Proofs.Session.Uncut

namespace SteppedLogo.World

open Words

variable {env : Env} {wrapping : Bool} {words : Words} {source : String} {start v w : World} {r : RunId}
variable {id : JobId} {job : Job} {rest : Routine (Except FaultId Value)} {result : Except FaultId Value}
variable {o : Outcome} {reason : Value}

/-- A deliberate stop for the given reason. -/
def StopsFor (w : World) (reason : Value) (o : Outcome) : Prop :=
  ∃ fault f, o = .fault fault ∧ w.faults.get? fault = some f ∧ (Fault.cancellation reason).Agrees f

/-- Between two states steps are settled by stops for the given reason alone. -/
def Stops (reason : Value) (w v : World) : Prop :=
  ∀ (i : StepId) (s : PacedStep), v.gate.steps[i]? = some s → ∀ o, v.outcome? s.future = some o →
    w.outcome? s.future = some o ∨ v.StopsFor reason o

/-- A program has ended with an error behind which a stop for the given reason is found. -/
def EndsBehind (reason : Value) (w : World) (result : Except FaultId Value) : Prop :=
  ∃ e g stop, result = .error e ∧ w.faults.get? e = some g ∧ g.kind.isError = true ∧
    w.faults.findCancellation e = some stop ∧ w.StopsFor reason (.fault stop)

/-- What is left of a program that is stopped for the given reason at the call boundary that it makes next, or
has been stopped at the one that it waits for. -/
inductive Halts (env : Env) (wrapping : Bool) (words : Words) (reason : Value) (w : World) :
    Routine (Except FaultId Value) → Prop
  | announcing (body : LogoList) (c : OpenCall) (cells : List Cell) (hpending : w.gate.pending = none) :
    Halts env wrapping words reason w ((announcing words body c cells).bind (closing wrapping))
  | waiting {i : StepId} {s : PacedStep} (body : LogoList) (c : OpenCall) (cells : List Cell)
    (hstep : w.gate.steps[i]? = some s) (hsettled : ∀ o, w.outcome? s.future = some o → w.StopsFor reason o) :
    Halts env wrapping words reason w
      (.await (some s.future) fun received => (passed words body c cells received).bind (closing wrapping))
  | closes {rest : Routine (Except FaultId Value)} (hheads : rest.Heads env (EndsBehind reason) w) :
    Halts env wrapping words reason w rest

/-- The job of a run has ended with a stop for the given reason, and the run with it as its error. -/
def EndsHalted (reason : Value) (r : RunId) (w : World) (o : Outcome) : Prop :=
  ∃ stop, o = .fault stop ∧ w.StopsFor reason o ∧ w.Over r .failed (some stop)

theorem StopsFor.mono (h : w.StopsFor reason o) (hfaults : w.faults.Keeps v.faults) : v.StopsFor reason o := by
  obtain ⟨fault, f, rfl, hf, hagrees⟩ := h
  obtain ⟨g, hg, hsame⟩ := hfaults fault f hf
  exact ⟨fault, g, rfl, hg, hagrees.trans hsame⟩

/-- A program that nothing has stopped so far is stopped at the call boundary that it waits for if the step of
it is at the gate and is rejected. -/
theorem Free.halts_of_pending {p : StepId} (h : Free env wrapping words source start r w rest)
    (hpending : w.gate.pending = some p) (reason : Value) : Halts env wrapping words reason w rest := by
  have hnever {α : Prop} (hfree : w.gate.pending = none) : α := by
    rw [hpending] at hfree
    cases hfree
  cases h with
  | closes _ hfree => exact hnever hfree
  | within hphase hgoing =>
    cases hphase with
    | parked hparked =>
      cases hparked with
      | queued _ _ _ hfree => exact hnever hfree
      | @waiting n body c cells i s _ _ hstep _ _ honly hreleased hpaced =>
        refine .waiting body c cells hstep fun o ho => ?_
        obtain hstops | ⟨x, rfl⟩ := hpaced o ho
        · exact hstops.elim
        · have hoff : w.gate.pending ≠ some i := hreleased _ ho
          rw [honly p hpending] at hpending
          exact absurd hpending hoff
    | begun _ _ _ hfree | announcing _ _ _ hfree | recording _ _ _ hfree | invoking _ _ _ hfree | raising _ _ hfree =>
      exact hnever hfree
    | done => exact absurd rfl (hgoing _)

/-- It is stopped at the call boundary that it is about to make if the step of that one is rejected. -/
theorem Free.halts_of_hook {call : Call} {k : Op.Reply (.hook call) → Routine (Except FaultId Value)}
    (h : Free env wrapping words source start r w (.op (.hook call) k)) (reason : Value) :
    Halts env wrapping words reason w (.op (.hook call) k) := by
  generalize hleft : Routine.op (.hook call) k = left at h
  cases h with
  | closes hheads =>
    subst hleft
    exact hheads.straight.1.elim
  | within hphase hgoing =>
    cases hphase with
    | parked | begun | recording | invoking | raising => cases hleft
    | announcing hc habreast hseq hpending => exact .announcing _ _ _ hpending
    | done => exact absurd rfl (hgoing _)

theorem EndsBehind.ended (hw : w.Sound) (hup : w.Up id job) (hrun : job.run = some r) (h : EndsBehind reason w result) :
    ∃ o, (w.putDown id job (.finished result)).outcome? job.future = some o ∧
      EndsHalted reason r (w.putDown id job (.finished result)) o := by
  obtain ⟨e, g, stop, rfl, he, herror, hfound, hstops⟩ := h
  obtain ⟨run, hget, -⟩ := hup.run hw hrun
  have hends := endsStopped_putDown hw.toWired hup hrun hget he herror hfound
  obtain ⟨hresult, hruns⟩ := conclude_stopped (r := r) he herror hfound
  obtain ⟨-, hsession, -⟩ := outcome?_putDown_error hw.toWired hup hrun hresult
  exact ⟨_, hends.outcome, stop, rfl, hstops.mono (passes_putDown hw hup (.finished (.error e))).spares.faults,
    over_of_modify hget (hsession ▸ hruns)⟩

/-- The step of the call boundary that is made is stopped as it is set up, or later. -/
theorem Halts.performs {o : Op} {k : o.Reply → Routine (Except FaultId Value)}
    (h : Halts env wrapping words reason w (.op o k)) (hlisteners : env.GoesBeside)
    (hw : w.Sound) (hactive : w.session.isActive = true) (hstops : Stops reason w (w.perform env o).2) :
    Halts env wrapping words reason (w.perform env o).2 (k (w.perform env o).1) := by
  generalize hleft : Routine.op o k = left at h
  cases h with
  | waiting => cases hleft
  | announcing body c cells hpending =>
    cases hleft
    obtain ⟨u, hu, -, -, -, hkeeps, heq⟩ := perform_hook_alike hlisteners hw hactive hpending
      { func := c.handler.procedure, args := .sequence 0 c.args, body := .list body, cell := .list (listAt c.cell) } rfl
    have hinstalled := installed_installFor hu
    obtain ⟨s, hs, hfuture⟩ := hinstalled.step
    rw [heq] at hstops ⊢
    dsimp only at hstops ⊢
    rw [← hfuture]
    refine .waiting body c cells hs fun o ho => ?_
    obtain hbefore | hstop := hstops _ s hs o ho
    · have hnew := hinstalled.new
      rw [← hfuture, hkeeps.outcome? hbefore] at hnew
      cases hnew
    · exact hstop
  | closes hheads =>
    subst hleft
    exact .closes hheads.performs

theorem Halts.waits {awaited : Option FutureId} {k : Except FaultId Value → Routine (Except FaultId Value)}
    (h : Halts env wrapping words reason w (.await awaited k)) (hspares : w.Spares v) (hstops : Stops reason w v) :
    Halts env wrapping words reason v (.await awaited k) := by
  generalize hleft : Routine.await awaited k = left at h
  cases h with
  | announcing => cases hleft
  | waiting body c cells hstep hsettled =>
    cases hleft
    obtain ⟨t, ht, hst⟩ := hspares.steps.get hstep
    rw [← hst]
    refine .waiting body c cells ht fun o ho => ?_
    obtain hbefore | hstop := hstops _ t ht o ho
    · exact (hsettled o (hst ▸ hbefore)).mono hspares.faults
    · exact hstop
  | closes hheads =>
    subst hleft
    exact hheads.straight.elim

/-- A program that is told of a stop for the given reason raises it again, and ends with it. -/
theorem heads_of_stop {stop : FaultId} (h : w.StopsFor reason (.fault stop)) :
    (closing wrapping (.error stop)).Heads env (EndsBehind reason) w := by
  obtain ⟨stop', f, hsame, hf, hagrees⟩ := h
  cases hsame
  have herror : f.kind.isError = true := by
    rw [hagrees.kind]
    rfl
  refine (heads_closing env hf herror wrapping).imp ?_
  rintro result u ⟨e, rfl, hcloses⟩
  obtain ⟨g, hg, hraised⟩ := hcloses.raised
  obtain ⟨f', hf', hkept⟩ := hcloses.faults stop f hf
  refine ⟨e, g, stop, rfl, hg, ?_, hcloses.stopped hagrees.kind, stop, f', rfl, hf', hagrees.trans hkept⟩
  rw [hraised.kind]
  exact raisedAs_isError herror wrapping

/-- What such a program waits for comes to nothing but the stop. -/
theorem Halts.receives {awaited : Option FutureId} {k : Except FaultId Value → Routine (Except FaultId Value)}
    {received : Except FaultId Value} (h : Halts env wrapping words reason w (.await awaited k)) (hspares : w.Spares v)
    (hreceives : Scene.Receives w v False awaited received) : Halts env wrapping words reason v (k received) := by
  generalize hleft : Routine.await awaited k = left at h
  cases h with
  | announcing => cases hleft
  | closes hheads =>
    subst hleft
    exact hheads.straight.elim
  | waiting body c cells hstep hsettled =>
    cases hleft
    cases hreceives with
    | nothing hnone => cases hnone
    | value hawaited hvalue =>
      cases hawaited
      obtain ⟨fault, f, hfault, -⟩ := hsettled _ hvalue
      cases hfault
    | cancelled _ _ _ hwhy =>
      obtain hrequested | ⟨future, hawaited, hcancelled⟩ := hwhy
      · exact hrequested.elim
      · cases hawaited
        obtain ⟨fault, f, hfault, -⟩ := hsettled _ hcancelled
        cases hfault
    | fault hawaited hfault =>
      cases hawaited
      exact .closes (heads_of_stop ((hsettled _ hfault).mono hspares.faults))

/-- A program that is stopped only tells of that. -/
theorem lasting_halted (hlisteners : env.GoesBeside) (words : Words)
    (reason : Value) :
    Lasting env r False (fun w v => Stops reason w v ∧ KeepsOver w v) (Halts env wrapping words reason)
      (EndsHalted reason r) where
  performs _ _ _ hw hactive _ hK hhalts := hhalts.performs hlisteners hw hactive hK.1
  waits _ _ _ _ hspares hK hhalts := hhalts.waits hspares hK.1
  receives _ _ _ _ _ hspares _ hreceives hhalts := hhalts.receives hspares hreceives
  unbegun hrequested := hrequested.elim
  finishes w id job result hw hup hrun _ hhalts := by
    generalize hleft : Routine.done result = left at hhalts
    cases hhalts with
    | announcing | waiting => cases hleft
    | closes hheads =>
      subst hleft
      exact (Routine.heads_done.1 hheads).ended hw hup hrun
  ended w v o hspares hK hended := by
    obtain ⟨stop, rfl, hstops, hover⟩ := hended
    exact ⟨stop, rfl, hstops.mono hspares.faults, hover.kept rfl hK.2⟩

end SteppedLogo.World
