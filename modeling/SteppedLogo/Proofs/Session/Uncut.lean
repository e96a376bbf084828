import SteppedLogo.Proofs.Program.Wrapping
import SteppedLogo.Proofs.Session.Lasting
import SteppedLogo.Proofs.Session.Phases
import SteppedLogo.Proofs.Session.Reported

namespace SteppedLogo.World

open Words

variable {env : Env} {wrapping : Bool} {words : Words} {source : String} {start v w : World} {r : RunId}
variable {id : JobId} {job : Job} {rest : Routine (Except FaultId Value)} {result : Except FaultId Value} {o : Outcome}

/-- What a program has come to in full: what it does without its call boundaries, from `start` on. -/
inductive Uncut (env : Env) (wrapping : Bool) (words : Words) (source : String) (start w : World) :
    Except FaultId Value → Prop
  | completed {direct : World} (hrun : (evaluate words false source).run.run env start = (.finished (.ok .none), direct))
    (halike : direct.Alike w) : Uncut env wrapping words source start w (.ok .none)
  | failed {direct : World} {d e : FaultId} {f g : Fault}
    (hrun : (evaluate words false source).run.run env start = (.finished (.error d), direct)) (halike : direct.Alike w)
    (hd : direct.faults.get? d = some f) (herror : f.kind.isError = true) (he : w.faults.get? e = some g)
    (hagrees : (raisedAs wrapping f).Agrees g) (hnone : w.faults.findCancellation e = none) :
    Uncut env wrapping words source start w (.error e)

/-- What is left of a program that nothing stops. -/
inductive Free (env : Env) (wrapping : Bool) (words : Words) (source : String) (start : World) (r : RunId) (w : World) :
    Routine (Except FaultId Value) → Prop
  | within {rest : Routine (Except FaultId Value)} (hphase : Phase env words source start r False w rest)
    (hgoing : ∀ result, rest ≠ .done result) :
    Free env wrapping words source start r w (rest.bind (closing wrapping))
  | closes {rest : Routine (Except FaultId Value)} (hheads : rest.Heads env (Uncut env wrapping words source start) w)
    (hpending : w.gate.pending = none) : Free env wrapping words source start r w rest

/-- What the job of a run has ended with that nothing has stopped. -/
inductive EndsUncut (env : Env) (wrapping : Bool) (words : Words) (source : String) (start : World) (r : RunId)
    (w : World) : Outcome → Prop
  | completed {direct : World} (hrun : (evaluate words false source).run.run env start = (.finished (.ok .none), direct))
    (halike : direct.Alike w) (hover : w.Over r .completed none) :
    EndsUncut env wrapping words source start r w (.value .none)
  | failed {direct : World} {d e failure : FaultId} {f g h : Fault}
    (hrun : (evaluate words false source).run.run env start = (.finished (.error d), direct)) (halike : direct.Alike w)
    (hd : direct.faults.get? d = some f) (hover : w.Over r .failed (some e)) (he : w.faults.get? e = some g)
    (hagrees : (raisedAs wrapping f).Agrees g) (hfailure : w.faults.get? failure = some h) (hkind : h.kind = .program)
    (hinner : h.inner = some e) (hargs : h.args = [.text (raisedAs wrapping f).summary]) :
    EndsUncut env wrapping words source start r w (.fault failure)

theorem Phase.free (h : Phase env words source start r False w rest) (wrapping : Bool) :
    Free env wrapping words source start r w (rest.bind (closing wrapping)) := by
  by_cases hdone : ∃ result, rest = .done result
  · obtain ⟨result, rfl⟩ := hdone
    cases h with
    | done hcut hresult =>
      cases hresult with
      | completed hrun halike hpending => exact .closes (Routine.heads_done.2 (.completed hrun halike)) hpending
      | failed hordinary hrun halike hd hfault hpending =>
        refine .closes ((heads_closing env hfault hordinary.1 wrapping).imp ?_) hpending
        rintro result v ⟨e, rfl, hcloses⟩
        obtain ⟨g, hg, hagrees⟩ := hcloses.raised
        exact .failed hrun (halike.trans hcloses.alike) hd hordinary.1 hg hagrees (hcloses.failed hordinary.2 rfl)
      | rejected _ _ _ hstops | cancelled _ _ hstops => exact hstops.elim
  · exact .within h fun result hresult => hdone ⟨result, hresult⟩

/-- What is left where a program that nothing stops waits. -/
theorem Free.parked {awaited : Option FutureId} {k : Except FaultId Value → Routine (Except FaultId Value)}
    (h : Free env wrapping words source start r w (.await awaited k)) :
    ∃ k', (k = fun received => (k' received).bind (closing wrapping)) ∧
      Parked env words source start r False w awaited k' := by
  generalize hleft : Routine.await awaited k = left at h
  cases h with
  | @within rest hphase hgoing =>
    cases rest with
    | done result => exact absurd rfl (hgoing result)
    | op o k => cases hleft
    | await future k' =>
      cases hleft
      cases hphase with
      | parked hparked => exact ⟨k', rfl, hparked⟩
  | closes hheads =>
    subst hleft
    exact hheads.straight.elim

/-- The job of a run ends as its program does. -/
theorem Uncut.ended (hw : w.Sound) (hup : w.Up id job) (hrun : job.run = some r)
    (hrequested : ∀ now : Job, w.jobs[id]? = some now → now.cancelRequested = false)
    (h : Uncut env wrapping words source start w result) :
    ∃ o, (w.putDown id job (.finished result)).outcome? job.future = some o ∧
      EndsUncut env wrapping words source start r (w.putDown id job (.finished result)) o := by
  have hspares : w.Spares (w.putDown id job (.finished result)) := (passes_putDown hw hup (.finished result)).spares
  cases h with
  | completed hdirect halike =>
    obtain ⟨hout, hover⟩ := completed_putDown hw hup hrun hrequested .none
    exact ⟨_, hout, .completed hdirect (halike.trans hspares.alike) hover⟩
  | @failed direct d e f g hdirect halike hd herror he hagrees hnone =>
    have hraised : g.kind.isError = true := by
      rw [hagrees.kind]
      exact raisedAs_isError herror wrapping
    obtain ⟨⟨failure, h, hresult, hh, hkind, hinner, -, hargs, -⟩, hruns⟩ :=
      conclude_failed (r := r) hw.toWired he hraised hnone
    obtain ⟨hfaults, hsession, hout⟩ := outcome?_putDown_error hw.toWired hup hrun hresult
    obtain ⟨g', hg', hsame⟩ := hspares.faults e g he
    obtain ⟨run, hget, -⟩ := hup.run hw hrun
    rw [kindOf_of_get hh, hkind] at hout
    refine ⟨_, hout, .failed hdirect (halike.trans hspares.alike) hd (over_of_modify hget (hsession ▸ hruns)) hg'
      (hagrees.trans hsame) (hfaults ▸ hh) hkind hinner ?_⟩
    simp only [hargs, Fault.summary, hagrees.message, hagrees.kind]

/-- Runs that are over stay as they are. -/
def KeepsOver (w v : World) : Prop :=
  ∀ (r : RunId) (run : Run), w.session.runs[r]? = some run → run.status.isActive = false → v.session.runs[r]? = some run

theorem Over.kept {status : Status} {error : Option FaultId} (h : w.Over r status error) (hover : status.isActive = false)
    (hkeeps : KeepsOver w v) : v.Over r status error := by
  obtain ⟨run, hrun, rfl, herror⟩ := h.run
  exact ⟨run, hkeeps r run hrun hover, rfl, herror⟩

theorem EndsUncut.kept (h : EndsUncut env wrapping words source start r w o) (hspares : w.Spares v)
    (hkeeps : KeepsOver w v) : EndsUncut env wrapping words source start r v o := by
  cases h with
  | completed hrun halike hover => exact .completed hrun (halike.trans hspares.alike) (hover.kept rfl hkeeps)
  | failed hrun halike hd hover he hagrees hfailure hkind hinner hargs =>
    obtain ⟨g, hg, hsame⟩ := hspares.faults _ _ he
    obtain ⟨h, hh, hsame'⟩ := hspares.faults _ _ hfailure
    exact .failed hrun (halike.trans hspares.alike) hd (hover.kept rfl hkeeps) hg (hagrees.trans hsame) hh
      (hsame'.kind.trans hkind) (hsame'.inner.trans hinner) (hsame'.args.trans hargs)

/-- As long as steps are settled by their pacing alone, and the job is not cancelled, nothing stops a program of
words. -/
theorem lasting_free (hlisteners : env.GoesBeside) (hwords : words.IsPlain) :
    Lasting env r False (fun w v => Paces False w v ∧ KeepsOver w v) (Free env wrapping words source start r)
      (EndsUncut env wrapping words source start r) where
  performs w o k hw hactive hcurrent hK hfree := by
    generalize hleft : Routine.op o k = left at hfree
    cases hfree with
    | @within rest hphase hgoing =>
      cases rest with
      | done result => exact absurd rfl (hgoing result)
      | await future k' => cases hleft
      | op o' k' =>
        cases hleft
        exact (hphase.op hlisteners hwords hw hactive hcurrent hK.1).free wrapping
    | closes hheads hpending =>
      subst hleft
      refine .closes hheads.performs ?_
      have htouches : Touches env w (w.perform env o).2 := perform_touches hheads.straight.1 w
      cases hafter : (w.perform env o).2.gate.pending with
      | none => rfl
      | some i =>
        rw [htouches.pending hw hafter] at hpending
        cases hpending
  waits w v awaited k hspares hK hfree := by
    obtain ⟨k', rfl, hparked⟩ := hfree.parked
    exact .within (.parked (hparked.spares hspares hK.1)) nofun
  receives w v awaited k received hspares hK hreceives hfree := by
    obtain ⟨k', rfl, hparked⟩ := hfree.parked
    exact (hparked.receives hwords hreceives False.elim hspares hK.1).free wrapping
  unbegun hrequested := hrequested.elim
  finishes w id job result hw hup hrun hrequested hfree := by
    have hnever (now : Job) (hnow : w.jobs[id]? = some now) : now.cancelRequested = false := by
      simpa using hrequested now hnow
    generalize hleft : Routine.done result = left at hfree
    cases hfree with
    | @within rest hphase hgoing =>
      cases rest with
      | done result => exact absurd rfl (hgoing result)
      | op | await => cases hleft
    | closes hheads =>
      subst hleft
      exact (Routine.heads_done.1 hheads).ended hw hup hrun hnever
  ended w v o hspares hK hended := hended.kept hspares hK.2

end SteppedLogo.World
