import SteppedLogo.Proofs.Program.Direct
import SteppedLogo.Proofs.Session.Runs
import SteppedLogo.Proofs.Session.Vacant

namespace SteppedLogo

/-- Operations that leave it to the runs to make call boundaries, to count them, and to record their calls. -/
def Op.Attends (o : Op) : Prop := o.LeavesCount ∧ o.recordsCall = false

theorem Op.Steers.attends {o : Op} (hsteers : o.Steers) : o.Attends := by
  refine ⟨hsteers.leavesCount, ?_⟩
  cases o with
  | recordCall => cases hsteers
  | _ => rfl

namespace World

variable {env : Env} {u v w : World}

/-- Nothing is recorded or counted of the program of a run, and no step is added to those of the gate; a step that
comes to be settled with a fault is stopped deliberately. -/
structure Bears (w v : World) : Prop where
  calls : v.calls = w.calls
  seq : v.gate.seq = w.gate.seq
  steps : KeepsSteps w v
  runs : ∀ r : RunId, (v.session.runs[r]?).map Run.steps = (w.session.runs[r]?).map Run.steps
  faults : w.faults.Keeps v.faults
  settled : ∀ (i : StepId) (q : PacedStep), w.gate.steps[i]? = some q → ∀ e,
    v.outcome? q.future = some (.fault e) →
      w.outcome? q.future = some (.fault e) ∨ ∃ f, v.faults.get? e = some f ∧ f.kind = .cancellation

theorem Spares.bears (h : w.Spares v) : w.Bears v where
  calls := h.alike.calls
  seq := h.seq
  steps := h.steps
  runs := h.runs
  faults := h.faults
  settled i q hq _ he := (h.settled i q hq _ he).imp_right And.right

theorem Bears.refl (w : World) : w.Bears w := (Spares.refl w).bears

theorem Bears.trans (huv : u.Bears v) (hvw : v.Bears w) : u.Bears w where
  calls := hvw.calls.trans huv.calls
  seq := hvw.seq.trans huv.seq
  steps := huv.steps.trans hvw.steps
  runs r := (hvw.runs r).trans (huv.runs r)
  faults := huv.faults.trans hvw.faults
  settled i q hq e he := by
    obtain ⟨q', hq', hfuture⟩ := huv.steps.get hq
    obtain hbefore | hstop := hvw.settled i q' hq' e (hfuture ▸ he)
    · obtain hbefore | ⟨f, hf, hkind⟩ := huv.settled i q hq e (hfuture ▸ hbefore)
      · exact .inl hbefore
      · obtain ⟨g, hg, hagrees⟩ := hvw.faults e f hf
        exact .inr ⟨g, hg, hagrees.kind.trans hkind⟩
    · exact .inr hstop

theorem Bears.runOf_steps (h : w.Bears v) (r : RunId) : (v.runOf r).steps = (w.runOf r).steps := by
  have hsteps (x : World) : (x.runOf r).steps = ((x.session.runs[r]?).map Run.steps).getD 0 := by
    rw [runOf]
    cases x.session.runs[r]? <;> rfl
  rw [hsteps, hsteps, h.runs r]

/-- A change of nothing that is told of here. -/
theorem bears_of_same (hcalls : v.calls = w.calls) (hgate : v.gate = w.gate) (hruns : v.session.runs = w.session.runs)
    (hfaults : v.faults = w.faults) (hfutures : v.futures = w.futures) : w.Bears v where
  calls := hcalls
  seq := by rw [hgate]
  steps := .of_eq (by rw [hgate])
  runs r := by rw [hruns]
  faults := hfaults ▸ .refl _
  settled _ _ _ _ he := .inl (by rwa [outcome?, hfutures] at he)

theorem bears_print (w : World) (category text : String) : w.Bears (w.print category text) := by
  unfold print
  dsimp only
  split <;> exact bears_of_same rfl rfl rfl rfl rfl

/-- Nothing of a run is told otherwise afterwards, unless a later one has begun. -/
def Tends (w v : World) : Prop := w.Bears v ∨ w.session.runs.size < v.session.runs.size

theorem Beside.tends (h : w.Beside v) : w.Tends v := h.imp_left Spares.bears

theorem Tends.bears (h : w.Tends v) (hsize : v.session.runs.size = w.session.runs.size) : w.Bears v :=
  h.resolve_right fun hlater => Nat.ne_of_lt hlater hsize.symm

theorem tends_invoke (handler : Handler) (args : List Value) (hw : w.Wired) : w.Tends (w.invoke env handler args).2 := by
  unfold invoke
  split
  · rw [callPrimitive_eq]
    split
    · exact .inl (spares_complain w _).bears
    · next e _ =>
      obtain ⟨_, _, _, _, heq⟩ := carryOut_frame w e
      rw [heq]
      exact .inl (bears_of_same rfl rfl rfl rfl rfl)
  · exact .inl (spares_cancelRun hw _).bears
  · exact .inl (spares_cancelRun hw _).bears
  · exact .inl (spares_complain w _).bears
  · next v =>
    have hstart := (beside_start (env.program v.display) v.display w).tends
    split <;> next heq => rw [heq] at hstart; exact hstart
  · exact .inl (bears_of_same rfl rfl rfl rfl rfl)
  · exact .inl (bears_of_same rfl rfl rfl rfl rfl)
  · exact .inl (spares_complain w _).bears
  · exact .inl (spares_complain w _).bears

theorem performWith_tends (notify : Notify) {o : Op} (ho : o.Attends) (hw : w.Wired) :
    w.Tends (performWith env notify o w).2 := by
  by_cases hsteers : o.Steers
  · exact (performWith_beside notify hsteers hw).tends
  · obtain ⟨⟨hquiet, hcount⟩, hcalls⟩ := ho
    cases o with
    | hook | step => cases hquiet
    | resetGate => cases hcount
    | recordCall => cases hcalls
    | newBody words => exact .inl (bears_of_same rfl rfl rfl rfl rfl)
    | invoke handler args => exact tends_invoke handler args hw
    | print category text => exact .inl (bears_print w category text)
    | write record => exact .inl (bears_of_same rfl rfl rfl rfl rfl)
    | defer => exact absurd hquiet hsteers
    | _ => exact absurd trivial hsteers

theorem tends_perform {o : Op} (ho : o.Attends) (hw : w.Wired) : w.Tends (w.perform env o).2 :=
  performWith_tends _ ho hw

end World

end SteppedLogo
