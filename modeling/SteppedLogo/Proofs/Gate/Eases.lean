import SteppedLogo.Proofs.World.Move

namespace SteppedLogo.World

variable {env : Env} {u v w : World} {i : StepId}

/-- A step that nothing has settled yet. -/
def Outstanding (w : World) (i : StepId) : Prop :=
  ∃ s : PacedStep, w.gate.steps[i]? = some s ∧ w.isDone s.future = false

/-- No step is outstanding. -/
def Clear (w : World) : Prop := ∀ i, ¬ w.Outstanding i

/-- A step that is outstanding is the pending one; thus there is one at most. -/
def Tidy (w : World) : Prop := ∀ i, w.Outstanding i → w.gate.pending = some i

/-- No step comes up, and the pending one leaves the gate only once it is settled. -/
structure Eases (w v : World) : Prop where
  futures : KeepsFutures w v
  steps : KeepsSteps w v
  pending : ∀ i, w.gate.pending = some i → v.gate.pending = some i ∨ ¬ v.Outstanding i

/-- In a tidy state one step is outstanding at most. -/
theorem Tidy.unique (h : w.Tidy) {i k : StepId} (hi : w.Outstanding i) (hk : w.Outstanding k) : i = k :=
  Option.some.inj ((h i hi).symm.trans (h k hk))

theorem Clear.tidy (h : w.Clear) : w.Tidy := fun _ hi => absurd hi (h _)

/-- A tidy state with no step at the gate has none outstanding. -/
theorem Tidy.clear (h : w.Tidy) (hpending : w.gate.pending = none) : w.Clear := by
  intro i hi
  rw [h i hi] at hpending
  cases hpending

/-- A step that is outstanding was so before, where none came up and none was reopened. -/
theorem Outstanding.before (h : v.Outstanding i) (hfutures : KeepsFutures w v) (hsteps : KeepsSteps w v) :
    w.Outstanding i := by
  obtain ⟨t, ht, hopen⟩ := h
  obtain ⟨s, hs, hst⟩ := hsteps.symm.get ht
  exact ⟨s, hs, hfutures.open_before (hst ▸ hopen)⟩

theorem KeepsSteps.trans (huv : KeepsSteps u v) (hvw : KeepsSteps v w) : KeepsSteps u w :=
  fun i => (hvw i).trans (huv i)

/-- No step is added. -/
theorem KeepsSteps.size (h : KeepsSteps w v) : v.gate.steps.size = w.gate.steps.size := by
  have hle {u x : World} (hkeeps : KeepsSteps u x) : u.gate.steps.size ≤ x.gate.steps.size :=
    size_le_of_get fun i s hs => (hkeeps.get hs).imp fun _ hnow => hnow.1
  exact Nat.le_antisymm (hle h.symm) (hle h)

theorem Eases.refl (w : World) : w.Eases w := ⟨.refl w, .of_eq rfl, fun _ h => .inl h⟩

theorem Eases.trans (huv : u.Eases v) (hvw : v.Eases w) : u.Eases w := by
  refine ⟨huv.futures.trans hvw.futures, huv.steps.trans hvw.steps, fun i hi => ?_⟩
  obtain hi | hnot := huv.pending i hi
  · exact hvw.pending i hi
  · exact .inr fun h => hnot (h.before hvw.futures hvw.steps)

/-- Where the steps ease, none comes up. -/
theorem Eases.clear (h : w.Eases v) (hw : w.Clear) : v.Clear :=
  fun i hi => hw i (hi.before h.futures h.steps)

/-- A tidy state stays tidy where its steps ease. -/
theorem Eases.tidy (h : w.Eases v) (hw : w.Tidy) : v.Tidy := by
  intro i hi
  obtain hpending | hnot := h.pending i (hw i (hi.before h.futures h.steps))
  · exact hpending
  · exact absurd hi hnot

/-- A light change that does not take the pending step off the gate. -/
theorem Light.eases (h : w.Light v) (hpending : v.gate.pending = w.gate.pending) : w.Eases v :=
  ⟨h.futures, h.steps, fun _ hi => .inl (hpending.trans hi)⟩

theorem Aside.eases (h : w.Aside v) : w.Eases v := h.light.eases h.pending

/-- Another future may be settled at any time. -/
theorem eases_settle (w : World) (id : FutureId) (o : Outcome) : w.Eases (w.settle id o) :=
  ⟨keepsFutures_settle w id o, .of_eq (by rw [settle_gate]), fun _ hi => .inl (by rwa [settle_gate])⟩

/-- Taking a step off the gate leaves any other one pending. -/
theorem pending_retract (w : World) (id : StepId) :
    (w.retract id).gate.pending = if w.gate.pending = some id then none else w.gate.pending := by
  unfold retract
  cases (w.pacedStep? id).bind PacedStep.timer with
  | none =>
    dsimp only
    split <;> rfl
  | some timer =>
    have hsame : ((w.cancelTimer timer).clearTimer id).gate.pending = w.gate.pending := rfl
    dsimp only
    rw [hsame]
    split <;> rfl

/-- Taking a step off the gate that is settled. -/
theorem eases_retract (w : World) {id : StepId}
    (hdone : ∀ s : PacedStep, w.gate.steps[id]? = some s → w.isDone s.future = true) :
    w.Eases (w.retract id) := by
  have hlight := light_retract w id
  refine ⟨hlight.futures, hlight.steps, fun i hi => ?_⟩
  rw [pending_retract]
  by_cases h : w.gate.pending = some id
  · rw [hi] at h
    cases h
    refine .inr fun hout => ?_
    obtain ⟨s, hs, hopen⟩ := hout.before hlight.futures hlight.steps
    rw [hdone s hs] at hopen
    cases hopen
  · rw [if_neg h]
    exact .inl hi

/-- A step that is taken off the gate and settled is not outstanding. -/
theorem settled_retract_settle (hw : w.Wired) {id : StepId} {s : PacedStep}
    (hs : w.gate.steps[id]? = some s) (hu : (w.retract id).Aside u) (o : Outcome) :
    ¬ (u.settle s.future o).Outstanding id := by
  have hlight := (light_retract w id).trans hu.light
  obtain ⟨f, hf, -⟩ := hw.step_future id s hs
  obtain ⟨g, hg, -⟩ := hlight.futures s.future f hf
  have hself : (u.settle s.future o).isDone s.future = true := by
    cases ho : g.outcome with
    | none => exact isDone_iff.2 ⟨o, outcome?_settle_of_open hg ho o⟩
    | some p => exact isDone_iff.2 ⟨p, outcome?_settle_of_some (by rw [outcome?_of_get hg, ho]) _ _⟩
  rintro ⟨t, ht, hopen⟩
  obtain ⟨t', ht', hst⟩ := hlight.steps.get hs
  rw [settle_gate, ht'] at ht
  cases ht
  rw [hst, hself] at hopen
  cases hopen

/-- A step of a wired state may be taken off the gate and be settled right after, in whatever way. -/
theorem eases_retract_settle (hw : w.Wired) {id : StepId} {s : PacedStep}
    (hs : w.gate.steps[id]? = some s) (hu : (w.retract id).Aside u) (o : Outcome) :
    w.Eases (u.settle s.future o) := by
  have hlight := (light_retract w id).trans hu.light
  refine ⟨hlight.futures.trans (keepsFutures_settle u _ o),
    hlight.steps.trans (.of_eq (by rw [settle_gate])), fun i hi => ?_⟩
  rw [settle_gate, hu.pending, pending_retract]
  by_cases h : w.gate.pending = some id
  · rw [hi] at h
    cases h
    exact .inr (settled_retract_settle hw hs hu o)
  · rw [if_neg h]
    exact .inl hi

/-- Cancelling a step of a wired state eases the steps. -/
theorem eases_cancelStep (hw : w.Wired) (id : StepId) (reason : Value) :
    w.Eases (w.cancelStep id reason).2 := by
  obtain ⟨heq, -⟩ | ⟨s, hs, -, heq⟩ := cancelStep_cases w id reason
  · rw [heq]
    exact .refl w
  · rw [heq]
    exact (eases_retract_settle hw hs (aside_raise _ _) _).trans (aside_addLog ..).eases

theorem eases_cancelGate (hw : w.Wired) (reason : Value) : w.Eases (w.cancelGate reason).2 :=
  cancelGate_keeps (K := w.Eases) (.refl w) fun id => eases_cancelStep hw id reason

/-- The pending step is rejected when the gate is cancelled; then none is outstanding. -/
theorem Tidy.clear_cancelGate (h : w.Tidy) (hw : w.Wired) (reason : Value) :
    (w.cancelGate reason).2.Clear := by
  have heases := eases_cancelGate hw reason
  intro i hi
  have hbefore := hi.before heases.futures heases.steps
  simp only [cancelGate, h i hbefore] at hi
  obtain ⟨heq, hdone⟩ | ⟨s, hs, -, heq⟩ := cancelStep_cases w i reason
  · obtain ⟨s, hs, hopen⟩ := hbefore
    rw [hdone s hs] at hopen
    cases hopen
  · rw [heq] at hi
    exact settled_retract_settle hw hs (aside_raise _ _) _ hi

theorem eases_modifyRun (w : World) (id : RunId) (change : Run → Run) : w.Eases (w.modifyRun id change) :=
  ⟨.refl w, .of_eq rfl, fun _ h => .inl h⟩

theorem eases_modifyJob (w : World) (id : JobId) (change : Job → Job) : w.Eases (w.modifyJob id change) :=
  ⟨.refl w, .of_eq rfl, fun _ h => .inl h⟩

/-- Cancelling the run of a sound state eases the steps. -/
theorem eases_cancelRun (hw : w.Sound) (reason : Value) : w.Eases (w.cancelRun reason) := by
  refine cancelRun_keeps (K := w.Eases) (.refl w) fun _ hrunning => ?_
  have hsound := (grows_canceling hrunning reason hw).1
  exact ((eases_modifyRun w _ _).trans (eases_cancelGate hsound.toWired reason)).trans (aside_addLog ..).eases

theorem eases_addJob (w : World) (code : Work Value) (run : Option RunId) : w.Eases (w.addJob code run).2 :=
  ⟨.of_push rfl, .of_eq rfl, fun _ h => .inl h⟩

/-- A start eases the steps, for it makes no call boundary. -/
theorem eases_start (program : Work Value) (source : String) (w : World) :
    w.Eases (w.start program source).2 := by
  obtain ⟨-, heq⟩ | ⟨-, number, nextNumber, message, heq⟩ := start_cases program source w
  · rw [heq]
    exact (aside_complain w _).eases
  · rw [heq]
    refine Eases.trans (v := { w with session := { w.session with
      runs := w.session.runs.push { status := .running, number, source }, nextNumber } })
      ⟨.refl w, .of_eq rfl, fun _ h => .inl h⟩ ?_
    exact ((aside_modifyGate _ rfl rfl).trans (aside_addLog ..)).eases.trans (eases_addJob _ program _)

theorem Cancels.eases (h : Cancels w v) : w.Eases v := by
  cases h with
  | plain => exact eases_settle w _ _
  | request => exact eases_modifyJob w _ _

/-- What makes no call boundary eases the steps of a sound state. -/
theorem Touch.eases (h : Touch env w v) (hw : w.Sound) : w.Eases v := by
  cases h with
  | aside haside => exact haside.eases
  | defer => exact (light_soon w _).eases rfl
  | deferLater => exact (light_later w _ (c := .deed _) trivial rfl).eases rfl
  | nap => exact ⟨.of_push rfl, .of_eq rfl, fun _ h => .inl h⟩
  | dropTimer => exact (light_cancelTimer w _).eases rfl
  | cancelStep => exact eases_cancelStep hw.toWired _ _
  | cancels hcancels => exact hcancels.eases
  | cancelRun => exact eases_cancelRun hw _
  | start => exact eases_start _ _ w

/-- What makes no call boundary lets no step come up. -/
theorem Touches.eases (h : Touches env w v) (hw : w.Sound) : w.Eases v := by
  induction h with
  | refl => exact .refl w
  | tail hbefore htouch ih => exact ih.trans (htouch.eases (Changes.grows (Touches.changes hbefore) hw).1)

/-- A quiet operation eases the steps of a sound state. -/
theorem eases_perform (env : Env) {o : Op} (hquiet : o.IsQuiet) (hw : w.Sound) : w.Eases (w.perform env o).2 :=
  (perform_touches hquiet w).eases hw

/-- The end of a run eases the steps of a wired state. -/
theorem eases_conclude (hw : w.Wired) (id : RunId) (fault : Option FaultId) :
    w.Eases (w.conclude id fault).2 := by
  obtain ⟨e, -, -, hstays⟩ | ⟨-, u, reason, status, error, hu, -, hv⟩ := conclude_eq w id fault
  · rw [hstays]
    exact .refl w
  · have hcancel : w.Eases (u.cancelGate reason).2 :=
      hu.eases.trans (eases_cancelGate (hw.aside hu) reason)
    exact ((hcancel.trans (aside_modifyTrace _ _).eases).trans (eases_modifyRun _ id _)).trans hv.eases

/-- A step that elapses leaves the gate as it is settled. -/
theorem eases_elapse (hw : w.Wired) (id : StepId) : w.Eases (w.elapse id) := by
  obtain ⟨heq, -⟩ | ⟨s, hs, -, heq⟩ := elapse_cases w id
  · rw [heq]
    exact .refl w
  · rw [heq]
    exact eases_retract_settle hw hs (.refl _) _

end SteppedLogo.World
