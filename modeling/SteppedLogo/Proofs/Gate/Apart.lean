import SteppedLogo.Proofs.Gate.Outstanding
import SteppedLogo.Proofs.Gate.Rested

namespace SteppedLogo.World

variable {env : Env} {P : Op → Prop} {u v w : World} {i p q : StepId} {s : PacedStep} {id : FutureId} {o : Outcome} {b n : Bool}

theorem Part.outcome? (h : Part b n w v) (ho : w.outcome? id = some o) : v.outcome? id = some o := by
  obtain ⟨f, hf, hfo⟩ := get_of_outcome? ho
  have hof (x : World) (hfutures : x.futures = w.futures) : x.outcome? id = some o := by
    rw [World.outcome?, hfutures]
    exact ho
  have hpush (g : Future) : (w.addFuture g).2.outcome? id = some o :=
    (outcome?_of_get (getElem?_push_of_some hf)).trans hfo
  cases h with
  | still hstill => exact hof v hstill.futures
  | addFuture _ _ hstill =>
    rw [World.outcome?, hstill.futures]
    exact hpush _
  | clock | soon | later | dropTimer | next => exact hof _ rfl
  | await _ future j => exact (light_whenDone w future j).futures.outcome? ho
  | settle | cancel => exact outcome?_settle_of_some ho _ _
  | @release _ _ _ u _ i s p hs hopen hretract hp hstill =>
    have hbefore : u.outcome? id = some o := hof u (hretract.futures.trans (futures_retract w i))
    rw [World.outcome?, hstill.futures]
    exact outcome?_settle_of_some hbefore s.future p
  | @retract _ _ i l => exact hof _ (futures_retract _ i)
  | @rouse _ _ future l =>
    exact rouse_keeps (w := { w with loop := l }) (I := fun x => x.outcome? id = some o) ho
      (outcome?_settle_of_some (w := { w with loop := l }) ho _ _)
  | install =>
    obtain ⟨message, heq⟩ := installStep_eq w
    rw [heq]
    exact hpush _

/-- A step stays the one of its number, and goes on to settle the same future. -/
theorem Part.step (h : Part b n w v) (hs : w.gate.steps[i]? = some s) :
    ∃ timer, v.gate.steps[i]? = some { s with timer } := by
  have hof (x : World) (hsteps : x.gate.steps = w.gate.steps) :
      ∃ timer, x.gate.steps[i]? = some { s with timer } := ⟨s.timer, by rw [hsteps, hs]⟩
  cases h with
  | still hstill => exact hof v hstill.steps
  | addFuture _ _ hstill => exact hof v hstill.steps
  | clock | soon | later | dropTimer | next => exact hof _ rfl
  | await _ future j => exact (light_whenDone w future j).step i s hs
  | settle | cancel => exact hof _ (by rw [settle_gate])
  | @release _ _ _ u _ k _ p _ _ hretract _ hstill =>
    obtain ⟨timer, ht⟩ := (light_retract w k).step i s hs
    exact ⟨timer, by rw [hstill.steps, settle_gate, hretract.steps, ht]⟩
  | @retract _ _ k l => exact (light_retract { w with loop := l } k).step i s hs
  | @rouse _ _ future l =>
    exact rouse_keeps (w := { w with loop := l }) (I := fun x => ∃ timer, x.gate.steps[i]? = some { s with timer })
      (hof _ rfl) (hof _ (by rw [settle_gate]))
  | install =>
    obtain ⟨message, heq⟩ := installStep_eq w
    rw [heq]
    exact ⟨s.timer, getElem?_push_of_some hs⟩

theorem PartsOf.step (h : PartsOf b n w v) (hs : w.gate.steps[i]? = some s) :
    ∃ timer, v.gate.steps[i]? = some { s with timer } := by
  refine h.keeps (I := fun u => ∃ timer, u.gate.steps[i]? = some { s with timer }) (fun u x _ hpart hu => ?_)
    ⟨s.timer, hs⟩
  obtain ⟨timer, ht⟩ := hu
  obtain ⟨timer', hx⟩ := hpart.step ht
  exact ⟨timer', hx⟩

theorem PartsOf.steps_size_le (h : PartsOf b n w v) : w.gate.steps.size ≤ v.gate.steps.size :=
  size_le_of_get fun _ _ hs => (h.step hs).elim fun _ hsame => ⟨_, hsame⟩

/-- The outcome of a step is set once. -/
theorem PartsOf.settled (h : PartsOf b n w v) (hs : w.gate.steps[i]? = some s) (ho : w.outcome? s.future = some o) :
    ∃ t : PacedStep, v.gate.steps[i]? = some t ∧ t.future = s.future ∧ v.outcome? t.future = some o := by
  refine h.keeps (I := fun u => ∃ t : PacedStep, u.gate.steps[i]? = some t ∧ t.future = s.future ∧
    u.outcome? t.future = some o) (fun u x _ hpart hu => ?_) ⟨s, hs, rfl, ho⟩
  obtain ⟨t, ht, hfuture, hout⟩ := hu
  obtain ⟨timer, hx⟩ := hpart.step ht
  exact ⟨_, hx, hfuture, hpart.outcome? hout⟩

/-- What belongs to the step `q` is the same in both states: the step with its timer, the future that it
settles and all that waits for it, what the loop holds of its timer, and its place at the gate. -/
structure Untouched (q : StepId) (w v : World) : Prop where
  step : v.gate.steps[q]? = w.gate.steps[q]?
  future : ∀ s : PacedStep, w.gate.steps[q]? = some s → v.futures[s.future]? = w.futures[s.future]?
  timers : ∀ (s : PacedStep) (t : TimerId), w.gate.steps[q]? = some s → s.timer = some t →
    v.loop.timers.filter (·.id == t) = w.loop.timers.filter (·.id == t)
  ready : ∀ (s : PacedStep) (t : TimerId), w.gate.steps[q]? = some s → s.timer = some t →
    v.loop.ready.filter (·.timer == some t) = w.loop.ready.filter (·.timer == some t)
  pending : v.gate.pending = some q ↔ w.gate.pending = some q

theorem Untouched.trans (huv : Untouched q u v) (hvw : Untouched q v w) : Untouched q u w where
  step := hvw.step.trans huv.step
  future s hs := (hvw.future s (huv.step.trans hs)).trans (huv.future s hs)
  timers s t hs ht := (hvw.timers s t (huv.step.trans hs) ht).trans (huv.timers s t hs ht)
  ready s t hs ht := (hvw.ready s t (huv.step.trans hs) ht).trans (huv.ready s t hs ht)
  pending := hvw.pending.trans huv.pending

theorem Still.untouched (h : w.Still v) (q : StepId) : Untouched q w v where
  step := by rw [h.steps]
  future s _ := by rw [h.futures]
  timers s t _ _ := by rw [h.loop]
  ready s t _ _ := by rw [h.loop]
  pending := by rw [h.pending]

theorem Untouched.refl (q : StepId) (w : World) : Untouched q w w := (Still.refl w).untouched q

/-- A future may be settled that is not the one of the step. -/
theorem untouched_settle (o : Outcome) (hother : ∀ s : PacedStep, w.gate.steps[q]? = some s → s.future ≠ id) :
    Untouched q w (w.settle id o) where
  step := by rw [settle_gate]
  future s hs := by rw [settle_get, if_neg (hother s hs).symm]
  timers s t _ _ := by rw [settle_timers]
  ready s t _ _ := by
    obtain ⟨cs, -, hloop⟩ := settle_loop w id o
    have hqueued : (cs.map fun c => ({ callback := some c } : Ready Callback)).filter (·.timer == some t) = [] := by
      simp [List.filter_eq_nil_iff]
    rw [congrArg Loop.ready hloop, List.filter_append, hqueued, List.append_nil]
  pending := by rw [settle_gate]

/-- Another step may be taken off the gate, its timer being its own. -/
theorem untouched_retract (hw : w.Timed) (hne : p ≠ q) : Untouched q w (w.retract p) := by
  have hloop (t : TimerId) (s : PacedStep) (hs : w.gate.steps[q]? = some s) (ht : s.timer = some t) :
      (w.retract p).loop.timers.filter (·.id == t) = w.loop.timers.filter (·.id == t) ∧
        (w.retract p).loop.ready.filter (·.timer == some t) = w.loop.ready.filter (·.timer == some t) := by
    rw [loop_retract]
    cases htimer : (w.gate.steps[p]?).bind PacedStep.timer with
    | none => exact ⟨rfl, rfl⟩
    | some timer =>
      obtain ⟨s', hs', ht'⟩ := Option.bind_eq_some_iff.1 htimer
      have hother : timer ≠ t := by
        rintro rfl
        exact hne (hw.unique p q s' s timer hs' hs ht' ht)
      exact ⟨w.loop.timers_cancel_of_ne hother, w.loop.ready_cancel_of_ne hother⟩
  refine ⟨by rw [steps_retract, if_neg hne], fun s _ => by rw [futures_retract], fun s t hs ht => (hloop t s hs ht).1,
    fun s t hs ht => (hloop t s hs ht).2, ?_⟩
  rw [pending_retract]
  split
  · next hpending =>
    rw [hpending]
    exact ⟨fun h => (by cases h), fun h => absurd (Option.some.inj h) hne⟩
  · exact Iff.rfl

/-- Another step may be taken off the gate and settled. -/
theorem untouched_release (hw : w.Wired) (htimed : w.Timed) (hne : p ≠ q) (hs : w.gate.steps[p]? = some s)
    (hu : (w.retract p).Still u) (o : Outcome) : Untouched q w (u.settle s.future o) := by
  have hretract := (untouched_retract htimed hne).trans (hu.untouched q)
  refine hretract.trans (untouched_settle o fun t ht hfuture => ?_)
  exact hne (hw.step_unique p q s t hs (hretract.step.symm.trans ht) hfuture.symm)

theorem untouched_elapse (hw : w.Wired) (htimed : w.Timed) (hne : p ≠ q) : Untouched q w (w.elapse p) := by
  obtain ⟨heq, -⟩ | ⟨s, hs, -, heq⟩ := elapse_cases w p
  · rw [heq]
    exact .refl q w
  · rw [heq]
    exact untouched_release hw htimed hne hs (.refl _) _

theorem untouched_cancelStep (hw : w.Wired) (htimed : w.Timed) (hne : p ≠ q) (reason : Value) :
    Untouched q w (w.cancelStep p reason).2 := by
  obtain ⟨heq, -⟩ | ⟨s, hs, -, heq⟩ := cancelStep_cases w p reason
  · rw [heq]
    exact .refl q w
  · rw [heq]
    exact (untouched_release hw htimed hne hs (aside_raise _ _).still _).trans ((aside_addLog ..).still.untouched q)

/-- A cancellation reaches one step at most, and only one that still waits. -/
theorem untouched_cancelWithin (hw : w.Wired) (fuel : Nat) (id : FutureId) :
    ∃ p, ∀ q, q ≠ p ∨ ¬ w.Outstanding q → Untouched q w (cancelWithin fuel id w).2 := by
  induction fuel generalizing id with
  | zero => exact ⟨0, fun q _ => .refl q w⟩
  | succ fuel ih =>
    simp only [cancelWithin]
    split
    · exact ⟨0, fun q _ => .refl q w⟩
    · next f hf =>
      split
      · exact ⟨0, fun q _ => .refl q w⟩
      · next hopen =>
        split
        · -- the future itself is settled, and with it the step that it is of
          have hopen : w.isDone id = false := by
            rw [isDone, outcome?_of_get hf]
            simpa using hopen
          by_cases hstep : ∃ (p : StepId) (s : PacedStep), w.gate.steps[p]? = some s ∧ s.future = id
          · obtain ⟨p, s, hs, rfl⟩ := hstep
            refine ⟨p, fun q hq => untouched_settle _ fun t ht hfuture => ?_⟩
            obtain rfl := hw.step_unique q p t s ht hs hfuture
            exact hq.elim (fun h => h rfl) fun h => h ⟨s, hs, hopen⟩
          · exact ⟨0, fun q _ => untouched_settle _ fun t ht hfuture => hstep ⟨q, t, ht, hfuture⟩⟩
        · split
          · exact ⟨0, fun q _ => (still_modifyJob w _ _).untouched q⟩
          · next awaited _ =>
            obtain ⟨p, hp⟩ := ih awaited
            refine ⟨p, fun q hq => ?_⟩
            dsimp only
            split
            · exact hp q hq
            · exact (hp q hq).trans ((still_modifyJob _ _ _).untouched q)

/-- A callback that is about a step is about no other one. -/
theorem untouched_runCallback (hw : w.Wired) (htimed : w.Timed) {c : Callback} (hc : c.step? = some p) (hne : p ≠ q) :
    Untouched q w (w.runCallback env c) := by
  cases c with
  | elapse i =>
    cases hc
    exact untouched_elapse hw htimed hne
  | retract i =>
    cases hc
    exact untouched_retract htimed hne
  | run | wake | rouse | deed => cases hc

/-- What can be said of each step: its outcome is set once and lasts, and nothing has tried to settle a
future, be it that of a step or any other one, that was settled; whether a cancellation says that it took
effect; and that no other step is touched, by what is done to a step, by the cancellation of any future or
task, or by a callback that is about a step. -/
structure SettlesAlone (env : Env) (w : World) : Prop where
  never_again : w.resettled = #[]
  lasts : ∀ (i : StepId) (s : PacedStep) (o : Outcome), w.gate.steps[i]? = some s → w.outcome? s.future = some o →
    ∀ v, Changes env w v →
      ∃ t : PacedStep, v.gate.steps[i]? = some t ∧ t.future = s.future ∧ v.outcome? t.future = some o
  once : ∀ (i : StepId) (s : PacedStep), w.gate.steps[i]? = some s → w.isDone s.future = true →
    w.elapse i = w ∧ (∀ reason, w.cancelStep i reason = (false, w)) ∧ w.cancelFuture s.future = (false, w)
  cancelStep : ∀ i reason, ((w.cancelStep i reason).1 = true ↔ w.Outstanding i) ∧
    (w.Outstanding i → (w.cancelStep i reason).2.Rejected i reason)
  cancelGate : ∀ reason, (w.cancelGate reason).1 = true ↔ ∃ i, w.gate.pending = some i ∧ w.Outstanding i
  apart : ∀ p q, p ≠ q → Untouched q w (w.elapse p) ∧ Untouched q w (w.retract p) ∧
    ∀ reason, Untouched q w (w.cancelStep p reason).2
  cancelled : ∀ id, ∃ p, ∀ q, q ≠ p ∨ ¬ w.Outstanding q → Untouched q w (w.cancelFuture id).2
  called : ∀ c l p q, w.loop.next? = some (some c, l) → c.step? = some p → p ≠ q →
    Untouched q { w with loop := l } (runCallback env { w with loop := l } c)

theorem cancelStep_iff_outstanding (w : World) (i : StepId) (reason : Value) :
    (w.cancelStep i reason).1 = true ↔ w.Outstanding i := by
  obtain ⟨heq, hdone⟩ | ⟨s, hs, hopen, heq⟩ := cancelStep_cases w i reason
  · rw [heq]
    refine ⟨fun h => (by cases h), fun ⟨s, hs, hopen⟩ => ?_⟩
    rw [hdone s hs] at hopen
    cases hopen
  · rw [heq]
    exact ⟨fun _ => ⟨s, hs, hopen⟩, fun _ => rfl⟩

theorem cancelStep_of_done (hs : w.gate.steps[i]? = some s) (hdone : w.isDone s.future = true) (reason : Value) :
    w.cancelStep i reason = (false, w) := by
  obtain ⟨heq, -⟩ | ⟨t, ht, hopen, -⟩ := cancelStep_cases w i reason
  · exact heq
  · rw [hs] at ht
    cases ht
    rw [hdone] at hopen
    cases hopen

theorem elapse_of_done (hs : w.gate.steps[i]? = some s) (hdone : w.isDone s.future = true) : w.elapse i = w := by
  obtain ⟨heq, -⟩ | ⟨t, ht, hopen, -⟩ := elapse_cases w i
  · exact heq
  · rw [hs] at ht
    cases ht
    rw [hdone] at hopen
    cases hopen

theorem cancelFuture_of_done (hdone : w.isDone id = true) : w.cancelFuture id = (false, w) := by
  obtain ⟨o, ho⟩ := isDone_iff.1 hdone
  obtain ⟨f, hf, hfo⟩ := get_of_outcome? ho
  simp [cancelFuture, cancelWithin, hf, hfo]

theorem settlesAlone_of_timed (hw : w.Sound) (htimed : w.Timed) (hnever : w.resettled = #[]) : w.SettlesAlone env where
  never_again := hnever
  lasts _ _ _ hs ho _ hchanges := (hchanges.parts hw).settled hs ho
  once _ _ hs hdone :=
    ⟨elapse_of_done hs hdone, fun reason => cancelStep_of_done hs hdone reason, cancelFuture_of_done hdone⟩
  cancelStep i reason := ⟨cancelStep_iff_outstanding w i reason, fun hi => rejected_cancelStep hw hi reason⟩
  cancelGate reason := by
    unfold World.cancelGate
    cases hpending : w.gate.pending with
    | none => simp
    | some i => simpa using cancelStep_iff_outstanding w i reason
  apart _ _ hne := ⟨untouched_elapse hw.toWired htimed hne, untouched_retract htimed hne,
    fun reason => untouched_cancelStep hw.toWired htimed hne reason⟩
  cancelled id := untouched_cancelWithin hw.toWired _ id
  called c l p q hnext hc hne := by
    have hwired : Wired { w with loop := l } := ((light_next hw hnext).grows hw).1.toWired
    have hl : Timed { w with loop := l } := htimed.of_steps (Nat.le_of_eq (nextTimer_next hnext).symm) rfl
    exact untouched_runCallback hwired hl hc hne

/-- Each step settles once and on its own. In every scene that comes about from a fresh bridge, whatever
programs, listeners (with steps of their own), deferred deeds and the host do in whichever order, and in
every state that the operations of a turn go through: no `settle` has met a future that was settled;
`cancelStep` and `cancelGate` say that they took effect exactly where the step was still waiting, and reject it
with their reason; `elapse`, `retract`, `cancelStep`, `cancelFuture` and the queued callbacks of a step leave
every other step alone. The outcome of a step is the same in all later scenes. -/
theorem steps_settle_alone {scene : Scene} (hscene : Scene.Reachable env P scene) :
    (∀ w, Changes env scene.world w → w.SettlesAlone env) ∧
    ∀ later, Scene.Steps env P scene later → ∀ (i : StepId) (s : PacedStep) (o : Outcome),
      scene.world.gate.steps[i]? = some s → scene.world.outcome? s.future = some o →
        ∃ t : PacedStep, later.world.gate.steps[i]? = some t ∧ t.future = s.future ∧
          later.world.outcome? t.future = some o := by
  obtain ⟨hintact, u, hfresh, hparts⟩ := hscene.parts
  have htimed : scene.world.Timed := hparts.timed hfresh.timed
  refine ⟨fun w hchanges => ?_, fun later hlater i s o hs ho => ?_⟩
  · have hchanged := hchanges.parts hintact.sound
    refine settlesAlone_of_timed (hchanges.grows hintact.sound).1 (hchanged.timed htimed) ?_
    obtain ⟨hrested, hnever⟩ := hparts.rested hfresh.rested
    rw [(hchanged.rested hrested).2, hnever, hfresh.resettled]
  · exact (Scene.Steps.parts hlater hintact).2.settled hs ho

/-- Two steps are outstanding where a listener has taken one while it was told of the other; to reject the
inner one leaves the outer one at the gate, with its future and its timer. -/
theorem steppedWithin_settles_alone : steppedWithin.Outstanding 0 ∧ steppedWithin.gate.pending = some 1 ∧
    (steppedWithin.cancelStep 0 (.text "late")).1 = true ∧
      (steppedWithin.cancelStep 0 (.text "late")).2.Rejected 0 (.text "late") ∧
        Untouched 1 steppedWithin (steppedWithin.cancelStep 0 (.text "late")).2 := by
  have halone := (steps_settle_alone (Scene.reachable_of_world steppedWithin_reachable)).1 steppedWithin .refl
  have hinner : steppedWithin.Outstanding 0 := ⟨_, rfl, rfl⟩
  obtain ⟨htrue, hrejected⟩ := halone.cancelStep 0 (.text "late")
  exact ⟨hinner, rfl, htrue.2 hinner, hrejected hinner, (halone.apart 0 1 (by decide)).2.2 (.text "late")⟩

end SteppedLogo.World
