import SteppedLogo.Proofs.Session.Attended

namespace SteppedLogo.World

variable {env : Env} {P : Op → Prop} {u v w : World} {call : Call} {event : StepEvent} {args : List Value} {n : Nat}

/-- The event of which the listeners are told at a call boundary of the current run, and the state in which they begin to
be told; there is none where the boundary is refused. -/
def announced? (w : World) (call : Call) : Option (StepEvent × World) :=
  let call := if w.session.traceOn then call else { call with body := .none }
  let shown := (w.modifyGate fun g => { g with seq := g.seq + 1 }).showCall call
  match w.gate.pending, call.args.items with
  | none, .ok args => some (⟨shown.gate.seq, callName call.func, args, call.cell⟩, shown)
  | _, _ => none

/-- Where no step is pending no boundary is refused. -/
theorem announced?_ne_none (hpending : w.gate.pending = none) (hargs : call.args.items = .ok args) :
    w.announced? call ≠ none := by
  have hsame : (if w.session.traceOn then call else { call with body := .none }).args = call.args := by split <;> rfl
  simp only [announced?, hpending, hsame, hargs]
  exact nofun

/-- The state in which the listener number `n` is told of a step, those in front of it having been told. -/
def hearing (env : Env) (event : StepEvent) (w : World) (n : Nat) : World :=
  (tellEach (fun name => (env.react name event).run.run (performWithin env 199)) (w.gate.listeners.take n) w).2

theorem hearing_all (env : Env) (event : StepEvent) (w : World) :
    hearing env event w w.gate.listeners.length = (notify env event w).2 := by
  rw [hearing, List.take_length]
  rfl

/-- What every operation of a listener keeps is kept until the next one is told. -/
theorem hearing_keeps {I : World → Prop} (hop : ∀ o, P o → ∀ w, I w → I (performWithin env 199 o w).2)
    (hlog : ∀ w level logger message fault, I w → I (w.addLog level logger message fault))
    (hlisteners : ∀ name, (env.react name event).run.All P) (hw : I w) (n : Nat) : I (hearing env event w n) :=
  tellEach_keeps (fun name _ hv => Code.run_keeps hop (hlisteners name) hv) hlog _ hw

/-- What listeners do who attend a run and leave its trace alone, while they are told of a step of it. -/
structure Heard (w v : World) : Prop where
  sound : v.Sound
  grown : w.Extends v
  bears : w.Bears v
  trace : v.trace = w.trace

theorem heard_hearing (hlisteners : ∀ name event, (env.react name event).run.All fun o => o.Attends ∧ o.LeavesTrace)
    (event : StepEvent) (hw : w.Sound) (hactive : w.session.isActive = true) (n : Nat) :
    w.Heard (hearing env event w n) := by
  refine hearing_keeps (fun o ho v hv => ?_) (fun v level logger message fault hv => ?_) (hlisteners · event) ?_ n
  · have hchanges : Changes env v (performWithin env 199 o v).2 := performWithin_changes 199 o v
    obtain ⟨hsound, hextends⟩ := hchanges.grows hv.sound
    have hstill := hextends.current (hv.grown.isActive hactive)
    have htends : v.Tends (performWithin env 199 o v).2 := performWith_tends _ ho.1 hv.sound.toWired
    have htrace : (performWithin env 199 o v).2.trace = v.trace := performWith_trace _ ho.2 v
    exact ⟨hsound, hv.grown.trans hextends, hv.bears.trans (htends.bears hstill), htrace.trans hv.trace⟩
  · obtain ⟨hsound, hextends⟩ := (aside_addLog v level logger message fault).light.grows hv.sound
    exact ⟨hsound, hv.grown.trans hextends, hv.bears.trans (spares_addLog ..).bears, hv.trace⟩
  · exact ⟨hw, .refl w, .refl w, rfl⟩

theorem heard_notify (hlisteners : ∀ name event, (env.react name event).run.All fun o => o.Attends ∧ o.LeavesTrace)
    (event : StepEvent) (hw : w.Sound) (hactive : w.session.isActive = true) : w.Heard (notify env event w).2 := by
  rw [← hearing_all]
  exact heard_hearing hlisteners event hw hactive _

/-- No step from number `n` on is settled with a fault but a deliberate stop. -/
def StopsOnly (n : Nat) (w : World) : Prop :=
  ∀ (i : StepId) (q : PacedStep), n ≤ i → w.gate.steps[i]? = some q → ∀ e, w.outcome? q.future = some (.fault e) →
    ∃ f, w.faults.get? e = some f ∧ f.kind = .cancellation

theorem Bears.stopsOnly (h : w.Bears v) (hw : w.StopsOnly n) : v.StopsOnly n := by
  intro i q hn hq e he
  obtain ⟨q', hq', hfuture⟩ := h.steps.symm.get hq
  rw [← hfuture] at he
  obtain hbefore | hstop := h.settled i q' hq' e he
  · obtain ⟨f, hf, hkind⟩ := hw i q' hn hq' e hbefore
    obtain ⟨g, hg, hagrees⟩ := h.faults e f hf
    exact ⟨g, hg, hagrees.kind.trans hkind⟩
  · exact hstop

theorem Aside.stopsOnly (h : w.Aside v) (hw : w.StopsOnly n) : v.StopsOnly n := by
  intro i q hn hq e he
  rw [outcome?, h.futures] at he
  obtain ⟨f, hf, hkind⟩ := hw i q hn (h.steps ▸ hq) e he
  obtain ⟨g, hg, hagrees⟩ := h.faults e f hf
  exact ⟨g, hg, hagrees.kind.trans hkind⟩

/-- A step has been set up for the current run, and counted in it; if the run is to stop it is rejected already. -/
structure Installs (w : World) (step : Step) (v : World) : Prop where
  calls : v.calls = w.calls
  seq : v.gate.seq = w.gate.seq
  size : v.gate.steps.size = w.gate.steps.size + 1
  last : ∃ q : PacedStep, v.gate.steps[w.gate.steps.size]? = some q ∧ q.future = step.future
  counted : (v.runOf w.session.current).steps = w.gate.seq
  trace : v.trace = w.trace
  stops : ∀ n, w.StopsOnly n → v.StopsOnly n

theorem outcome?_numbered (w : World) (future : FutureId) : w.numbered.outcome? future = w.outcome? future := by
  obtain ⟨message, heq⟩ := installStep_eq w
  rw [numbered, heq]
  exact outcome?_withStep w future

theorem installs_numbered (hw : w.Sound) : w.Installs w.installStep.1 w.numbered := by
  have hcounted : (w.numbered.runOf w.session.current).steps = w.installStep.1.seq := by
    rw [← current_numbered w, runOf_current (sound_numbered hw), run_numbered hw]
  obtain ⟨message, heq⟩ := installStep_eq w
  have hsteps : w.numbered.gate.steps = w.gate.steps.push ⟨w.gate.seq, w.futures.size, some w.loop.nextTimer⟩ := by
    rw [numbered, heq]
    rfl
  have hfaults : w.numbered.faults = w.faults := by
    rw [numbered, heq]
    rfl
  refine ⟨by rw [numbered, heq]; rfl, by rw [numbered, heq]; rfl, by rw [hsteps, Array.size_push], ?_, ?_,
    by rw [numbered, heq]; rfl, fun n hn i q hle hq e he => ?_⟩
  · rw [hsteps, heq]
    exact ⟨_, Array.getElem?_push_size, rfl⟩
  · rw [hcounted, heq]
  · rw [hsteps] at hq
    rw [outcome?_numbered] at he
    rw [hfaults]
    obtain hold | ⟨-, rfl⟩ := getElem?_push_eq_some.1 hq
    · exact hn i q hle hold e he
    · have hnone : w.outcome? w.futures.size = none := by rw [outcome?, Array.getElem?_size]; rfl
      rw [hnone] at he
      cases he

theorem installs_installFor (hw : w.Sound) :
    w.Installs (w.installFor w.session.current).1 (w.installFor w.session.current).2 := by
  have hnumbered := installs_numbered hw
  obtain ⟨-, heq⟩ | ⟨-, heq⟩ := installFor_current hw
  · rw [heq]
    exact hnumbered
  · rw [heq]
    have hbears := (spares_cancelStep (sound_numbered hw).toWired w.gate.steps.size w.session.run.reason).bears
    have htrace := (alongside_cancelStep w.numbered w.gate.steps.size w.session.run.reason).trace
    obtain ⟨q, hq, hfuture⟩ := hnumbered.last
    obtain ⟨q', hq', hsame⟩ := hbears.steps.get hq
    exact {
      calls := hbears.calls.trans hnumbered.calls
      seq := hbears.seq.trans hnumbered.seq
      size := hbears.steps.size.trans hnumbered.size
      last := ⟨q', hq', hsame.trans hfuture⟩
      counted := (hbears.runOf_steps _).trans hnumbered.counted
      trace := htrace.trans hnumbered.trace
      stops := fun n hn => hbears.stopsOnly (hnumbered.stops n hn) }

theorem showCall_rest (w : World) (call : Call) : w.showCall call =
    { w with trace := (w.showCall call).trace, fresh := (w.showCall call).fresh, log := (w.showCall call).log } := by
  unfold showCall
  split
  · rfl
  · rfl
  · dsimp only
    split <;> rfl

/-- The state in which the listeners begin to be told of a call of which they are told. -/
structure Announces (w : World) (call : Call) (u : World) : Prop where
  aside : w.Aside u
  rest : u = { w with
    gate := { w.gate with seq := w.gate.seq + 1 }, trace := u.trace, fresh := u.fresh, log := u.log }
  trace : w.session.traceOn = true → ∀ body l, call.body = .list body → call.cell = .list l →
    u.trace = (w.trace.update w.fresh call.body call.cell).1

theorem Announces.seq (h : w.Announces call u) : u.gate.seq = w.gate.seq + 1 := by
  rw [h.rest]

theorem Announces.calls (h : w.Announces call u) : u.calls = w.calls := by
  rw [h.rest]

theorem announces_showCall (w : World) (call : Call) :
    Announces w call ((w.modifyGate fun g => { g with seq := g.seq + 1 }).showCall
      (if w.session.traceOn then call else { call with body := .none })) := by
  refine ⟨(aside_modifyGate w rfl rfl).trans (aside_showCall _ _), showCall_rest _ _, ?_⟩
  intro htrace body l hbody hcell
  rw [if_pos htrace]
  simp only [showCall, hbody, hcell]
  split <;> rfl

/-- With listeners that raise nothing but errors a call boundary of the current run is announced, and its step set up; or
it is refused, for another step is still pending, and nothing else comes of it. -/
theorem perform_hook_announced (herrors : env.RaisesErrors) (w : World) (call : Call) (hargs : call.args.items = .ok args) :
    (∃ u, w.announced? call = some (⟨w.gate.seq + 1, callName call.func, args, call.cell⟩, u) ∧ w.Announces call u ∧
      w.perform env (.hook call) =
        (.ok ((notify env ⟨w.gate.seq + 1, callName call.func, args, call.cell⟩ u).2.installFor w.session.current).1,
          ((notify env ⟨w.gate.seq + 1, callName call.func, args, call.cell⟩ u).2.installFor w.session.current).2)) ∨
    w.announced? call = none ∧ ∃ seq, w.perform env (.hook call) = w.complain (stillPending seq) := by
  have hannounces := announces_showCall w call
  have hsame : (if w.session.traceOn then call else { call with body := .none }).args = call.args ∧
      (if w.session.traceOn then call else { call with body := .none }).func = call.func ∧
      (if w.session.traceOn then call else { call with body := .none }).cell = call.cell := by
    split <;> exact ⟨rfl, rfl, rfl⟩
  rw [perform_eq]
  simp only [performWith, hook, announced?, announceStep]
  generalize (if w.session.traceOn then call else { call with body := .none }) = shown at hannounces hsame ⊢
  obtain ⟨hshown, hfunc, hcell⟩ := hsame
  cases hpending : w.gate.pending with
  | some i => exact .inr ⟨rfl, ((w.pacedStep? i).map PacedStep.seq).getD 0, rfl⟩
  | none =>
    refine .inl ⟨_, ?_, hannounces, ?_⟩
    · simp only [hshown, hargs, hannounces.seq, hfunc, hcell]
    · have hok : (notify env ⟨w.gate.seq + 1, callName call.func, args, call.cell⟩
          ((w.modifyGate fun g => { g with seq := g.seq + 1 }).showCall shown)).1 = .ok () := herrors.notify_ok 199 _ _
      simp only [hshown, hargs, hannounces.seq, hfunc, hcell]
      split
      · next heq =>
        rw [heq] at hok
        cases hok
      · next heq =>
        rw [heq]
        rfl

end SteppedLogo.World
