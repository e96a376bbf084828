import SteppedLogo.Proofs.Shadow.Basic

namespace SteppedLogo

/-- No value is the same object as none but none. -/
theorem Value.same_none {x : Value} (hx : x.same .none = true) : x = .none := by
  cases x with
  | none => rfl
  | _ => simp [Value.same] at hx

namespace Trace

variable {t u : Trace}

/-- Moving the marker in two traces with one renderer and one tree leaves them with one renderer and one tree. -/
theorem moveMarker_alike (hrenderer : t.renderer = u.renderer) (hroot : t.view.root = u.view.root) (target : Identity) :
    (t.moveMarker target).renderer = (u.moveMarker target).renderer ∧
      (t.moveMarker target).view.root = (u.moveMarker target).view.root := by
  simp only [moveMarker, hrenderer]
  split
  · exact ⟨hrenderer, hroot⟩
  · cases u.renderer.active with
    | none => simp [mark, DebugView.touch, hrenderer, hroot]
    | some old => simp [mark, DebugView.touch, hrenderer, hroot]

/-- `update` shows a body in the same way, whatever the view has shown before a renderer that is blank. -/
theorem update_alike (hrenderer : t.renderer = u.renderer) (hview : t.renderer = {} ∨ t.view.root = u.view.root)
    (fresh : Identity) {body : Value} (hbody : body ≠ .none) (cell : Value) :
    (t.update fresh body cell).1.renderer = (u.update fresh body cell).1.renderer ∧
      (t.update fresh body cell).1.view.root = (u.update fresh body cell).1.view.root ∧
      (t.update fresh body cell).2 = (u.update fresh body cell).2 := by
  have hpresent : (t.present fresh body).1.renderer = (u.present fresh body).1.renderer ∧
      (t.present fresh body).1.view.root = (u.present fresh body).1.view.root ∧
      (t.present fresh body).2 = (u.present fresh body).2 := by
    simp only [present, hrenderer]
    split
    · next hsame =>
      -- Only a renderer that has the body does not show it anew, and such a one has shown it in both.
      refine ⟨hrenderer, hview.resolve_left fun hblank => hbody ?_, rfl⟩
      rw [← hrenderer, hblank] at hsame
      exact Value.same_none hsame
    · exact ⟨rfl, rfl, rfl⟩
  obtain ⟨hshown, hroot, hnext⟩ := hpresent
  simp only [update, hshown, hnext]
  split
  · exact ⟨hshown, hroot, rfl⟩
  · obtain ⟨hmoved, hmovedRoot⟩ := moveMarker_alike hshown hroot _
    exact ⟨hmoved, hmovedRoot, rfl⟩

end Trace

namespace World

theorem run_eq_runOf (w : World) : w.session.run = w.runOf w.session.current := by
  simp [Session.run, World.runOf, Session.current, Array.back?]

namespace Shadows

variable {σ : Skew} {T : Pairing} {w v : World}

/-- A step of the shadow is the step of the other world that is counted on by the steps before. -/
theorem pacedStep? (h : w.Shadows σ T v) (i : StepId) : w.pacedStep? (i + σ.steps) = v.pacedStep? i := h.steps i

/-- A step is pending in the one world exactly if its shadow is in the other. -/
theorem isPending (h : w.Shadows σ T v) (i : StepId) :
    w.gate.pending = some (i + σ.steps) ↔ v.gate.pending = some i := by
  rw [h.pending]
  cases v.gate.pending <;> simp

/-- Taking away the timers of a step and of its shadow keeps the worlds alike. -/
theorem clearTimer (h : w.Shadows σ T v) (i : StepId) : (w.clearTimer (i + σ.steps)).Shadows σ T (v.clearTimer i) :=
  { h with
    steps_size := by
      have hsize := h.steps_size
      simpa [World.clearTimer, modifyGate] using hsize
    steps := fun k => by
      have hstep := h.steps k
      simp only [World.clearTimer, modifyGate, Array.getElem?_modify, Nat.add_right_cancel_iff]
      rw [hstep] }

/-- Taking the pending step off both gates keeps the worlds alike. -/
theorem takeOff (h : w.Shadows σ T v) :
    (w.modifyGate ({ · with pending := none })).Shadows σ T (v.modifyGate ({ · with pending := none })) :=
  { h with pending := rfl }

/-- Retracting a step and its shadow keeps the worlds alike. -/
theorem retract (h : w.Shadows σ T v) (i : StepId) : (w.retract (i + σ.steps)).Shadows σ T (v.retract i) := by
  have htaken {w v : World} (h : w.Shadows σ T v) : Shadows σ T
      (if w.gate.pending = some (i + σ.steps) then w.modifyGate ({ · with pending := none }) else w)
      (if v.gate.pending = some i then v.modifyGate ({ · with pending := none }) else v) := by
    simp only [h.isPending]
    split
    · exact h.takeOff
    · exact h
  unfold World.retract
  rw [h.pacedStep?]
  cases (v.pacedStep? i).bind PacedStep.timer with
  | none => exact htaken h
  | some timer => exact htaken ((h.cancelTimer timer).clearTimer i)

/-- Rejecting a step and its shadow for one reason gives one answer and keeps the worlds alike. -/
theorem cancelStep (h : w.Shadows σ T v) (i : StepId) (reason : Value) :
    AnsweredAlike σ T (fun _ a b => a = b) (w.cancelStep (i + σ.steps) reason) (v.cancelStep i reason) := by
  unfold World.cancelStep
  rw [h.pacedStep?]
  cases v.pacedStep? i with
  | none => exact h.answers rfl
  | some s =>
    dsimp only
    rw [h.isDone]
    split
    · exact h.answers rfl
    · obtain ⟨U, hle, hid, hraised⟩ := (h.retract i).raise (.cancellation reason)
      exact ⟨U, hle, rfl, (hraised.settle s.future (.fault hid)).addLog ..⟩

/-- Cancelling both gates for one reason gives one answer and keeps the worlds alike. -/
theorem cancelGate (h : w.Shadows σ T v) (reason : Value) :
    AnsweredAlike σ T (fun _ a b => a = b) (w.cancelGate reason) (v.cancelGate reason) := by
  unfold World.cancelGate
  rw [h.pending]
  cases v.gate.pending with
  | none => exact h.answers rfl
  | some i => exact h.cancelStep i reason

/-- The end of the time of a step and of its shadow keeps the worlds alike. -/
theorem elapse (h : w.Shadows σ T v) (i : StepId) : (w.elapse (i + σ.steps)).Shadows σ T (v.elapse i) := by
  unfold World.elapse
  rw [h.pacedStep?]
  cases v.pacedStep? i with
  | none => exact h
  | some s =>
    dsimp only
    rw [h.isDone]
    split
    · exact h
    · exact (h.retract i).settle s.future (.value .none)

/-- Rousing those who wait for a future and for its shadow keeps the worlds alike. -/
theorem rouse (h : w.Shadows σ T v) (future : FutureId) : (w.rouse future).Shadows σ T (v.rouse future) := by
  have houtcome := h.outcome? future
  have hsettled := h.settle future (.value .none)
  unfold World.rouse
  generalize w.outcome? future = o at houtcome
  generalize v.outcome? future = o' at houtcome
  cases houtcome with
  | none => exact hsettled
  | some ho =>
    cases ho with
    | cancelled => exact h
    | value | fault => exact hsettled

/-- What is written is told alike, also once nothing that was left behind can be among it any more. -/
theorem prints (h : w.Shadows σ T v) : σ.Prints false w.output v.output :=
    h.view.elim And.right fun hearly => σ.settles hearly.2

/-- `showCall` shows a call in the same way, and what is made of it has the same identities. Where it shows anything, the
views agree from then on. -/
theorem showCall (h : w.Shadows σ T v) (call : Call) : (w.showCall call).Shadows σ T (v.showCall call) ∧
    (call.body ≠ .none → call.cell ≠ .none →
      (w.showCall call).trace.view.root = (v.showCall call).trace.view.root) := by
  obtain ⟨func, args, body, cell⟩ := call
  by_cases hbody : body = .none
  · subst hbody
    exact ⟨h, fun hne => absurd rfl hne⟩
  · by_cases hcell : cell = .none
    · subst hcell
      have hskips (u : World) : u.showCall { func, args, body } = u := by cases body <;> rfl
      rw [hskips, hskips]
      exact ⟨h, fun _ hne => absurd rfl hne⟩
    · have hshows (u : World) : u.showCall { func, args, body, cell } =
          let v := { u with trace := (u.trace.update u.fresh body cell).1, fresh := (u.trace.update u.fresh body cell).2.2 }
          if !body.same u.trace.renderer.body then
            v.addLog .debug "logodbg.trace"
              ("trace view rebuilt with " ++ toString v.trace.renderer.size ++ " nodes")
          else v := by
        unfold World.showCall
        split
        · next hnone => exact absurd hnone hbody
        · next hnone _ => exact absurd hnone hcell
        · rfl
      obtain ⟨hrenderer, hroot, hnext⟩ :=
        Trace.update_alike h.renderer (h.view.symm.imp (·.1.1) And.left) v.fresh hbody cell
      rw [← h.fresh] at hrenderer hroot hnext
      have hshown : Shadows σ T
          { w with trace := (w.trace.update w.fresh body cell).1, fresh := (w.trace.update w.fresh body cell).2.2 }
          { v with trace := (v.trace.update v.fresh body cell).1, fresh := (v.trace.update v.fresh body cell).2.2 } := by
        rw [← h.fresh]
        exact { h with renderer := hrenderer, view := .inl ⟨hroot, h.prints⟩, fresh := congrArg Prod.snd hnext }
      rw [hshows, hshows, h.renderer]
      dsimp only
      split
      · exact ⟨hshown.addLog .., fun _ _ => h.fresh ▸ hroot⟩
      · exact ⟨hshown, fun _ _ => h.fresh ▸ hroot⟩

/-- `installStep` sets up a step with the same number in its run, which each session keeps under its own number. -/
theorem installStep (h : w.Shadows σ T v) :
    w.installStep.1 = { v.installStep.1 with id := v.installStep.1.id + σ.steps } ∧
      w.installStep.2.Shadows σ T v.installStep.2 := by
  obtain ⟨message, heq⟩ := installStep_eq w
  obtain ⟨message', heq'⟩ := installStep_eq v
  have hfuture : Future.Shadows σ T { callbacks := [.retract (v.gate.steps.size + σ.steps)] }
      { callbacks := [.retract v.gate.steps.size] } := ⟨.none, rfl, rfl⟩
  obtain ⟨htimer, hpaced⟩ := (h.pushFuture hfuture).later v.gate.interval (.elapse v.gate.steps.size)
  have htimer : w.loop.nextTimer = v.loop.nextTimer := htimer
  -- The steps before are none of those that are compared, which begin behind them.
  have hsteps (k : StepId) : (w.gate.steps.push ⟨w.gate.seq, w.futures.size, some w.loop.nextTimer⟩)[k + σ.steps]? =
      (v.gate.steps.push ⟨v.gate.seq, v.futures.size, some v.loop.nextTimer⟩)[k]? := by
    have hsame : k + σ.steps = w.gate.steps.size ↔ k = v.gate.steps.size := by
      rw [h.steps_size]
      apply Nat.add_right_cancel_iff
    have hstep := h.steps k
    simp only [Array.getElem?_push, hsame, h.seq, h.futures.size, htimer, hstep]
  have hgate : Shadows σ T
      { w with
        futures := w.futures.push { callbacks := [.retract (v.gate.steps.size + σ.steps)] }
        loop := (w.loop.later v.gate.interval (.elapse (v.gate.steps.size + σ.steps))).2
        gate := { w.gate with
          steps := w.gate.steps.push ⟨w.gate.seq, w.futures.size, some w.loop.nextTimer⟩
          pending := some (v.gate.steps.size + σ.steps) } }
      { v with
        futures := v.futures.push { callbacks := [.retract v.gate.steps.size] }
        loop := (v.loop.later v.gate.interval (.elapse v.gate.steps.size)).2
        gate := { v.gate with
          steps := v.gate.steps.push ⟨v.gate.seq, v.futures.size, some v.loop.nextTimer⟩
          pending := some v.gate.steps.size } } :=
    { hpaced with
      pending := rfl
      steps_size := by
        have hsize := h.steps_size
        simp only [Array.size_push]
        omega
      steps := hsteps }
  rw [heq, heq', h.steps_size, h.interval]
  refine ⟨?_, hgate.addLog ..⟩
  rw [h.seq, h.futures.size]

/-- A run that began after the worlds were set side by side is told of alike in both. -/
theorem runOf (h : w.Shadows σ T v) {r : RunId} (hr : σ.first ≤ r) : (w.runOf (r + σ.runs)).Shadows T (v.runOf r) := by
  have hsize := h.runs_size
  unfold World.runOf
  cases hv : v.session.runs[r]? with
  | none =>
    have hw : w.session.runs[r + σ.runs]? = none := by
      rw [Array.getElem?_eq_none_iff] at hv ⊢
      rw [hsize]
      exact Nat.add_le_add_right hv σ.runs
    rw [hw]
    exact ⟨rfl, rfl, rfl, rfl, .none⟩
  | some mate =>
    have hlt : r + σ.runs < w.session.runs.size := by
      have hlt := (Array.getElem?_eq_some_iff.1 hv).1
      rw [hsize]
      exact Nat.add_lt_add_right hlt σ.runs
    rw [Array.getElem?_eq_getElem hlt]
    exact (h.runs r _ mate hr (Array.getElem?_eq_getElem hlt) hv).1

/-- The current run of the one world is that of the other, counted on by the runs before. -/
theorem current (h : w.Shadows σ T v) : w.session.current = v.session.current + σ.runs ∧ σ.first ≤ v.session.current := by
  have hcount (a b c d : Nat) (hsize : a = b + c) (hbegun : d < b) : a - 1 = b - 1 + c ∧ d ≤ b - 1 := by omega
  exact hcount _ _ _ _ h.runs_size h.begun

/-- The current runs of both worlds are told of alike. -/
theorem run (h : w.Shadows σ T v) : w.session.run.Shadows T v.session.run := by
  obtain ⟨hcurrent, hfirst⟩ := h.current
  rw [run_eq_runOf, run_eq_runOf, hcurrent]
  exact h.runOf hfirst

/-- The numbers of the current runs are as far apart as those of all. -/
theorem number (h : w.Shadows σ T v) : w.session.run.number + 1 = v.session.run.number + σ.number := by
  obtain ⟨hcurrent, hfirst⟩ := h.current
  have hlt : v.session.current < v.session.runs.size := Nat.sub_one_lt (Nat.ne_of_gt (Nat.zero_lt_of_lt h.begun))
  have hlt' : v.session.current + σ.runs < w.session.runs.size := by
    rw [h.runs_size]
    exact Nat.add_lt_add_right hlt σ.runs
  have hmate := Array.getElem?_eq_getElem hlt
  have hrun := Array.getElem?_eq_getElem hlt'
  rw [run_eq_runOf, run_eq_runOf, hcurrent, World.runOf, World.runOf, hmate, hrun]
  exact (h.runs _ _ _ hfirst hrun hmate).2

/-- A run may change in both as long as it has come equally far in both, and keeps its number. -/
theorem modifyRun (h : w.Shadows σ T v) {r : RunId} {change change' : Run → Run}
    (hchange : ∀ run mate : Run, run.Shadows T mate → (change run).Shadows T (change' mate))
    (hnumber : ∀ run, (change run).number = run.number) (hnumber' : ∀ run, (change' run).number = run.number) :
    (w.modifyRun (r + σ.runs) change).Shadows σ T (v.modifyRun r change') :=
  { h with
    runs_size := by
      have hsize := h.runs_size
      simpa only [World.modifyRun, Session.modifyRun, Array.size_modify] using hsize
    begun := by
      have hbegun := h.begun
      simpa only [World.modifyRun, Session.modifyRun, Array.size_modify] using hbegun
    runs := fun k run mate hk hrun hmate => by
      have hrun : (w.session.runs.modify (r + σ.runs) change)[k + σ.runs]? = some run := hrun
      have hmate : (v.session.runs.modify r change')[k]? = some mate := hmate
      rw [Array.getElem?_modify] at hrun hmate
      by_cases hsame : r = k
      · subst hsame
        rw [if_pos rfl, Option.map_eq_some_iff] at hrun hmate
        obtain ⟨old, hold, rfl⟩ := hrun
        obtain ⟨older, holder, rfl⟩ := hmate
        obtain ⟨hshadows, hsame⟩ := h.runs r old older hk hold holder
        exact ⟨hchange old older hshadows, by rw [hnumber, hnumber', hsame]⟩
      · rw [if_neg hsame] at hmate
        rw [if_neg fun heq => hsame (Nat.add_right_cancel heq)] at hrun
        exact h.runs k run mate hk hrun hmate }

/-- Notes in the log need not agree for the worlds to be alike. -/
theorem info (h : w.Shadows σ T v) (message message' : String) : (w.info message).Shadows σ T (v.info message') :=
    h.addLog ..

/-- What was shown is given up in both, while the views stay as they are. -/
theorem release (h : w.Shadows σ T v) : (w.modifyTrace Trace.release).Shadows σ T (v.modifyTrace Trace.release) :=
  { h with renderer := rfl, view := h.view.imp_right (And.imp_left fun hleft => ⟨rfl, hleft.2⟩) }

/-- Counting the steps of both gates anew keeps the worlds alike. -/
theorem resetGate (h : w.Shadows σ T v) : w.resetGate.Shadows σ T v.resetGate := { h with seq := rfl }

/-- Setting one interval in both worlds keeps them alike. -/
theorem setInterval (h : w.Shadows σ T v) (seconds : Float) : (w.setInterval seconds).Shadows σ T (v.setInterval seconds) :=
  { h with interval := rfl }

/-- Turning the trace on or off in both worlds keeps them alike. -/
theorem setTrace (h : w.Shadows σ T v) (on : Bool) : (w.setTrace on).Shadows σ T (v.setTrace on) := { h with traceOn := rfl }

/-- Setting one pacing in both worlds, or refusing it in both, keeps them alike. -/
theorem setPacing (h : w.Shadows σ T v) (seconds : Float) :
    AnsweredAlike σ T (fun U : Pairing => U.Told) (w.setPacing seconds) (v.setPacing seconds) := by
  unfold World.setPacing
  split
  · exact h.complain negativeInterval
  · exact (h.setInterval seconds).answers (.ok ())

/-- `cancelRun` meets the current run in the same way. -/
theorem cancelRun (h : w.Shadows σ T v) (reason : Value) :
    ∃ U, T ≤ U ∧ (w.cancelRun reason).Shadows σ U (v.cancelRun reason) := by
  obtain ⟨hcurrent, hfirst⟩ := h.current
  unfold World.cancelRun
  dsimp only
  rw [h.run.status, hcurrent]
  split
  · have hcanceling : Shadows σ T (w.modifyRun (v.session.current + σ.runs) ({ · with status := .canceling, reason }))
        (v.modifyRun v.session.current ({ · with status := .canceling, reason })) :=
      h.modifyRun (fun _ _ hm => ⟨rfl, hm.source, hm.steps, rfl, hm.error⟩) (fun _ => rfl) fun _ => rfl
    obtain ⟨U, hle, -, hcancelled⟩ := hcanceling.cancelGate reason
    exact ⟨U, hle, hcancelled.info ..⟩
  · exact ⟨T, fun _ _ h => h, h⟩

/-- An interrupt finds a handler in both worlds or in neither, and keeps them alike. -/
theorem deliverInterrupt (h : w.Shadows σ T v) :
    AnsweredAlike σ T (fun _ a b => a = b) w.deliverInterrupt v.deliverInterrupt := by
  unfold World.deliverInterrupt
  rw [h.interrupt]
  cases v.interrupt with
  | none => exact h.answers rfl
  | some reason =>
    obtain ⟨U, hle, hcancelled⟩ := h.cancelRun reason
    exact ⟨U, hle, rfl, hcancelled⟩

/-- Two runs in whose way a start is refused differ at most in their numbers. -/
theorem paired_stillActive {run mate : Run} {k : Nat} (h : run.Shadows T mate) (hnumber : run.number + 1 = mate.number + k) :
    (Fault.ofComplaint (stillActive run)).Paired k T (Fault.ofComplaint (stillActive mate)) := by
  have htext (r : Run) : "run " ++ toString r.number ++ " is still " ++ r.status.name =
      "" ++ ("run " ++ toString r.number ++ " is still ") ++ r.status.name := by rw [String.empty_append]
  refine ⟨rfl, .inr ⟨nofun, _, _, rfl, rfl, ?_⟩, rfl, .none, .none, .none⟩
  rw [htext, htext, h.status]
  exact .number _ _ hnumber

/-- A run that begins in both begins with its own number in each. -/
theorem pushRun (h : w.Shadows σ T v) (source : String) : Shadows σ T
    { w with session := { w.session with
      runs := w.session.runs.push { status := .running, number := w.session.nextNumber, source }
      nextNumber := w.session.nextNumber + 1 } }
    { v with session := { v.session with
      runs := v.session.runs.push { status := .running, number := v.session.nextNumber, source }
      nextNumber := v.session.nextNumber + 1 } } :=
  { h with
    runs_size := by
      have hsize := h.runs_size
      simp only [Array.size_push, hsize]
      exact Nat.add_right_comm v.session.runs.size σ.runs 1
    begun := by
      have hbegun := h.begun
      simp only [Array.size_push]
      exact Nat.lt_succ_of_lt hbegun
    runs := fun r run mate hr hrun hmate => by
      have hsize := h.runs_size
      obtain hrun | ⟨heq, rfl⟩ := getElem?_push_eq_some.1 hrun
      · obtain hmate | ⟨rfl, rfl⟩ := getElem?_push_eq_some.1 hmate
        · exact h.runs r run mate hr hrun hmate
        · have hlt := (Array.getElem?_eq_some_iff.1 hrun).1
          rw [hsize] at hlt
          exact absurd hlt (Nat.lt_irrefl _)
      · obtain hmate | ⟨-, rfl⟩ := getElem?_push_eq_some.1 hmate
        · have hlt := (Array.getElem?_eq_some_iff.1 hmate).1
          rw [hsize] at heq
          rw [Nat.add_right_cancel heq] at hlt
          exact absurd hlt (Nat.lt_irrefl _)
        · exact ⟨⟨rfl, rfl, rfl, rfl, .none⟩, h.nextNumber⟩
    nextNumber := by
      have hnext := h.nextNumber
      dsimp only
      omega }

/-- `addJob` for a run that has begun in both. -/
theorem addRunJob (h : w.Shadows σ T v) {code : Work Value} (hcode : code.run.Steady σ) {r : RunId} (hr : σ.first ≤ r) :
    (w.addJob code (some (r + σ.runs))).1 = (v.addJob code (some r)).1 ∧
      (w.addJob code (some (r + σ.runs))).2.Shadows σ T (v.addJob code (some r)).2 := by
  have hfirst (k : RunId) (hk : some r = some k) : σ.first ≤ k := by
    cases hk
    exact hr
  exact h.addJob hcode hfirst

/-- `start` is refused in both, for a run that has its own number in each, or begins a run in both. -/
theorem start (h : w.Shadows σ T v) {program : Work Value} (hprogram : program.run.Steady σ) (source : String) :
    AnsweredAlike σ T (fun U : Pairing => U.Told) (w.start program source) (v.start program source) := by
  unfold World.start
  dsimp only
  rw [h.run.status]
  split
  · obtain ⟨U, hle, hid, hraised⟩ := h.raise (paired_stillActive h.run h.number)
    exact ⟨U, hle, .error hid, hraised⟩
  · obtain ⟨hfuture, hadded⟩ := ((h.pushRun source).resetGate.info
      ("run " ++ toString w.session.nextNumber ++ " started (" ++ toString source.length ++ " chars)")
      ("run " ++ toString v.session.nextNumber ++ " started (" ++ toString source.length ++ " chars)")).addRunJob hprogram
        (Nat.le_of_lt h.begun)
    rw [h.runs_size, hfuture]
    exact hadded.answers (.ok _)

/-- `installFor` counts the new step in its run, and rejects it at once if the run is to stop. -/
theorem installFor (h : w.Shadows σ T v) {r : RunId} (hr : σ.first ≤ r) :
    AnsweredAlike σ T (fun _ a b => a = { b with id := b.id + σ.steps }) (w.installFor (r + σ.runs)) (v.installFor r) := by
  obtain ⟨hstep, hinstalled⟩ := h.installStep
  have hseq : w.installStep.1.seq = v.installStep.1.seq := by rw [hstep]
  have hid : w.installStep.1.id = v.installStep.1.id + σ.steps := by rw [hstep]
  have hcounted : Shadows σ T (w.installStep.2.modifyRun (r + σ.runs) ({ · with steps := w.installStep.1.seq }))
      (v.installStep.2.modifyRun r ({ · with steps := v.installStep.1.seq })) :=
    hinstalled.modifyRun (fun _ _ hm => ⟨hm.status, hm.source, hseq, hm.reason, hm.error⟩) (fun _ => rfl) fun _ => rfl
  have hrun := hcounted.runOf hr
  unfold World.installFor
  dsimp only
  rw [hrun.status, hrun.reason, hid]
  split
  · obtain ⟨U, hle, -, hcancelled⟩ := hcounted.cancelStep v.installStep.1.id _
    exact ⟨U, hle, hstep, hcancelled⟩
  · exact hcounted.answers hstep

/-- Finishing a run and its shadow with paired faults keeps the worlds alike. -/
theorem finish (h : w.Shadows σ T v) {r : RunId} (hr : σ.first ≤ r) (status : Status) {error error' : Option FaultId}
    (herror : Option.Rel T error error') :
    ∃ U, T ≤ U ∧ (w.finish (r + σ.runs) status error).Shadows σ U (v.finish r status error') := by
  unfold World.finish
  dsimp only
  rw [(h.runOf hr).reason]
  generalize (if (v.runOf r).reason.truthy then (v.runOf r).reason else Value.text "session finished") = reason
  obtain ⟨U, hle, -, hcancelled⟩ := h.cancelGate reason
  have hended : Shadows σ U
      (((w.cancelGate reason).2.modifyTrace Trace.release).modifyRun (r + σ.runs) ({ · with status, error }))
      (((v.cancelGate reason).2.modifyTrace Trace.release).modifyRun r ({ · with status, error := error' })) :=
    hcancelled.release.modifyRun (fun _ _ hm => ⟨rfl, hm.source, hm.steps, hm.reason, rel_mono hle herror⟩)
      (fun _ => rfl) fun _ => rfl
  refine ⟨U, hle, ?_⟩
  cases herror with
  | none => exact hended.info ..
  | some hid =>
    dsimp only
    rw [hended.faults.kindOf (hle _ _ hid)]
    split
    · exact hended.info ..
    · exact hended.info ..

/-- `conclude` ends a run in the same way, or leaves it, and its job ends with the same. -/
theorem conclude (h : w.Shadows σ T v) {r : RunId} (hr : σ.first ≤ r) {fault fault' : Option FaultId}
    (hfault : Option.Rel T fault fault') :
    AnsweredAlike σ T (fun U : Pairing => U.Told) (w.conclude (r + σ.runs) fault) (v.conclude r fault') := by
  cases hfault with
  | none =>
    unfold World.conclude
    dsimp only
    rw [(h.runOf hr).status]
    have hended {w v : World} (h : w.Shadows σ T v) : AnsweredAlike σ T (fun U : Pairing => U.Told)
        ((.ok (), w.finish (r + σ.runs) .completed none) : Except FaultId Unit × World)
        (.ok (), v.finish r .completed none) := by
      obtain ⟨U, hle, hfinished⟩ := h.finish hr .completed .none
      exact ⟨U, hle, .ok (), hfinished⟩
    split
    · exact hended (h.info ..)
    · exact hended h
  | @some id id' hid =>
    unfold World.conclude
    dsimp only
    rw [h.faults.kindOf hid]
    split
    · obtain ⟨U, hle, hfinished⟩ := h.finish hr .failed (.some hid)
      exact ⟨U, hle, .error (hle _ _ hid), hfinished⟩
    · split
      · exact h.answers (.error hid)
      · have hfound := h.faults.findCancellation hid
        generalize w.faults.findCancellation id = stop at hfound
        generalize v.faults.findCancellation id' = stop' at hfound
        cases hfound with
        | @some stop stop' hstop =>
          have hsame := h.faults.eq_iff hstop hid
          obtain ⟨U, hle, hfinished⟩ := h.finish hr .failed (.some hstop)
          dsimp only
          by_cases heq : stop = id
          · rw [if_pos heq, if_pos (hsame.1 heq)]
            exact ⟨U, hle, .error (hle _ _ hid), hfinished⟩
          · rw [if_neg heq, if_neg fun heq' => heq (hsame.2 heq')]
            have hlinked := (hfinished.faults.setCause (hle _ _ hstop) (.some (hle _ _ hid))).raiseWhile
              (hle _ _ hid) (hle _ _ hstop)
            exact ⟨U, hle, .error (hle _ _ hstop), hfinished.withFaults (fun _ _ h => h) hlinked⟩
        | none =>
          obtain ⟨U, hle, hfinished⟩ := h.finish hr .failed (.some hid)
          have hid := hle _ _ hid
          obtain ⟨V, hle', hfailure, hraised⟩ := hfinished.raise ((hfinished.faults.getD hid).ofProgram hid)
          have hid := hle' _ _ hid
          have hlinked := (hraised.faults.setCause hfailure (.some hid)).setContext hfailure (.some hid)
          exact ⟨V, fun a b hab => hle' a b (hle a b hab), .error hfailure, hraised.withFaults (fun _ _ h => h) hlinked⟩

/-- The end of a run and of its shadow gives paired results and keeps the worlds alike. -/
theorem endRun (h : w.Shadows σ T v) {run : Option RunId} (hfirst : ∀ r, run = some r → σ.first ≤ r)
    {result result' : Except FaultId Value} (hresult : T.Told result result') :
    AnsweredAlike σ T (fun U : Pairing => U.Told) (w.endRun (run.map (· + σ.runs)) result) (v.endRun run result') := by
  cases run with
  | none => exact h.answers hresult
  | some r =>
    have hended {fault fault' : Option FaultId} (hfault : Option.Rel T fault fault') :
        AnsweredAlike σ T (fun U : Pairing => U.Told)
          ((w.conclude (r + σ.runs) fault).1.map fun _ => Value.none, (w.conclude (r + σ.runs) fault).2)
          ((v.conclude r fault').1.map fun _ => Value.none, (v.conclude r fault').2) := by
      obtain ⟨U, hle, htold, hconcluded⟩ := h.conclude (hfirst r rfl) hfault
      refine ⟨U, hle, ?_, hconcluded⟩
      dsimp only
      generalize (w.conclude (r + σ.runs) fault).1 = x at htold
      generalize (v.conclude r fault').1 = y at htold
      cases htold with
      | ok => exact .ok _
      | error hid => exact .error hid
    cases hresult with
    | ok => exact hended .none
    | error hid => exact hended (.some hid)

end Shadows

end World

end SteppedLogo
