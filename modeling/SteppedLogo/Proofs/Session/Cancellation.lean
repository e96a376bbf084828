import SteppedLogo.Proofs.Session.Calls

namespace SteppedLogo

open World

namespace World

variable {env : Env} {u v w : World} {i : StepId} {n size : Nat} {reason : Value}

/-- The first request to stop a run gives the reason. -/
theorem run_cancelRun (hw : w.Sound) (hrunning : w.session.run.status = .running) (reason : Value) :
    (w.cancelRun reason).session.run = { w.session.run with status := .canceling, reason } := by
  obtain ⟨hnot, -⟩ | ⟨-, message, heq⟩ := cancelRun_cases w reason
  · exact absurd hrunning hnot
  · have hruns := runs_cancelGate (w.modifyRun w.session.current ({ · with status := .canceling, reason })) reason
    rw [heq, Session.run]
    change ((((w.modifyRun w.session.current ({ · with status := .canceling, reason })).cancelGate
      reason).2.session.runs.back?).getD {}) = _
    rw [hruns]
    exact run_modifyRun hw _

/-- The step that is outstanding when a run is asked to stop is rejected at once. -/
theorem rejected_cancelRun (hw : w.Sound) (htidy : w.Tidy) (hrunning : w.session.run.status = .running)
    (hi : w.Outstanding i) (reason : Value) : (w.cancelRun reason).Rejected i reason := by
  obtain ⟨hnot, -⟩ | ⟨-, message, heq⟩ := cancelRun_cases w reason
  · exact absurd hrunning hnot
  · rw [heq]
    have hsound := (grows_canceling hrunning reason hw).1
    have hmodify := eases_modifyRun w w.session.current ({ · with status := .canceling, reason })
    exact (rejected_cancelGate hsound (hmodify.tidy htidy) hi reason).subsides (aside_addLog ..).subsides

/-- A word may ask the run to stop; apart from that it leaves the runs as they are, or starts one. -/
theorem runs_invoke (env : Env) (h : Handler) (args : List Value) (w : World) :
    (∃ reason, (w.invoke env h args).2 = w.cancelRun reason) ∨
    (∃ source, (w.invoke env h args).2 = (w.start (env.program source) source).2) ∨
      (w.invoke env h args).2.session.runs = w.session.runs := by
  unfold invoke
  split
  · next p =>
    obtain ⟨_, _, _, _, _, _, heq⟩ := callPrimitive_frame p args w
    rw [heq]
    exact .inr (.inr rfl)
  · exact .inl ⟨_, rfl⟩
  · exact .inl ⟨_, rfl⟩
  · exact .inr (.inr rfl)
  · next v =>
    refine .inr (.inl ⟨v.display, ?_⟩)
    split <;> next heq => rw [heq]
  · exact .inr (.inr rfl)
  · exact .inr (.inr rfl)
  · exact .inr (.inr rfl)
  · exact .inr (.inr rfl)

/-- Starting a run never asks one to stop. -/
theorem canceling_start {source : String}
    (hcanceling : (w.start (env.program source) source).2.session.run.status = .canceling) :
    w.session.run.status = .canceling := by
  obtain ⟨-, heq⟩ | ⟨-, number, nextNumber, message, heq⟩ := start_cases (env.program source) source w
  · rw [heq] at hcanceling
    exact hcanceling
  · rw [heq] at hcanceling
    change ((w.session.runs.push { status := .running, number, source }).back?.getD {}).status = _ at hcanceling
    rw [Array.back?_push] at hcanceling
    cases hcanceling

/-- Among the operations that make no call boundary only requests to stop a run make it stop. -/
theorem perform_canceling {o : Op} (hquiet : o.IsQuiet) (hrunning : w.session.run.status = .running)
    (hcanceling : (w.perform env o).2.session.run.status = .canceling) :
    ∃ reason, (w.perform env o).2 = w.cancelRun reason := by
  rw [perform_eq] at hcanceling ⊢
  have hsame (hruns : (performWith env (notify env) o w).2.session.runs = w.session.runs) :
      ∃ reason, (performWith env (notify env) o w).2 = w.cancelRun reason := by
    rw [Session.run, hruns, ← Session.run, hrunning] at hcanceling
    cases hcanceling
  have hstarted (source : String)
      (hstart : (performWith env (notify env) o w).2 = (w.start (env.program source) source).2) :
      ∃ reason, (performWith env (notify env) o w).2 = w.cancelRun reason := by
    rw [hstart] at hcanceling
    rw [canceling_start hcanceling] at hrunning
    cases hrunning
  cases o with
  | hook | step => cases hquiet
  | cancelRun reason | requestBreak reason => exact ⟨reason, rfl⟩
  | interrupt =>
    change ∃ reason, w.deliverInterrupt.2 = w.cancelRun reason
    cases hreason : w.interrupt with
    | some reason => exact ⟨reason, by simp only [deliverInterrupt, hreason]⟩
    | none =>
      refine hsame ?_
      change w.deliverInterrupt.2.session.runs = _
      simp only [deliverInterrupt, hreason]
  | cancelGate reason => exact hsame (runs_cancelGate w reason)
  | cancelStep step reason => exact hsame (runs_cancelStep w step reason)
  | cancelFuture future => exact hsame (runs_cancelFuture w future)
  | cancelTracked index =>
    refine hsame ?_
    change (w.cancelTracked index).2.session.runs = _
    unfold cancelTracked
    split
    · exact runs_cancelFuture w _
    · rfl
  | start source => exact hstarted source rfl
  | invoke handler args =>
    obtain hcancel | ⟨source, hstart⟩ | hruns := runs_invoke env handler args w
    · exact hcancel
    · exact hstarted source hstart
    · exact hsame hruns
  | defer delay deed => cases delay <;> exact hsame rfl
  | setPacing seconds =>
    refine hsame ?_
    change (w.setPacing seconds).2.session.runs = _
    unfold setPacing
    split <;> rfl
  | hookInterrupt reason =>
    refine hsame ?_
    change ((if env.signals then (.ok (), { w with interrupt := some reason }) else w.complain noSignals :
      Except FaultId Unit × World)).2.session.runs = _
    split <;> rfl
  | print category text => exact hsame (aside_print w category text).runs
  | clearView => exact hsame (aside_modifyShownView w DebugView.clear).runs
  | showTrace event =>
    refine hsame ?_
    change (w.showTrace event).session.runs = _
    unfold showTrace
    dsimp only
    split <;> rfl
  | _ => exact hsame rfl

/-- In the run of the given number of runs, no step of index `n` or later is passed any more. -/
structure Barred (size : Nat) (n : StepId) (reason : Value) (w : World) : Prop where
  grown : size ≤ w.session.runs.size
  stopped : w.session.runs.size = size → w.session.run.status ≠ .running
  same : w.session.runs.size = size → w.session.run.reason = reason
  rejected : w.session.runs.size = size → ∀ i, n ≤ i → i < w.gate.steps.size → w.Rejected i reason

theorem Subsides.runs_size_le (h : w.Subsides v) : w.session.runs.size ≤ v.session.runs.size :=
  size_le_of_get fun r run hrun => (h.run r run hrun).imp fun _ hnow => hnow.1

theorem Subsides.current (h : w.Subsides v) (hw : w.Sound) (hsize : v.session.runs.size = w.session.runs.size)
    (hstopped : w.session.run.status ≠ .running) :
    v.session.run.status ≠ .running ∧ v.session.run.reason = w.session.run.reason := by
  obtain ⟨run, hrun⟩ : ∃ run : Run, w.session.runs[w.session.current]? = some run :=
    ⟨_, Array.getElem?_eq_getElem (Nat.sub_lt hw.nonempty Nat.one_pos)⟩
  obtain ⟨run', hrun', hstays⟩ := h.run _ run hrun
  have hcurrent : v.session.current = w.session.current := by
    rw [Session.current, Session.current, hsize]
  rw [run_of_get hrun] at hstopped ⊢
  rw [← hcurrent] at hrun'
  rw [run_of_get hrun']
  exact hstays hstopped

theorem Barred.subsides (h : w.Barred size n reason) (hw : w.Sound) (hsubsides : w.Subsides v) :
    v.Barred size n reason := by
  have hle := hsubsides.runs_size_le
  have hsame (hsize : v.session.runs.size = size) : w.session.runs.size = size :=
    Nat.le_antisymm (hsize ▸ hle) h.grown
  have hcurrent (hsize : v.session.runs.size = size) :=
    hsubsides.current hw (hsize.trans (hsame hsize).symm) (h.stopped (hsame hsize))
  refine ⟨Nat.le_trans h.grown hle, fun hsize => (hcurrent hsize).1,
    fun hsize => (hcurrent hsize).2.trans (h.same (hsame hsize)), fun hsize i hn hi => ?_⟩
  rw [hsubsides.eases.steps.size] at hi
  exact (h.rejected (hsame hsize) i hn hi).subsides hsubsides

/-- In a run that is to stop the hook rejects the step that it sets up. -/
theorem Barred.hook (h : w.Barred size n reason) (henv : env.Confined) (hw : w.Governed)
    (hactive : w.session.isActive = true) (call : Call) :
    (w.perform env (.hook call)).2.Barred size n reason := by
  obtain ⟨u, htouches, huactive, -, ⟨fault, heq⟩ | ⟨-, hclear, heq⟩⟩ :=
    perform_hook_cases henv hw.toSound hw.tidy hactive call
  · rw [heq]
    exact h.subsides hw.toSound (htouches.subsides hw.toSound)
  · have hu := hw.touches htouches
    have hbarred := h.subsides hw.toSound (htouches.subsides hw.toSound)
    have hsetUp := setUp_installFor hu.toSound hclear
    have hextends := (grows_installFor u.session.current u hu.toSound).2
    have hsame (hsize : (u.installFor u.session.current).2.session.runs.size = size) :
        u.session.runs.size = size := hsetUp.runs.symm.trans hsize
    rw [heq]
    dsimp only
    refine ⟨?_, fun hsize => ?_, fun hsize => ?_, fun hsize i hn hi => ?_⟩
    · rw [hsetUp.runs]
      exact hbarred.grown
    · rw [hsetUp.status]
      exact hbarred.stopped (hsame hsize)
    · rw [hsetUp.reason]
      exact hbarred.same (hsame hsize)
    · rw [hsetUp.steps] at hi
      obtain hlt | rfl := Nat.lt_succ_iff_lt_or_eq.1 hi
      · exact (hbarred.rejected (hsame hsize) i hn hlt).extends hextends
      · have hcanceling := canceling_of_active huactive (hbarred.stopped (hsame hsize))
        rw [← hbarred.same (hsame hsize)]
        exact (hsetUp.rejected hcanceling).2

/-- The operation that has a run stop bars its steps, and rejects the one that is outstanding. -/
theorem Performs.cancels (henv : env.Confined) (h : w.Performs env v) (hw : w.Governed)
    (hrunning : w.session.run.status = .running) (hcanceling : v.session.run.status = .canceling) :
    v.Barred w.session.runs.size w.gate.steps.size v.session.run.reason ∧
      ∀ i, w.Outstanding i → v.Rejected i v.session.run.reason := by
  have hactive : w.session.isActive = true := by
    rw [Session.isActive, hrunning]
    rfl
  have hstopped : v.session.run.status ≠ .running := by
    rw [hcanceling]
    simp
  obtain ⟨o, rfl, hquiet | ⟨call, rfl, -⟩⟩ := h
  · have hextends := (grows_perform env o w hw.toSound).2
    have hsteps := (eases_perform env hquiet hw.toSound).steps.size
    have hsize := hextends.current hactive
    refine ⟨⟨Nat.le_of_eq hsize.symm, fun _ => hstopped, fun _ => rfl, fun _ i hn hi => ?_⟩, fun i hi => ?_⟩
    · rw [hsteps] at hi
      exact absurd hi (Nat.not_lt.2 hn)
    · obtain ⟨reason, heq⟩ := perform_canceling hquiet hrunning hcanceling
      rw [heq, run_cancelRun hw.toSound hrunning]
      exact rejected_cancelRun hw.toSound hw.tidy hrunning hi reason
  · obtain ⟨u, htouches, -, huruns, ⟨fault, heq⟩ | ⟨hclear, huclear, heq⟩⟩ :=
      perform_hook_cases henv hw.toSound hw.tidy hactive call
    · refine ⟨?_, fun i hi => ?_⟩
      · rw [heq] at hstopped ⊢
        dsimp only at hstopped ⊢
        have hsteps := (htouches.eases hw.toSound).steps.size
        refine ⟨Nat.le_of_eq huruns.symm, fun _ => hstopped, fun _ => rfl, fun _ i hn hi => ?_⟩
        rw [hsteps] at hi
        exact absurd hi (Nat.not_lt.2 hn)
      · obtain ⟨fault', faults, -, -, hrefused⟩ := perform_step_of_pending env (hw.tidy i hi) call
        rw [hrefused] at hcanceling
        rw [hrunning] at hcanceling
        cases hcanceling
    · have hu := (hw.touches htouches).toSound
      have hsetUp := setUp_installFor hu huclear
      have hsteps := (htouches.eases hw.toSound).steps.size
      rw [heq] at hcanceling hstopped ⊢
      dsimp only at hcanceling hstopped ⊢
      refine ⟨⟨?_, fun _ => hstopped, fun _ => rfl, fun _ i hn hi => ?_⟩, fun i hi => absurd hi (hclear i)⟩
      · exact Nat.le_of_eq (huruns.symm.trans hsetUp.runs.symm)
      · rw [hsetUp.steps, hsteps] at hi
        obtain rfl : i = w.gate.steps.size := Nat.le_antisymm (Nat.le_of_lt_succ hi) hn
        rw [hsetUp.status] at hcanceling
        rw [hsetUp.reason, ← hsteps]
        exact (hsetUp.rejected hcanceling).2

end World

namespace Scene

variable {env : Env} {s t u : Scene} {r : RunId} {i n size : Nat} {reason : Value}

theorem Step.barred (henv : env.Confined) (hs : s.Governed Op.IsQuiet) (h : Step env Op.IsQuiet s t)
    (hbarred : s.world.Barred size n reason) : t.world.Barred size n reason := by
  have hquiet {o : Op} (hquiet : o.IsQuiet) : (s.world.perform env o).2.Barred size n reason :=
    hbarred.subsides hs.world.toSound ((perform_touches hquiet s.world).subsides hs.world.toSound)
  obtain ⟨w, id, job, o, k, rfl, rfl⟩ | ⟨-, heffect⟩ := h.op_or_effect Op.guards_quiet henv hs
  · obtain ho | ⟨call, q, rfl, -, hactive⟩ := hs.quiet_or_hook Op.guards_quiet
    · exact hquiet ho
    · exact hbarred.hook henv hs.world hactive call
  · obtain ⟨o, ho, hworld⟩ | hcalm := heffect.world
    · rw [hworld]
      exact hquiet ho
    · exact hbarred.subsides hs.world.toSound hcalm.subsides

/-- A step that has a run stop bars the steps of the run, and rejects the one that is outstanding. -/
theorem Step.cancels (henv : env.Confined) (hs : s.Governed Op.IsQuiet) (h : Step env Op.IsQuiet s t)
    (hrunning : s.world.session.run.status = .running) (hcanceling : t.world.session.run.status = .canceling) :
    t.world.Barred s.world.session.runs.size s.world.gate.steps.size t.world.session.run.reason ∧
      ∀ i, s.world.Outstanding i → t.world.Rejected i t.world.session.run.reason := by
  obtain ⟨w, id, job, o, k, rfl, rfl⟩ | ⟨-, heffect⟩ := h.op_or_effect Op.guards_quiet henv hs
  · exact (hs.performs Op.guards_quiet).cancels henv hs.world hrunning hcanceling
  · obtain ⟨o, hquiet, hworld⟩ | hcalm := heffect.world
    · exact Performs.cancels henv ⟨o, hworld, .inl hquiet⟩ hs.world hrunning hcanceling
    · rw [hcalm.canceling hcanceling] at hrunning
      cases hrunning

theorem Course.barred (henv : env.Confined) (hs : s.Governed Op.IsQuiet) (h : Course env Op.IsQuiet r s n t)
    (hbarred : s.world.Barred size i reason) : t.world.Barred size i reason := by
  induction h with
  | start => exact hbarred
  | step hcourse hstep ih => exact hstep.barred henv (hcourse.governed henv hs) ih

theorem Step.rejected (henv : env.Confined) (hs : s.Governed Op.IsQuiet) (h : Step env Op.IsQuiet s t)
    (hi : s.world.Rejected i reason) : t.world.Rejected i reason := by
  obtain ⟨w, id, job, o, k, rfl, rfl⟩ | ⟨-, heffect⟩ := h.op_or_effect Op.guards_quiet henv hs
  · exact hi.extends (grows_perform env o w hs.world.toSound).2
  · obtain ⟨o, -, hworld⟩ | hcalm := heffect.world
    · rw [hworld]
      exact hi.extends (grows_perform env o s.world hs.world.toSound).2
    · exact hi.subsides hcalm.subsides

theorem Course.rejected (henv : env.Confined) (hs : s.Governed Op.IsQuiet) (h : Course env Op.IsQuiet r s n t)
    (hi : s.world.Rejected i reason) : t.world.Rejected i reason := by
  induction h with
  | start => exact hi
  | step hcourse hstep ih => exact hstep.rejected henv (hcourse.governed henv hs) ih

/-- While no later run has begun, the run is the one that was asked to stop. -/
theorem runs_of_current (h : t.world.Barred s.world.session.runs.size i reason) (hs : s.world.Sound)
    (hcurrent : t.world.session.current = s.world.session.current) :
    t.world.session.runs.size = s.world.session.runs.size := by
  have hpos := hs.nonempty
  have hle := h.grown
  change t.world.session.runs.size - 1 = s.world.session.runs.size - 1 at hcurrent
  omega

/-- Listeners are `Confined`, and the current run is running in a reachable scene. Moves of a bridge are courses;
`cancelRun` and `requestBreak` make the run canceling, with their reason. From the step of the system that does so, over
every course: an outstanding step is rejected for that reason; so is each step set up later in the run, which stays
canceling or over with the reason; and a program that waits for its boundaries (`Paced`) makes at most one more call, and
none if a step was outstanding. -/
theorem cancellation_bars_calls (henv : env.Confined) {s t : Scene} (hs : Reachable env Op.IsQuiet s)
    (hrunning : s.world.session.run.status = .running) :
    (∀ w v r, Moves env Op.IsQuiet w v → ∃ n, Course env Op.IsQuiet r { world := w } n { world := v }) ∧
    (∀ o reason, o = .cancelRun reason ∨ o = .requestBreak reason →
      (s.world.perform env o).2.session.run = { s.world.session.run with status := .canceling, reason }) ∧
    (Step env Op.IsQuiet s t → t.world.session.run.status = .canceling →
      ∀ n u, Course env Op.IsQuiet s.world.session.current t n u →
        (∀ i, s.world.Outstanding i → u.world.Rejected i t.world.session.run.reason) ∧
        (u.world.session.current = s.world.session.current →
          u.world.session.run.status ≠ .running ∧
          u.world.session.run.reason = t.world.session.run.reason ∧ u.world.Clear ∧
          ∀ i, s.world.gate.steps.size ≤ i → i < u.world.gate.steps.size →
            ∀ m v, Course env Op.IsQuiet s.world.session.current u m v →
              v.world.Rejected i t.world.session.run.reason) ∧
        ((∀ source, (env.program source).run.Paced (fun _ _ => True) .free) →
          n ≤ 1 ∧ ∀ i, s.world.Outstanding i → n = 0)) := by
  have hgoverned := hs.governed Op.guards_quiet henv
  refine ⟨fun w v r hmoves => exists_course (steps_of_moves hmoves) r, fun o reason ho => ?_,
    fun hstep hcanceling n u hcourse => ?_⟩
  · have hcancel := run_cancelRun hgoverned.world.toSound hrunning reason
    obtain rfl | rfl := ho
    · exact hcancel
    · exact hcancel
  · have hafter := hstep.governed Op.guards_quiet henv hgoverned
    obtain ⟨hbarred, hrejected⟩ := hstep.cancels henv hgoverned hrunning hcanceling
    have hbars {m : Nat} {v : Scene} (hv : Course env Op.IsQuiet s.world.session.current t m v)
        (hcurrent : v.world.session.current = s.world.session.current) :
        v.world.session.runs.size = s.world.session.runs.size :=
      runs_of_current (hv.barred henv hafter hbarred) hgoverned.world.toSound hcurrent
    have hu := hcourse.barred henv hafter hbarred
    have hugoverned := hcourse.governed henv hafter
    refine ⟨fun i hi => hcourse.rejected henv hafter (hrejected i hi), fun hcurrent => ?_, fun hpaced => ?_⟩
    · have hsize := hbars hcourse hcurrent
      exact ⟨hu.stopped hsize, hu.same hsize, hugoverned.world.barred (hu.stopped hsize),
        fun i hn hi m v hv => hv.rejected henv hugoverned (hu.rejected hsize i hn hi)⟩
    · have hcounts (c : Nat) (hallows : s.Allows s.world.session.current c) : n ≤ c := by
        have hstopped : t.world.session.run.status ≠ .running := by
          rw [hcanceling]
          nofun
        obtain ⟨c', ht, hle⟩ := hstep.allows henv hpaced hgoverned hallows fun _ _ => hstopped
        obtain ⟨c'', -, hle'⟩ := hcourse.allows henv hpaced hafter ht fun m v hv hcurrent =>
          (hv.barred henv hafter hbarred).stopped (hbars hv hcurrent)
        omega
      have hone := hs.allows_one henv hpaced s.world.session.current
      exact ⟨hcounts 1 hone, fun i hi => Nat.le_zero.1 (hcounts 0 (hone.zero_of_outstanding hi))⟩

theorem turtleEnv_confined : turtleEnv.Confined := ⟨fun _ _ => trivial, Words.hooked_execute turtleWords⟩

/-- A session whose program waits for its first call boundary. -/
def waitingForCall : World :=
  let w := (World.perform turtleEnv (.start "pd") {}).2
  (w.tick? turtleEnv).getD w

theorem steps_waitingForCall {P : Op → Prop} (hP : P (.start "pd")) :
    Steps turtleEnv P { world := {} } { world := waitingForCall } := by
  have hstart : Moves turtleEnv P {} (World.perform turtleEnv (.start "pd") {}).2 :=
    .single (.perform _ hP)
  have hsome : ((World.perform turtleEnv (.start "pd") {}).2.tick? turtleEnv).isSome = true := by decide +kernel
  obtain ⟨v, hv⟩ := Option.isSome_iff_exists.1 hsome
  have hwaiting : waitingForCall = v := by
    rw [waitingForCall, hv, Option.getD_some]
  exact steps_of_moves (hwaiting ▸ hstart.tail (.tick hv))

theorem waitingForCall_reachable : Reachable turtleEnv Op.IsQuiet { world := waitingForCall } :=
  ⟨{}, World.fresh_empty, steps_waitingForCall trivial⟩

set_option maxRecDepth 1024 in
/-- The program waits for a call boundary when its run is asked to stop: the boundary is rejected, and no call is made
from then on. -/
theorem waitingForCall_rejected : waitingForCall.Outstanding 0 ∧
    (waitingForCall.perform turtleEnv (.cancelRun (.text "stop"))).2.Rejected 0 (.text "stop") ∧
    ∀ n u, Course turtleEnv Op.IsQuiet 1 { world := (waitingForCall.perform turtleEnv (.cancelRun (.text "stop"))).2 } n u →
      n = 0 := by
  have houtstanding : waitingForCall.Outstanding 0 := ⟨_, rfl, rfl⟩
  have hbars := (cancellation_bars_calls turtleEnv_confined waitingForCall_reachable rfl).2.2
    (.perform waitingForCall (o := .cancelRun (.text "stop")) trivial) rfl
  refine ⟨houtstanding, (hbars 0 _ .start).1 0 houtstanding, fun n u hcourse => ?_⟩
  exact ((hbars n u hcourse).2.2 (Words.paced_execute turtleWords)).2 0 houtstanding

end Scene

end SteppedLogo
