import SteppedLogo.Proofs.Program.Direct
import SteppedLogo.Proofs.Session.Boundary
import SteppedLogo.Proofs.World.Spares

namespace SteppedLogo.World

variable {env : Env} {u v w : World} {i : StepId}

theorem alike_faults (halike : w.Alike v) (faults faults' : Faults) :
    World.Alike { w with faults } { v with faults := faults' } :=
  ⟨halike.calls, halike.turtle, halike.accepts, halike.printed, halike.lines⟩

theorem alike_print (halike : w.Alike v) (category text : String) :
    (w.print category text).Alike (v.print category text) := by
  have haccepts : v.output.accepts v.output.calls = w.output.accepts w.output.calls := by
    rw [halike.accepts, halike.printed]
  have hlines (r : Record) : Record.lines (v.output.records.push r).toList =
      Record.lines (w.output.records.push r).toList := by
    have hbefore : Record.lines v.output.records.toList = Record.lines w.output.records.toList := halike.lines
    simp only [Record.lines, Array.toList_push, List.filterMap_append] at hbefore ⊢
    rw [hbefore]
  have hprinted : v.output.calls + 1 = w.output.calls + 1 := by rw [halike.printed]
  unfold print
  dsimp only
  rw [haccepts]
  split
  · exact ⟨halike.calls, halike.turtle, halike.accepts, hprinted, hlines _⟩
  · exact ⟨halike.calls, halike.turtle, halike.accepts, hprinted, halike.lines⟩

theorem alike_carryOut (halike : w.Alike v) {e e' : Effect} (hturtle : e'.turtle = e.turtle) (hline : e'.line = e.line) :
    (w.carryOut e).Alike (v.carryOut e') := by
  have hmoved : World.Alike { w with turtle := e.turtle, fresh := w.fresh + 2 }
      { v with turtle := e'.turtle, fresh := v.fresh + 2 } :=
    ⟨halike.calls, hturtle, halike.accepts, halike.printed, halike.lines⟩
  unfold carryOut
  rw [hline]
  cases e.line with
  | none => exact hmoved
  | some text => exact alike_print hmoved "output" text

/-- A word of the turtle does the same in two states that are alike, or complains of the same. -/
theorem perform_primitive_cases (env : Env) (halike : w.Alike v) (p : Primitive) (args : List Value) :
    (∃ c : Complaint, c.Ordinary ∧ w.perform env (.invoke (.primitive p) args) = w.complain c ∧
      v.perform env (.invoke (.primitive p) args) = v.complain c) ∨
    ∃ e e' : Effect, w.perform env (.invoke (.primitive p) args) = (.ok e.result, w.carryOut e) ∧
      v.perform env (.invoke (.primitive p) args) = (.ok e'.result, v.carryOut e') ∧
        (w.carryOut e).Alike (v.carryOut e') := by
  have hsame := p.call_fresh w.fresh v.fresh w.turtle args
  rw [perform_primitive, perform_primitive, halike.turtle]
  cases hw : p.call w.fresh w.turtle args with
  | error c =>
    rw [hw] at hsame
    cases hv : p.call v.fresh w.turtle args with
    | error d =>
      rw [hv] at hsame
      cases hsame
      exact .inl ⟨c, p.call_ordinary hw, rfl, rfl⟩
    | ok e' =>
      rw [hv] at hsame
      cases hsame
  | ok e =>
    rw [hw] at hsame
    cases hv : p.call v.fresh w.turtle args with
    | error d =>
      rw [hv] at hsame
      cases hsame
    | ok e' =>
      rw [hv] at hsame
      obtain ⟨hturtle, hline⟩ := Prod.mk.inj (Except.ok.inj hsame)
      exact .inr ⟨e, e', rfl, rfl, alike_carryOut halike hturtle.symm hline.symm⟩

theorem showCall_frame (w : World) (call : Call) : w.Alike (w.showCall call) ∧ (w.showCall call).gate = w.gate := by
  unfold showCall
  split
  · exact ⟨.refl w, rfl⟩
  · exact ⟨.refl w, rfl⟩
  · dsimp only
    split <;> exact ⟨⟨rfl, rfl, rfl, rfl, rfl⟩, rfl⟩

/-- Where no step is pending, the hook of the active run counts a step, and listeners that only go on
beside the program, and raise nothing but errors, change nothing that it works on before the step is set up. -/
theorem perform_hook_alike (hlisteners : env.GoesBeside) (hw : w.Sound)
    (hactive : w.session.isActive = true) (hpending : w.gate.pending = none) (call : Call) {args : List Value}
    (hargs : call.args.items = .ok args) :
    ∃ u : World, u.Sound ∧ w.Alike u ∧ u.gate.seq = w.gate.seq + 1 ∧ u.session.current = w.session.current ∧
      KeepsFutures w u ∧ w.perform env (.hook call) =
        (.ok (u.installFor u.session.current).1, (u.installFor u.session.current).2) := by
  let shown := if w.session.traceOn then call else { call with body := .none }
  have hshownArgs : shown.args.items = .ok args := by
    simp only [shown]
    split <;> exact hargs
  let counted := (w.modifyGate fun g => { g with seq := g.seq + 1 }).showCall shown
  have haside : w.Aside counted := (aside_modifyGate w rfl rfl).trans (aside_showCall _ shown)
  have hsound : counted.Sound := (haside.light.grows hw).1
  have hactive' : counted.session.isActive = true := by
    rw [Session.isActive, Session.run, haside.runs]
    exact hactive
  obtain ⟨halike, hgate⟩ := showCall_frame (w.modifyGate fun g => { g with seq := g.seq + 1 }) shown
  let event : StepEvent := ⟨counted.gate.seq, callName shown.func, args, shown.cell⟩
  let told := (notify env event counted).2
  have hchanges : Changes env counted told := notify_changes event counted
  have hgrows := hchanges.grows hsound
  have hsize := hgrows.2.current hactive'
  have hspares := (notify_beside hlisteners.steers event hsound).spares hsize
  have hannounced : w.announceStep (notify env) shown = (.ok (), told) := by
    simp only [announceStep, hpending, hshownArgs]
    exact Prod.ext (hlisteners.errors.notify_ok 199 event counted) rfl
  have hcurrent : told.session.current = w.session.current := by
    rw [Session.current, hsize, haside.runs, Session.current]
  have hbefore : w.Alike (w.modifyGate fun g => { g with seq := g.seq + 1 }) := ⟨rfl, rfl, rfl, rfl, rfl⟩
  have hcounted : w.Alike counted := hbefore.trans halike
  have hkeeps : KeepsFutures w told := haside.light.futures.trans hgrows.2.futures
  refine ⟨told, hgrows.1, hcounted.trans hspares.alike, ?_, hcurrent, hkeeps, ?_⟩
  · rw [hspares.seq]
    exact congrArg Gate.seq hgate
  · rw [hcurrent, perform_eq]
    change w.hook (notify env) call = _
    simp only [shown] at hannounced
    simp only [hook, hannounced]
    rfl

/-- What a step is that is set up for the current run: its number is the count of the steps of the run. -/
structure Installed (w v : World) (future : FutureId) (i : StepId) : Prop where
  step : ∃ s : PacedStep, v.gate.steps[i]? = some s ∧ s.future = future
  alike : w.Alike v
  seq : v.gate.seq = w.gate.seq
  pending : ∀ k, v.gate.pending = some k → k = i
  steps : (v.runOf w.session.current).steps = w.gate.seq
  released : ∀ o, v.outcome? future = some o → v.Released i o
  new : w.outcome? future = none

theorem installed_installFor (hw : w.Sound) :
    w.Installed (w.installFor w.session.current).2 (w.installFor w.session.current).1.future w.gate.steps.size := by
  obtain ⟨message, heq⟩ := installStep_eq w
  have hnumbered : w.Installed w.numbered w.installStep.1.future w.gate.steps.size := by
    refine ⟨?_, ?_, ?_, fun k hk => ?_, ?_, fun o ho => ?_, ?_⟩
    · rw [numbered, heq]
      exact ⟨_, Array.getElem?_push_size, rfl⟩
    · rw [numbered, heq]
      exact ⟨rfl, rfl, rfl, rfl, rfl⟩
    · rw [numbered, heq]
      rfl
    · rw [numbered, heq] at hk
      cases hk
      rfl
    · rw [← current_numbered w, runOf_current (sound_numbered hw), run_numbered hw, heq]
    · rw [numbered, heq] at ho
      have hopen : (w.futures.push { callbacks := [.retract w.gate.steps.size] })[w.futures.size]?.bind Future.outcome =
          some o := ho
      rw [Array.getElem?_push_size] at hopen
      cases hopen
    · change w.futures[w.futures.size]?.bind Future.outcome = none
      rw [Array.getElem?_size]
      rfl
  obtain ⟨-, hplain⟩ | ⟨-, hrejected⟩ := installFor_current hw
  · rw [hplain]
    exact hnumbered
  · -- the run is to stop, and the step is rejected as it is set up
    have hspares := spares_cancelStep (sound_numbered hw).toWired w.gate.steps.size w.session.run.reason
    obtain ⟨s, hs, hfuture⟩ := hnumbered.step
    obtain ⟨t, ht, hst⟩ := hspares.steps.get hs
    rw [hrejected]
    refine ⟨⟨t, ht, hst.trans hfuture⟩, hnumbered.alike.trans hspares.alike, hspares.seq.trans hnumbered.seq,
      fun k hk => hnumbered.pending k (hspares.pending k hk), (hspares.runOf_steps _).trans hnumbered.steps,
      fun o ho => ?_, hnumbered.new⟩
    obtain hbefore | hreleased := hspares.settled _ s hs o (by rw [hfuture]; exact ho)
    · rw [hfuture] at hbefore
      exact (hnumbered.released o hbefore).mono hspares.pending hspares.faults
    · exact hreleased

end SteppedLogo.World
