import SteppedLogo.Proofs.Fault.Search
import SteppedLogo.Proofs.Session.Concluded
import SteppedLogo.Proofs.World.Parts
import SteppedLogo.Program.Script

namespace SteppedLogo

namespace World

variable {w v : World} {r : RunId} {id : JobId} {job : Job} {task : FutureId} {e c : FaultId} {f : Fault}

/-- A run and its job have ended with a deliberate stop. -/
structure EndsStopped (w : World) (r : RunId) (task : FutureId) (c : FaultId) : Prop where
  outcome : w.outcome? task = some (.fault c)
  error : (w.runOf r).error = some c
  stop : w.faults.IsStop c

/-- A run has ended with an error, and its job with a failure that the error is the cause of. -/
structure EndsFailed (w : World) (r : RunId) (task : FutureId) (e : FaultId) : Prop where
  outcome : ∃ failure g, w.outcome? task = some (.fault failure) ∧ w.faults.get? failure = some g ∧
    g.kind = .program ∧ g.inner = some e ∧ g.cause = some e
  error : (w.runOf r).error = some e

theorem EndsFailed.not_endsStopped (h : w.EndsFailed r task e) : ¬ w.EndsStopped r task c := by
  intro hstopped
  obtain ⟨failure, g, hout, hg, hkind, -⟩ := h.outcome
  obtain ⟨f, hf, hstop⟩ := hstopped.stop
  rw [hstopped.outcome] at hout
  cases hout
  rw [hf] at hg
  cases hg
  rw [hkind] at hstop
  cases hstop

/-- A run has ended with a deliberate stop if any hangs off the error, and as a failure if none does. -/
structure Told (w : World) (graph : Faults) (e : FaultId) (r : RunId) (task : FutureId) : Prop where
  stopped : (∃ c, graph.Behind e c ∧ graph.IsStop c) → ∃ c, graph.Behind e c ∧ w.EndsStopped r task c
  failed : (∀ c, graph.Behind e c → ¬ graph.IsStop c) → w.EndsFailed r task e

theorem endsStopped_putDown (hw : w.Wired) (hup : w.Up id job) (hrun : job.run = some r)
    {run : Run} (hget : w.session.runs[r]? = some run) (he : w.faults.get? e = some f)
    (herror : f.kind.isError = true) (hfound : w.faults.findCancellation e = some c) :
    (w.putDown id job (.finished (.error e))).EndsStopped r job.future c := by
  obtain ⟨hresult, hruns⟩ := conclude_stopped (r := r) he herror hfound
  obtain ⟨hfaults, hsession, hout⟩ := outcome?_putDown_error hw hup hrun hresult
  obtain ⟨-, g, hg, hkind⟩ := Faults.findCancellation_eq_some_iff.1 hfound
  obtain ⟨g', hg', hagrees⟩ := (spares_conclude hw r (some e)).faults c g hg
  have hstop : g'.kind = .cancellation := hagrees.kind.trans hkind
  have hover := over_of_modify hget (hsession ▸ hruns)
  refine ⟨?_, hover.runOf.2, g', hfaults ▸ hg', hstop⟩
  rw [hout, kindOf_of_get hg', hstop]
  rfl

theorem endsFailed_putDown (hw : w.Wired) (hup : w.Up id job) (hrun : job.run = some r)
    {run : Run} (hget : w.session.runs[r]? = some run) (he : w.faults.get? e = some f)
    (herror : f.kind.isError = true) (hnone : w.faults.findCancellation e = none) :
    (w.putDown id job (.finished (.error e))).EndsFailed r job.future e := by
  obtain ⟨⟨failure, g, hresult, hg, hkind, hinner, hcause, -⟩, hruns⟩ := conclude_failed (r := r) hw he herror hnone
  obtain ⟨hfaults, hsession, hout⟩ := outcome?_putDown_error hw hup hrun hresult
  have hover := over_of_modify hget (hsession ▸ hruns)
  refine ⟨⟨failure, g, ?_, hfaults ▸ hg, hkind, hinner, hcause⟩, hover.runOf.2⟩
  rw [hout, kindOf_of_get hg, hkind]
  rfl

end World

namespace Scene

open World

variable {env : Env} {P : Op → Prop} {s t : Scene} {r : RunId} {id : JobId} {job : Job} {e : FaultId} {f : Fault}

/-- A scene but for its faults, which may be any others, linked in any way. -/
def withFaults (s : Scene) (graph : Faults) : Scene := { s with world := { s.world with faults := graph } }

/-- A job of a run ends its turn with an error `e`, off which any graph of faults hangs; the next step of the system ends
task and run. They end with the deliberate stop that `findCancellation` visits from `e`, and with the failure `e` where it
visits none; this is what hangs off `e` exactly if the search visits a stop whenever there is one behind `e`. -/
theorem ends_as_found (hs : Reachable env P s) (hturn : s.activity = .turn ⟨id, job, .done (.error e)⟩)
    (hrun : job.run = some r) (graph : Faults) (he : graph.get? e = some f) (herror : f.kind.isError = true)
    (hstep : Step env P (s.withFaults graph) t) :
    (∀ c, graph.Visits e c → graph.IsStop c → t.world.EndsStopped r job.future c) ∧
    ((∀ c, graph.Visits e c → ¬ graph.IsStop c) → t.world.EndsFailed r job.future e) ∧
    (t.world.Told graph e r job.future ↔
      ((∃ c, graph.Behind e c ∧ graph.IsStop c) → ∃ c, graph.Visits e c ∧ graph.IsStop c)) := by
  obtain ⟨hsound, hturns⟩ := hs.parts.1
  have hwired : (s.withFaults graph).world.Wired := hsound.toWired.same rfl rfl rfl rfl rfl
  have hup : (s.withFaults graph).world.Up id job :=
    ⟨(hturns _ hturn).get, (hturns _ hturn).undone, (hturns _ hturn).off⟩
  obtain ⟨run, hget, -⟩ := (hturns _ hturn).run hsound hrun
  have hworld := congrArg Scene.world (hstep.finished hturn)
  have hstopped (c : FaultId) (hvisits : graph.Visits e c) (hstop : graph.IsStop c) :
      t.world.EndsStopped r job.future c := by
    rw [hworld]
    exact endsStopped_putDown hwired hup hrun hget he herror (Faults.findCancellation_eq_some_iff.2 ⟨hvisits, hstop⟩)
  have hfailed (hnone : ∀ c, graph.Visits e c → ¬ graph.IsStop c) : t.world.EndsFailed r job.future e := by
    rw [hworld]
    exact endsFailed_putDown hwired hup hrun hget he herror (Faults.findCancellation_eq_none_iff.2 hnone)
  refine ⟨hstopped, hfailed, fun htold hbehind => ?_, fun hfinds => ⟨fun hbehind => ?_, fun hnone => ?_⟩⟩
  · by_contra hnot
    obtain ⟨c, -, hends⟩ := htold.stopped hbehind
    exact (hfailed fun d hvisits hstop => hnot ⟨d, hvisits, hstop⟩).not_endsStopped hends
  · obtain ⟨c, hvisits, hstop⟩ := hfinds hbehind
    exact ⟨c, Faults.Visits.behind hvisits, hstopped c hvisits hstop⟩
  · exact hfailed fun c hvisits => hnone c (Faults.Visits.behind hvisits)

/-- A script that raises whatever stops its call again, as an error that something else is the cause of. -/
def rewrapping : List Instruction := [.wrap .fromOther [.call { func := .text "forward" }]]

def rewrappingEnv : Env := { program := Script.execute [] [("rewrap", rewrapping)], react := fun _ _ => pure () }

/-- The run of the script is cancelled while its call is paced. -/
def callCancelled : World :=
  let w := (World.perform rewrappingEnv (.start "rewrap") {}).2
  let w := (w.tick? rewrappingEnv).getD w
  (w.perform rewrappingEnv (.cancelRun (.text "halt"))).2

/-- The script has raised the cancellation, `0`, again as an error, `1`, with another cause, `2`. -/
def stopRewrapped : Scene := ({ world := callCancelled } : Scene).after rewrappingEnv 7

theorem stopRewrapped_reachable : Reachable rewrappingEnv (fun _ => True) stopRewrapped := by
  have hstart : Moves rewrappingEnv (fun _ => True) {} (World.perform rewrappingEnv (.start "rewrap") {}).2 :=
    .single (.perform _ trivial)
  have hcancelled : Moves rewrappingEnv (fun _ => True) {} callCancelled :=
    (hstart.trans (moves_tick _)).tail (.perform _ trivial)
  exact ⟨{}, World.fresh_empty, (steps_of_moves hcancelled).trans (steps_after 7 _)⟩

theorem stopRewrapped_raises : ∃ job : Job, stopRewrapped.activity = .turn ⟨0, job, .done (.error 1)⟩ ∧
    job.run = some 1 ∧ job.future = 0 := by
  refine ⟨_, rfl, ?_, ?_⟩ <;> rfl

/-- The cancellation hangs off the error. -/
theorem stopRewrapped_behind : stopRewrapped.world.faults.Behind 1 0 ∧ stopRewrapped.world.faults.IsStop 0 := by
  have hlinks : stopRewrapped.world.faults.Links 1 0 := ⟨_, rfl, .inr rfl⟩
  exact ⟨.single hlinks, _, rfl, rfl⟩

/-- The search from the error raised in `stopRewrapped` passes the stop behind it by, and the run ends as a failure of the
program. -/
theorem stopRewrapped_ends_failed : ∃ t, Step rewrappingEnv (fun _ => True) stopRewrapped t ∧
    t.world.EndsFailed 1 0 1 ∧ ¬ t.world.Told stopRewrapped.world.faults 1 1 0 := by
  obtain ⟨job, hturn, hrun, hfuture⟩ := stopRewrapped_raises
  have hstep : Step rewrappingEnv (fun _ => True) stopRewrapped (stopRewrapped.after rewrappingEnv 1) := .next rfl
  have hnone : stopRewrapped.world.faults.findCancellation 1 = none := rfl
  have hplain := Faults.findCancellation_eq_none_iff.1 hnone
  obtain ⟨-, hfailed, htold⟩ := ends_as_found stopRewrapped_reachable hturn hrun
    stopRewrapped.world.faults rfl rfl hstep
  rw [hfuture] at hfailed htold
  refine ⟨_, hstep, hfailed hplain, fun h => ?_⟩
  obtain ⟨c, hvisits, hstop⟩ := htold.1 h ⟨0, stopRewrapped_behind⟩
  exact hplain c hvisits hstop

/-- A run need not end as everything that hangs off its error would have it: in `stopRewrapped` a stop hangs off it. -/
theorem not_told_of_raised : ¬ ∀ (env : Env) (s t : Scene) (id : JobId) (job : Job) (r : RunId) (e : FaultId)
    (f : Fault), Reachable env (fun _ => True) s → s.activity = .turn ⟨id, job, .done (.error e)⟩ →
    job.run = some r → s.world.faults.get? e = some f → f.kind.isError = true → Step env (fun _ => True) s t →
    t.world.Told s.world.faults e r job.future := by
  intro htold
  obtain ⟨job, hturn, hrun, hfuture⟩ := stopRewrapped_raises
  have hstep : Step rewrappingEnv (fun _ => True) stopRewrapped (stopRewrapped.after rewrappingEnv 1) := .next rfl
  have hends := htold _ _ _ 0 job 1 1 _ stopRewrapped_reachable hturn hrun rfl rfl hstep
  obtain ⟨c, -, hstopped⟩ := hends.stopped ⟨0, stopRewrapped_behind⟩
  have hout : (stopRewrapped.after rewrappingEnv 1).world.outcome? 0 = some (.fault 3) := rfl
  have hprogram : (stopRewrapped.after rewrappingEnv 1).world.faults.kindOf 3 = .program := rfl
  have hreported := hstopped.outcome
  rw [hfuture, hout] at hreported
  cases hreported
  obtain ⟨g, hg, hkind⟩ := hstopped.stop
  rw [kindOf_of_get hg, hkind] at hprogram
  cases hprogram

end Scene

end SteppedLogo
