import SteppedLogo.Proofs.Session.Lasting
import SteppedLogo.Proofs.Session.Phases

namespace SteppedLogo

open Words

namespace World

variable {env : Env} {words : Words} {source : String} {start u v w : World} {n : Nat} {r : RunId}
variable {id : JobId} {job : Job} {result : Except FaultId Value} {o : Outcome} {fault : FaultId} {f : Fault}

/-- What the job of the run ends with, as for what the program ends with. -/
inductive Ended (env : Env) (words : Words) (source : String) (start : World) (r : RunId) (n : Nat) (w : World) :
    Outcome → Prop
  | completed {u : World} (hrun : (evaluate words false source).run.run env start = (.finished (.ok .none), u))
    (halike : u.Alike w) : Ended env words source start r n w (.value .none)
  | failed {u : World} {d fault cause : FaultId} {f g h : Fault}
    (hrun : (evaluate words false source).run.run env start = (.finished (.error d), u)) (halike : u.Alike w)
    (hd : u.faults.get? d = some h) (hfault : w.faults.get? fault = some f) (hkind : f.kind = .program)
    (hinner : f.inner = some cause) (hcause : w.faults.get? cause = some g) (hagrees : h.Agrees g) :
    Ended env words source start r n w (.fault fault)
  | rejected {fault : FaultId} {f : Fault} (hsteps : (w.runOf r).steps = n + 1)
    (hfault : w.faults.get? fault = some f) (hkind : f.kind = .cancellation) :
    Ended env words source start r n w (.fault fault)
  | cancelled : Ended env words source start r n w .cancelled

/-- What goes on beside the program does not change how its job has ended. -/
theorem Ended.spares (h : Ended env words source start r n w o) (hspares : w.Spares v) :
    Ended env words source start r n v o := by
  cases h with
  | completed hrun halike => exact .completed hrun (halike.trans hspares.alike)
  | failed hrun halike hd hfault hkind hinner hcause hagrees =>
    obtain ⟨f, hf, hsame⟩ := hspares.faults _ _ hfault
    obtain ⟨g, hg, hsame'⟩ := hspares.faults _ _ hcause
    exact .failed hrun (halike.trans hspares.alike) hd hf (hsame.kind.trans hkind) (hsame.inner.trans hinner) hg
      (hagrees.trans hsame')
  | rejected hsteps hfault hkind =>
    obtain ⟨f, hf, hsame⟩ := hspares.faults _ _ hfault
    exact .rejected ((hspares.runOf_steps r).trans hsteps) hf (hsame.kind.trans hkind)
  | cancelled => exact .cancelled

/-- The job of the run ends with what its program ends with, unless it is to be cancelled. -/
theorem Result.ended (hw : w.Sound) (hup : w.Up id job) (hrun : job.run = some r)
    (h : Result env words source start r True n w result) :
    ∃ o, (w.putDown id job (.finished result)).outcome? job.future = some o ∧
      Ended env words source start r n (w.putDown id job (.finished result)) o := by
  have hspares : w.Spares (w.putDown id job (.finished result)) := (passes_putDown hw hup (.finished result)).spares
  cases h with
  | completed hdirect halike =>
    obtain hcancelled | hvalue := outcome?_putDown_ok hw hup hrun .none
    · exact ⟨_, hcancelled, .cancelled⟩
    · exact ⟨_, hvalue, .completed hdirect (halike.trans hspares.alike)⟩
  | failed hordinary hdirect halike hd hfault =>
    have hnone := Faults.findCancellation_none hfault hordinary.2 rfl
    obtain ⟨⟨failure, g, hfailure, hg, hkind, hinner, -⟩, -⟩ := conclude_failed (r := r) hw.toWired hfault hordinary.1 hnone
    obtain ⟨hfaults, -, hout⟩ := outcome?_putDown_error hw.toWired hup hrun hfailure
    obtain ⟨cause, hcause, hagrees⟩ := hspares.faults _ _ hfault
    rw [kindOf_of_get hg, hkind] at hout
    refine ⟨_, hout, .failed hdirect (halike.trans hspares.alike) hd ?_ hkind hinner hcause hagrees⟩
    rw [hfaults]
    exact hg
  | rejected hsteps hfault hkind =>
    have hfound := Faults.findCancellation_self hfault hkind
    have hstopped := (conclude_stopped (r := r) hfault (hkind ▸ rfl) hfound).1
    obtain ⟨hfaults, -, hout⟩ := outcome?_putDown_error hw.toWired hup hrun hstopped
    obtain ⟨g, hg, hagrees⟩ := hspares.faults _ _ hfault
    rw [← hfaults, kindOf_of_get hg, hagrees.kind, hkind] at hout
    exact ⟨_, hout, .rejected ((hspares.runOf_steps r).trans hsteps) hg (hagrees.kind.trans hkind)⟩
  | cancelled hfault hkind =>
    obtain ⟨hfaults, -, hout⟩ := outcome?_putDown_error hw.toWired hup hrun (conclude_cancelled hfault hkind).1
    obtain ⟨g, hg, hagrees⟩ := hspares.faults _ _ hfault
    rw [← hfaults, kindOf_of_get hg, hagrees.kind, hkind] at hout
    exact ⟨_, hout, .cancelled⟩

/-- What the job of the run has ended with, and where the program was cut short. -/
def EndedAt (env : Env) (words : Words) (source : String) (start : World) (r : RunId) : Telling Outcome :=
  fun w o => ∃ n, Cut env words source start n w ∧ Ended env words source start r n w o

/-- A program of words may be stopped, or its job cancelled, at any time. -/
theorem lasting_phase (hlisteners : env.GoesBeside) (hwords : words.IsPlain) :
    Lasting env r True (fun _ _ => True) (Phase env words source start r True) (EndedAt env words source start r) where
  performs w o k hw hactive hcurrent _ hphase :=
    hphase.op hlisteners hwords hw hactive hcurrent fun _ _ _ _ _ => .inl trivial
  waits w v awaited k hspares _ hphase := by
    cases hphase with
    | parked hparked => exact .parked (hparked.spares hspares fun _ _ _ _ _ => .inl trivial)
  receives w v awaited k received hspares _ hreceives hphase := by
    cases hphase with
    | parked hparked => exact hparked.receives hwords hreceives (fun h => h) hspares fun _ _ _ _ _ => .inl trivial
  unbegun _ w v k hspares hphase := by
    cases hphase with
    | parked hparked =>
      obtain ⟨n, hcut⟩ := hparked.cut hwords
      exact ⟨n, hcut.spares hspares, .cancelled⟩
  finishes w id job result hw hup hrun _ hphase := by
    cases hphase with
    | done hcut hresult =>
      obtain ⟨o, hout, hended⟩ := hresult.ended hw hup hrun
      exact ⟨o, hout, _, hcut.spares (passes_putDown hw hup (.finished result)).spares, hended⟩
  ended w v o hspares _ hended := by
    obtain ⟨n, hcut, hends⟩ := hended
    exact ⟨n, hcut.spares hspares, hends.spares hspares⟩

end World

namespace Scene

open World

variable {env : Env} {words : Words} {source : String} {start v w : World} {s t : Scene}
variable {r : RunId} {id : JobId} {task : FutureId}

/-- How far a run has come while no later one has begun. -/
abbrev Stepped (env : Env) (words : Words) (source : String) (start : World) (r : RunId) (id : JobId)
    (task : FutureId) (s : Scene) : Prop :=
  s.Tells (Phase env words source start r True) (EndedAt env words source start r) r id task

/-- A run is started where no step is pending. -/
theorem stepped_start (hprogram : env.program = execute words) (hpending : w.gate.pending = none)
    (hstart : w.perform env (.start source) = (.ok task, v)) :
    v.session.runs.size = w.session.runs.size + 1 ∧
      Stepped env words source w w.session.runs.size w.jobs.size task { world := v } := by
  have hstarted : Started (env.program source) source task w v := started_of_start hstart
  rw [hprogram] at hstarted
  refine ⟨hstarted.size, Nat.lt_of_lt_of_eq (Nat.lt_succ_self _) hstarted.size.symm,
    fun _ => ⟨_, hstarted.job, rfl, rfl, .under hstarted.opens (.parked ?_)⟩⟩
  exact .queued hstarted.fresh hstarted.alike hstarted.seq (hstarted.pending.trans hpending)

theorem Stepped.steps (hlisteners : env.GoesBeside) (hwords : words.IsPlain)
    (henv : env.Confined) (hs : Reachable env Op.Steers s) (hsteps : Steps env Op.Steers s t)
    (h : s.Stepped env words source start r id task) : t.Stepped env words source start r id task := by
  obtain ⟨first, hfresh, hfirst⟩ := hs
  induction hsteps with
  | refl => exact h
  | tail hbefore hstep ih =>
    have hreachable : Reachable env Op.Steers _ := ⟨first, hfresh, hfirst.trans hbefore⟩
    exact hstep.tells (lasting_phase hlisteners hwords) henv (hreachable.governed Op.guards_steers henv)
      (hreachable.begunFirst Op.guards_steers henv) (fun _ => trivial) (fun _ _ _ _ => trivial) ih

end Scene

namespace World

variable {env : Env} {words : Words} {source : String} {start u v w : World} {task : FutureId} {r : RunId}
variable {rest : Routine (Except FaultId Value)}

/-- Between two moves a program either waits or has ended, and is cut short either way. -/
theorem Stands.cut (hwords : words.IsPlain) {awaited : Option FutureId}
    {k : Except FaultId Value → Routine (Except FaultId Value)}
    (h : Stands (Phase env words source start r True) (EndedAt env words source start r) task w (.await awaited k)) :
    ∃ n, Cut env words source start n w ∧ ∀ o, w.outcome? task = some o → Ended env words source start r n w o := by
  cases h with
  | under hopen hphase =>
    cases hphase with
    | parked hparked =>
      obtain ⟨n, hcut⟩ := hparked.cut hwords
      refine ⟨n, hcut, fun o ho => ?_⟩
      rw [hopen] at ho
      cases ho
  | concluded hout hended =>
    obtain ⟨n, hcut, hends⟩ := hended
    refine ⟨n, hcut, fun o ho => ?_⟩
    rw [hout] at ho
    cases ho
    exact hends

/-- `execute` of the turtle's words against `evaluate` without call boundaries, from one reachable world in which no step
is pending, with listeners that go beside the run. Whatever moves follow a `start`, while its run is the current one: the
calls are a prefix of those of `evaluate`, and turtle and output are as they are there after as many calls. A task that
has ended with a value or a failure has cut nothing off, and its failure has the kind and message of the error there; one
that ended with a deliberate stop has counted one more step than calls. -/
theorem stepping_cuts_short (hprogram : env.program = execute turtleWords)
    (hlisteners : env.GoesBeside) (hw : Reachable env Op.Steers w)
    (hpending : w.gate.pending = none) (hstart : w.perform env (.start source) = (.ok task, v))
    (hmoves : Moves env Op.Steers v u) (hcurrent : u.session.current = v.session.current) :
    ∃ n, u.calls.size = w.calls.size + n ∧
      u.calls.toList <+: ((evaluate turtleWords false source).run.run env w).2.calls.toList ∧
      ((evaluate turtleWords false source).run.afterCalls env n w).2.Alike u ∧
      (∀ x, u.outcome? task = some (.value x) → ∃ direct,
        (evaluate turtleWords false source).run.run env w = (.finished (.ok .none), direct) ∧ direct.Alike u) ∧
      ∀ fault, u.outcome? task = some (.fault fault) → ∃ f, u.faults.get? fault = some f ∧
        ((f.kind = .cancellation ∧ u.session.run.steps = n + 1) ∨
          f.kind = .program ∧ ∃ cause g d h direct, f.inner = some cause ∧ u.faults.get? cause = some g ∧
            (evaluate turtleWords false source).run.run env w = (.finished (.error d), direct) ∧ direct.Alike u ∧
              direct.faults.get? d = some h ∧ g.kind = h.kind ∧ g.message = h.message) := by
  have henv : env.Confined := ⟨fun name event => (hlisteners.steers name event).imp fun _ h => h.quiet, fun source => by
    rw [hprogram]
    exact hooked_execute turtleWords source⟩
  have hv : Reachable env Op.Steers v := by
    have hmove : Move env Op.Steers w (w.perform env (.start source)).2 := .perform w trivial
    rw [hstart] at hmove
    exact hw.moves (.single hmove)
  have hu := (hv.moves hmoves).sound
  obtain ⟨hsize, hstarted⟩ := Scene.stepped_start hprogram hpending hstart
  have hnow : u.session.runs.size = w.session.runs.size + 1 := by
    have hpos := hu.nonempty
    change u.session.runs.size - 1 = v.session.runs.size - 1 at hcurrent
    omega
  have hstepped := hstarted.steps hlisteners turtleWords_plain henv (Scene.reachable_of_world hv)
    (Scene.steps_of_moves hmoves)
  obtain ⟨job, -, -, -, hstands⟩ := hstepped.kept hnow
  obtain ⟨n, hcut, hends⟩ := hstands.cut turtleWords_plain
  refine ⟨n, hcut.calls, hcut.begins, hcut.alike, fun x hx => ?_, fun fault hfault => ?_⟩
  · cases hends _ hx with
    | completed hrun halike => exact ⟨_, hrun, halike⟩
  · cases hends _ hfault with
    | rejected hsteps hget hkind =>
      refine ⟨_, hget, .inl ⟨hkind, ?_⟩⟩
      rw [← runOf_current hu, Session.current, hnow]
      exact hsteps
    | failed hrun halike hd hget hkind hinner hcause hagrees =>
      exact ⟨_, hget, .inr ⟨hkind, _, _, _, _, _, hinner, hcause, hrun, halike, hd, hagrees.kind, hagrees.message⟩⟩

/-- A session whose program waits for its first call boundary. -/
def beforeCall : World :=
  let w := (World.perform turtleEnv (.start "pd") {}).2
  (w.tick? turtleEnv).getD w

/-- The same session once it has been asked to stop, when the job of the run has ended. -/
def stoppedAtCall : World :=
  let w := (beforeCall.perform turtleEnv (.cancelRun (.text "stop"))).2
  let w := (w.tick? turtleEnv).getD w
  (w.tick? turtleEnv).getD w

theorem moves_stoppedAtCall :
    Moves turtleEnv Op.Steers (World.perform turtleEnv (.start "pd") {}).2 stoppedAtCall := by
  have hbefore : Moves turtleEnv Op.Steers (World.perform turtleEnv (.start "pd") {}).2 beforeCall := moves_tick _
  have hstop : Moves turtleEnv Op.Steers beforeCall (beforeCall.perform turtleEnv (.cancelRun (.text "stop"))).2 :=
    .single (.perform beforeCall trivial)
  exact ((hbefore.trans hstop).trans (moves_tick _)).trans (moves_tick _)

/-- A program that is stopped at its first call has done nothing, and has counted one step. -/
theorem stoppedAtCall_cut_short : ∃ n, stoppedAtCall.calls.size = 0 + n ∧ stoppedAtCall.session.run.steps = n + 1 ∧
    ((evaluate turtleWords false "pd").run.afterCalls turtleEnv n {}).2.Alike stoppedAtCall := by
  have hout : stoppedAtCall.outcome? 0 = some (.fault 0) := by
    set_option maxRecDepth 1024 in rfl
  have hstop : stoppedAtCall.faults.kindOf 0 = .cancellation := by decide +kernel
  have hcurrent : stoppedAtCall.session.current =
      (World.perform turtleEnv (.start "pd") {}).2.session.current := by decide +kernel
  have hlisteners : turtleEnv.GoesBeside := goesBeside_of_pure fun _ _ => rfl
  have hfresh : Reachable turtleEnv Op.Steers {} := ⟨{}, fresh_empty, .refl⟩
  have hstart : World.perform turtleEnv (.start "pd") {} = (.ok 0, (World.perform turtleEnv (.start "pd") {}).2) := rfl
  obtain ⟨n, hcalls, -, halike, -, hfault⟩ :=
    stepping_cuts_short rfl hlisteners hfresh rfl hstart moves_stoppedAtCall hcurrent
  obtain ⟨f, hf, ⟨-, hsteps⟩ | ⟨hkind, -⟩⟩ := hfault 0 hout
  · exact ⟨n, hcalls, hsteps, halike⟩
  · rw [kindOf_of_get hf, hkind] at hstop
    cases hstop

end World

end SteppedLogo
