import SteppedLogo.Launch
import SteppedLogo.Proofs.Stream.Course

namespace SteppedLogo

open LogoList (ofWords)
open Words

/-- What is written at the end of a program: why it has failed, if it has. -/
def reported (why? : Option Complaint) : List Printed :=
  (why?.map fun why => .plain (Console.jsonRecord "error" none (Fault.ofComplaint why).message)).toList

/-- How a host ends that has run the program. -/
def exitOf : Option Complaint → Exit
  | none => .ok
  | some _ => .error

/-- All records of a program of words that is run with a turtle. -/
def Words.stream (words : Words) (t : Turtle) (traced : Bool) (source : String) : List Printed :=
  .plain (Console.jsonRecord "input" none source) :: tellAll traced (Text.words source) 0 (words.made t source).1 ++
    reported (words.made t source).2

namespace World

variable {env : Env} {words : Words} {source : String} {traced : Bool} {start u v w : World} {n : Nat}
variable {future : FutureId} {l : Loop Callback} {c : Callback} {cs : List Callback}

/-- Driving one state until a future is settled comes to the other state on the way. -/
def Drives (env : Env) (future : FutureId) (w v : World) : Prop :=
  ∃ m, ∀ n, driveUntil env future (m + n) w = driveUntil env future n v

theorem Drives.refl (env : Env) (future : FutureId) (w : World) : Drives env future w w :=
  ⟨0, fun n => by rw [Nat.zero_add]⟩

theorem Drives.trans (huv : Drives env future u v) (hvw : Drives env future v w) : Drives env future u w := by
  obtain ⟨m, hm⟩ := huv
  obtain ⟨k, hk⟩ := hvw
  refine ⟨m + k, fun n => ?_⟩
  rw [Nat.add_assoc, hm, hk]

theorem Drives.tick (hopen : w.isDone future = false) (htick : w.tick? env = some v) : Drives env future w v := by
  refine ⟨1, fun n => ?_⟩
  rw [Nat.add_comm, driveUntil]
  simp only [hopen, Bool.false_eq_true, if_false, htick]

/-- Where nothing is left to do the clock moves on. -/
theorem Drives.clock {due : Float} (hopen : w.isDone future = false) (htick : w.tick? env = none)
    (hdue : w.loop.earliest? = some due) : Drives env future w (w.setClock due) := by
  refine ⟨1, fun n => ?_⟩
  rw [Nat.add_comm, driveUntil]
  simp only [hopen, Bool.false_eq_true, if_false, htick, hdue]

/-- The callback that is ready first is called. -/
theorem Drives.callback (env : Env) (hopen : w.isDone future = false) (h : w.loop.Queues (c :: cs)) :
    ∃ l, l.Queues cs ∧ Drives env future w ({ w with loop := l }.runCallback env c) := by
  obtain ⟨l, hnext, hl⟩ := h.next?
  exact ⟨l, hl, .tick hopen (by rw [tick?, hnext])⟩

theorem driveUntil_of_done (h : w.isDone future = true) (n : Nat) : driveUntil env future n w = w := by
  cases n with
  | zero => rfl
  | succ n => rw [driveUntil, if_pos h]

/-- What a bridge is driven to until the future is settled does not depend on how long it may be driven. -/
theorem Drives.ends (h : Drives env future w v) (hdone : v.isDone future = true) :
    ∃ m, ∀ n, m ≤ n → driveUntil env future n w = v := by
  obtain ⟨m, hm⟩ := h
  refine ⟨m, fun n hn => ?_⟩
  rw [← Nat.add_sub_of_le hn, hm, driveUntil_of_done hdone]

theorem Roles.open_host {job : Job} (h : start.Roles job w) : w.isDone start.futures.size = false :=
  isDone_eq_false.2 (outcome?_of_get h.hostFuture)

theorem Waits.lt (h : Waits words source traced start n w) : n < (words.plan source).length := by
  obtain ⟨c, behind, fresh, id, future, hboundary, -⟩ := h.boundary
  exact (List.getElem?_eq_some_iff.1 hboundary.call.get).1

/-- The step at which a program waits becomes due. -/
theorem Waits.released (env : Env) (h : Waits words source traced start n w) :
    ∃ id v, Wakes words source traced start n [id] v ∧ Drives env start.futures.size w v := by
  obtain ⟨c, behind, fresh, id, future, hboundary, hpends⟩ := h.boundary
  obtain ⟨seq, timer, due, hstep, htimes⟩ := hpends.step
  obtain ⟨clock, hclock, hdue⟩ : ∃ clock, Drives env start.futures.size w (w.setClock clock) ∧ ¬ clock < due := by
    by_cases hearly : w.loop.clock < due
    · have hnone : w.tick? env = none := by rw [tick?, htimes.next?_early hearly]
      exact ⟨due, .clock hboundary.roles.open_host hnone htimes.earliest?, Loop.not_early due⟩
    · exact ⟨w.loop.clock, .refl env _ w, hearly⟩
  obtain ⟨l, hnext, hl⟩ := (htimes.setClock clock).next? hdue
  have htick : (w.setClock clock).tick? env = some ({ w with loop := l }.elapse id) := by
    simp only [tick?, setClock, hnext]
    rfl
  exact ⟨id, _, hboundary.elapses hpends hl, hclock.trans (.tick hboundary.roles.open_host htick)⟩

/-- The step at which a program waits is released, and the program goes on to the next one, or to its end. -/
theorem Waits.passes (hreact : env.react = Launch.react) (hwords : words.IsPlain)
    (h : Waits words source traced start n w) :
    ∃ v, Drives env start.futures.size w v ∧
      (Waits words source traced start (n + 1) v ∨ AtEnd words source traced start v) := by
  obtain ⟨id, u, hwakes, hdrives⟩ := h.released env
  obtain ⟨_, _, _, _, hboundary, -⟩ := hwakes.boundary
  obtain ⟨l, hl, hretracts⟩ := Drives.callback env hboundary.roles.open_host hwakes.loop
  have hretracted := hwakes.retracts hl
  obtain ⟨_, _, _, _, hboundary, -⟩ := hretracted.boundary
  obtain ⟨l, hl, hwoken⟩ := Drives.callback env hboundary.roles.open_host hretracted.loop
  exact ⟨_, (hdrives.trans hretracts).trans hwoken, hretracted.goes_on hreact hwords hl⟩

/-- A program comes to its end, for each step that is released is one call less to be made. -/
theorem Waits.ends (hreact : env.react = Launch.react) (hwords : words.IsPlain)
    (h : Waits words source traced start n w) :
    ∃ v, Drives env start.futures.size w v ∧ AtEnd words source traced start v := by
  induction hleft : (words.plan source).length - n generalizing n w with
  | zero => exact absurd h.lt (Nat.not_lt.2 (Nat.sub_eq_zero_iff_le.1 hleft))
  | succ left ih =>
    obtain ⟨v, hdrives, hv | hv⟩ := h.passes hreact hwords
    · obtain ⟨x, hx, hend⟩ := ih hv (by omega)
      exact ⟨x, hdrives.trans hx, hend⟩
    · exact ⟨v, hdrives, hv⟩

theorem run_describe {α : Type} {id : FaultId} {f : Fault} (hget : w.faults.get? id = some f) (k : Fault → Routine α) :
    (Routine.op (.describe id) k).run env w = (k f).run env w := by
  have hdescribes : w.perform env (.describe id) = (f, w) := by
    rw [← Option.getD_some (a := f) (b := { kind := .general }), ← hget]
    rfl
  change (k (w.perform env (.describe id)).1).run env (w.perform env (.describe id)).2 = _
  rw [hdescribes]

theorem run_leave (env : Env) (hooked : Bool) (exit : Except FaultId Exit) (w : World) :
    ∃ v, (Host.leave hooked exit).run env w = (.finished exit, v) ∧ v = { w with interrupt := v.interrupt } := by
  cases hooked with
  | false => exact ⟨w, rfl, rfl⟩
  | true => exact ⟨_, rfl, rfl⟩

theorem Ends.inactive {faults : Faults} {why? : Option Complaint} {o : Outcome} {status : Status}
    {error : Option FaultId} (h : Ends faults why? o status error) : status.isActive = false := by
  cases h <;> rfl

/-- What a host says of its run. -/
structure Reported (why? : Option Complaint) (w v : World) : Prop where
  rest : v = { w with log := v.log, output := v.output }
  sink : v.output.accepts = w.output.accepts
  lines : v.console = w.console ++ reported why?

/-- A host that waits for a run receives how that has ended, and reports it. -/
theorem Ends.reports {faults : Faults} {why? : Option Complaint} {o : Outcome} {status : Status} {error : Option FaultId}
    (h : Ends faults why? o status error) : ∃ received, (∀ w : World, w.receive o = (received, w)) ∧
      ∀ w : World, w.faults = faults → (∀ n, w.output.accepts n = true) → ∃ v,
        (Host.verdict received).run env w = (.finished (.ok (exitOf why?)), v) ∧ Reported why? w v := by
  cases h with
  | completed => exact ⟨.ok .none, fun _ => rfl, fun w _ _ => ⟨w, rfl, rfl, rfl, (List.append_nil _).symm⟩⟩
  | @failed why failure e g f hfailure hkind hinner hget hmessage =>
    refine ⟨.error failure, fun _ => rfl, fun w hfaults hsink => ?_⟩
    subst hfaults
    obtain ⟨kind, args, reason, inner, cause, context⟩ := g
    cases hkind
    cases hinner
    let logged := w.addLog .debug Host.logger "program failed" (some (w.faults.summaryOf e))
    have hprints : logged.perform env (.print "error" f.message) = ((), logged.printed "error" f.message) :=
      perform_print (w := logged) env hsink "error" f.message
    refine ⟨logged.printed "error" f.message, ?_, rfl, rfl, ?_⟩
    · refine (run_describe hfailure _).trans ((run_describe hget _).trans ?_)
      change (Routine.done (Except.ok Exit.error)).run env (logged.perform env (.print "error" f.message)).2 = _
      rw [hprints]
      rfl
    · rw [hmessage]
      exact console_printed logged "error" _

/-- What a program leaves behind on a bridge that rested in the state `start`: the host has ended, and the bridge rests
again. -/
structure HasRun (words : Words) (source : String) (traced : Bool) (start v : World) : Prop where
  exit : v.outcome? start.futures.size = some (.value (.int (exitOf (words.made start.turtle source).2).code))
  rests : v.Rests traced
  lines : v.console = start.console ++ words.stream start.turtle traced source

/-- The host is woken with the end of its run, reports it, and lets go of the interrupt. -/
theorem AtEnd.wakes (env : Env) (h : AtEnd words source traced start w) (l : Loop Callback) :
    ∃ u x : World, Reported (words.made start.turtle source).2 ({ w with loop := l }.giveTurn start.jobs.size) u ∧
      x = { u with interrupt := x.interrupt } ∧
      { w with loop := l }.runCallback env (.wake start.jobs.size) =
        x.endJob start.jobs.size start.futures.size (.ok (.int (exitOf (words.made start.turtle source).2).code)) := by
  obtain ⟨hooked, hhost⟩ := h.host
  obtain ⟨number, status, error, o, -, ho, hends⟩ := h.run
  have hopen : w.isDone start.futures.size = false := isDone_eq_false.2 (outcome?_of_get h.hostFuture)
  obtain ⟨received, hreceives, hreports⟩ := hends.reports
  obtain ⟨u, hverdict, hu⟩ := hreports ({ w with loop := l }.giveTurn start.jobs.size) rfl h.surface.sink
  obtain ⟨x, hleaves, hx⟩ := run_leave env hooked (.ok (exitOf (words.made start.turtle source).2)) u
  have hjob : { w with loop := l }.jobs[start.jobs.size]? = some (hostJob start hooked) := hhost
  have hcloses : ((Host.verdict received).bind (Host.leave hooked)).run env
      ({ w with loop := l }.giveTurn start.jobs.size) =
        (.finished (.ok (exitOf (words.made start.turtle source).2)), x) :=
    (Routine.run_bind_of_finished hverdict _).trans hleaves
  refine ⟨u, x, hu, hx, ?_⟩
  change { w with loop := l }.wake env start.jobs.size = _
  rw [wake_of_get hjob rfl ho (hreceives _), resume_of_get hjob hopen rfl rfl]
  change endTurn env start.jobs.size _ (((Host.verdict received).bind (Host.leave hooked)).bind _) _ = _
  rw [endTurn_bind hcloses]
  rfl

/-- The host ends, and the bridge rests. -/
theorem AtEnd.closes (env : Env) (h : AtEnd words source traced start w) :
    ∃ v, Drives env start.futures.size w v ∧ HasRun words source traced start v := by
  obtain ⟨hooked, hhost⟩ := h.host
  obtain ⟨number, status, error, _, hruns, -, hends⟩ := h.run
  have hopen : w.isDone start.futures.size = false := isDone_eq_false.2 (outcome?_of_get h.hostFuture)
  obtain ⟨l, hl, hdrives⟩ := Drives.callback env hopen h.loop
  obtain ⟨u, x, hu, hx, hwakes⟩ := h.wakes env l
  have hjob : { w with loop := l }.jobs[start.jobs.size]? = some (hostJob start hooked) := hhost
  have hafter : x = { w with
      loop := l, jobs := x.jobs, interrupt := x.interrupt, log := x.log, output := x.output } := by
    rw [hx, hu.rest]
    rfl
  have hcalm : ((x.jobs[start.jobs.size]?).map Job.cancelRequested).getD false = false := by
    have hjobs : x.jobs = ({ w with loop := l }.giveTurn start.jobs.size).jobs := by rw [hx, hu.rest]
    rw [hjobs, giveTurn, modifyJob_get, if_pos rfl, hjob]
    rfl
  have hfuture : x.futures[start.futures.size]? = some { job := some start.jobs.size } := by
    rw [hafter]
    exact h.hostFuture
  have houtput : x.output = u.output := by rw [hx]
  refine ⟨_, hwakes ▸ hdrives, ?_⟩
  simp only [endJob, hcalm, Bool.false_eq_true, if_false]
  rw [settle_of_open hfuture rfl]
  refine ⟨?_, ⟨?_, ?_, ?_, ?_, ?_⟩, ?_⟩
  · refine outcome?_of_get (f := { outcome := some _, callbacks := [], job := some start.jobs.size }) ?_
    change (x.futures.modify _ _)[start.futures.size]? = _
    rw [Array.getElem?_modify, if_pos rfl, hfuture]
    rfl
  · rw [hafter]
    exact ⟨h.surface.listeners, h.surface.traceOn, h.surface.view, fun n =>
      (congrFun ((congrArg Output.accepts houtput).trans hu.sink) n).trans (h.surface.sink n)⟩
  · rw [hafter]
    exact hl.append []
  · rw [hafter]
    exact h.pending
  · rw [hafter]
    have hlast : w.session.run = _ := congrArg (fun runs => (runs.back?).getD {}) hruns
    change w.session.run.status.isActive = false
    rw [hlast, Array.back?_push]
    exact hends.inactive
  · rw [hafter]
    exact h.blank
  · have hconsole : x.console = u.console := by rw [console, houtput, console]
    have hbefore : ({ w with loop := l }.giveTurn start.jobs.size).console = w.console := rfl
    change x.console = _
    rw [hconsole, hu.lines, hbefore, h.lines, List.append_assoc]
    rfl

/-- A host that is to run a program on a bridge that rests comes to its end. -/
theorem Rests.runs (hreact : env.react = Launch.react) (hprogram : env.program = execute words) (hwords : words.IsPlain)
    (h : start.Rests traced) (source : String) : ∃ fuel v, HasRun words source traced start v ∧
      ∀ n, fuel ≤ n → start.complete env n (Launch.runProgram source) = (v.outcome? start.futures.size, v) := by
  let spawned := (start.addJob (Launch.runProgram source)).2
  have hopens : Opens source start spawned := ⟨rfl, h.loop.soon _⟩
  have hopen : spawned.isDone start.futures.size = false :=
    isDone_eq_false.2 (outcome?_of_get (f := { job := some start.jobs.size }) Array.getElem?_push_size)
  obtain ⟨l, hl, hhost⟩ := Drives.callback env hopen hopens.loop
  have hstarts := hopens.starts hprogram h hl
  obtain ⟨l, hl, hrun⟩ := Drives.callback env hstarts.roles.open_host hstarts.loop
  obtain ⟨w, hends, hend⟩ : ∃ w, Drives env start.futures.size _ w ∧ AtEnd words source traced start w := by
    obtain hwaits | hend := hstarts.goes_on hreact hwords hl
    · exact hwaits.ends hreact hwords
    · exact ⟨_, .refl env _ _, hend⟩
  obtain ⟨v, hcloses, hv⟩ := hend.closes env
  have hdone : v.isDone start.futures.size = true := isDone_iff.2 ⟨_, hv.exit⟩
  obtain ⟨fuel, hfuel⟩ := (((hhost.trans hrun).trans hends).trans hcloses).ends hdone
  refine ⟨fuel, v, hv, fun n hn => ?_⟩
  change ((spawned.driveUntil env start.futures.size n).outcome? start.futures.size,
    spawned.driveUntil env start.futures.size n) = _
  rw [hfuel n hn]

/-- The state of a bridge after programs that a host has run on it, one after the other. -/
def afterAll (env : Env) (fuel : Nat) (sources : List String) (w : World) : World :=
  sources.foldl (fun w source => (w.complete env fuel (Launch.runProgram source)).2) w

/-- However long a bridge may be driven, if only long enough, it rests again after each program. -/
theorem Rests.afterAll (hreact : env.react = Launch.react) (hprogram : env.program = execute words)
    (hwords : words.IsPlain) (h : start.Rests traced) (sources : List String) :
    ∃ fuel v, v.Rests traced ∧ ∀ n, fuel ≤ n → start.afterAll env n sources = v := by
  induction sources generalizing start with
  | nil => exact ⟨0, start, h, fun _ _ => rfl⟩
  | cons source rest ih =>
    obtain ⟨first, u, hu, hfirst⟩ := h.runs hreact hprogram hwords source
    obtain ⟨fuel, v, hv, hrest⟩ := ih hu.rests
    refine ⟨max first fuel, v, hv, fun n hn => ?_⟩
    obtain ⟨hn, hmore⟩ := Nat.max_le.1 hn
    rw [World.afterAll, List.foldl_cons, hfirst n hn]
    exact hrest n hmore

end World

theorem Words.mem_bind {known added : Words} {entry : String × Handler} (h : entry ∈ known.bind added) :
    entry ∈ known ∨ entry ∈ added := by
  induction added generalizing known with
  | nil => exact .inl h
  | cons first rest ih =>
    obtain hknown | hrest := ih h
    · obtain rfl | hbefore := List.mem_cons.1 hknown
      · exact .inr List.mem_cons_self
      · exact .inl (List.mem_filter.1 hbefore).1
    · exact .inr (List.mem_cons_of_mem _ hrest)

/-- The words of an interpreter that has none of its own. -/
def plainWords : Words := Words.bind [] turtleWords

theorem plainWords_plain : plainWords.IsPlain := by
  intro word h hlookup
  obtain ⟨before, after, heq, -⟩ := List.lookup_eq_some_iff.1 hlookup
  have hmem : (word, h) ∈ plainWords := by
    rw [heq]
    simp
  have hfrom : (word, h) ∈ ([] : Words) ∨ (word, h) ∈ turtleWords := Words.mem_bind hmem
  obtain ⟨⟨key, p⟩, -, hentry⟩ := List.mem_map.1 (hfrom.resolve_left List.not_mem_nil)
  cases hentry
  exact ⟨p, rfl⟩

namespace Launch

variable {interval : Float} {p : Product}

/-- A bridge that is opened for what has been loaded is fresh, and shows each step on its console. -/
theorem bridge_opens (hinterval : ¬ interval < 0.0) (p : Product) (traced signals : Bool) :
    bridge interval traced p signals = .ok {
      world := ({ gate := { interval }, session := { traceOn := traced } } : World).addListener traceListener
      env := { program := (p.interpreter.map Interpreter.program).getD fun _ => pure .none, react, signals } } := by
  have hcheck : World.checkInterval interval = .ok interval := if_neg hinterval
  have hopens : World.openSession interval traced false =
      .ok { gate := { interval }, session := { traceOn := traced } } := by
    simp only [World.openSession, World.openGate, hcheck]
    rfl
  simp only [bridge, hopens]
  rfl

/-- A bridge that is opened for an interpreter of words rests. -/
theorem bridge_rests (hinterval : ¬ interval < 0.0) (hplain : p.interpreter = some {}) (traced signals : Bool) :
    ∃ b : Bridge, bridge interval traced p signals = .ok b ∧ b.world.Rests traced ∧ b.world.console = [] ∧
      b.env.react = react ∧ b.env.program = execute plainWords := by
  refine ⟨_, bridge_opens hinterval p traced signals, ⟨⟨rfl, rfl, rfl, fun _ => rfl⟩, ⟨rfl, rfl, Nat.le_refl _⟩, rfl, rfl,
    rfl⟩, rfl, rfl, ?_⟩
  rw [hplain]
  rfl

/-- `bridge` of an interpreter of plain words with an interval that is not below zero, traced or not. It is opened with
nothing written; after any programs run on it, `runProgram source` completes with enough fuel, and gives the exit code of
the source. The console has written its `stream` since: the echo, for each call in order the trace, where it is on, and
what is printed, and the error, if there is one. -/
theorem records_tell_run (hinterval : ¬ interval < 0.0) (hplain : p.interpreter = some {}) (traced signals : Bool) :
    ∃ b : Bridge, bridge interval traced p signals = .ok b ∧ b.world.console = [] ∧
      ∀ (earlier : List String) (source : String), ∃ fuel, ∀ n, fuel ≤ n →
        ∃ start v : World, b.world.afterAll b.env n earlier = start ∧
          start.complete b.env n (runProgram source) =
            (some (.value (.int (exitOf (plainWords.made start.turtle source).2).code)), v) ∧
          v.console = start.console ++ plainWords.stream start.turtle traced source := by
  obtain ⟨b, hbridge, hrests, hblank, hreact, hprogram⟩ := bridge_rests hinterval hplain traced signals
  refine ⟨b, hbridge, hblank, fun earlier source => ?_⟩
  obtain ⟨before, start, hstart, hearlier⟩ := hrests.afterAll hreact hprogram plainWords_plain earlier
  obtain ⟨fuel, v, hv, hruns⟩ := hstart.runs hreact hprogram plainWords_plain source
  refine ⟨max before fuel, fun n hn => ⟨start, v, hearlier n (Nat.max_le.1 hn).1, ?_, hv.lines⟩⟩
  rw [hruns n (Nat.max_le.1 hn).2, hv.exit]

set_option maxRecDepth 1024 in
/-- A program that prints, lifts the pen and comes to a word that is not known, behind another program. -/
theorem flawed_records_told : ¬ (0.1 : Float) < 0.0 ∧ (Product.ofInterpreter "Plain" {}).interpreter = some {} ∧
    ∃ b : Bridge, bridge 0.1 true (Product.ofInterpreter "Plain" {}) false = .ok b ∧ ∃ (n : Nat) (start v : World),
      b.world.afterAll b.env n ["print before"] = start ∧
      start.complete b.env n (runProgram "print hi pu fly") = (some (.value (.int 1)), v) ∧
      v.console = start.console ++
        [.plain "\x7b\"category\": \"input\", \"text\": \"print hi pu fly\"\x7d\n",
         .plain "\x7b\"category\": \"trace\", \"seq\": 1, \"text\": \"[>>print<< hi pu fly]\"\x7d\n",
         .plain "\x7b\"category\": \"output\", \"text\": \"hi\"\x7d\n",
         .plain "\x7b\"category\": \"trace\", \"seq\": 2, \"text\": \"[print hi >>pu<< fly]\"\x7d\n",
         .plain "\x7b\"category\": \"error\", \"text\": \"I don't know how to fly\"\x7d\n"] := by
  have hinterval : ¬ (0.1 : Float) < 0.0 := by decide +kernel
  have hplain : (Product.ofInterpreter "Plain" {}).interpreter = some {} := rfl
  have hwords : Text.words "print hi pu fly" = ["print", "hi", "pu", "fly"] := by decide +kernel
  have hmade (t : Turtle) : plainWords.made t "print hi pu fly" =
      ([⟨0, "print", .primitive .print, ["hi"]⟩, ⟨2, "pu", .primitive .up, []⟩],
        some ⟨.logo, [.text "I don't know how to fly"]⟩) := by
    rw [made, hwords]
    rfl
  refine ⟨hinterval, hplain, ?_⟩
  obtain ⟨b, hbridge, -, htold⟩ := records_tell_run hinterval hplain true false
  obtain ⟨n, hn⟩ := htold ["print before"] "print hi pu fly"
  obtain ⟨start, v, hstart, hruns, hlines⟩ := hn n (Nat.le_refl n)
  rw [hmade] at hruns
  rw [stream, hmade, hwords] at hlines
  exact ⟨b, hbridge, n, start, v, hstart, hruns, hlines⟩

end Launch

end SteppedLogo
