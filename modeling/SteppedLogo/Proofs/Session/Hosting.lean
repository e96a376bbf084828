import SteppedLogo.Proofs.Session.Handler
import SteppedLogo.Proofs.Session.Verdict

namespace SteppedLogo

namespace Routine

variable {α β : Type} {env : Env} {u v w : World} {n m : Nat}

/-- In a turn, code comes to a result, and to a state, after a number of steps. -/
def Comes (env : Env) (r : Routine α) (w : World) (n : Nat) (a : α) (v : World) : Prop :=
  ∀ (j : JobId) (job : Job) (k : α → Routine (Except FaultId Value)),
    ({ world := w, activity := .turn ⟨j, job, r.bind k⟩ } : Scene).after env n =
      { world := v, activity := .turn ⟨j, job, k a⟩ }

theorem Comes.done (a : α) (w : World) : (Routine.done a).Comes env w 0 a w := fun _ _ _ => rfl

/-- A routine comes to its end by one more operation. -/
theorem Comes.op {o : Op} {k : o.Reply → Routine α} {reply : o.Reply} {a : α} (hop : w.perform env o = (reply, u))
    (h : (k reply).Comes env u n a v) : (Routine.op o k).Comes env w (n + 1) a v := by
  intro j job f
  refine Eq.trans ?_ (h j job f)
  simp only [Scene.after, Scene.next?, Routine.bind, Turn.advance, hop, Option.getD_some]

/-- A fault that is known is described as what it is. -/
theorem Comes.describe {id : FaultId} {f : Fault} {k : Fault → Routine α} {a : α} (hget : w.faults.get? id = some f)
    (h : (k f).Comes env w n a v) : (Routine.op (.describe id) k).Comes env w (n + 1) a v := by
  refine .op (u := w) ?_ h
  rw [← Option.getD_some (a := f) (b := { kind := .general }), ← hget]
  rfl

/-- A routine comes to its end and goes on with what follows to the end of that. -/
theorem Comes.bind {r : Routine α} {f : α → Routine β} {a : α} {b : β} (h : r.Comes env w n a u)
    (hf : (f a).Comes env u m b v) : (r.bind f).Comes env w (n + m) b v := by
  intro j job k
  rw [bind_assoc, Scene.after_add, h, hf]

end Routine

namespace World

variable {env : Env} {u v w : World} {r : RunId} {exit : Exit} {lines more : List (String × String)}

/-- Lines are printed, and nothing happens to the runs. -/
structure Says (w v : World) (lines : List (String × String)) : Prop where
  lines : v.output.lines = w.output.lines ++ lines
  accepts : v.output.accepts = w.output.accepts
  session : v.session = w.session
  faults : w.faults.Keeps v.faults

theorem Says.refl (w : World) : w.Says w [] := ⟨by simp, rfl, rfl, .refl _⟩

theorem Says.trans (huv : u.Says v lines) (hvw : v.Says w more) : u.Says w (lines ++ more) :=
  ⟨by rw [hvw.lines, huv.lines, List.append_assoc], hvw.accepts.trans huv.accepts, hvw.session.trans huv.session,
    huv.faults.trans hvw.faults⟩

/-- A note in the log says nothing to the user. -/
theorem says_log (w : World) (level : Level) (logger message : String) (fault : Option String) :
    w.Says (w.addLog level logger message fault) [] :=
  ⟨(Says.refl w).lines, rfl, rfl, .refl _⟩

theorem says_raise (w : World) (f : Fault) : w.Says (w.raise f).2 [] :=
  ⟨(Says.refl w).lines, rfl, rfl, Faults.keeps_add _ _⟩

/-- A line is accepted. -/
def printed (w : World) (category text : String) : World :=
  { w with output := { w.output with
      calls := w.output.calls + 1, records := w.output.records.push (.line category text) } }

/-- A printed text is what is said. -/
theorem says_printed (w : World) (category text : String) : w.Says (w.printed category text) [(category, text)] := by
  refine ⟨?_, rfl, rfl, .refl _⟩
  simp [printed, Output.lines, Record.lines]

/-- Printing while the sink accepts everything writes the text. -/
theorem perform_print (env : Env) (hsink : ∀ n, w.output.accepts n = true) (category text : String) :
    w.perform env (.print category text) = ((), w.printed category text) := by
  have hprints : w.perform env (.print category text) = ((), w.print category text) := rfl
  rw [hprints, print, hsink]
  rfl

/-- How the end of a run is reported: the status of the host, and the lines that it prints. -/
inductive Reports (w : World) (r : RunId) : Exit → List (String × String) → Prop
  | completed (hover : w.Over r .completed none) : Reports w r .ok []
  | stopped {c : FaultId} {f : Fault} (hover : w.Over r .failed (some c)) (hget : w.faults.get? c = some f)
    (hkind : f.kind = .cancellation) : Reports w r .canceled [("error", "canceled: " ++ f.reason.display)]
  | failed {e : FaultId} {f : Fault} (hover : w.Over r .failed (some e)) (hget : w.faults.get? e = some f)
    (hkind : f.kind ≠ .cancellation) : Reports w r .error [("error", f.message)]

/-- A run that is over stays so whatever is said. -/
theorem Says.over {status : Status} {error : Option FaultId} (h : w.Says v more) (hover : w.Over r status error) :
    v.Over r status error :=
  ⟨by rw [h.session]; exact hover.run⟩

/-- What was reported of a run stays reported whatever is said. -/
theorem Reports.kept (h : w.Reports r exit lines) (hsaid : w.Says v more) : v.Reports r exit lines := by
  cases h with
  | completed hover => exact .completed (hsaid.over hover)
  | stopped hover hget hkind =>
    obtain ⟨g, hg, hagrees⟩ := hsaid.faults _ _ hget
    rw [← hagrees.reason]
    exact .stopped (hsaid.over hover) hg (hagrees.kind.trans hkind)
  | failed hover hget hkind =>
    obtain ⟨g, hg, hagrees⟩ := hsaid.faults _ _ hget
    rw [← hagrees.message]
    exact .failed (hsaid.over hover) hg (hagrees.kind ▸ hkind)

/-- The status of a host says how a run has ended, and its lines tell the error of that run. -/
structure Matches (w : World) (r : RunId) (exit : Exit) (lines : List (String × String)) : Prop where
  ok : exit.code = 0 ↔ w.Over r .completed none
  canceled : exit.code = 130 ↔ ∃ c, w.Over r .failed (some c) ∧ w.faults.kindOf c = .cancellation
  error : exit.code = 1 ↔ ∃ e, w.Over r .failed (some e) ∧ w.faults.kindOf e ≠ .cancellation
  silent : exit.code = 0 → lines = []
  stopped : ∀ c, w.Over r .failed (some c) → exit.code = 130 →
    lines = [("error", "canceled: " ++ (w.faults.reasonOf c).display)]
  failed : ∀ e, w.Over r .failed (some e) → exit.code = 1 → lines = [("error", w.faults.messageOf e)]

/-- A run ends in one way. -/
theorem Over.unique {status status' : Status} {error error' : Option FaultId} (h : w.Over r status error)
    (h' : w.Over r status' error') : status' = status ∧ error' = error := by
  obtain ⟨run, hrun, rfl, rfl⟩ := h.run
  obtain ⟨same, hsame, rfl, rfl⟩ := h'.run
  rw [hrun] at hsame
  cases hsame
  exact ⟨rfl, rfl⟩

/-- A report matches its run. -/
theorem Reports.matches (h : w.Reports r exit lines) : w.Matches r exit lines := by
  cases h with
  | completed hover =>
    have hnot {c : FaultId} (hfailed : w.Over r .failed (some c)) : False := nomatch (hover.unique hfailed).1
    exact ⟨⟨fun _ => hover, fun _ => rfl⟩, ⟨nofun, fun ⟨_, hfailed, _⟩ => (hnot hfailed).elim⟩,
      ⟨nofun, fun ⟨_, hfailed, _⟩ => (hnot hfailed).elim⟩, fun _ => rfl, nofun, nofun⟩
  | @stopped c f hover hget hkind =>
    have hsame {e : FaultId} (hfailed : w.Over r .failed (some e)) : e = c := Option.some.inj (hover.unique hfailed).2
    have hstop : w.faults.kindOf c = .cancellation := (kindOf_of_get hget).trans hkind
    refine ⟨⟨nofun, fun hdone => nomatch (hover.unique hdone).1⟩, ⟨fun _ => ⟨c, hover, hstop⟩, fun _ => rfl⟩,
      ⟨nofun, fun ⟨e, hfailed, hplain⟩ => absurd (hsame hfailed ▸ hstop) hplain⟩, nofun, fun e hfailed _ => ?_,
      nofun⟩
    rw [hsame hfailed, Faults.reasonOf, hget]
    rfl
  | @failed e f hover hget hkind =>
    have hsame {c : FaultId} (hfailed : w.Over r .failed (some c)) : c = e := Option.some.inj (hover.unique hfailed).2
    have hplain : w.faults.kindOf e ≠ .cancellation := kindOf_of_get hget ▸ hkind
    refine ⟨⟨nofun, fun hdone => nomatch (hover.unique hdone).1⟩,
      ⟨nofun, fun ⟨c, hfailed, hstop⟩ => absurd (hsame hfailed ▸ hstop) hplain⟩,
      ⟨fun _ => ⟨e, hover, hplain⟩, fun _ => rfl⟩, nofun, nofun, fun c hfailed _ => ?_⟩
    rw [hsame hfailed, Faults.messageOf, hget]
    rfl

end World

namespace Host

variable {env : Env} {v w : World} {r : RunId} {task : FutureId} {id : FaultId} {received : Except FaultId Value}

/-- What is made of what comes of the task of a run. -/
def verdict : Except FaultId Value → Routine (Except FaultId Exit)
  | .ok _ => .done (.ok .ok)
  | .error id => report id

/-- The handler is removed, if there is one. -/
def leave (hooked : Bool) (exit : Except FaultId Exit) : Routine (Except FaultId Exit) :=
  if hooked then .op .unhookInterrupt fun _ => .done exit else .done exit

/-- A program whose start was accepted hooks interrupts, waits for the run and reports it. -/
theorem afterStart_ok (task : FutureId) : afterStart (.ok task) =
    hookInterrupt.bind fun hooked => .await (some task) fun received => (verdict received).bind (leave hooked) := by
  simp only [afterStart]
  congr 1
  funext hooked
  refine congrArg (Routine.await (some task)) (funext fun received => ?_)
  cases received <;> cases hooked <;> rfl

/-- The host leaves with its exit and says nothing more, whether it had hooked interrupts or not. -/
theorem comes_leave (env : Env) (hooked : Bool) (exit : Except FaultId Exit) (w : World) :
    ∃ n v, (leave hooked exit).Comes env w n exit v ∧ w.Says v [] := by
  cases hooked with
  | false => exact ⟨0, w, .done exit w, .refl w⟩
  | true => exact ⟨1, _, .op rfl (.done exit _), (World.Says.refl w).lines, rfl, rfl, .refl _⟩

/-- The handler is registered, or it is logged that none can be. -/
theorem comes_hookInterrupt (env : Env) (w : World) : ∃ hooked v,
    hookInterrupt.Comes env w (if env.signals then 1 else 3) hooked v ∧
    w.faults.Keeps v.faults ∧ v = { w with interrupt := v.interrupt, faults := v.faults, log := v.log } := by
  cases hsignals : env.signals with
  | true =>
    exact ⟨true, _, .op (Scene.perform_hookInterrupt hsignals _ w) (.done true _), .refl _, rfl⟩
  | false =>
    have hfails := Scene.perform_hookInterrupt_unsupported hsignals (.text stopReason) w
    exact ⟨false, _, .op hfails (.op rfl (.op rfl (.done false _))), Faults.keeps_add _ _, rfl⟩

/-- What comes of the task of a run is reported as the run has ended. -/
theorem comes_verdict (env : Env) (hsink : ∀ n, w.output.accepts n = true) (hanswers : Scene.Answers w task received)
    (haccords : ∀ o, w.outcome? task = some o → w.Accords r o) :
    ∃ n result v lines, (verdict received).Comes env w n result v ∧ w.Says v lines ∧
      ∀ exit, result = .ok exit → w.Reports r exit lines := by
  cases hanswers with
  | value hvalue =>
    cases haccords _ hvalue with
    | completed hover =>
      refine ⟨_, .ok .ok, w, [], .done _ w, .refl w, ?_⟩
      rintro exit ⟨⟩
      exact .completed hover
  | @cancelled id f hget hkind =>
    obtain ⟨kind, args, reason, inner, cause, context⟩ := f
    cases hkind
    refine ⟨_, .error id, w, [], .describe hget (.done _ w), .refl w, nofun⟩
  | @fault id hfault =>
    cases haccords _ hfault with
    | stopped hover hstop =>
      obtain ⟨⟨kind, args, reason, inner, cause, context⟩, hget, rfl⟩ := hstop
      have hprints := World.perform_print env hsink "error" ("canceled: " ++ reason.display)
      refine ⟨2, .ok .canceled, _, _, .describe hget (.op hprints (.done _ _)), World.says_printed w _ _, ?_⟩
      rintro exit ⟨⟩
      exact .stopped hover hget rfl
    | @failed _ e g f hover hget hkind hinner herror hplain =>
      obtain ⟨kind, args, reason, inner, cause, context⟩ := g
      cases hkind
      cases hinner
      have hlogged := World.says_log w .debug logger "program failed" (some (w.faults.summaryOf e))
      set logged := w.addLog .debug logger "program failed" (some (w.faults.summaryOf e))
      have haccepts : ∀ n, logged.output.accepts n = true := hsink
      have hprints := World.perform_print env haccepts "error" f.message
      refine ⟨4, .ok .error, _, _, .describe hget (.describe herror (.op rfl (.op hprints (.done _ _)))),
        hlogged.trans (World.says_printed ..), ?_⟩
      rintro exit ⟨⟩
      exact .failed hover herror hplain
    | @passes _ g hget hpasses =>
      obtain ⟨kind, args, reason, inner, cause, context⟩ := g
      refine ⟨1, .error id, w, [], .describe hget ?_, .refl w, nofun⟩
      cases kind with
      | taskCancelled | interrupt => exact .done _ w
      | _ => cases hpasses

/-- A host that has heard of the end of its run reports it, and removes its handler. -/
theorem comes_closing (hsink : ∀ n, w.output.accepts n = true) (hanswers : Scene.Answers w task received)
    (haccords : ∀ o, w.outcome? task = some o → w.Accords r o) (hooked : Bool) :
    ∃ n result v lines, ((verdict received).bind (leave hooked)).Comes env w n result v ∧ w.Says v lines ∧
      ∀ exit, result = .ok exit → v.Reports r exit lines := by
  obtain ⟨n, result, u, lines, hcomes, hsaid, hreports⟩ := comes_verdict env hsink hanswers haccords
  obtain ⟨m, v, hleaves, hleft⟩ := comes_leave env hooked result u
  have hboth := hsaid.trans hleft
  rw [List.append_nil] at hboth
  exact ⟨n + m, result, v, lines, hcomes.bind hleaves, hboth, fun exit hexit => (hreports exit hexit).kept hboth⟩

/-- A job is about to run a program. -/
def calling (w : World) (j : JobId) (job : Job) (source : String)
    (k : Except FaultId Exit → Routine (Except FaultId Value)) : Scene :=
  { world := w, activity := .turn ⟨j, job, (runProgram source).run.bind k⟩ }

/-- A call that is refused says so, and does nothing else. -/
theorem comes_refused (env : Env) (hsink : ∀ n, w.output.accepts n = true) (hactive : w.session.isActive = true)
    (source : String) :
    ∃ v, (runProgram source).run.Comes env w 4 (.ok .error) v ∧
      w.Says v [("input", source), ("error", (Fault.ofComplaint (World.stillActive w.session.run)).message)] ∧
      v = { w with faults := v.faults, output := v.output } := by
  have hinput := World.perform_print env hsink "input" source
  obtain ⟨-, hbusy⟩ | ⟨hinactive, -⟩ := World.start_cases (env.program source) source (w.printed "input" source)
  · set complaint := World.stillActive w.session.run
    set busy := ((w.printed "input" source).raise (.ofComplaint complaint)).2
    have haccepts : ∀ n, busy.output.accepts n = true := hsink
    have hrefused := (World.says_printed w "input" source).trans (World.says_raise _ (.ofComplaint complaint))
    exact ⟨_, .op hinput (.op hbusy (.describe (Faults.get?_add _ _)
      (.op (World.perform_print env haccepts ..) (.done _ _)))), hrefused.trans (World.says_printed busy ..), rfl⟩
  · exact absurd hactive (Bool.eq_false_iff.1 hinactive)

/-- A call that is not refused starts a run, and comes to wait for the task of it. -/
theorem after_started (env : Env) (hsink : ∀ n, w.output.accepts n = true) (hinactive : w.session.isActive = false)
    (source : String) (j : JobId) (job : Job) (k : Except FaultId Exit → Routine (Except FaultId Value)) :
    ∃ hooked task i number v, (calling w j job source k).after env (if env.signals then 3 else 5) =
        { world := v, activity :=
          .turn ⟨j, job, .await (some task) fun received => ((verdict received).bind (leave hooked)).bind k⟩ } ∧
      v.output.lines = w.output.lines ++ [("input", source)] ∧
      v.session.runs = w.session.runs.push { status := .running, number, source } ∧
      v.outcome? task = none ∧ v.Serves i task w.session.runs.size := by
  have hinput := World.perform_print env hsink "input" source
  obtain ⟨hactive, -⟩ | ⟨-, number, nextNumber, message, hstart⟩ :=
    World.start_cases (env.program source) source (w.printed "input" source)
  · exact absurd hactive (Bool.eq_false_iff.1 hinactive)
  dsimp only at hstart
  obtain ⟨hooked, v, hhooks, -, hv⟩ :=
    comes_hookInterrupt env ((w.printed "input" source).start (env.program source) source).2
  rw [hstart] at hhooks hv
  set task := w.futures.size
  set resume : Except FaultId Value → Routine (Except FaultId Value) := fun _ => (env.program source).run
  have hn := hhooks j job fun hooked => .await (some task) fun received => ((verdict received).bind (leave hooked)).bind k
  have hcount : (if env.signals then 3 else 5) = (if env.signals then 1 else 3) + 2 := by split <;> rfl
  have hafter : (calling w j job source k).after env (if env.signals then 3 else 5) =
      { world := v, activity :=
          .turn ⟨j, job, .await (some task) fun received => ((verdict received).bind (leave hooked)).bind k⟩ } := by
    have hstarts : (w.printed "input" source).perform env (.start source) =
        (w.printed "input" source).start (env.program source) source := rfl
    rw [← hn, calling, runProgram_eq, hcount]
    simp only [Scene.after, Scene.next?, Turn.advance, Routine.bind, hinput, hstarts, hstart, Option.getD_some,
      afterStart_ok, Routine.bind_assoc]
    rfl
  have hjob : v.jobs[w.jobs.size]? = some { future := task, resume, run := some w.session.runs.size } := by
    rw [hv]
    exact Array.getElem?_push_size
  have hopen : v.outcome? task = none := by
    have hpushed : (w.futures.push { job := some w.jobs.size })[w.futures.size]? = some { job := some w.jobs.size } :=
      Array.getElem?_push_size
    rw [hv]
    exact congrArg (·.bind Future.outcome) hpushed
  have hlines : v.output.lines = w.output.lines ++ [("input", source)] := by
    rw [hv]
    exact (World.says_printed w "input" source).lines
  refine ⟨hooked, task, w.jobs.size, number, v, hafter, hlines, by rw [hv]; rfl, hopen,
    ⟨_, hjob, rfl, rfl, fun _ _ => rfl⟩, ?_⟩
  intro o ho
  rw [hopen] at ho
  cases ho

end Host

namespace Scene

open World

variable {env : Env} {P : Op → Prop} {s t : Scene} {i j : JobId} {taken : Job} {task : FutureId} {r : RunId}
  {source : String}

/-- Anything may happen, except that a job has its turn. -/
def Meanwhile (env : Env) (P : Op → Prop) (j : JobId) : Scene → Scene → Prop :=
  Relation.ReflTransGen fun s t => Step env P s t ∧ s.Raises ∧ ¬ s.HasTurn j

/-- A job waits for the task of a run, or has been taken up with what has come of that. -/
structure Abides (s : Scene) (j : JobId) (task : FutureId) (i : JobId) (r : RunId)
    (k : Except FaultId Value → Routine (Except FaultId Value)) : Prop where
  intact : s.Intact
  serves : s.world.Serves i task r
  host : s.Parked j task k ∨
    ∃ taken received, s.activity = .turn ⟨j, taken, k received⟩ ∧ Answers s.world task received

/-- The job of the run goes on to serve it, and the host to wait for it. -/
theorem Meanwhile.abides {k : Except FaultId Value → Routine (Except FaultId Value)} (h : Meanwhile env P j s t)
    (hs : s.Abides j task i r k) : t.Abides j task i r k ∧ t.world.output.accepts = s.world.output.accepts := by
  induction h with
  | refl => exact ⟨hs, rfl⟩
  | tail _ hstep ih =>
    obtain ⟨hv, hsame⟩ := ih
    obtain ⟨hstep, hraises, hidle⟩ := hstep
    refine ⟨⟨(hstep.parts hv.intact).1, hstep.serves hv.intact hraises hv.serves, ?_⟩, hstep.accepts.trans hsame⟩
    obtain hparked | ⟨taken, received, hturn, -⟩ := hv.host
    · exact hstep.parked hv.intact hparked
    · exact absurd ⟨taken, _, hturn⟩ hidle

variable {w : World} {hooked : Bool} {k : Except FaultId Exit → Routine (Except FaultId Value)}

/-- A call that is not refused waits for the task of its run. -/
theorem abides_started (env : Env) (hs : (Host.calling w j taken source k).Intact)
    (hsink : ∀ n, w.output.accepts n = true) (hinactive : w.session.isActive = false) :
    ∃ t hooked task i number, (Host.calling w j taken source k).after env (if env.signals then 4 else 6) = t ∧
      ¬ t.HasTurn j ∧ t.world.output.lines = w.output.lines ++ [("input", source)] ∧
      t.world.output.accepts = w.output.accepts ∧
      t.world.session.runs = w.session.runs.push { status := .running, number, source } ∧
      t.Abides j task i w.session.runs.size fun received => ((Host.verdict received).bind (Host.leave hooked)).bind k := by
  obtain ⟨hooked, task, i, number, v, hafter, hlines, hruns, hopen, hserves⟩ :=
    Host.after_started env hsink hinactive source j taken k
  set goesOn := fun received => ((Host.verdict received).bind (Host.leave hooked)).bind k
  set u : Scene := { world := v, activity := .turn ⟨j, taken, .await (some task) goesOn⟩ }
  have hreached : Steps env (fun _ => True) _ u := hafter ▸ steps_after _ _
  have hu : u.Intact := (hreached.parts hs).1
  have hup : v.Up j taken := hu.turn _ rfl
  have hparks : u.next? env = some { world := v.putDown j taken (.parked task goesOn) } := by
    simp only [u, next?, Turn.advance, hopen]
  have hnext : Step env (fun _ => True) u { world := v.putDown j taken (.parked task goesOn) } := .next hparks
  have hparked := parked_putDown hu.sound hup task goesOn
  have hpark := (passes_putDown hu.sound hup (.parked task goesOn)).spares.alike
  have hsession := (alongside_park v j task goesOn).session
  refine ⟨_, hooked, task, i, number, ?_, hparked.idle, hpark.lines.trans hlines, ?_,
    (congrArg Session.runs hsession).trans hruns, (hnext.parts hu).1, hnext.serves hu ?_ hserves, .inl hparked⟩
  · have hcount : (if env.signals then 4 else 6) = (if env.signals then 3 else 5) + 1 := by split <;> rfl
    rw [hcount, after_add, hafter]
    simp only [after, hparks, Option.getD_some]
    rfl
  · exact hnext.accepts.trans hreached.accepts
  · intro _ _ _ hdone
    cases hdone

/-- A host that comes back reports how the run has ended. -/
theorem Abides.returns {now : Job} {rest : Routine (Except FaultId Value)}
    (hs : s.Abides j task i r fun received => ((Host.verdict received).bind (Host.leave hooked)).bind k)
    (hsink : ∀ n, s.world.output.accepts n = true) (hturn : s.activity = .turn ⟨j, now, rest⟩) :
    ∃ m result lines, (s.after env m).activity = .turn ⟨j, now, k result⟩ ∧
      (s.after env m).world.output.lines = s.world.output.lines ++ lines ∧
      ∀ exit, result = .ok exit → (s.after env m).world.Matches r exit lines := by
  obtain hparked | ⟨taken, received, htaken, hanswers⟩ := hs.host
  · exact absurd ⟨now, rest, hturn⟩ hparked.idle
  obtain ⟨w, activity⟩ := s
  cases hturn
  cases htaken
  obtain ⟨m, result, v, lines, hcomes, hsaid, hreports⟩ := Host.comes_closing hsink hanswers hs.serves.accords hooked
  have hm := hcomes j now k
  refine ⟨m, result, lines, ?_, ?_, fun exit hexit => ?_⟩
  · rw [hm]
  · rw [hm]
    exact hsaid.lines
  · rw [hm]
    exact (hreports exit hexit).matches

/-- `Host.runProgram`, from a reachable scene in which a job is about to perform it and the sink accepts every line. It
prints the source as input. While a run is active it prints the `stillActive` fault of `start`, returns the exit `error`
and changes nothing else. Otherwise it starts a run and waits; whatever happens `Meanwhile`, an exit that it returns
`Matches` the end of that run: code and lines are those of its status and error. -/
theorem report_matches_run (hs : Reachable env P s) (hsink : ∀ n, s.world.output.accepts n = true)
    (hturn : s.activity = .turn ⟨j, taken, (Host.runProgram source).run.bind k⟩) :
    (s.after env 1).world.output.lines = s.world.output.lines ++ [("input", source)] ∧
    (s.world.session.isActive = true → ∃ faults output,
      s.after env 4 = { world := { s.world with faults, output }, activity := .turn ⟨j, taken, k (.ok .error)⟩ } ∧
      s.world.faults.Keeps faults ∧ output.lines = s.world.output.lines ++
        [("input", source), ("error", (Fault.ofComplaint (stillActive s.world.session.run)).message)]) ∧
    (s.world.session.isActive = false → ∃ t number, s.after env (if env.signals then 4 else 6) = t ∧ ¬ t.HasTurn j ∧
      t.world.output.lines = s.world.output.lines ++ [("input", source)] ∧
      t.world.session.runs = s.world.session.runs.push { status := .running, number, source } ∧
      ∀ u now rest, Meanwhile env P j t u → u.activity = .turn ⟨j, now, rest⟩ →
        ∃ m result lines, (u.after env m).activity = .turn ⟨j, now, k result⟩ ∧
          (u.after env m).world.output.lines = u.world.output.lines ++ lines ∧
          ∀ exit, result = .ok exit → (u.after env m).world.Matches s.world.session.runs.size exit lines) := by
  obtain ⟨w, activity⟩ := s
  cases hturn
  refine ⟨?_, fun hactive => ?_, fun hinactive => ?_⟩
  · have hprinted : (w.perform env (.print "input" source)).2 = w.printed "input" source :=
      congrArg Prod.snd (perform_print env hsink "input" source)
    exact (congrArg (·.output.lines) hprinted).trans (says_printed w "input" source).lines
  · obtain ⟨v, hcomes, hsaid, hv⟩ := Host.comes_refused env hsink hactive source
    have hn := hcomes j taken k
    exact ⟨v.faults, v.output, hv ▸ hn, hsaid.faults, hsaid.lines⟩
  · obtain ⟨t, hooked, task, i, number, hafter, hidle, hlines, haccepts, hruns, habides⟩ :=
      abides_started env hs.parts.1 hsink hinactive
    refine ⟨t, number, hafter, hidle, hlines, hruns, fun u now rest hmeanwhile hturn => ?_⟩
    obtain ⟨hu, hsame⟩ := hmeanwhile.abides habides
    exact hu.returns (fun n => (congrFun (hsame.trans haccepts) n).trans (hsink n)) hturn

/-- Another job has its turn, if any has, and it does not end with what nobody has raised. -/
def keepsOut (j : JobId) (s : Scene) : Bool :=
  match s.activity with
  | .none | .deed _ => true
  | .turn ⟨id, _, rest⟩ => id != j && match rest with
    | .done (.error e) => (s.world.faults.get? e).isSome
    | _ => true

/-- A turn that keeps a job out is no turn of that job, and lets no interrupt out. -/
theorem raises_of_keepsOut (h : s.keepsOut j = true) : s.Raises ∧ ¬ s.HasTurn j := by
  obtain ⟨w, activity⟩ := s
  refine ⟨?_, ?_⟩
  · rintro id job e ⟨⟩
    rw [keepsOut, Bool.and_eq_true] at h
    exact Option.isSome_iff_exists.1 h.2
  · rintro ⟨taken, rest, ⟨⟩⟩
    rw [keepsOut, Bool.and_eq_true, bne_self_eq_false] at h
    exact absurd h.1 Bool.false_ne_true

/-- Any number of turns that keep a job out are what goes on meanwhile. -/
theorem meanwhile_after (n : Nat) (h : ∀ m < n, (s.after env m).keepsOut j = true) :
    Meanwhile env P j s (s.after env n) := by
  induction n with
  | zero => exact .refl
  | succ n ih =>
    have hbefore := ih fun m hm => h m (by omega)
    rw [after_add]
    cases hnext : (s.after env n).next? env with
    | none =>
      have hsame : (s.after env n).after env 1 = s.after env n := by simp only [after, hnext, Option.getD_none]
      rwa [hsame]
    | some t =>
      have hsame : (s.after env n).after env 1 = t := by simp only [after, hnext, Option.getD_some]
      rw [hsame]
      exact hbefore.tail ⟨.next hnext, raises_of_keepsOut (h n (Nat.lt_add_one n))⟩

/-- A host is about to run a program of one word. -/
def hostCalls : Scene := ({ world := (({} : World).addJob (Launch.runProgram "pd")).2 } : Scene).after turtleEnv 1

/-- The program is at its call boundary, and the host waits for it. -/
def callPending : Scene := (hostCalls.after turtleEnv 4).after turtleEnv 4

/-- The user has interrupted it there. -/
def callInterrupted : Scene := { world := (callPending.world.perform turtleEnv .interrupt).2 }

/-- The host has come back. -/
def hostReturns : Scene := callInterrupted.after turtleEnv 4

/-- What the turn of a job ends with, where nothing is left of it. -/
def result? (s : Scene) : Option (Except FaultId Value) :=
  match s.activity with
  | .turn ⟨_, _, .done result⟩ => some result
  | _ => none

set_option maxRecDepth 1024 in
/-- It ends once, with the status of a run that was stopped. -/
theorem hostReturns_of_result {m : Nat} {result : Except FaultId Value}
    (hresult : (hostReturns.after turtleEnv m).result? = some result) : m = 3 ∧ result = .ok (.int 130) := by
  have hover : (hostReturns.after turtleEnv 4).next? turtleEnv = none := Option.isNone_iff_eq_none.1 (by decide +kernel)
  have hnone : ∀ i < 5, i ≠ 3 → (hostReturns.after turtleEnv i).result?.isNone = true := by decide +kernel
  have hthree : (hostReturns.after turtleEnv 3).result? = some (.ok (.int 130)) := rfl
  by_cases hm : m = 3
  · subst hm
    rw [hthree] at hresult
    exact ⟨rfl, (Option.some.inj hresult).symm⟩
  · obtain ⟨i, hlt, hi, hsame⟩ :
        ∃ i < 5, i ≠ 3 ∧ hostReturns.after turtleEnv m = hostReturns.after turtleEnv i := by
      obtain hlt | hge := Nat.lt_or_ge m 4
      · exact ⟨m, by omega, hm, rfl⟩
      · obtain ⟨n, rfl⟩ := Nat.exists_eq_add_of_le hge
        exact ⟨4, by omega, by omega, by rw [after_add, after_of_next?_eq_none hover]⟩
    have hnothing := hnone i hlt hi
    rw [← hsame, hresult] at hnothing
    cases hnothing

set_option maxRecDepth 1024 in
/-- The run that the host started was stopped, and the exit that `runProgram` returns is that of a canceled run. -/
theorem hostReturns_canceled : Meanwhile turtleEnv (fun _ => True) 0 (hostCalls.after turtleEnv 4) hostReturns ∧
    (hostReturns.after turtleEnv 3).result? = some (.ok (.int 130)) ∧
    ∃ c, (hostReturns.after turtleEnv 3).world.Over 1 .failed (some c) ∧
      (hostReturns.after turtleEnv 3).world.output.lines = hostReturns.world.output.lines ++
        [("error", "canceled: " ++ ((hostReturns.after turtleEnv 3).world.faults.reasonOf c).display)] := by
  have hreach : Reachable turtleEnv (fun _ => True) hostCalls :=
    ⟨{}, World.fresh_empty, .head (.spawn _ (Routine.all_true _)) (steps_after 1 _)⟩
  obtain ⟨taken, k, hturn, hok, herror⟩ : ∃ (taken : Job) (k : Except FaultId Exit → Routine (Except FaultId Value)),
      hostCalls.activity = .turn ⟨0, taken, (Host.runProgram "pd").run.bind k⟩ ∧
      (∀ exit : Exit, k (.ok exit) = .done (.ok (.int exit.code))) ∧ ∀ e, k (.error e) = .done (.error e) :=
    ⟨_, _, rfl, fun _ => rfl, fun _ => rfl⟩
  have hfirst : Meanwhile turtleEnv (fun _ => True) 0 (hostCalls.after turtleEnv 4) callPending :=
    meanwhile_after 4 (by decide +kernel)
  have hidle : callPending = { world := callPending.world } := rfl
  have hasks : Step turtleEnv (fun _ => True) callPending callInterrupted := by
    rw [hidle]
    exact .perform _ trivial
  have hlast : Meanwhile turtleEnv (fun _ => True) 0 callInterrupted hostReturns := meanwhile_after 4 (by decide +kernel)
  have hmeanwhile := (hfirst.tail ⟨hasks, raises_of_keepsOut (by decide +kernel)⟩).trans hlast
  obtain ⟨-, -, hruns⟩ := report_matches_run hreach (fun _ => rfl) hturn
  obtain ⟨t, number, rfl, -, -, -, hreturns⟩ := hruns rfl
  obtain ⟨now, rest, hback⟩ : ∃ now rest, hostReturns.activity = .turn ⟨0, now, rest⟩ := ⟨_, _, rfl⟩
  obtain ⟨m, result, lines, hactivity, hlines, hmatches⟩ := hreturns hostReturns now rest hmeanwhile hback
  cases result with
  | error e =>
    rw [herror] at hactivity
    have hresult : (hostReturns.after turtleEnv m).result? = some (.error e) := by rw [result?, hactivity]
    cases (hostReturns_of_result hresult).2
  | ok exit =>
    rw [hok] at hactivity
    have hresult : (hostReturns.after turtleEnv m).result? = some (.ok (.int exit.code)) := by rw [result?, hactivity]
    obtain ⟨rfl, hcode⟩ := hostReturns_of_result hresult
    have hexit : exit.code = 130 := by
      cases exit with
      | canceled => rfl
      | ok | error => cases hcode
    obtain ⟨c, hover, -⟩ := (hmatches exit rfl).canceled.1 hexit
    refine ⟨hmeanwhile, hresult.trans (by rw [hcode]), c, hover, ?_⟩
    rw [hlines, (hmatches exit rfl).stopped c hover hexit]

end Scene

end SteppedLogo
