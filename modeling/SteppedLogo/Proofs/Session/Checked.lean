import SteppedLogo.Proofs.Program.Hosted
import SteppedLogo.Proofs.Program.Wrapping
import SteppedLogo.Proofs.World.Pace

namespace SteppedLogo

/-- Deeds that do not set the interval past the check. -/
def Deed.IsChecked : Deed → Prop
  | setInterval _ => False
  | _ => True

/-- Operations that do not set the interval past the check, neither at once nor by what they defer. -/
def Op.IsChecked : Op → Prop
  | setInterval _ => False
  | defer _ d => d.IsChecked
  | _ => True

/-- Programs and listeners have each interval that they set checked. -/
structure Env.SetsChecked (env : Env) : Prop where
  react : ∀ name event, (env.react name event).run.All Op.IsChecked
  program : ∀ source, (env.program source).run.All Op.IsChecked

/-- The code of a deed sets the interval only as the deed does. -/
theorem Deed.IsChecked.code {d : Deed} (h : d.IsChecked) : d.code.run.All Op.IsChecked := by
  refine d.code_performs.imp fun o ho => ?_
  cases o with
  | setInterval =>
    cases ho
    cases h
  | defer => cases ho
  | _ => trivial

/-- A program of words does not set the interval. -/
theorem Words.execute_checked (words : Words) (source : String) : (execute words source).run.All Op.IsChecked := by
  apply all_execute <;> intros <;> trivial

/-- A program of words does not set the interval, whether its errors are raised again or not. -/
theorem Words.interpret_checked (wrapping : Bool) (words : Words) (source : String) :
    (interpret wrapping words source).run.All Op.IsChecked := by
  rw [run_interpret]
  refine (execute_checked words source).bind fun result => ?_
  apply all_closing <;> intros <;> trivial

/-- The programs of either interpreter do not set the interval. -/
theorem Interpreter.program_checked (i : Interpreter) (source : String) : (i.program source).run.All Op.IsChecked := by
  unfold program
  split
  · exact Words.interpret_checked true _ source
  · exact Words.execute_checked _ source

/-- Operations with which a program is run for a user. -/
def Op.IsHosts : Op → Prop
  | start _ | describe _ | print .. | log .. | hookInterrupt _ | unhookInterrupt => True
  | _ => False

/-- Operations with which a program is run for a user do not set the interval. -/
theorem Op.IsHosts.checked {o : Op} (h : o.IsHosts) : o.IsChecked := by
  cases o with
  | setInterval | defer => cases h
  | _ => trivial

namespace Host

/-- Running a program for a user comes down to the operations of a host, whatever its source is. -/
theorem runProgram_hosts (source : String) : (runProgram source).run.All Op.IsHosts := by
  refine ⟨trivial, fun _ => ⟨trivial, fun reply => ?_⟩⟩
  cases reply with
  | error id => exact ⟨trivial, fun _ => ⟨trivial, fun _ => trivial⟩⟩
  | ok future =>
    have hhooks : hookInterrupt.All Op.IsHosts :=
      Routine.all_hookInterrupt (fun _ => trivial) (fun _ => trivial) fun _ _ _ _ => trivial
    refine hhooks.bind fun hooked received => ?_
    have hleaves (exit : Except FaultId Exit) : Routine.All Op.IsHosts (do
        if hooked then Routine.perform .unhookInterrupt
        return exit) := by
      cases hooked with
      | true => exact ⟨trivial, fun _ => trivial⟩
      | false => trivial
    cases received with
    | ok => exact hleaves _
    | error id =>
      have hreport : (report id).All Op.IsHosts :=
        Routine.all_report (fun _ => trivial) (fun _ _ => trivial) (fun _ _ _ _ => trivial) id
      exact hreport.bind hleaves

end Host

namespace Prompt

open Work (all_bind)

theorem complainOf_checked (text : String) : (complainOf text).run.All Op.IsChecked := ⟨trivial, fun _ => trivial⟩

theorem writeText_checked (text : String) : (writeText text).run.All Op.IsChecked := ⟨trivial, fun _ => trivial⟩

theorem showTurtle_checked : showTurtle.run.All Op.IsChecked := by
  refine all_bind ⟨trivial, fun _ => trivial⟩ fun t => ?_
  split
  · exact writeText_checked _
  · exact all_bind ⟨trivial, fun _ => trivial⟩ fun _ => trivial

/-- Turning tracing on or off at the prompt does not set the interval. -/
theorem setTrace_checked (on : Bool) : (setTrace on).run.All Op.IsChecked := by
  cases on with
  | true => exact ⟨trivial, fun _ => ⟨trivial, fun _ => trivial⟩⟩
  | false => exact ⟨trivial, fun _ => ⟨trivial, fun _ => ⟨trivial, fun _ => trivial⟩⟩⟩

/-- The prompt sets the interval of the session, and not that of the gate. -/
theorem setInterval_checked (text : String) : (setInterval text).run.All Op.IsChecked := by
  unfold setInterval
  split
  · exact complainOf_checked _
  · refine all_bind ⟨trivial, fun _ => trivial⟩ fun accepted => ?_
    cases accepted with
    | ok => exact all_bind ⟨trivial, fun _ => trivial⟩ fun _ => writeText_checked _
    | error id => exact all_bind ⟨trivial, fun _ => trivial⟩ fun _ => complainOf_checked _

/-- A command of the host sets the interval only where it is checked. -/
theorem runCommand_checked (c : HostCommand) (args : List String) : (runCommand c args).run.All Op.IsChecked := by
  unfold runCommand
  split
  · exact ⟨trivial, fun _ => ⟨trivial, fun _ => ⟨trivial, fun _ => trivial⟩⟩⟩
  · exact all_bind showTurtle_checked fun _ => trivial
  · exact all_bind (setTrace_checked true) fun _ => trivial
  · exact all_bind (setTrace_checked false) fun _ => trivial
  · exact all_bind (complainOf_checked _) fun _ => trivial
  · exact all_bind (setInterval_checked _) fun _ => trivial
  · exact all_bind (complainOf_checked _) fun _ => trivial
  · trivial

/-- An entry of the prompt sets the interval only where it is checked, be it a command or a program. -/
theorem dispatch_checked (entry : String) : (dispatch hostRunner entry).run.All Op.IsChecked := by
  unfold dispatch
  dsimp only
  generalize Text.strip entry = text
  split
  · trivial
  · split
    · unfold dispatchCommand
      split
      · exact all_bind (complainOf_checked _) fun _ => trivial
      · split
        · exact runCommand_checked _ _
        · exact all_bind (complainOf_checked _) fun _ => trivial
    · have hrun := (Host.runProgram_hosts text).imp fun _ h => h.checked
      exact all_bind (all_bind hrun fun _ => trivial) fun _ => ⟨trivial, fun _ => trivial⟩

/-- A turn of the prompt sets the interval only where it is checked, whatever the user types. -/
theorem turn_checked (waiting : List String) (keys : Keys) : (turn hostRunner waiting keys).run.All Op.IsChecked := by
  cases keys with
  | interrupt | endOfInput => exact all_bind (writeText_checked _) fun _ => trivial
  | line line =>
    rw [turn]
    obtain ⟨goesOn, parts⟩ := addLine waiting line
    cases goesOn with
    | true => trivial
    | false =>
      have hdispatch := dispatch_checked
      simp only [Bool.false_eq_true, if_false]
      -- what an entry does would be worked out wherever it meets the goal
      generalize dispatch hostRunner = answer at hdispatch ⊢
      refine all_bind (hdispatch _) fun goesOn => ?_
      cases goesOn <;> trivial

/-- The prompt sets the interval only where it is checked, whatever the user types from then on. -/
theorem runFrom_checked (waiting : List String) (keys : List Keys) :
    (runFrom hostRunner waiting keys).run.All Op.IsChecked := by
  induction keys generalizing waiting with
  | nil =>
    refine all_bind ⟨trivial, fun _ => trivial⟩ fun _ => ?_
    exact all_bind (turn_checked waiting .endOfInput) fun _ => trivial
  | cons key keys ih =>
    refine all_bind ⟨trivial, fun _ => trivial⟩ fun _ => ?_
    refine all_bind (turn_checked waiting key) fun next => ?_
    cases next with
    | none => trivial
    | some waiting => exact ih waiting

end Prompt

/-- What a launch runs as its prompt sets the interval only where it is checked. -/
theorem Launch.runPrompt_checked (keys : List Prompt.Keys) : (runPrompt keys).run.All Op.IsChecked :=
  Work.all_bind (Prompt.runFrom_checked [] keys) fun _ => trivial

/-- The program of a command line does not set the interval. -/
theorem Launch.runProgram_checked (source : String) : (runProgram source).run.All Op.IsChecked :=
  Work.all_bind ((Host.runProgram_hosts source).imp fun _ h => h.checked) fun _ => trivial

namespace World

variable {env : Env} {v w : World}

/-- Neither the interval nor a deed that is to be done is past the check, and no job sets it so. -/
structure Guarded (w : World) : Prop where
  interval : ¬ w.gate.interval < 0.0
  deed : ∀ d, w.Defers d → d.IsChecked
  job : ∀ (j : JobId) (job : Job), w.jobs[j]? = some job → ∀ received, (job.resume received).All Op.IsChecked

/-- A state stays guarded as long as the interval stays, no deed is deferred, and new jobs run programs only. -/
theorem Guarded.keepsPace (hw : w.Guarded) (henv : env.SetsChecked) (h : KeepsPace env w v) : v.Guarded where
  interval := h.interval ▸ hw.interval
  deed d hd := hw.deed d (h.deed d hd)
  job j job hj received := by
    obtain ⟨old, hold, hresume⟩ | ⟨source, hresume⟩ := h.job j job hj <;> rw [hresume]
    · exact hw.job j old hold received
    · exact henv.program source

/-- A checked deed may be queued. -/
theorem Guarded.defer (hw : w.Guarded) {d : Deed} (hd : d.IsChecked) : (w.soon (.deed d)).Guarded where
  interval := hw.interval
  deed d' := by
    rintro (hqueued | hd')
    · obtain hqueued | heq := Loop.queued_soon.1 hqueued
      · exact hw.deed d' (.inl hqueued)
      · cases heq
        exact hd
    · exact hw.deed d' (.inr hd')
  job := hw.job

theorem Guarded.deferLater (hw : w.Guarded) (delay : Float) {d : Deed} (hd : d.IsChecked) :
    (w.later delay (.deed d)).2.Guarded where
  interval := hw.interval
  deed d' := by
    rintro (hqueued | hd')
    · obtain hqueued | heq := Loop.queued_later.1 hqueued
      · exact hw.deed d' (.inl hqueued)
      · cases heq
        exact hd
    · exact hw.deed d' (.inr hd')
  job := hw.job

/-- A job may be changed that goes on with checked operations. -/
theorem Guarded.modifyJob (hw : w.Guarded) (id : JobId) {change : Job → Job}
    (hchange : ∀ job : Job, (∀ received, (job.resume received).All Op.IsChecked) →
      ∀ received, ((change job).resume received).All Op.IsChecked) : (w.modifyJob id change).Guarded where
  interval := hw.interval
  deed := hw.deed
  job j job hj := by
    rw [modifyJob_get] at hj
    split at hj
    · obtain ⟨old, hold, rfl⟩ := Option.map_eq_some_iff.1 hj
      exact hchange old (hw.job j old hold)
    · exact hw.job j job hj

/-- A job may be added whose operations are checked. -/
theorem Guarded.addJob (hw : w.Guarded) {code : Work Value} (hcode : code.run.All Op.IsChecked) (run : Option RunId) :
    (w.addJob code run).2.Guarded where
  interval := hw.interval
  deed d hd := hw.deed d (defers_addJob hd)
  job j job hj received := by
    obtain hj | ⟨-, rfl⟩ := getElem?_push_eq_some.1 hj
    · exact hw.job j job hj received
    · exact hcode

/-- The interval may be set to what is not negative. -/
theorem Guarded.setInterval (hw : w.Guarded) {seconds : Float} (h : ¬ seconds < 0.0) :
    (w.setInterval seconds).Guarded :=
  ⟨h, hw.deed, hw.job⟩

variable {notify : Notify}

/-- A step may be announced to listeners that leave a state guarded. -/
theorem Guarded.announceStep (hw : w.Guarded) (henv : env.SetsChecked)
    (hnotify : ∀ event u, u.Guarded → (notify event u).2.Guarded) (call : Call) :
    (w.announceStep notify call).2.Guarded := by
  unfold World.announceStep
  split
  · exact hw.keepsPace henv ((aside_complain w _).keepsPace rfl)
  · have hcounted : (w.modifyGate fun g => { g with seq := g.seq + 1 }).Guarded :=
      hw.keepsPace henv (keepsPace_modifyGate w rfl)
    have hshown := hcounted.keepsPace henv (keepsPace_showCall _ call)
    dsimp only
    split
    · exact hshown.keepsPace henv ((aside_complain _ _).keepsPace rfl)
    · exact hnotify _ _ hshown

/-- A checked operation leaves a state guarded if listeners do. -/
theorem Guarded.performWith (hw : w.Guarded) (henv : env.SetsChecked)
    (hnotify : ∀ event u, u.Guarded → (notify event u).2.Guarded) {o : Op} (ho : o.IsChecked) :
    (performWith env notify o w).2.Guarded := by
  by_cases hleaves : o.LeavesPace
  · exact hw.keepsPace henv (performWith_keepsPace notify hleaves w)
  cases o with
  | hook call =>
    change (w.hook notify call).2.Guarded
    obtain ⟨shown, ⟨fault, u, hcall, heq⟩ | ⟨u, hcall, heq⟩⟩ := hook_cases notify call w <;>
      have hu := hw.announceStep henv hnotify shown <;> rw [hcall] at hu <;> rw [heq]
    · exact hu
    · exact hu.keepsPace henv (keepsPace_installFor u _)
  | step call =>
    change (w.takeStep notify call).2.Guarded
    obtain ⟨fault, u, hcall, heq⟩ | ⟨u, hcall, heq⟩ := takeStep_cases notify call w <;>
      have hu := hw.announceStep henv hnotify call <;> rw [hcall] at hu <;> rw [heq]
    · exact hu
    · exact hu.keepsPace henv (keepsPace_installStep u)
  | setInterval seconds => cases ho
  | setPacing seconds =>
    change (w.setPacing seconds).2.Guarded
    unfold setPacing
    split
    case isTrue => exact hw.keepsPace henv ((aside_complain w _).keepsPace rfl)
    case isFalse hpositive => exact hw.setInterval hpositive
  | defer delay deed =>
    cases delay with
    | none => exact hw.defer ho
    | some delay => exact hw.deferLater delay ho
  | _ => exact absurd trivial hleaves

theorem Guarded.notifyNone (hw : w.Guarded) (henv : env.SetsChecked) (event : StepEvent) :
    (notifyNone event w).2.Guarded :=
  tellEach_keeps (I := Guarded) (fun _ _ hu => hu.keepsPace henv ((aside_complain _ tooDeep).keepsPace rfl))
    (fun _ _ _ _ _ hu => hu.keepsPace henv ((aside_addLog ..).keepsPace rfl)) _ hw

/-- A checked operation leaves a state guarded at every depth of nesting. -/
theorem Guarded.performWithin (hw : w.Guarded) (henv : env.SetsChecked) (depth : Nat) {o : Op} (ho : o.IsChecked) :
    (performWithin env depth o w).2.Guarded := by
  induction depth generalizing o w with
  | zero => exact hw.performWith henv (fun event u hu => hu.notifyNone henv event) ho
  | succ depth ih =>
    refine hw.performWith henv (fun event u hu => ?_) ho
    exact notifyWith_keeps (I := Guarded) (fun o ho v hv => ih hv ho)
      (fun v _ _ _ _ hv => hv.keepsPace henv ((aside_addLog ..).keepsPace rfl)) (fun name => henv.react name event) hu

/-- A checked operation leaves a state guarded. -/
theorem Guarded.perform (hw : w.Guarded) (henv : env.SetsChecked) {o : Op} (ho : o.IsChecked) :
    (w.perform env o).2.Guarded := hw.performWithin henv nesting ho

/-- A job is left to go on with what it has said. -/
theorem Guarded.putDown (hw : w.Guarded) (henv : env.SetsChecked) (id : JobId) (job : Job)
    (stop : Stop (Except FaultId Value)) (hstop : match stop with
      | .finished _ => True
      | .parked _ k | .paused k => ∀ received, (k received).All Op.IsChecked) : (w.putDown id job stop).Guarded := by
  cases stop with
  | finished result =>
    exact hw.keepsPace henv ((keepsPace_endRun w job.run result).trans (keepsPace_endJob _ id job.future _))
  | paused k =>
    have hset : (w.modifyJob id ({ · with resume := k })).Guarded := hw.modifyJob id fun _ _ => hstop
    exact hset.keepsPace henv (keepsPace_soon _ nofun)
  | parked future k =>
    have hset : (w.modifyJob id ({ · with resume := k, waiting := some future })).Guarded :=
      hw.modifyJob id fun _ _ => hstop
    have hwaits := hset.keepsPace henv (keepsPace_whenDone _ future (c := .wake id) nofun)
    have hcancel := hwaits.keepsPace henv (keepsPace_cancelFuture _ future)
    change (w.park id future k).Guarded
    unfold park
    dsimp only
    split
    · split
      · exact hcancel.keepsPace henv (keepsPace_modifyJob _ id fun _ => rfl)
      · exact hcancel
    · exact hwaits

end World

namespace Scene

open World

variable {env : Env} {s t : Scene} {w : World} {id : JobId}

/-- What is under way sets no interval past the check, and nothing will. -/
structure Guarded (s : Scene) : Prop where
  world : s.world.Guarded
  rest : ∀ t, s.activity = .turn t → t.rest.All Op.IsChecked
  deed : ∀ c, s.activity = .deed c → c.All Op.IsChecked

theorem guarded_of_world (h : w.Guarded) : ({ world := w } : Scene).Guarded :=
  ⟨h, fun _ h => (by cases h), fun _ h => by cases h⟩

theorem guarded_turn {turn : Turn} (h : w.Guarded) (hrest : turn.rest.All Op.IsChecked) :
    ({ world := w, activity := .turn turn } : Scene).Guarded :=
  ⟨h, fun _ ht => (by cases ht; exact hrest), fun _ h => by cases h⟩

theorem guarded_deed {c : Code (Except FaultId Unit)} (h : w.Guarded) (hc : c.All Op.IsChecked) :
    ({ world := w, activity := .deed c } : Scene).Guarded :=
  ⟨h, fun _ h => (by cases h), fun _ h => by cases h; exact hc⟩

/-- A job may be taken up. -/
theorem guarded_resumed (hw : w.Guarded) (henv : env.SetsChecked) (received : Except FaultId Value) :
    (resumed w id received).Guarded := by
  obtain heq | ⟨job, hjob, -, ⟨-, heq⟩ | ⟨-, heq⟩⟩ := resumed_cases w id received <;> rw [heq]
  · exact guarded_of_world hw
  · have htaken := hw.keepsPace henv (keepsPace_takeUp w id job received)
    exact guarded_of_world (htaken.keepsPace henv (keepsPace_endJob _ id job.future _))
  · exact guarded_turn (hw.keepsPace henv (keepsPace_takeUp w id job received)) (hw.job id job hjob _)

/-- A callback may be called that is taken from the queue. -/
theorem guarded_called {c : Callback} {l : Loop Callback} (hw : w.Guarded) (henv : env.SetsChecked)
    (hnext : w.loop.next? = some (some c, l)) : (called env { w with loop := l } c).Guarded := by
  obtain ⟨hless, hcalled⟩ := Loop.Queued.of_next? hnext
  have htaken : World.Guarded { w with loop := l } := hw.keepsPace henv (keepsPace_loop fun d hd => hless _ hd)
  cases c with
  | run id => exact guarded_resumed htaken henv _
  | wake id =>
    simp only [called]
    split
    · exact guarded_of_world htaken
    · exact guarded_resumed (htaken.keepsPace henv (keepsPace_receive _ _)) henv _
  | elapse i => exact guarded_of_world (htaken.keepsPace henv (keepsPace_elapse _ i))
  | retract i => exact guarded_of_world (htaken.keepsPace henv (keepsPace_retract _ i))
  | rouse future => exact guarded_of_world (htaken.keepsPace henv (rouse_keeps (.refl _) (keepsPace_settle _ future _)))
  | deed d => exact guarded_deed htaken (hw.deed d (.inl (hcalled _ rfl))).code

/-- A job that has its turn may go on. -/
theorem guarded_advance {turn : Turn} (hw : w.Guarded) (henv : env.SetsChecked) (hrest : turn.rest.All Op.IsChecked) :
    (turn.advance env w).Guarded := by
  obtain ⟨id, job, rest⟩ := turn
  cases rest with
  | done result => exact guarded_of_world (hw.putDown henv id job (.finished result) trivial)
  | op o k => exact guarded_turn (hw.perform henv hrest.1) (hrest.2 _)
  | await future k =>
    cases future with
    | none => exact guarded_of_world (hw.putDown henv id job (.paused k) hrest)
    | some future =>
      simp only [Turn.advance]
      split
      · exact guarded_of_world (hw.putDown henv id job (.parked future k) hrest)
      · exact guarded_turn (hw.keepsPace henv (keepsPace_receive w _)) (hrest _)

/-- Each step of a bridge on which the interval is checked leaves it guarded. -/
theorem Step.guarded (henv : env.SetsChecked) (h : Step env Op.IsChecked s t) (hs : s.Guarded) : t.Guarded := by
  cases h with
  | clock w clock => exact guarded_of_world (hs.world.keepsPace henv (keepsPace_loop fun _ hd => hd))
  | perform w ho => exact guarded_of_world (hs.world.perform henv ho)
  | spawn w hcode => exact guarded_of_world (hs.world.addJob hcode none)
  | next hnext =>
    obtain ⟨w, activity⟩ := s
    cases activity with
    | turn turn =>
      cases hnext
      exact guarded_advance hs.world henv (hs.rest turn rfl)
    | deed c =>
      cases c with
      | done result =>
        cases hnext
        exact guarded_of_world hs.world
      | op o k =>
        cases hnext
        exact guarded_deed (hs.world.perform henv (hs.deed _ rfl).1) ((hs.deed _ rfl).2 _)
    | none =>
      simp only [next?] at hnext
      split at hnext
      · cases hnext
      · next l hloop =>
        cases hnext
        have hless := (Loop.Queued.of_next? hloop).1
        exact guarded_of_world (hs.world.keepsPace henv (keepsPace_loop fun d hd => hless _ hd))
      · next c l hloop =>
        cases hnext
        exact guarded_called hs.world henv hloop

/-- A bridge on which the interval is checked stays guarded. -/
theorem Steps.guarded (henv : env.SetsChecked) (h : Steps env Op.IsChecked s t) (hs : s.Guarded) : t.Guarded := by
  induction h with
  | refl => exact hs
  | tail _ hstep ih => exact hstep.guarded henv ih

end Scene

end SteppedLogo
