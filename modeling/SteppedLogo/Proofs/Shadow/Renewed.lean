import Mathlib.Data.List.Induction
import SteppedLogo.Proofs.Session.Outcome
import SteppedLogo.Proofs.Session.Vacant
import SteppedLogo.Proofs.Shadow.Scene

namespace SteppedLogo

open World

/-- What a used session writes out beside what a new one does. A line may name another number for a run; and `early` on, the
tree `left` behind in the view of the used session may be written there alone. -/
inductive Record.Retold (k : Nat) (left : Option ViewNode) : (early : Bool) → List Record → List Record → Prop
  | start : Retold k left true [] []
  | same {early : Bool} {rs rs' : List Record} (r : Record) (h : Retold k left early rs rs') :
    Retold k left early (rs ++ [r]) (rs' ++ [r])
  | line {early : Bool} {rs rs' : List Record} (category : String) {s t : String} (htext : Renumbered k s t)
    (h : Retold k left early rs rs') : Retold k left early (rs ++ [.line category s]) (rs' ++ [.line category t])
  | stale {rs rs' : List Record} (seq : Option Nat) (hleft : left.isSome = true) (h : Retold k left true rs rs') :
    Retold k left true (rs ++ [.trace seq left]) rs'
  | settled {rs rs' : List Record} (h : Retold k left true rs rs') : Retold k left false rs rs'

theorem Record.Retold.refl (k : Nat) (left : Option ViewNode) (rs : List Record) : Retold k left true rs rs := by
  induction rs using List.reverseRecOn with
  | nil => exact .start
  | append_singleton rs r ih => exact .same r ih

theorem Callback.shift_eq_self {c : Callback} (hc : c.step? = none) (n : Nat) : c.shift n = c := by
  cases c with
  | elapse | retract => cases hc
  | run | wake | rouse | deed => rfl

namespace World

variable {env : Env} {w v : World}

/-- How a session in which runs have ended differs from one that is built anew. -/
def used (w : World) : Skew where
  steps := w.gate.steps.size
  runs := w.session.runs.size - 1
  first := 1
  number := w.session.nextNumber
  left := w.trace.view.root
  recounts := True
  Prints early o o' := o.accepts = o'.accepts ∧ o.calls = o'.calls ∧
    Record.Retold w.session.nextNumber w.trace.view.root early o.records.toList o'.records.toList
  print category htext h := by
    obtain ⟨haccepts, hcalls, hrecords⟩ := h
    refine ⟨haccepts, congrArg (· + 1) hcalls, ?_⟩
    unfold Output.print
    dsimp only
    rw [haccepts, hcalls]
    split
    · simp only [Array.toList_push]
      exact .line category htext hrecords
    · exact hrecords
  write r h := by
    obtain ⟨haccepts, hcalls, hrecords⟩ := h
    refine ⟨haccepts, hcalls, ?_⟩
    simp only [Output.write, Array.toList_push]
    exact .same r hrecords
  stale seq hleft h := by
    obtain ⟨haccepts, hcalls, hrecords⟩ := h
    refine ⟨haccepts, hcalls, ?_⟩
    simp only [Output.write, Array.toList_push]
    exact .stale seq hleft hrecords
  settles h := ⟨h.1, h.2.1, .settled h.2.2⟩

/-- The same bridge with a session, a gate and a trace that are new; the pacing interval, the listeners and whether
tracing is on are as they were. -/
def renewed (w : World) : World :=
  { w with
    gate := { interval := w.gate.interval, listeners := w.gate.listeners }
    session := { traceOn := w.session.traceOn }
    trace := {} }

/-- What is under way besides runs goes on alike in sessions that differ as `σ` says. -/
def Heedless (σ : Skew) (w : World) : Prop :=
  ∀ (j : JobId) (job : Job), w.jobs[j]? = some job → job.run = none → w.isDone job.future = true ∨
    ∀ T received received', T.Told received received' → (job.resume received).Abreast σ Pairing.Told T (job.resume received')

/-- The session as a run begins that has no job yet. -/
def begun (w : World) (source : String) : World :=
  World.resetGate { w with session := { w.session with
    runs := w.session.runs.push { status := .running, number := w.session.nextNumber, source }
    nextNumber := w.session.nextNumber + 1 } }

namespace Vacant

theorem futures_shadows (hw : w.Vacant) : Matched (Future.Shadows w.used Eq) w.futures w.futures := by
  intro id
  cases hf : w.futures[id]? with
  | none => exact .none
  | some f =>
    refine .some ⟨rel_refl (fun o => ?_) f.outcome, ?_, rfl⟩
    · cases o with
      | value x => exact .value x
      | fault id => exact .fault rfl
      | cancelled => exact .cancelled
    · have hkeeps : f.callbacks.map (Callback.shift w.used.steps) = f.callbacks :=
        (List.map_congr_left fun c hc => Callback.shift_eq_self (hw.attached id f hf c hc) _).trans (List.map_id _)
      exact hkeeps.symm

/-- The jobs of the runs before have ended; those of no run go on alike. -/
theorem jobs_shadows (hw : w.Vacant) (hothers : w.Heedless w.used) : Matched
    (Job.Shadows w.used Eq w.isDone) w.jobs w.jobs := by
  intro j
  cases hj : w.jobs[j]? with
  | none => exact .none
  | some job =>
    refine .some ⟨⟨rfl, rfl, rfl, rfl⟩, ?_⟩
    cases hrun : job.run with
    | some r => exact .inl (hw.done j job hj (hrun ▸ Option.some_ne_none r))
    | none =>
      refine (hothers j job hj hrun).imp_right fun hresume =>
        ⟨by rw [hrun]; rfl, fun r hr => ?_, fun U _ _ _ htold => hresume U _ _ htold⟩
      rw [hrun] at hr
      cases hr

/-- The new session has one run in front, which stands for no run and is not compared. -/
theorem runs_shadow (hw : w.Vacant) {source : String} {r : RunId} {run mate : Run} (hr : 1 ≤ r)
    (hrun : (w.session.runs.push { status := .running, number := w.session.nextNumber, source })[
      r + (w.session.runs.size - 1)]? = some run)
    (hmate : (#[({} : Run)].push { status := .running, number := 1, source })[r]? = some mate) :
    run.Shadows Eq mate ∧ run.number + 1 = mate.number + w.session.nextNumber := by
  obtain hmate | ⟨rfl, rfl⟩ := getElem?_push_eq_some.1 hmate
  · have hlt := (Array.getElem?_eq_some_iff.1 hmate).1
    exact absurd hr (Nat.not_lt.2 (Nat.lt_succ_iff.1 hlt))
  · obtain hrun | ⟨-, rfl⟩ := getElem?_push_eq_some.1 hrun
    · have hlt := (Array.getElem?_eq_some_iff.1 hrun).1
      have hpos := hw.nonempty
      simp only [List.size_toArray, List.length_singleton] at hlt
      omega
    · exact ⟨⟨rfl, rfl, rfl, rfl, .none⟩, Nat.add_comm _ _⟩

/-- The session counts from its beginning as a run begins. -/
theorem shadows_begun (hw : w.Vacant) (hothers : w.Heedless w.used) (source : String) :
    (w.begun source).Shadows w.used Eq (w.renewed.begun source) where
  fresh := rfl
  loop := (Loop.map_eq_self fun c hc => Callback.shift_eq_self (hw.queued c hc) _).symm
  futures := hw.futures_shadows
  jobs := hw.jobs_shadows hothers
  faults := Faults.Paired.refl w.session.nextNumber w.faults
  renderer := hw.shown
  view := .inr ⟨⟨hw.shown, rfl, rfl⟩, rfl, rfl, .refl _ _ _⟩
  hostView := rfl
  interval := rfl
  pending := hw.pending
  seq := rfl
  steps_size := (Nat.zero_add _).symm
  steps i := Array.getElem?_eq_none (Nat.le_add_left _ _)
  runs_size := by
    have hpos := hw.nonempty
    simp only [begun, World.resetGate, modifyGate, renewed, used, Array.size_push, List.size_toArray, List.length_singleton]
    omega
  begun := by
    simp only [begun, World.resetGate, modifyGate, renewed, Array.size_push]
    exact Nat.one_lt_two
  runs _ _ _ hr hrun hmate := hw.runs_shadow hr hrun hmate
  nextNumber := Nat.add_comm w.session.nextNumber 2
  traceOn := rfl
  turtle := rfl
  calls := rfl
  interrupt := rfl
  tracked := rfl
  lastStatus := rfl
  listeners _ := rfl
  events _ := rfl
  spent _ := rfl

/-- The next run begins in the same way as the first one of a new session. -/
theorem shadows_start (hw : w.Vacant) (hothers : w.Heedless w.used)
    (hprogram : ∀ source, (env.program source).run.Steady w.used) (source : String) :
    (w.perform env (.start source)).1 = (w.renewed.perform env (.start source)).1 ∧
      (w.perform env (.start source)).2.Shadows w.used Eq (w.renewed.perform env (.start source)).2 := by
  have hlast : w.session.runs.size = 1 + (w.session.runs.size - 1) := (Nat.add_sub_cancel' hw.nonempty).symm
  obtain ⟨hfuture, hadded⟩ := ((hw.shadows_begun hothers source).info
    ("run " ++ toString w.session.nextNumber ++ " started (" ++ toString source.length ++ " chars)")
    ("run " ++ toString 1 ++ " started (" ++ toString source.length ++ " chars)")).addRunJob (hprogram source) (Nat.le_refl 1)
  have hinactive : w.session.run.status.isActive = false := hw.inactive
  have hused : w.perform env (.start source) = w.start (env.program source) source := rfl
  have hnew : w.renewed.perform env (.start source) = w.renewed.start (env.program source) source := rfl
  rw [hused, hnew]
  unfold World.start
  simp only [hinactive, Bool.false_eq_true, if_false]
  rw [hlast]
  exact ⟨congrArg Except.ok hfuture, hadded⟩

end Vacant

/-- All that can be told of two sessions is the same, but for the numbers under which the first one keeps its steps and
knows its runs, and for a tree that was left in its view. -/
structure Resembles (σ : Skew) (w v : World) : Prop where
  clock : w.loop.clock = v.loop.clock
  events : w.events = v.events
  calls : w.calls = v.calls
  turtle : w.turtle = v.turtle
  steps : ∀ i, w.gate.steps[i + σ.steps]? = v.gate.steps[i]?
  pending : w.gate.pending = v.gate.pending.map (· + σ.steps)
  outcomes : ∀ id, w.outcome? id = v.outcome? id
  run : w.session.run.Shadows Eq v.session.run
  number : w.session.run.number + 1 = v.session.run.number + σ.number
  kinds : ∀ id, w.faults.kindOf id = v.faults.kindOf id
  reasons : ∀ id, w.faults.reasonOf id = v.faults.reasonOf id
  messages : ∀ id, Renumbered σ.number (w.faults.messageOf id) (v.faults.messageOf id)
  /-- the views agree and the same is written from then on; or nothing has been shown in either since the first request -/
  view : w.trace.view.root = v.trace.view.root ∧
      Record.Retold σ.number σ.left false w.output.records.toList v.output.records.toList ∨
    (w.trace.renderer = {} ∧ w.trace.view.root = σ.left ∧ v.trace.view.root = none) ∧
      Record.Retold σ.number σ.left true w.output.records.toList v.output.records.toList
  /-- at a call boundary that says where the program stands, this is shown alike, and marked alike -/
  boundary : ∀ call : Call, call.body ≠ .none → call.cell ≠ .none →
    (w.showCall call).trace.view.toText true = (v.showCall call).trace.view.toText true

theorem Shadows.resembles {u : World} {T : Pairing} (h : w.Shadows u.used T v) : w.Resembles u.used v := by
  obtain rfl := h.pairing_eq trivial
  exact {
    clock := by rw [h.loop]; rfl
    events := h.events trivial
    calls := h.calls
    turtle := h.turtle
    steps := h.steps
    pending := h.pending
    outcomes := fun id => by
      have houtcome := h.outcome? id
      generalize w.outcome? id = o at houtcome
      generalize v.outcome? id = o' at houtcome
      cases houtcome with
      | none => rfl
      | some ho =>
        cases ho with
        | value | cancelled => rfl
        | fault hid => rw [hid]
    run := h.run
    number := h.number
    kinds := fun id => h.faults.kindOf rfl
    reasons := fun id => h.faults.reasonOf rfl
    messages := fun id => h.faults.messageOf rfl
    view := h.view.imp (And.imp_right fun h => h.2.2) (And.imp_right fun h => h.2.2)
    boundary := fun call hbody hcell => by
      rw [DebugView.toText, DebugView.toText, (h.showCall call).2 hbody hcell] }

end World

namespace Scene

variable {env₀ env : Env} {words : Words} {w : World}

/-- A session whose runs have all ended, where it came about from a new one in which call boundaries were made by programs
alone, and has left no callback behind that is about a step. From now on programs of words are run, under listeners that
cannot tell faults, steps and runs by their identities. -/
structure Ready (env₀ env : Env) (words : Words) (w : World) : Prop where
  confined : env₀.Confined
  past : ∃ u : World, u.Fresh ∧ u.trace.renderer = {} ∧ Steps env₀ Op.IsQuiet { world := u } { world := w }
  ended : ∀ (r : RunId) (run : Run), w.session.runs[r]? = some run → run.status.isActive = false
  left : ∀ c, w.loop.Queued c → c.step? = none
  others : w.Heedless w.used
  program : env.program = Words.execute words
  listeners : ∀ name event, Reaction.Steady w.used (env.react name event)

/-- How the next run goes, with what the host has done meanwhile. -/
def course (env : Env) (w : World) (source : String) (rs : List Request) : Scene :=
  serveAll env w.gate.steps.size { world := w } (.perform (.start source) :: rs)

/-- Runs do not leak into one another: in a session that is `Ready`, the next run of a program of words goes as it does in
the session `renewed`, whatever public requests the host has served and whenever. Only the number of a run differs where a
text names it, and until something is shown the view holds what an earlier run left in it, where a new one is empty. -/
theorem runs_do_not_leak (h : Ready env₀ env words w) (source : String) {rs : List Request}
    (hrs : ∀ r ∈ rs, r.IsPublic w.used) :
    (w.perform env (.start source)).1 = (w.renewed.perform env (.start source)).1 ∧
    (course env w source rs).world.Resembles w.used (course env w.renewed source rs).world ∧
    ∀ o : Op, o.IsPublic w.used → o.Told w.used Eq ((course env w source rs).world.perform env o).1
      ((course env w.renewed source rs).world.perform env o).1 := by
  obtain ⟨u, hfresh, hblank, hpast⟩ := h.past
  have hsteady (source : String) : (env.program source).run.Steady w.used := by
    rw [h.program]
    exact Words.steady_execute words source
  have hagrees : env.Agrees w.used env := ⟨rfl, hsteady, rfl⟩
  have henv : env.Shadows w.used env := ⟨hagrees, notifies_within trivial hagrees h.listeners 199⟩
  have hvacant := vacant_of_over Op.guards_quiet h.confined hfresh hblank hpast h.ended h.left
  obtain ⟨hanswer, hstarted⟩ := hvacant.shadows_start h.others hsteady source
  obtain ⟨T, hworld, -⟩ := shadows_serveAll (shadows_idle hstarted) henv hrs
  obtain rfl := hworld.pairing_eq trivial
  refine ⟨hanswer, hworld.resembles, fun o ho => ?_⟩
  obtain ⟨U, -, htold, hafter⟩ := hworld.perform henv ho
  obtain rfl := hafter.pairing_eq trivial
  exact htold

/-- A listener that turns tracing on at each step. -/
def tracerEnv : Env :=
  { turtleEnv with react := fun name event =>
      if name = "tracer" then listenerCode name [{ deed := .setTrace true }] event else Launch.react name event }

/-- After a run that was stopped while a step was pending, tracing is turned off, and two listeners are added: one that
turns tracing on at each step, and the console behind it. -/
def retraced : World :=
  let w := (endedAtBoundary.world.perform turtleEnv (.setTrace false)).2
  let w := (w.perform turtleEnv (.addListener "tracer")).2
  (w.perform turtleEnv (.addListener Launch.traceListener)).2

theorem tracerEnv_steady {σ : Skew} (hrecounts : σ.recounts) (name : String) (event : StepEvent) :
    Reaction.Steady σ (tracerEnv.react name event) := by
  by_cases hname : name = "tracer"
  · have hacts : tracerEnv.react name event = listenerCode name [{ deed := .setTrace true }] event := if_pos hname
    rw [hacts]
    exact steady_listenerCode hrecounts name _ event
  · have hshows : tracerEnv.react name event = Launch.react name event := if_neg hname
    rw [hshows]
    exact Launch.steady_react name event

set_option maxRecDepth 1024 in
theorem retraced_past : Steps turtleEnv Op.IsQuiet { world := {} } { world := retraced } := by
  have hfirst : Step turtleEnv Op.IsQuiet { world := {} } boundaryStarted := .perform _ trivial
  have hidle : atBoundary = { world := atBoundary.world } := rfl
  have hasks : Step turtleEnv Op.IsQuiet atBoundary askedAtBoundary := by
    rw [hidle]
    exact .perform _ trivial
  have hbefore : Steps turtleEnv Op.IsQuiet { world := {} } atBoundary := .head hfirst (steps_after 4 boundaryStarted)
  have hended : Steps turtleEnv Op.IsQuiet { world := {} } { world := endedAtBoundary.world } :=
    (hbefore.tail hasks).trans (steps_after 3 askedAtBoundary)
  have hoff : Step turtleEnv Op.IsQuiet { world := endedAtBoundary.world }
      { world := (endedAtBoundary.world.perform turtleEnv (.setTrace false)).2 } :=
        .perform _ (trivial : Op.IsQuiet (.setTrace false))
  have hadds (w : World) (name : String) :
      Step turtleEnv Op.IsQuiet { world := w } { world := (w.perform turtleEnv (.addListener name)).2 } :=
    .perform _ (trivial : Op.IsQuiet (.addListener name))
  exact ((hended.tail hoff).tail (hadds _ "tracer")).tail (hadds _ Launch.traceListener)

theorem retraced_ready : Ready turtleEnv tracerEnv turtleWords retraced where
  confined := ⟨fun _ _ => trivial, Words.hooked_execute turtleWords⟩
  past := ⟨{}, fresh_empty, rfl, retraced_past⟩
  ended r run hrun := by
    have hall : (retraced.session.runs.all fun run => !run.status.isActive) = true := by decide +kernel
    obtain ⟨hlt, rfl⟩ := Array.getElem?_eq_some_iff.1 hrun
    simpa using Array.all_eq_true.1 hall r hlt
  left c hc := by
    have hready : retraced.loop.ready.isEmpty = true := by decide +kernel
    have htimers : retraced.loop.timers.isEmpty = true := by decide +kernel
    obtain ⟨r, hr, -⟩ | ⟨t, ht, -⟩ := hc
    · rw [List.isEmpty_iff.1 hready] at hr
      cases hr
    · rw [List.isEmpty_iff.1 htimers] at ht
      cases ht
  others j job hjob hrun := by
    have hall : (retraced.jobs.all fun job => job.run.isSome) = true := by decide +kernel
    obtain ⟨hlt, rfl⟩ := Array.getElem?_eq_some_iff.1 hjob
    have hsome := Array.all_eq_true.1 hall j hlt
    rw [hrun] at hsome
    cases hsome
  program := rfl
  listeners := tracerEnv_steady trivial

/-- While a run is under way, a host is asked to run another program for a user, and refuses. -/
def askedMeanwhile : List Request := .spawn (Launch.runProgram "rt") :: List.replicate 9 .proceed

theorem askedMeanwhile_public (σ : Skew) : ∀ r ∈ askedMeanwhile, r.IsPublic σ := by
  intro r hr
  obtain rfl | hr := List.mem_cons.1 hr
  · exact Request.isPublic_program "rt"
  · rw [List.eq_of_mem_replicate hr]
    trivial

/-- After a run that was stopped while a step was pending, the next run goes as the first one of a new session, also under
a listener that turns tracing on in front of the console. -/
theorem retraced_does_not_leak : retraced.session.run.status = .failed ∧ retraced.gate.steps.size = 1 ∧
    (course tracerEnv retraced "pd" askedMeanwhile).world.Resembles retraced.used
      (course tracerEnv retraced.renewed "pd" askedMeanwhile).world := by
  obtain ⟨-, hresembles, -⟩ := runs_do_not_leak retraced_ready "pd" (askedMeanwhile_public _)
  exact ⟨by decide +kernel, by decide +kernel, hresembles⟩

/-- What is printed is not the same to the letter, for a refusal names the run that is in the way; nor is what the view
shows while tracing is on, where a listener has turned it on once the call was announced without its position. -/
theorem neither_lines_nor_views_are_the_same :
    (¬ ∀ (env₀ env : Env) (words : Words) (w : World), Ready env₀ env words w →
      ∀ source rs, (∀ r ∈ rs, r.IsPublic w.used) →
        (course env w source rs).world.output.lines = (course env w.renewed source rs).world.output.lines) ∧
    ¬ ∀ (env₀ env : Env) (words : Words) (w : World), Ready env₀ env words w →
      ∀ source rs, (∀ r ∈ rs, r.IsPublic w.used) → (course env w source rs).world.session.traceOn = true →
        (course env w source rs).world.shownView.toText true =
          (course env w.renewed source rs).world.shownView.toText true := by
  constructor
  · intro hsame
    have hlines := hsame turtleEnv tracerEnv turtleWords retraced retraced_ready "pd" askedMeanwhile (askedMeanwhile_public _)
    have hused : (course tracerEnv retraced "pd" askedMeanwhile).world.output.lines =
        [("input", "rt"), ("error", "run 2 is still running")] := by decide +kernel
    have hnew : (course tracerEnv retraced.renewed "pd" askedMeanwhile).world.output.lines =
        [("input", "rt"), ("error", "run 1 is still running")] := by decide +kernel
    rw [hused, hnew] at hlines
    exact absurd hlines (by decide)
  · intro hsame
    have hon : (course tracerEnv retraced "pd" askedMeanwhile).world.session.traceOn = true := by decide +kernel
    have htexts := hsame turtleEnv tracerEnv turtleWords retraced retraced_ready "pd" askedMeanwhile
      (askedMeanwhile_public _) hon
    have hused : (course tracerEnv retraced "pd" askedMeanwhile).world.shownView.toText true = "[>>pd<<]" := by decide +kernel
    have hnew : (course tracerEnv retraced.renewed "pd" askedMeanwhile).world.shownView.toText true = "" := by decide +kernel
    rw [hused, hnew] at htexts
    exact absurd htexts (by decide)

end Scene

end SteppedLogo
