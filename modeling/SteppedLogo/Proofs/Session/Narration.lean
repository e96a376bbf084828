import SteppedLogo.Proofs.Session.Narrated
import SteppedLogo.Proofs.Session.Outcome

namespace SteppedLogo

open LogoList (ofWords)

namespace Scene

open World Words

variable {env : Env} {P : Op → Prop} {words : Words} {source : String} {start w : World} {a b s t u : Scene} {r : RunId}
variable {id j : JobId} {job now taken : Job} {task : FutureId} {fresh : Identity} {n m : Nat}
variable {history : List (StepEvent × World)}

/-- The events that are announced in the next step from a scene, each with the state in which the listeners begin to be
told of it. -/
def announced (s : Scene) : List (StepEvent × World) :=
  match s.activity with
  | .turn ⟨_, _, .op o _⟩ => s.world.announcements o
  | _ => []

/-- The events that are announced on the way from a scene, as long as the trace is on and nobody but the program of the
run changes what it shows. -/
inductive Recounts (env : Env) (r : RunId) (s : Scene) : List (StepEvent × World) → Scene → Prop
  | start : Recounts env r s [] s
  | step {history : List (StepEvent × World)} {t u : Scene} (hbefore : Recounts env r s history t)
    (hstep : Step env Op.Attends t u) (htraced : t.world.session.traceOn = true)
    (hshown : (∃ turn, t.activity = .turn turn ∧ turn.job.run = some r) ∨ u.world.trace = t.world.trace) :
    Recounts env r s (history ++ t.announced) u

theorem Recounts.steps (h : Recounts env r s history t) : Steps env Op.Attends s t := by
  induction h with
  | start => exact .refl
  | step _ hstep _ _ ih => exact ih.tail hstep

/-- How the job of a run stands: its program is under way, or has ended. -/
inductive Going (words : Words) (source : String) (start : World) (fresh : Identity) (r : RunId) (s : Scene) (id : JobId)
    (job : Job) (n m : Nat) : Prop
  | under (hopen : s.world.outcome? job.future = none)
    (hleft : Underway words source start fresh s.world n m (s.left id job)) : Going words source start fresh r s id job n m
  | ended {o : Outcome} (hout : s.world.outcome? job.future = some o)
    (hclosed : job.begun = true → Closed start.gate.steps.size r s.world n m) : Going words source start fresh r s id job n m

/-- What the events of a run tell, while no later run has begun. -/
structure Narrated (words : Words) (source : String) (start : World) (r : RunId) (id : JobId)
    (history : List (StepEvent × World)) (s : Scene) : Prop where
  begun : r < s.world.session.runs.size
  kept : s.world.session.runs.size = r + 1 → ∃ (fresh : Identity) (m : Nat) (job : Job),
    s.world.jobs[id]? = some job ∧ job.run = some r ∧ Books words source start r history.length m s.world ∧
      (∀ k e, history[k]? = some e → Truthful words source start fresh k e.1 e.2) ∧
        Going words source start fresh r s id job history.length m

/-- What is said of the events so far holds with the next one too. -/
theorem truthful_append {fresh' : Identity} {events : List (StepEvent × World)} (hsame : history.length = 0 ∨ fresh' = fresh)
    (hbefore : ∀ k e, history[k]? = some e → Truthful words source start fresh k e.1 e.2)
    (hone : events.length ≤ 1) (hnext : ∀ e ∈ events, Truthful words source start fresh' history.length e.1 e.2) :
    ∀ k e, (history ++ events)[k]? = some e → Truthful words source start fresh' k e.1 e.2 := by
  intro k e he
  obtain hlt | hle := Nat.lt_or_ge k history.length
  · rw [List.getElem?_append_left hlt] at he
    obtain hnone | rfl := hsame
    · omega
    · exact hbefore k e he
  · rw [List.getElem?_append_right hle] at he
    obtain ⟨hlt, rfl⟩ := List.getElem?_eq_some_iff.1 he
    have hk : k = history.length := by omega
    exact hk ▸ hnext _ (List.getElem_mem hlt)

/-- The program performs its next operation. -/
theorem Narrated.performs (hwords : words.IsPlain) (herrors : env.RaisesErrors)
    (hlisteners : ∀ name event, (env.react name event).run.All fun o => o.Attends ∧ o.LeavesTrace) {o : Op}
    {k : o.Reply → Routine (Except FaultId Value)}
    (hs : ({ world := w, activity := .turn ⟨id, taken, .op o k⟩ } : Scene).Governed Op.Attends)
    (htraced : w.session.traceOn = true)
    (h : Narrated words source start r id history { world := w, activity := .turn ⟨id, taken, .op o k⟩ }) :
    Narrated words source start r id (history ++ w.announcements o)
      { world := (w.perform env o).2, activity := .turn ⟨id, taken, k (w.perform env o).1⟩ } := by
  have hsound := hs.world.toSound
  have hup : w.Up id taken := hs.turn _ rfl
  have hextends := (grows_perform env o w hsound).2
  refine ⟨Nat.lt_of_lt_of_le h.begun hextends.runs_size_le, fun hsize => ?_⟩
  have hsame : w.session.runs.size = r + 1 := Nat.le_antisymm (hsize ▸ hextends.runs_size_le) h.begun
  obtain ⟨fresh, m, job, hjob, hrun, hbooks, htruthful, hgoing⟩ := h.kept hsame
  have hjob : w.jobs[id]? = some job := hjob
  have hopen : w.outcome? job.future = none := hup.outcome?_get hjob
  obtain ⟨b, hb⟩ := hextends.job id job hjob
  cases hgoing with
  | ended hout =>
    rw [hopen] at hout
    cases hout
  | under _ hleft =>
    rw [left_self] at hleft
    obtain ⟨-, hcurrent, hactive⟩ := hsound.active_of_open hjob hrun (.inl (isDone_eq_false.2 hopen))
    obtain ⟨fresh', m', hfresh, hbooks', hleft', hnext⟩ :=
      hleft.performs hwords herrors hlisteners hsound hactive hcurrent.symm htraced hbooks
    refine ⟨fresh', m', _, hb, hrun, ?_, truthful_append hfresh htruthful (announcements_length w o) hnext, .under ?_ ?_⟩
    · rw [List.length_append]
      exact hbooks'
    · exact (hextends.owned id job hjob).trans hopen
    · rw [left_self, List.length_append]
      exact hleft'

/-- What others do leaves what is said of the run as it is. -/
theorem Going.beside (h : Going words source start fresh r s id job n m) (hbears : s.world.Bears t.world)
    (hfutures : KeepsFutures s.world t.world) (hends : s.world.KeepsEnds t.world) (htrace : t.world.trace = s.world.trace)
    {awaited : Option FutureId} {k : Except FaultId Value → Routine (Except FaultId Value)}
    (hbefore : s.left id job = .await awaited k) (hafter : t.left id now = .await awaited k)
    (hstill : t.world.outcome? now.future = s.world.outcome? job.future) (hbegun : now.begun = true → job.begun = true) :
    Going words source start fresh r t id now n m := by
  cases h with
  | under hopen hleft =>
    rw [hbefore] at hleft
    exact .under (hstill.trans hopen) (hafter ▸ hleft.bides hbears htrace)
  | ended hout hclosed =>
    exact .ended (hstill.trans hout) fun hnow => (hclosed (hbegun hnow)).kept hends hbears.steps hfutures hbears.faults

/-- Another job performs its next operation. -/
theorem Narrated.bides {o : Op} {k : o.Reply → Routine (Except FaultId Value)}
    (hs : ({ world := w, activity := .turn ⟨j, taken, .op o k⟩ } : Scene).Governed Op.Attends) (hne : j ≠ id)
    (hshown : taken.run = some r ∨ (w.perform env o).2.trace = w.trace)
    (h : Narrated words source start r id history { world := w, activity := .turn ⟨j, taken, .op o k⟩ }) :
    Narrated words source start r id (history ++ w.announcements o)
      { world := (w.perform env o).2, activity := .turn ⟨j, taken, k (w.perform env o).1⟩ } := by
  have hsound := hs.world.toSound
  have hextends := (grows_perform env o w hsound).2
  refine ⟨Nat.lt_of_lt_of_le h.begun hextends.runs_size_le, fun hsize => ?_⟩
  have hsame : w.session.runs.size = r + 1 := Nat.le_antisymm (hsize ▸ hextends.runs_size_le) h.begun
  obtain ⟨fresh, m, job, hjob, hrun, hbooks, htruthful, hgoing⟩ := h.kept hsame
  have hjob : w.jobs[id]? = some job := hjob
  obtain ⟨b, hb⟩ := hextends.job id job hjob
  obtain ⟨htaken, hattends⟩ := hs.others hjob hrun hsame hne
  have htends : w.Tends (w.perform env o).2 := tends_perform hattends hsound.toWired
  have hbears := htends.bears (hsize.trans hsame.symm)
  have htrace := hshown.resolve_left (htaken ▸ (Option.some_ne_none r).symm)
  have hnone : w.announcements o = [] := announcements_of_attends hattends w
  rw [hnone, List.append_nil]
  refine ⟨fresh, m, _, hb, hrun, hbooks.bears hbears, htruthful, ?_⟩
  exact hgoing.beside hbears hextends.futures (Changes.keepsEnds (perform_changes o w)) htrace (left_other _ hne _ _ _)
    (left_other _ hne _ _ _) (hextends.owned id job hjob) fun hbegun => hbegun

/-- The program has ended, and with it the job of the run. -/
theorem Narrated.finished {result : Except FaultId Value}
    (hs : ({ world := w, activity := .turn ⟨id, taken, .done result⟩ } : Scene).Governed Op.Attends)
    (h : Narrated words source start r id history { world := w, activity := .turn ⟨id, taken, .done result⟩ }) :
    Narrated words source start r id history { world := w.putDown id taken (.finished result) } := by
  have hsound := hs.world.toSound
  have hup : w.Up id taken := hs.turn _ rfl
  obtain ⟨hafter, hfollows⟩ := proceeds_putDown hup (.finished result) hsound
  refine ⟨Nat.lt_of_lt_of_le h.begun hfollows.runs, fun hsize => ?_⟩
  have hsame : w.session.runs.size = r + 1 := Nat.le_antisymm (hsize ▸ hfollows.runs) h.begun
  obtain ⟨fresh, m, job, hjob, hrun, hbooks, htruthful, hgoing⟩ := h.kept hsame
  have hjob : w.jobs[id]? = some job := hjob
  obtain ⟨now, hnow, hnowFuture, hnowRun, -⟩ := hfollows.job id job hjob
  obtain ⟨before, hbefore, hbeforeFuture, hbeforeRun, -⟩ := hup.get
  rw [hjob] at hbefore
  cases hbefore
  cases hgoing with
  | ended hout =>
    rw [hup.outcome?_get hjob] at hout
    cases hout
  | under _ hleft =>
    rw [left_self] at hleft
    obtain ⟨f, hf, -⟩ := (wired_endRun hsound taken.run result).job_future id job
      ((jobs_endRun w taken.run result).symm ▸ hjob)
    have hdone : (w.putDown id taken (.finished result)).isDone now.future = true := by
      rw [hnowFuture, hbeforeFuture]
      exact isDone_endJob (hbeforeFuture ▸ hf) id _
    obtain ⟨o, ho⟩ := isDone_iff.1 hdone
    exact ⟨fresh, m, now, hnow, hnowRun.trans hrun, hbooks.bears (passes_putDown hsound hup (.finished result)).spares.bears,
      htruthful, .ended ho fun _ => hleft.finishes hsound hup (hbeforeRun.symm.trans hrun)⟩

/-- What a turn waits for changes nothing that is shown. -/
theorem trace_advance (turn : Turn) {awaited : Option FutureId} {k : Except FaultId Value → Routine (Except FaultId Value)}
    (hrest : turn.rest = .await awaited k) (w : World) : (turn.advance env w).world.trace = w.trace := by
  unfold Turn.advance
  rw [hrest]
  cases awaited with
  | none => rfl
  | some future =>
    dsimp only
    split
    · exact (alongside_park ..).trace
    · exact (alongside_receive ..).trace

/-- While the program of the run performs nothing and does not end, nothing changes what is shown. -/
theorem Step.trace (h : Step env Op.Attends s t) (hs : s.Governed Op.Attends) (hjob : s.world.jobs[id]? = some job)
    (hrun : job.run = some r) (hop : ∀ id job o k, s.activity ≠ .turn ⟨id, job, .op o k⟩)
    (hdone : ∀ job result, s.activity ≠ .turn ⟨id, job, .done result⟩)
    (hshown : (∃ turn, s.activity = .turn turn ∧ turn.job.run = some r) ∨ t.world.trace = s.world.trace) :
    t.world.trace = s.world.trace := by
  obtain ⟨⟨j, taken, rest⟩, hturn, htaken⟩ | hsame := hshown
  · obtain ⟨now, hnow, -, hnowRun, -⟩ := (hs.turn _ hturn).get
    obtain rfl : j = id := hs.world.job_unique j id now job r hnow hjob (hnowRun.trans htaken) hrun
    cases rest with
    | op o k => exact absurd hturn (hop _ _ _ _)
    | done result => exact absurd hturn (hdone _ _)
    | await awaited k =>
      cases h with
      | clock | perform | spawn => cases hturn
      | next hnext =>
        simp only [next?, hturn, Option.some.injEq] at hnext
        rw [← hnext]
        exact trace_advance _ rfl _
  · exact hsame

/-- A job that ends before it has begun, and is not interrupted, leaves its run as it is. -/
theorem Step.unbegun (h : Step env Op.Attends s t) (hs : s.Governed Op.Attends) (hafter : t.world.Sound)
    (hjob : s.world.jobs[id]? = some job) (hrun : job.run = some r) (hopen : s.world.outcome? job.future = none)
    (hidle : s.activity.turn? = none) (hnow : t.world.jobs[id]? = some now) (hfuture : now.future = job.future)
    (hnowRun : now.run = job.run) {o : Outcome} (hout : t.world.outcome? job.future = some o)
    (hplain : ¬ t.world.Interrupted job.future) : now.begun = false := by
  cases h.sequel with
  | performs _ hworld =>
    rw [hworld, (grows_perform env _ s.world hs.world.toSound).2.owned id job hjob, hopen] at hout
    cases hout
  | ends hturn => rw [hturn] at hidle; cases hidle
  | aside haside =>
    obtain ⟨run, hget, -, hactive⟩ := hs.world.job_run id job r hjob hrun
    obtain ⟨run', hget', hover, -⟩ := hafter.job_run id now r hnow (hnowRun.trans hrun)
    rw [haside.session, hget] at hget'
    cases hget'
    by_contra hbegun
    have hstill := hactive (.inl (isDone_eq_false.2 hopen))
    obtain ⟨hended, -⟩ | ⟨-, hinterrupted⟩ := hover (isDone_iff.2 ⟨o, hfuture ▸ hout⟩) (by simpa using hbegun)
    · obtain hended | hended := hended <;> rw [hended] at hstill <;> cases hstill
    · exact hplain (hfuture ▸ hinterrupted)

/-- What others do, and what the loop does, leaves the run where it is, has it go on, or ends its job before it has begun. -/
theorem Narrated.effect (hstep : Step env Op.Attends s t) (hs : s.Governed Op.Attends)
    (heffect : Effect env Op.Attends s t) (hop : ∀ id job o k, s.activity ≠ .turn ⟨id, job, .op o k⟩)
    (hdone : ∀ job result, s.activity ≠ .turn ⟨id, job, .done result⟩)
    (hshown : (∃ turn, s.activity = .turn turn ∧ turn.job.run = some r) ∨ t.world.trace = s.world.trace)
    (h : s.Narrated words source start r id history) : t.Narrated words source start r id history := by
  have hsound := hs.world.toSound
  refine ⟨Nat.lt_of_lt_of_le h.begun heffect.follows.runs, fun hsize => ?_⟩
  have hsame : s.world.session.runs.size = r + 1 := Nat.le_antisymm (hsize ▸ heffect.follows.runs) h.begun
  obtain ⟨fresh, m, job, hjob, hrun, hbooks, htruthful, hgoing⟩ := h.kept hsame
  obtain ⟨now, hnow, hfuture, hnowRun, hbegun⟩ := heffect.follows.job id job hjob
  have htrace := hstep.trace hs hjob hrun hop hdone hshown
  have hbears : s.world.Bears t.world := by
    obtain ⟨o, ho, hworld⟩ | hcalm := heffect.world
    · rw [hworld] at hsize ⊢
      exact (tends_perform ho hsound.toWired).bears (hsize.trans hsame.symm)
    · exact hcalm.spares.bears
  refine ⟨fresh, m, now, hnow, hnowRun.trans hrun, hbooks.bears hbears, htruthful, ?_⟩
  cases hgoing with
  | ended hout hclosed =>
    refine .ended (hfuture ▸ heffect.follows.futures.outcome? hout) fun hnowBegun => ?_
    exact (hclosed (hbegun (.inl (isDone_iff.2 ⟨_, hout⟩)) ▸ hnowBegun)).kept (hstep.keepsEnds ⟨hsound, hs.turn⟩)
      hbears.steps heffect.follows.futures hbears.faults
  | under hopen hleft =>
    obtain ⟨awaited, k, hawaits⟩ := left_await hop hdone job
    obtain hstill | hends := heffect.ended id job hjob
    · have hnowOpen : t.world.outcome? now.future = none := hfuture ▸ hstill.trans hopen
      refine .under hnowOpen ?_
      obtain hbegins | ⟨old, hold, -, -, honward⟩ := heffect.left id now hnow (isDone_eq_false.2 hnowOpen)
      · rw [hbegins.new] at hjob
        cases hjob
      · rw [hjob] at hold
        cases hold
        rw [hawaits] at hleft honward
        generalize t.left id now = after at honward ⊢
        cases honward with
        | stays => exact hleft.bides hbears htrace
        | receives _ hreceives => exact hleft.receives hbooks hreceives hbears heffect.follows.futures htrace
    · cases hends with
      | finished hturn => exact absurd hturn (hdone _ _)
      | @unbegun fault hidle _ hreceived hout =>
        have hplain : ¬ t.world.Interrupted job.future := by
          rintro ⟨e, he, hkind⟩
          rw [left_of_idle hidle] at hleft
          rw [hout] at he
          split at he <;> cases he
          exact hleft.stops hbooks hreceived hbears hkind
        have hunbegun := hstep.unbegun hs heffect.sound hjob hrun hopen hidle hnow hfuture hnowRun hout hplain
        refine .ended (hfuture ▸ hout) fun hnowBegun => ?_
        rw [hunbegun] at hnowBegun
        cases hnowBegun

/-- Once the run is no longer active its job has begun, and has ended with it. -/
theorem Going.closed (h : Going words source start fresh r s id job n m) (hs : s.world.Sound)
    (hjob : s.world.jobs[id]? = some job) (hrun : job.run = some r) (hcurrent : s.world.session.current = r)
      (hended : s.world.session.isActive = false) :
    Closed start.gate.steps.size r s.world n m := by
  obtain ⟨run, hget, -, hactive⟩ := hs.job_run id job r hjob hrun
  have hover : run.status.isActive = false := by
    by_contra hstill
    rw [isActive_iff.2 ⟨run, hcurrent ▸ hget, by simpa using hstill⟩] at hended
    cases hended
  cases h with
  | under hopen =>
    rw [hactive (.inl (isDone_eq_false.2 hopen))] at hover
    cases hover
  | ended _ hclosed =>
    refine hclosed ?_
    by_contra hbegun
    rw [hactive (.inr (by simpa using hbegun))] at hover
    cases hover

theorem Recounts.head (hstep : Step env Op.Attends s t) (htraced : s.world.session.traceOn = true)
    (hshown : (∃ turn, s.activity = .turn turn ∧ turn.job.run = some r) ∨ t.world.trace = s.world.trace)
    (h : Recounts env r t history u) : Recounts env r s (s.announced ++ history) u := by
  induction h with
  | start =>
    rw [List.append_nil]
    exact .step .start hstep htraced hshown
  | step _ hnext htraced' hshown' ih =>
    rw [← List.append_assoc]
    exact .step ih hnext htraced' hshown'

theorem Recounts.trans {later : List (StepEvent × World)} (h : Recounts env r s history t)
    (hlater : Recounts env r t later u) :
    Recounts env r s (history ++ later) u := by
  induction hlater with
  | start => rwa [List.append_nil]
  | step _ hstep htraced hshown ih =>
    rw [← List.append_assoc]
    exact .step ih hstep htraced hshown

end Scene

end SteppedLogo
