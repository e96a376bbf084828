import SteppedLogo.Proofs.Session.Cancellation
import SteppedLogo.Proofs.Session.Runs

namespace SteppedLogo

open World

/-- What may become of a run. -/
structure Run.Leads (run now : Run) : Prop where
  number : now.number = run.number
  source : now.source = run.source
  status : Relation.ReflTransGen Status.Next run.status now.status
  steps : run.steps ≤ now.steps
  reason : run.status ≠ .running → now.reason = run.reason
  ended : run.status.isActive = false → now = run

theorem Run.Leads.refl (run : Run) : run.Leads run := ⟨rfl, rfl, .refl, Nat.le_refl _, fun _ => rfl, fun _ => rfl⟩

/-- No run starts to run again. -/
theorem Status.Next.ne_running {s t : Status} (h : s.Next t) : t ≠ .running := by
  cases h <;> simp

/-- A run that is not running any more does not run later. -/
theorem Run.Leads.stopped {run now : Run} (h : run.Leads now) (hstopped : run.status ≠ .running) :
    now.status ≠ .running := by
  obtain heq | ⟨s, -, hnext⟩ := h.status.cases_tail
  · rw [heq]
    exact hstopped
  · exact hnext.ne_running

theorem Run.Leads.trans {run now later : Run} (h : run.Leads now) (h' : now.Leads later) :
    run.Leads later where
  number := h'.number.trans h.number
  source := h'.source.trans h.source
  status := h.status.trans h'.status
  steps := Nat.le_trans h.steps h'.steps
  reason hstopped := (h'.reason (h.stopped hstopped)).trans (h.reason hstopped)
  ended hover := by
    have hnow := h.ended hover
    subst hnow
    exact h'.ended hover

/-- To come forward is one way to go, as long as the count is not behind. -/
theorem Run.Next.leads {count : Nat} {run now : Run} (h : run.Next count now) (hcount : run.steps ≤ count) :
    run.Leads now := by
  have hnot (hactive : run.status.isActive = true) (hover : run.status.isActive = false) : now = run := by
    rw [hactive] at hover
    cases hover
  cases h with
  | counts hactive => exact ⟨rfl, rfl, .refl, hcount, fun _ => rfl, hnot hactive⟩
  | cancels hrunning reason =>
    refine ⟨rfl, rfl, .single ?_, Nat.le_refl _, fun hstopped => absurd hrunning hstopped, hnot ?_⟩
    · rw [hrunning]
      exact .cancels
    · rw [hrunning]
      rfl
  | completes hactive =>
    exact ⟨rfl, rfl, .single (.completes hactive), Nat.le_refl _, fun _ => rfl, hnot hactive⟩
  | fails hactive error =>
    exact ⟨rfl, rfl, .single (.fails hactive), Nat.le_refl _, fun _ => rfl, hnot hactive⟩

/-- A run fails with an error, and only so. -/
theorem Run.Next.failed {count : Nat} {run now : Run} (h : run.Next count now)
    (hfailed : run.error ≠ none ↔ run.status = .failed) : now.error ≠ none ↔ now.status = .failed := by
  cases h with
  | counts => exact hfailed
  | cancels hrunning =>
    rw [hrunning] at hfailed
    simpa using hfailed
  | completes => simp
  | fails => simp

/-- Only an active run comes forward. -/
theorem Run.Next.active {count : Nat} {run now : Run} (h : run.Next count now) : run.status.isActive = true := by
  cases h with
  | counts hactive | completes hactive | fails hactive => exact hactive
  | cancels hrunning =>
    rw [hrunning]
    rfl

/-- No run that comes forward is idle. -/
theorem Run.Next.ne_idle {count : Nat} {run now : Run} (h : run.Next count now) : now.status ≠ .idle := by
  have hactive := h.active
  cases h with
  | counts =>
    intro hidle
    change run.status = .idle at hidle
    rw [hidle] at hactive
    cases hactive
  | cancels | completes | fails => simp

namespace World

variable {w v : World}

/-- The runs are numbered as they follow one another, the first being the one of the session that is
idle; a run has failed exactly if there is an error, and the gate has counted the steps of the active
one. -/
structure Chronicled (w : World) : Prop where
  nonempty : 0 < w.session.runs.size
  number : w.session.nextNumber = w.session.runs.size
  numbered : ∀ (r : RunId) (run : Run), w.session.runs[r]? = some run → run.number = r
  idle : ∀ (r : RunId) (run : Run), w.session.runs[r]? = some run → (run.status = .idle ↔ r = 0)
  failed : ∀ (r : RunId) (run : Run), w.session.runs[r]? = some run →
    (run.error ≠ none ↔ run.status = .failed)
  counted : w.session.isActive = true → w.session.run.steps ≤ w.gate.seq

/-- Each run has come to what it may come to. -/
def Leads (w v : World) : Prop :=
  ∀ (r : RunId) (run : Run), w.session.runs[r]? = some run →
    ∃ now : Run, v.session.runs[r]? = some now ∧ run.Leads now

/-- The current run is the last one on record. -/
theorem Chronicled.get_current (hw : w.Chronicled) :
    w.session.runs[w.session.current]? = some w.session.run := by
  have hlt : w.session.current < w.session.runs.size := Nat.sub_lt hw.nonempty Nat.one_pos
  rw [run_of_get (Array.getElem?_eq_getElem hlt)]
  exact Array.getElem?_eq_getElem hlt

/-- Where one run has come forward and the others are as they were. -/
theorem get_of_modify {change : Run → Run} {r : RunId} {now : Run}
    (hw : w.Chronicled) (hruns : v.session.runs = w.session.runs.modify w.session.current change)
    (hnow : v.session.runs[r]? = some now) :
    (r = w.session.current ∧ now = change w.session.run) ∨
      r ≠ w.session.current ∧ w.session.runs[r]? = some now := by
  rw [hruns, Array.getElem?_modify] at hnow
  by_cases h : w.session.current = r
  · rw [if_pos h, ← h, hw.get_current] at hnow
    exact .inl ⟨h.symm, (Option.some.inj hnow).symm⟩
  · rw [if_neg h] at hnow
    exact .inr ⟨Ne.symm h, hnow⟩

/-- A mark leads each run of a chronicled session on in its one way. -/
theorem Marks.leads (hw : w.Chronicled) (h : w.Marks v) : w.Leads v := by
  intro r run hrun
  cases h with
  | stays hruns => exact ⟨run, by rw [hruns, hrun], .refl run⟩
  | begins source _ hruns => exact ⟨run, by rw [hruns]; exact getElem?_push_of_some hrun, .refl run⟩
  | moves change hnext hruns =>
    rw [hruns, Array.getElem?_modify]
    by_cases h : w.session.current = r
    · subst h
      rw [hw.get_current] at hrun
      cases hrun
      refine ⟨change w.session.run, by rw [if_pos rfl, hw.get_current]; rfl, hnext.leads ?_⟩
      exact hw.counted hnext.active
    · exact ⟨run, by rw [if_neg h, hrun], .refl run⟩

/-- What is marked keeps the chronicle. -/
theorem Marks.chronicled (hw : w.Chronicled) (h : w.Marks v) : v.Chronicled := by
  cases h with
  | stays hruns hnumber hseq =>
    have hrun : v.session.run = w.session.run := by rw [Session.run, Session.run, hruns]
    refine ⟨hruns ▸ hw.nonempty, ?_, hruns ▸ hw.numbered, hruns ▸ hw.idle, hruns ▸ hw.failed, ?_⟩
    · rw [hnumber, hruns, hw.number]
    · rw [Session.isActive, hrun]
      exact fun hactive => Nat.le_trans (hw.counted hactive) hseq
  | begins source hinactive hruns hnumber hseq =>
    have hnew (r : RunId) (run : Run) (hrun : v.session.runs[r]? = some run) :
        w.session.runs[r]? = some run ∨
          r = w.session.runs.size ∧ run = { status := .running, number := w.session.nextNumber, source } := by
      rw [hruns] at hrun
      exact getElem?_push_eq_some.1 hrun
    refine ⟨?_, ?_, fun r run hrun => ?_, fun r run hrun => ?_, fun r run hrun => ?_, fun _ => ?_⟩
    · simp [hruns]
    · rw [hnumber, hruns, hw.number, Array.size_push]
    · obtain hold | ⟨rfl, rfl⟩ := hnew r run hrun
      · exact hw.numbered r run hold
      · exact hw.number
    · obtain hold | ⟨rfl, rfl⟩ := hnew r run hrun
      · exact hw.idle r run hold
      · exact ⟨(by simp), fun h => absurd h (Nat.ne_of_gt hw.nonempty)⟩
    · obtain hold | ⟨rfl, rfl⟩ := hnew r run hrun
      · exact hw.failed r run hold
      · simp
    · rw [hseq, Session.run, hruns, Array.back?_push]
      exact Nat.le_refl 0
  | moves change hnext hruns hnumber hseq =>
    have hsize : v.session.runs.size = w.session.runs.size := by rw [hruns, Array.size_modify]
    have hrun : v.session.run = change w.session.run := by
      apply run_of_get
      rw [Session.current, hsize, ← Session.current, hruns, Array.getElem?_modify, if_pos rfl, hw.get_current]
      rfl
    have hcount := hw.counted hnext.active
    have hleads := hnext.leads hcount
    refine ⟨hsize ▸ hw.nonempty, ?_, fun r now hnow => ?_, fun r now hnow => ?_, fun r now hnow => ?_, fun _ => ?_⟩
    · rw [hnumber, hsize, hw.number]
    · obtain ⟨rfl, rfl⟩ | ⟨-, hold⟩ := get_of_modify hw hruns hnow
      · exact hleads.number.trans (hw.numbered _ _ hw.get_current)
      · exact hw.numbered r now hold
    · obtain ⟨rfl, rfl⟩ | ⟨-, hold⟩ := get_of_modify hw hruns hnow
      · have hactive := hnext.active
        have hidle := hw.idle _ _ hw.get_current
        refine ⟨fun h => absurd h hnext.ne_idle, fun h => ?_⟩
        rw [hidle.2 h] at hactive
        cases hactive
      · exact hw.idle r now hold
    · obtain ⟨rfl, rfl⟩ | ⟨-, hold⟩ := get_of_modify hw hruns hnow
      · exact hnext.failed (hw.failed _ _ hw.get_current)
      · exact hw.failed r now hold
    · rw [hrun, hseq]
      generalize change w.session.run = now at hnext
      cases hnext with
      | counts => exact Nat.le_refl _
      | cancels | completes | fails => exact hcount

end World

namespace Scene

variable {env : Env} {P Q : Op → Prop} {s t : Scene} {w : World} {id : JobId} {job : Job}

/-- All that is left for the job of a run to perform satisfies `Q`. -/
def Within (Q : Op → Prop) (s : Scene) : Prop :=
  ∀ (j : JobId) (job : Job) (r : RunId), s.world.jobs[j]? = some job → job.run = some r →
    s.world.isDone job.future = false → (s.left j job).All Q

/-- What programs may perform is all that the jobs of runs perform. -/
theorem Step.within (hP : Op.Guards P) (henv : env.Confined) (hQ : ∀ source, (env.program source).run.All Q)
    (hs : s.Governed P) (hwithin : s.Within Q) (h : Step env P s t) : t.Within Q := by
  have hbegins {j : JobId} {now : Job} {r : RunId} (hbegins : Begins env P s t j now) (hrun : now.run = some r) :
      (t.left j now).All Q := by
    obtain ⟨-, code, hleft, -, hprogram⟩ := hbegins
    obtain ⟨source, rfl⟩ := hprogram r hrun
    rw [hleft]
    exact fun _ => hQ source
  intro j now r hj hrun hopen
  obtain ⟨w, id, job, o, k, rfl, rfl⟩ | ⟨-, heffect⟩ := h.op_or_effect hP henv hs
  · obtain hnew | ⟨old, hold, hfuture, hsame, hleft⟩ := left_op hP henv hs hj
    · exact hbegins hnew hrun
    · have hextends := (grows_perform env o w hs.world.toSound).2
      have holdOpen : w.isDone old.future = false := hextends.futures.open_before (hfuture ▸ hopen)
      have hbefore := hwithin j old r hold (hsame ▸ hrun) holdOpen
      by_cases hne : id = j
      · subst hne
        rw [left_self] at hbefore ⊢
        exact hbefore.2 _
      · rw [hleft hne]
        exact hbefore
  · obtain hnew | ⟨old, hold, hfuture, hsame, honward⟩ := heffect.left j now hj hopen
    · exact hbegins hnew hrun
    · have holdOpen := heffect.follows.futures.open_before (hfuture ▸ hopen)
      have hbefore := hwithin j old r hold (hsame ▸ hrun) holdOpen
      generalize s.left j old = before at honward hbefore
      generalize t.left j now = after at honward ⊢
      cases honward with
      | stays => exact hbefore
      | receives k => exact hbefore _

/-- Resuming a job marks only what the job's end does to its run. -/
theorem resumed_marks (w : World) (id : JobId) (received : Except FaultId Value) :
    w.AllMarks (resumed w id received).world := by
  obtain heq | ⟨job, -, -, ⟨-, heq⟩ | ⟨-, heq⟩⟩ := resumed_cases w id received
  · rw [heq]
  · rw [heq]
    exact ((unmarked_takeUp w id job received).trans (unmarked_endJob _ _ _ _)).marks
  · rw [heq]
    exact (unmarked_takeUp w id job received).marks

/-- Calling a callback marks only what it does to the runs. -/
theorem called_marks (env : Env) (w : World) (c : Callback) : w.AllMarks (called env w c).world := by
  cases c with
  | run id => exact resumed_marks w id _
  | wake id =>
    simp only [called]
    split
    · rfl
    · exact (unmarked_receive w _).marks.trans (resumed_marks _ id _)
  | elapse i => exact (unmarked_elapse w i).marks
  | retract i => exact (unmarked_retract w i).marks
  | rouse future => exact rouse_keeps (I := w.AllMarks) .refl (unmarked_settle w future _).marks
  | deed d => rfl

/-- What is next in a turn leaves marks as long as the operations of the job count no steps anew. -/
theorem advance_marks (henv : env.Counted) {rest : Routine (Except FaultId Value)}
    (hs : ({ world := w, activity := .turn ⟨id, job, rest⟩ } : Scene).Governed Op.LeavesCount)
    (hwithin : ({ world := w, activity := .turn ⟨id, job, rest⟩ } : Scene).Within Op.KeepsCount) :
    w.AllMarks (Turn.advance env ⟨id, job, rest⟩ w).world := by
  have hup : w.Up id job := hs.turn _ rfl
  have hsound : w.Sound := hs.world.toSound
  cases rest with
  | done result => exact putDown_marks hsound hup (.finished result)
  | await future k =>
    cases future with
    | none => exact putDown_marks hsound hup (.paused k)
    | some future =>
      simp only [Turn.advance]
      split
      · exact putDown_marks hsound hup (.parked future k)
      · exact (unmarked_receive w _).marks
  | op o k =>
    have hcount : o.KeepsCount := by
      cases hrun : job.run with
      | none =>
        have hcode := hs.permitted_turn
        rw [hrun] at hcode
        exact hcode.1.2
      | some r =>
        obtain ⟨now, hnow, hfuture, hnowrun, -⟩ := hup.get
        have hopen : w.isDone now.future = false := by
          rw [hfuture]
          exact isDone_eq_false.2 hup.undone
        have hcode := hwithin id now r hnow (hnowrun.trans hrun) hopen
        rw [left_self] at hcode
        exact hcode.1
    obtain hquiet | ⟨call, r, rfl, -, hactive⟩ := hs.quiet_or_hook Op.guards_leavesCount
    · exact performWith_marks (notify env) ⟨hquiet, hcount⟩ w
    · exact hook_marks henv hsound hactive call

/-- Whatever happens comes down to marks. -/
theorem Step.marks (henv : env.Counted) (hs : s.Governed Op.LeavesCount) (hwithin : s.Within Op.KeepsCount)
    (h : Step env Op.LeavesCount s t) : s.world.AllMarks t.world := by
  cases h with
  | clock w clock => exact Unmarked.marks ⟨rfl, rfl, rfl⟩
  | perform w ho => exact performWith_marks (notify env) ho w
  | spawn w => exact Unmarked.marks ⟨rfl, rfl, rfl⟩
  | next hnext =>
    obtain ⟨w, activity⟩ := s
    cases activity with
    | turn u =>
      cases hnext
      exact advance_marks henv hs hwithin
    | deed c =>
      have hcode : c.All Op.LeavesCount := hs.deed c rfl
      cases c with
      | done result =>
        cases hnext
        rfl
      | op o k =>
        cases hnext
        exact performWith_marks (notify env) hcode.1 w
    | none =>
      simp only [next?] at hnext
      split at hnext
      · cases hnext
      · cases hnext
        exact Unmarked.marks ⟨rfl, rfl, rfl⟩
      · next c l _ =>
        cases hnext
        have htaken : w.AllMarks { w with loop := l } := Unmarked.marks ⟨rfl, rfl, rfl⟩
        exact htaken.trans (called_marks env _ c)

end Scene

namespace World

variable {u w v : World}

theorem Leads.refl (w : World) : w.Leads w := fun _ run hrun => ⟨run, hrun, .refl run⟩

theorem Leads.trans (huv : u.Leads v) (hvw : v.Leads w) : u.Leads w := by
  intro r run hrun
  obtain ⟨now, hnow, hleads⟩ := huv r run hrun
  obtain ⟨later, hlater, hleads'⟩ := hvw r now hnow
  exact ⟨later, hlater, hleads.trans hleads'⟩

/-- Any marks keep a session chronicled and lead each run on in its one way. -/
theorem AllMarks.leads (h : w.AllMarks v) (hw : w.Chronicled) : v.Chronicled ∧ w.Leads v := by
  induction h with
  | refl => exact ⟨hw, .refl w⟩
  | tail _ hmarks ih => exact ⟨hmarks.chronicled ih.1, ih.2.trans (hmarks.leads ih.1)⟩

/-- A fresh session whose first number is one is chronicled. -/
theorem Fresh.chronicled (hw : w.Fresh) (hnumber : w.session.nextNumber = 1) : w.Chronicled := by
  have hfirst (r : RunId) (run : Run) (hrun : w.session.runs[r]? = some run) : r = 0 ∧ run = {} := by
    rw [hw.runs] at hrun
    cases r with
    | zero => exact ⟨rfl, (Option.some.inj hrun).symm⟩
    | succ r => simp at hrun
  refine ⟨by simp [hw.runs], by simp [hw.runs, hnumber], fun r run hrun => ?_, fun r run hrun => ?_,
    fun r run hrun => ?_, fun hactive => ?_⟩
  · obtain ⟨rfl, rfl⟩ := hfirst r run hrun
    rfl
  · obtain ⟨rfl, rfl⟩ := hfirst r run hrun
    simp
  · obtain ⟨rfl, rfl⟩ := hfirst r run hrun
    simp
  · rw [Session.isActive, Session.run, hw.runs] at hactive
    cases hactive

end World

namespace Scene

variable {env : Env} {s t : Scene} {w : World}

/-- Any steps of a governed bridge that counts no steps anew only mark its runs. -/
theorem Steps.chronicled (henv : env.Counted) (hs : s.Governed Op.LeavesCount) (hwithin : s.Within Op.KeepsCount)
    (h : Steps env Op.LeavesCount s t) :
    t.Governed Op.LeavesCount ∧ t.Within Op.KeepsCount ∧ s.world.AllMarks t.world := by
  induction h with
  | refl => exact ⟨hs, hwithin, .refl⟩
  | tail _ hstep ih =>
    obtain ⟨hgoverned, hinside, hmarks⟩ := ih
    exact ⟨hstep.governed Op.guards_leavesCount henv.toConfined hgoverned,
      hstep.within Op.guards_leavesCount henv.toConfined henv.program hgoverned hinside,
      hmarks.trans (hstep.marks henv hgoverned hinside)⟩

/-- Listeners and programs leave the count to the runs (`Counted`), and the scene is reached by steps of the system from a
fresh session. Its runs are numbered from one on, only the last one may be active, and exactly the failed ones have an
error. Over any further steps each run `Leads` on: status, reason and count never go back, and one that is over stays as
it is. `start` is accepted exactly while no run is active and otherwise raises a `busy` fault and changes nothing else;
`cancelRun` and `requestBreak` make a running run canceling, and otherwise change nothing. -/
theorem runs_go_one_way (henv : env.Counted) (hfresh : w.Fresh) (hnumber : w.session.nextNumber = 1)
    (hs : Steps env Op.LeavesCount { world := w } s) :
    (∀ (r : RunId) (run : Run), s.world.session.runs[r]? = some run →
      run.number = r ∧ (run.error ≠ none ↔ run.status = .failed) ∧ (run.status = .idle ↔ r = 0) ∧
        (run.status.isActive = true → r = s.world.session.current)) ∧
    (∀ t, Steps env Op.LeavesCount s t → s.world.AllMarks t.world ∧
      ∀ (r : RunId) (run : Run), s.world.session.runs[r]? = some run →
        ∃ now : Run, t.world.session.runs[r]? = some now ∧ run.Leads now) ∧
    (∀ program source, s.world.session.run.status ∈ [.idle, .completed, .failed] →
      ∃ future v, s.world.start program source = (.ok future, v) ∧
        v.session.runs = s.world.session.runs.push
          { status := .running, number := s.world.session.runs.size, source, steps := 0 } ∧
        v.gate.seq = 0) ∧
    (∀ (u : World) program source, u.session.run.status ∈ [.running, .canceling] →
      ∃ fault faults, u.start program source = (.error fault, { u with faults }) ∧
        faults.kindOf fault = .busy) ∧
    (∀ (u : World) o reason, o = .cancelRun reason ∨ o = .requestBreak reason →
      (u.session.run.status ≠ .running → (u.perform env o).2 = u) ∧
      (u.session.run.status = .running → (u.perform env o).2.session.runs =
        u.session.runs.modify u.session.current ({ · with status := .canceling, reason }))) := by
  obtain ⟨hgoverned, hwithin, hmarks⟩ := Steps.chronicled henv (governed_fresh hfresh)
    (fun j job r hj => by
      have hj : w.jobs[j]? = some job := hj
      simp [hfresh.jobs] at hj) hs
  have hchronicled := (AllMarks.leads hmarks (hfresh.chronicled hnumber)).1
  refine ⟨fun r run hrun => ?_, fun t hsteps => ?_, fun program source hstatus => ?_,
    fun u program source hstatus => ?_, fun u o reason ho => ?_⟩
  · exact ⟨hchronicled.numbered r run hrun, hchronicled.failed r run hrun, hchronicled.idle r run hrun,
      hgoverned.world.active_current r run hrun⟩
  · have hafter := (Steps.chronicled henv hgoverned hwithin hsteps).2.2
    exact ⟨hafter, (AllMarks.leads hafter hchronicled).2⟩
  · have hinactive : s.world.session.isActive = false := by
      rw [Session.isActive]
      generalize s.world.session.run.status = status at hstatus
      cases status <;> simp_all [Status.isActive]
    obtain ⟨future, v, heq, hruns, -, hseq⟩ := start_of_inactive program source hinactive
    rw [hchronicled.number] at hruns
    exact ⟨future, v, heq, hruns, hseq⟩
  · have hactive : u.session.isActive = true := by
      rw [Session.isActive]
      generalize u.session.run.status = status at hstatus
      cases status <;> simp_all [Status.isActive]
    obtain ⟨fault, faults, heq, hget⟩ := start_of_active program source hactive
    exact ⟨fault, faults, heq, kindOf_of_get hget⟩
  · have hcancel : (u.perform env o).2 = u.cancelRun reason := by
      obtain rfl | rfl := ho <;> rfl
    rw [hcancel]
    obtain ⟨hstopped, heq⟩ | ⟨hrunning, message, heq⟩ := cancelRun_cases u reason
    · exact ⟨fun _ => heq, fun hrunning => absurd hrunning hstopped⟩
    · refine ⟨fun hstopped => absurd hrunning hstopped, fun _ => ?_⟩
      rw [heq]
      exact runs_cancelGate _ reason

theorem turtleEnv_counted : turtleEnv.Counted where
  toConfined := turtleEnv_confined
  react _ _ := trivial
  program source := by apply Words.all_execute <;> intros <;> trivial

set_option maxRecDepth 1024 in
/-- The first run is number one, a second one is refused while it is active, and a request to stop it
is accepted. -/
theorem waitingForCall_first : waitingForCall.session.run.number = 1 ∧
    (∃ fault faults, waitingForCall.start (turtleEnv.program "again") "again" =
      (.error fault, { waitingForCall with faults }) ∧ faults.kindOf fault = .busy) ∧
    (waitingForCall.perform turtleEnv (.cancelRun (.text "stop"))).2.session.run.status = .canceling := by
  obtain ⟨hruns, -, -, hrefused, hcancel⟩ := runs_go_one_way turtleEnv_counted
    (w := {}) World.fresh_empty rfl
    (steps_waitingForCall ⟨trivial, trivial⟩)
  refine ⟨(hruns 1 _ rfl).1, hrefused _ _ _ (by decide), ?_⟩
  have hstopped := (hcancel waitingForCall _ (.text "stop") (.inl rfl)).2 rfl
  rw [Session.run, hstopped]
  rfl

end Scene

end SteppedLogo
