import SteppedLogo.Proofs.Program.Hosted
import SteppedLogo.Proofs.Session.Scenes
import SteppedLogo.Proofs.World.Parts

namespace SteppedLogo

open World Routine

namespace Scene

variable {env : Env} {s t u : Scene} {v w : World} {i j : JobId} {job : Job} {task : FutureId}

/-- What happens next in a session with hosts: jobs that call `Host.runProgram` may be spawned, and all else
leaves the handler alone. -/
inductive HostStep (env : Env) : Scene → Scene → Prop
  | step {s t : Scene} (h : Step env Op.LeavesSignals s t) : HostStep env s t
  | spawn (w : World) {code : Work Value} (hcode : code.run.Calls) :
    HostStep env { world := w } { world := (w.addJob code).2 }

abbrev HostSteps (env : Env) : Scene → Scene → Prop := Relation.ReflTransGen (HostStep env)

/-- A scene that comes about from a fresh state in which no handler is registered. -/
def HostReachable (env : Env) (s : Scene) : Prop :=
  ∃ w : World, w.Fresh ∧ w.interrupt = none ∧ HostSteps env { world := w } s

/-- A job has a handler to remove. -/
def Holds (s : Scene) (j : JobId) : Prop :=
  ∃ job : Job, s.world.jobs[j]? = some job ∧ s.world.isDone job.future = false ∧ (s.left j job).Holds

/-- The task is that of the current run, and not done yet. -/
def CurrentTask (s : Scene) (task : FutureId) : Prop :=
  ∃ (i : JobId) (job : Job), s.world.jobs[i]? = some job ∧ job.future = task ∧
    job.run = some s.world.session.current ∧ s.world.isDone task = false

/-- What is true of a job that stands in some way with the handler. -/
def Suits (s : Scene) (job : Job) : Stand → Prop
  | .free => True
  | .started task => s.CurrentTask task
  | .waits _ => job.begun = true
  | .leaves task => job.begun = true ∧ s.world.isDone task = true

/-- What is left for each job to do stands in some way with the handler. -/
structure Hosted (s : Scene) : Prop where
  intact : s.Intact
  deed : ∀ c, s.activity = .deed c → c.All Op.LeavesSignals
  code : ∀ (j : JobId) (job : Job), s.world.jobs[j]? = some job → s.world.isDone job.future = false →
    ∃ σ, (s.left j job).Hosts σ ∧ s.Suits job σ

/-- A job that has a handler to remove has begun. -/
theorem Hosted.begun_of_holds (hs : s.Hosted) (hj : s.world.jobs[j]? = some job)
    (hopen : s.world.isDone job.future = false) (hholds : (s.left j job).Holds) : job.begun = true := by
  obtain ⟨σ, hhosts, hsuits⟩ := hs.code j job hj hopen
  have hσ := hhosts.holds_iff.1 hholds
  cases σ with
  | free | started => cases hσ
  | waits => exact hsuits
  | leaves => exact hsuits.1

theorem holds_iff (hj : s.world.jobs[j]? = some job) :
    s.Holds j ↔ s.world.isDone job.future = false ∧ (s.left j job).Holds := by
  refine ⟨fun h => ?_, fun h => ⟨job, hj, h.1, h.2⟩⟩
  obtain ⟨now, hnow, hopen, hholds⟩ := h
  rw [hj] at hnow
  cases hnow
  exact ⟨hopen, hholds⟩

/-- What a step does in which no job performs an operation. -/
structure Silent (s t : Scene) : Prop where
  still : ∀ id job o k, s.activity ≠ .turn ⟨id, job, .op o k⟩
  interrupt : t.world.interrupt = s.world.interrupt
  follows : s.world.Follows t.world
  deed : ∀ c, t.activity = .deed c → c.All Op.LeavesSignals
  ended : ∀ (j : JobId) (job : Job), s.world.jobs[j]? = some job →
    t.world.outcome? job.future = s.world.outcome? job.future ∨ Ends s t j job
  left : ∀ (j : JobId) (job : Job), t.world.jobs[j]? = some job → t.world.isDone job.future = false →
    s.world.jobs[j]? = none ∧ (t.left j job).Hosts .free ∨ ∃ old : Job, s.world.jobs[j]? = some old ∧
      job.future = old.future ∧ job.run = old.run ∧ Onward s.world t.world (old.cancelRequested = true)
        (s.left j old) (t.left j job)

theorem hosts_of_all {r : Routine (Except FaultId Value)} (h : r.All Op.LeavesSignals)
    (waiting : Option FutureId) : (Routine.await waiting fun _ => r).Hosts .free :=
  .await Stand.idles_free waiting fun _ => h.calls.hosts

theorem Effect.silent (henv : env.LeavesSignals) (h : Effect env Op.LeavesSignals s t)
    (hstill : ∀ id job o k, s.activity ≠ .turn ⟨id, job, .op o k⟩)
    (hinterrupt : t.world.interrupt = s.world.interrupt) : Silent s t := by
  refine ⟨hstill, hinterrupt, h.follows, h.deed, h.ended, fun j job hj hopen => ?_⟩
  obtain ⟨hnew, code, hleft, hcode, hprogram⟩ | hold := h.left j job hj hopen
  · refine .inl ⟨hnew, ?_⟩
    rw [hleft]
    cases hrun : job.run with
    | none =>
      rw [hrun] at hcode
      exact hosts_of_all hcode none
    | some r =>
      obtain ⟨source, rfl⟩ := hprogram r hrun
      exact hosts_of_all (henv.program source) none
  · exact .inr hold

/-- A deed or the host performs an operation. -/
theorem silent_perform (henv : env.LeavesSignals) (hs : s.Intact) (hidle : s.activity.turn? = none) {o : Op}
    (ho : o.LeavesSignals) {a : Activity} (ha : a.turn? = none) (hdeed : ∀ c, a = .deed c → c.All Op.LeavesSignals) :
    Silent s { world := (s.world.perform env o).2, activity := a } := by
  obtain ⟨-, hextends⟩ := grows_perform env o s.world hs.sound
  refine ⟨not_op_of_idle hidle, perform_interrupt henv ho s.world, hextends.follows, hdeed,
    fun j job hj => .inl (hextends.owned j job hj), fun j job hj _ => ?_⟩
  cases hold : s.world.jobs[j]? with
  | some old =>
    obtain ⟨b, hb⟩ := hextends.job j old hold
    have hj : (s.world.perform env o).2.jobs[j]? = some job := hj
    rw [hb] at hj
    cases hj
    refine .inr ⟨old, rfl, rfl, rfl, ?_⟩
    rw [left_of_idle hidle, left_of_idle ha]
    exact .stays _
  | none =>
    refine .inl ⟨rfl, ?_⟩
    rw [left_of_idle ha]
    obtain ⟨old, hsome, -⟩ | ⟨-, r, source, -, hresume⟩ := Changes.keepsJobs (perform_changes o s.world) hs.sound j job hj
    · rw [hold] at hsome
      cases hsome
    · rw [hresume]
      exact hosts_of_all (henv.program source) job.waiting

theorem silent_spawn (hw : w.Sound) {code : Work Value} (hcode : code.run.Calls) :
    Silent { world := w } { world := (w.addJob code).2 } := by
  obtain ⟨-, hextends⟩ := grows_spawn w code hw
  refine ⟨not_op_of_idle rfl, rfl, hextends.follows, fun _ hdeed => (by cases hdeed),
    fun j job hj => .inl (hextends.owned j job hj), fun j job hj _ => ?_⟩
  obtain hj | ⟨rfl, rfl⟩ := getElem?_push_eq_some.1 hj
  · exact .inr ⟨job, hj, rfl, rfl, .stays _⟩
  · exact .inl ⟨Array.getElem?_size, .await Stand.idles_free none fun _ => hcode.hosts⟩

/-- A job performs its next operation, or none does. -/
theorem HostStep.op_or_silent (henv : env.LeavesSignals) (hs : s.Hosted) (h : HostStep env s t) :
    (∃ w id job o k, s = { world := w, activity := .turn ⟨id, job, .op o k⟩ } ∧
      t = { world := (w.perform env o).2, activity := .turn ⟨id, job, k (w.perform env o).1⟩ }) ∨ Silent s t := by
  have hsound := hs.intact.sound
  cases h with
  | spawn w hcode => exact .inr (silent_spawn hsound hcode)
  | step h =>
    cases h with
    | clock w clock =>
      exact .inr ((effect_passes rfl hsound (light_setClock w clock).grows.proceeds (passes_setClock w clock) rfl
        fun _ hdeed => by
        cases hdeed).silent henv (not_op_of_idle rfl) rfl)
    | perform w ho => exact .inr (silent_perform henv hs.intact rfl ho rfl fun _ hdeed => by cases hdeed)
    | spawn w hcode => exact .inr (silent_spawn hsound hcode.calls)
    | next hnext =>
      obtain ⟨w, activity⟩ := s
      cases activity with
      | turn u =>
        cases hnext
        obtain ⟨id, job, r⟩ := u
        by_cases hop : ∃ o k, r = .op o k
        · obtain ⟨o, k, rfl⟩ := hop
          exact .inl ⟨w, id, job, o, k, rfl, rfl⟩
        · have hnot : ∀ o k, r ≠ .op o k := fun o k hr => hop ⟨o, k, hr⟩
          refine .inr ((effect_advance hsound (hs.intact.turn _ rfl) hnot).silent henv (fun id' job' o k hturn => ?_)
            (World.outer_interrupt _ _ (advance_host hnot w)))
          cases hturn
          exact hop ⟨o, k, rfl⟩
      | deed c =>
        have hcode : c.All Op.LeavesSignals := hs.deed c rfl
        cases c with
        | done result =>
          cases hnext
          exact .inr ((effect_passes rfl hsound (.refl w) (.refl w) rfl fun _ hdeed => by cases hdeed).silent henv
            (not_op_of_idle rfl) rfl)
        | op o k =>
          cases hnext
          exact .inr (silent_perform henv hs.intact rfl hcode.1 rfl fun c hc => by
            cases hc
            exact hcode.2 _)
      | none =>
        simp only [next?] at hnext
        split at hnext
        · cases hnext
        · next l hloop =>
          cases hnext
          exact .inr ((effect_passes rfl hsound (light_next hsound hloop).grows.proceeds (passes_next hsound hloop) rfl
            fun _ hdeed => by cases hdeed).silent henv (not_op_of_idle rfl) rfl)
        · next c l hloop =>
          cases hnext
          exact .inr ((effect_called hsound (fun d _ => d.code_leavesSignals) hloop).silent henv (not_op_of_idle rfl)
            (World.outer_interrupt { w with loop := l } _ (called_host _ c)))

/-- Only a job that has its turn has an operation left that is the next one. -/
theorem turn_of_left {o : Op} {k : o.Reply → Routine (Except FaultId Value)} (hleft : s.left j job = .op o k) :
    ∃ taken, s.activity = .turn ⟨j, taken, .op o k⟩ := by
  unfold left at hleft
  split at hleft
  · next u hu =>
    split at hleft
    · next hid =>
      obtain ⟨w, activity⟩ := s
      cases activity with
      | none | deed => cases hu
      | turn t =>
        obtain ⟨id, taken, rest⟩ := t
        cases hu
        subst hid hleft
        exact ⟨taken, rfl⟩
    · cases hleft
  · cases hleft

/-- Whatever a job receives, it stands with the handler as it did, or knows now that its task is done. -/
theorem Onward.hosts {before after : Routine (Except FaultId Value)} {requested : Prop} {σ : Stand}
    (h : Onward w v requested before after)
    (hhosts : before.Hosts σ) : after.Hosts σ ∧ after = before ∨ σ.Idles ∧ after.Hosts σ ∨
      ∃ task, σ = .waits task ∧ after.Hosts (.leaves task) ∧ w.isDone task = true := by
  cases h with
  | stays => exact .inl ⟨hhosts, rfl⟩
  | receives k hreceived =>
    obtain ⟨hσ, hk⟩ | ⟨task, hσ, hfuture, hk⟩ := hhosts.await_cases
    · exact .inr (.inl ⟨hσ, hk _⟩)
    · exact .inr (.inr ⟨task, hσ, hk _, hreceived.settled hfuture⟩)

theorem Onward.holds_iff {before after : Routine (Except FaultId Value)} {requested : Prop} {σ : Stand}
    (h : Onward w v requested before after)
    (hhosts : before.Hosts σ) : after.Holds ↔ before.Holds := by
  obtain ⟨-, hsame⟩ | ⟨-, hafter⟩ | ⟨task, rfl, hafter, -⟩ := h.hosts hhosts
  · rw [hsame]
  · exact hafter.holds_iff.trans hhosts.holds_iff.symm
  · exact hafter.holds_iff.trans hhosts.holds_iff.symm

/-- What suits a job that has not just started a run suits it later. -/
theorem Suits.follows {old : Job} {σ : Stand} (h : s.Suits old σ) (hfollows : s.world.Follows t.world)
    (hold : s.world.jobs[j]? = some old) (hj : t.world.jobs[j]? = some job) (hσ : ∀ task, σ ≠ .started task) :
    t.Suits job σ := by
  cases σ with
  | free => trivial
  | started task => exact absurd rfl (hσ task)
  | waits task => exact hfollows.begun hold hj h
  | leaves task => exact ⟨hfollows.begun hold hj h.1, hfollows.futures.isDone h.2⟩

theorem Silent.hosted (h : Silent s t) (hs : s.Hosted) (ht : t.Intact) : t.Hosted := by
  refine ⟨ht, h.deed, fun j job hj hopen => ?_⟩
  obtain ⟨-, hfree⟩ | ⟨old, hold, hfuture, -, honward⟩ := h.left j job hj hopen
  · exact ⟨.free, hfree, trivial⟩
  · have holdOpen : s.world.isDone old.future = false := h.follows.futures.open_before (hfuture ▸ hopen)
    obtain ⟨σ, hhosts, hsuits⟩ := hs.code j old hold holdOpen
    have hnot (task : FutureId) : σ ≠ .started task := by
      rintro rfl
      obtain ⟨k, hk⟩ := hhosts.of_started
      obtain ⟨taken, hturn⟩ := turn_of_left hk
      exact h.still _ _ _ _ hturn
    have hlater := hsuits.follows h.follows hold hj hnot
    obtain ⟨hafter, -⟩ | ⟨-, hafter⟩ | ⟨task, rfl, hafter, hdone⟩ := honward.hosts hhosts
    · exact ⟨σ, hafter, hlater⟩
    · exact ⟨σ, hafter, hlater⟩
    · exact ⟨.leaves task, hafter, hlater, h.follows.futures.isDone hdone⟩

/-- A job that has a handler to remove goes on. -/
theorem Silent.goes_on (h : Silent s t) (hs : s.Hosted) {old : Job} (hold : s.world.jobs[j]? = some old)
    (holdOpen : s.world.isDone old.future = false) (hholds : (s.left j old).Holds) :
    ∃ job : Job, t.world.jobs[j]? = some job ∧ t.world.isDone job.future = false ∧
      Onward s.world t.world (old.cancelRequested = true) (s.left j old) (t.left j job) := by
  obtain ⟨job, hj, hfuture, -⟩ := h.follows.job j old hold
  have hopen : t.world.isDone job.future = false := by
    obtain hsame | hends := h.ended j old hold
    · rw [hfuture, isDone, hsame]
      exact holdOpen
    · cases hends with
      | @finished taken result hturn =>
        have hdone : s.left j old = .done result := by simp [Scene.left, hturn, Activity.turn?]
        rw [hdone] at hholds
        cases hholds
      | unbegun _ hbegun =>
        rw [hs.begun_of_holds hold holdOpen hholds] at hbegun
        cases hbegun
  obtain ⟨hnew, -⟩ | ⟨old', hold', -, -, honward⟩ := h.left j job hj hopen
  · rw [hold] at hnew
    cases hnew
  · rw [hold] at hold'
    cases hold'
    exact ⟨job, hj, hopen, honward⟩

/-- Without an operation of its own no job comes by a handler, or gets rid of one. -/
theorem Silent.holds_iff (h : Silent s t) (hs : s.Hosted) (j : JobId) : t.Holds j ↔ s.Holds j := by
  constructor
  · rintro ⟨job, hj, hopen, hholds⟩
    obtain ⟨-, hfree⟩ | ⟨old, hold, hfuture, -, honward⟩ := h.left j job hj hopen
    · exact (hfree.holds_iff.1 hholds).elim
    · have holdOpen : s.world.isDone old.future = false := h.follows.futures.open_before (hfuture ▸ hopen)
      obtain ⟨σ, hhosts, -⟩ := hs.code j old hold holdOpen
      exact ⟨old, hold, holdOpen, (honward.holds_iff hhosts).1 hholds⟩
  · rintro ⟨old, hold, holdOpen, hholds⟩
    obtain ⟨job, hj, hopen, honward⟩ := h.goes_on hs hold holdOpen hholds
    obtain ⟨σ, hhosts, -⟩ := hs.code j old hold holdOpen
    exact ⟨job, hj, hopen, (honward.holds_iff hhosts).2 hholds⟩

variable {id : JobId} {o : Op} {k : o.Reply → Routine (Except FaultId Value)}

/-- The job that performs an operation has begun, and does not end by it. -/
theorem self_op (hup : w.Up id job) (hextends : w.Extends v) :
    ∃ before now : Job, w.jobs[id]? = some before ∧ v.jobs[id]? = some now ∧ before.begun = true ∧
      w.isDone before.future = false ∧ v.isDone now.future = false := by
  obtain ⟨before, hbefore, hfuture, -, hbegun, -⟩ := hup.get
  obtain ⟨b, hb⟩ := hextends.job id before hbefore
  have hopen : w.outcome? before.future = none := hup.outcome?_get hbefore
  refine ⟨before, _, hbefore, hb, hbegun, isDone_eq_false.2 hopen, isDone_eq_false.2 ?_⟩
  exact (hextends.owned id before hbefore).trans hopen

/-- What is left for the other jobs stays as it is. -/
theorem other_op (henv : env.LeavesSignals) (hw : w.Sound) (hne : id ≠ j) (job : Job) {now : Job}
    (hj : (w.perform env o).2.jobs[j]? = some now) (r r' : Routine (Except FaultId Value)) :
    (w.jobs[j]? = none ∧
      (({ world := (w.perform env o).2, activity := .turn ⟨id, job, r'⟩ } : Scene).left j now).Hosts .free) ∨
    ∃ old : Job, w.jobs[j]? = some old ∧ now.future = old.future ∧
      (w.perform env o).2.isDone now.future = w.isDone old.future ∧
      ({ world := (w.perform env o).2, activity := .turn ⟨id, job, r'⟩ } : Scene).left j now =
        ({ world := w, activity := .turn ⟨id, job, r⟩ } : Scene).left j old := by
  obtain ⟨old, hold, hfuture, -, hresume, hwaiting⟩ | ⟨-, q, source, -, hresume⟩ :=
    Changes.keepsJobs (perform_changes o w) hw j now hj
  · refine .inr ⟨old, hold, hfuture, ?_, ?_⟩
    · rw [hfuture, isDone, isDone, (grows_perform env o w hw).2.owned j old hold]
    · rw [left_other _ hne, left_other _ hne, hresume, hwaiting]
  · cases hold : w.jobs[j]? with
    | none =>
      refine .inl ⟨rfl, ?_⟩
      rw [left_other _ hne, hresume]
      exact hosts_of_all (henv.program source) now.waiting
    | some old =>
      obtain ⟨b, hb⟩ := (grows_perform env o w hw).2.job j old hold
      rw [hb] at hj
      cases hj
      refine .inr ⟨old, rfl, rfl, ?_, ?_⟩
      · exact congrArg Option.isSome ((grows_perform env o w hw).2.owned j old hold)
      · rw [left_other _ hne, left_other _ hne]

/-- Each other job stays one. -/
theorem other_kept (henv : env.LeavesSignals) (hw : w.Sound) (hne : id ≠ j) (job : Job) {old : Job}
    (hold : w.jobs[j]? = some old) (r r' : Routine (Except FaultId Value)) :
    ∃ now : Job, (w.perform env o).2.jobs[j]? = some now ∧
      (w.perform env o).2.isDone now.future = w.isDone old.future ∧
      ({ world := (w.perform env o).2, activity := .turn ⟨id, job, r'⟩ } : Scene).left j now =
        ({ world := w, activity := .turn ⟨id, job, r⟩ } : Scene).left j old := by
  obtain ⟨b, hnow⟩ := (grows_perform env o w hw).2.job j old hold
  obtain ⟨hnew, -⟩ | ⟨old', hold', -, hdone, hleft⟩ := other_op henv hw hne job hnow r r'
  · rw [hold] at hnew
    cases hnew
  · rw [hold] at hold'
    cases hold'
    exact ⟨_, hnow, hdone, hleft⟩

theorem perform_hookInterrupt (hsignals : env.signals = true) (reason : Value) (w : World) :
    w.perform env (.hookInterrupt reason) = (.ok (), { w with interrupt := some reason }) := if_pos hsignals

theorem perform_hookInterrupt_unsupported (hsignals : env.signals = false) (reason : Value) (w : World) :
    w.perform env (.hookInterrupt reason) = w.complain noSignals := if_neg (Bool.eq_false_iff.1 hsignals)

/-- How a job stands with the handler after an operation. -/
theorem hosts_op {σ : Stand} (hhosts : (Routine.op o k).Hosts σ) (hw : w.Sound) {before now : Job}
    (hbefore : w.jobs[id]? = some before) (hnow : (w.perform env o).2.jobs[id]? = some now)
    (hbegun : before.begun = true)
    (hsuits : ({ world := w, activity := .turn ⟨id, job, .op o k⟩ } : Scene).Suits before σ) :
    ∃ σ', (k (w.perform env o).1).Hosts σ' ∧
      ({ world := (w.perform env o).2, activity := .turn ⟨id, job, k (w.perform env o).1⟩ } : Scene).Suits now σ' := by
  have hfollows := (grows_perform env o w hw).2.follows
  cases hhosts with
  | op hσ ho hk =>
    refine ⟨σ, hk _, hsuits.follows hfollows hbefore hnow ?_⟩
    rintro task rfl
    cases hσ
  | start source herror hok =>
    cases hstart : w.perform env (.start source) with
    | mk reply v =>
      cases reply with
      | error fault => exact ⟨.free, herror fault, trivial⟩
      | ok task =>
        refine ⟨.started task, hok task, ?_⟩
        have hstarted : Started (env.program source) source task w v := started_of_start hstart
        have hcurrent : v.session.current = w.session.runs.size := by
          rw [Session.current, hstarted.size, Nat.add_sub_cancel]
        exact ⟨_, _, hstarted.job, rfl, congrArg some hcurrent.symm, isDone_eq_false.2 hstarted.opens⟩
  | hook hok herror =>
    cases hsignals : env.signals with
    | true =>
      have hreply : (w.perform env (.hookInterrupt (.text stopReason))).1 = .ok () := by
        rw [perform_hookInterrupt hsignals]
      rw [hreply]
      exact ⟨_, hok, hfollows.begun hbefore hnow hbegun⟩
    | false =>
      have hreply : (w.perform env (.hookInterrupt (.text stopReason))).1 = (w.complain noSignals).1 := by
        rw [perform_hookInterrupt_unsupported hsignals]
      rw [hreply]
      exact ⟨.free, herror _, trivial⟩
  | unhook hk => exact ⟨.free, hk, trivial⟩

theorem hosted_op (henv : env.LeavesSignals)
    (hs : ({ world := w, activity := .turn ⟨id, job, .op o k⟩ } : Scene).Hosted) :
    ({ world := (w.perform env o).2, activity := .turn ⟨id, job, k (w.perform env o).1⟩ } : Scene).Hosted := by
  have hw : w.Sound := hs.intact.sound
  have hup : w.Up id job := hs.intact.turn _ rfl
  obtain ⟨hsound, hextends⟩ := grows_perform env o w hw
  refine ⟨⟨hsound, fun u hu => ?_⟩, fun _ hdeed => (by cases hdeed), fun j now hj hopen => ?_⟩
  · cases hu
    exact hextends.up hup
  by_cases hself : id = j
  · subst hself
    obtain ⟨before, now', hbefore, hnow, hbegun, hbeforeOpen, -⟩ := self_op hup hextends
    have hj : (w.perform env o).2.jobs[id]? = some now := hj
    rw [hnow] at hj
    cases hj
    obtain ⟨σ, hhosts, hsuits⟩ := hs.code id before hbefore hbeforeOpen
    rw [left_self] at hhosts ⊢
    exact hosts_op hhosts hw hbefore hnow hbegun hsuits
  · obtain ⟨-, hfree⟩ | ⟨old, hold, -, hdone, hleft⟩ :=
      other_op henv hw hself job hj (.op o k) (k (w.perform env o).1)
    · exact ⟨.free, hfree, trivial⟩
    · obtain ⟨σ, hhosts, hsuits⟩ := hs.code j old hold (hdone ▸ hopen)
      rw [hleft]
      refine ⟨σ, hhosts, hsuits.follows hextends.follows hold hj ?_⟩
      rintro task rfl
      obtain ⟨k', hstarted⟩ := hhosts.of_started
      rw [left_other w hself] at hstarted
      cases hstarted

theorem HostStep.hosted (henv : env.LeavesSignals) (hs : s.Hosted) (h : HostStep env s t) : t.Hosted := by
  obtain ⟨w, id, job, o, k, rfl, rfl⟩ | hsilent := h.op_or_silent henv hs
  · exact hosted_op henv hs
  · refine hsilent.hosted hs ?_
    cases h with
    | step h => exact (Step.parts h hs.intact).1
    | spawn w hcode =>
      exact intact_of_sound (grows_spawn w _ hs.intact.sound).1 fun _ h => by
        cases h

theorem hosted_fresh (hfresh : w.Fresh) : ({ world := w } : Scene).Hosted := by
  refine ⟨intact_of_sound hfresh.sound fun _ h => (by cases h), fun _ hdeed => (by cases hdeed), fun j job hj => ?_⟩
  have hj : w.jobs[j]? = some job := hj
  simp [hfresh.jobs] at hj

theorem HostReachable.hosted (henv : env.LeavesSignals) (hs : HostReachable env s) : s.Hosted := by
  obtain ⟨w, hfresh, -, hsteps⟩ := hs
  induction hsteps with
  | refl => exact hosted_fresh hfresh
  | tail _ hstep ih => exact hstep.hosted henv ih

end Scene

end SteppedLogo
