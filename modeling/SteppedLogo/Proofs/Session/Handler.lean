import SteppedLogo.Proofs.Program.Pacing
import SteppedLogo.Proofs.Session.Ending
import SteppedLogo.Proofs.Session.Hosts

namespace SteppedLogo

open World Routine

namespace Scene

variable {env : Env} {s t u : Scene} {v w : World} {i j : JobId} {job : Job} {task : FutureId}
variable {id : JobId} {o : Op} {k : o.Reply → Routine (Except FaultId Value)}

/-- A job registers the handler, or removes it, or neither happens. -/
inductive Handles (s t : Scene) : Prop
  | registers {id : JobId} {job : Job} {k : Except FaultId Unit → Routine (Except FaultId Value)}
    (hturn : s.activity = .turn ⟨id, job, .op (.hookInterrupt (.text stopReason)) k⟩)
    (hinterrupt : t.world.interrupt = some (.text stopReason)) (hholds : ∀ j, t.Holds j ↔ s.Holds j ∨ j = id)
  | removes {id : JobId} {job : Job} {k : Unit → Routine (Except FaultId Value)}
    (hturn : s.activity = .turn ⟨id, job, .op .unhookInterrupt k⟩) (hinterrupt : t.world.interrupt = none)
    (hheld : s.Holds id) (hholds : ∀ j, t.Holds j ↔ s.Holds j ∧ j ≠ id)
  | neither (hinterrupt : t.world.interrupt = s.world.interrupt) (hholds : ∀ j, t.Holds j ↔ s.Holds j)

/-- An operation of one job leaves every other job holding the handler or not, as before. -/
theorem other_holds (henv : env.LeavesSignals) (hw : w.Sound) (hne : id ≠ j) (job : Job)
    (r r' : Routine (Except FaultId Value)) :
    ({ world := (w.perform env o).2, activity := .turn ⟨id, job, r'⟩ } : Scene).Holds j ↔
      ({ world := w, activity := .turn ⟨id, job, r⟩ } : Scene).Holds j := by
  constructor
  · rintro ⟨now, hnow, hopen, hholds⟩
    obtain ⟨-, hfree⟩ | ⟨old, hold, -, hdone, hleft⟩ := other_op henv hw hne job hnow r r'
    · exact (hfree.holds_iff.1 hholds).elim
    · exact ⟨old, hold, hdone.symm.trans hopen, hleft ▸ hholds⟩
  · rintro ⟨old, hold, hopen, hholds⟩
    obtain ⟨now, hnow, hdone, hleft⟩ := other_kept henv hw hne job hold r r'
    exact ⟨now, hnow, hdone.trans hopen, hleft ▸ hholds⟩

/-- Whether a job that has its turn holds the handler is told by what is left of its turn. -/
theorem self_holds (hup : w.Up id job) (hextends : w.Extends v) (r r' : Routine (Except FaultId Value)) :
    (({ world := w, activity := .turn ⟨id, job, r⟩ } : Scene).Holds id ↔ r.Holds) ∧
      (({ world := v, activity := .turn ⟨id, job, r'⟩ } : Scene).Holds id ↔ r'.Holds) := by
  obtain ⟨before, now, hbefore, hnow, -, hbeforeOpen, hnowOpen⟩ := self_op hup hextends
  constructor
  · rw [Scene.holds_iff hbefore, left_self]
    exact and_iff_right hbeforeOpen
  · rw [Scene.holds_iff hnow, left_self]
    exact and_iff_right hnowOpen

/-- Every operation handles interrupts as described, provided the platform has them and programs leave them to the host. -/
theorem handles_op (hsignals : env.signals = true) (henv : env.LeavesSignals)
    (hs : ({ world := w, activity := .turn ⟨id, job, .op o k⟩ } : Scene).Hosted) :
    Handles { world := w, activity := .turn ⟨id, job, .op o k⟩ }
      { world := (w.perform env o).2, activity := .turn ⟨id, job, k (w.perform env o).1⟩ } := by
  have hw : w.Sound := hs.intact.sound
  have hup : w.Up id job := hs.intact.turn _ rfl
  have hextends := (grows_perform env o w hw).2
  obtain ⟨hheld, hholds⟩ := self_holds hup hextends (.op o k) (k (w.perform env o).1)
  obtain ⟨before, -, hbefore, -, -, hopen, -⟩ := self_op hup hextends
  obtain ⟨σ, hhosts, -⟩ := hs.code id before hbefore hopen
  rw [left_self] at hhosts
  have hother (j : JobId) (hne : id ≠ j) :=
    other_holds (o := o) henv hw hne job (.op o k) (k (w.perform env o).1)
  by_cases ho : o.LeavesSignals
  · refine .neither (perform_interrupt henv ho w) fun j => ?_
    by_cases hself : id = j
    · subst hself
      exact hholds.trans ((hhosts.holds_reply ho _).trans hheld.symm)
    · exact hother j hself
  · cases hhosts with
    | op _ hleaves => exact absurd hleaves ho
    | start => exact absurd trivial ho
    | hook hok herror =>
      have hreply : (w.perform env (.hookInterrupt (.text stopReason))).1 = .ok () := by
        rw [perform_hookInterrupt hsignals]
      have hinterrupt : (w.perform env (.hookInterrupt (.text stopReason))).2.interrupt = some (.text stopReason) := by
        rw [perform_hookInterrupt hsignals]
      refine .registers rfl hinterrupt fun j => ?_
      by_cases hself : id = j
      · subst hself
        have hwaits := hok.holds_iff.2 trivial
        rw [← hreply] at hwaits
        exact ⟨fun _ => .inr rfl, fun _ => hholds.2 hwaits⟩
      · rw [hother j hself, or_iff_left fun h => hself h.symm]
    | @unhook _ k hk =>
      have hremoves : (Routine.op .unhookInterrupt k).Holds := .inl rfl
      refine .removes rfl rfl (hheld.2 hremoves) fun j => ?_
      by_cases hself : id = j
      · subst hself
        exact ⟨fun h => (hk.holds_iff.1 (hholds.1 h)).elim, fun h => absurd rfl h.2⟩
      · rw [hother j hself, and_iff_left fun h => hself h.symm]

/-- Every step of hosts handles interrupts as described, provided the platform has them and programs leave them to the host.
-/
theorem HostStep.handles (hsignals : env.signals = true) (henv : env.LeavesSignals) (hs : s.Hosted)
    (h : HostStep env s t) : Handles s t := by
  obtain ⟨w, id, job, o, k, rfl, rfl⟩ | hsilent := h.op_or_silent henv hs
  · exact handles_op hsignals henv hs
  · exact .neither hsilent.interrupt fun j => hsilent.holds_iff hs j

/-- A handler that is registered is that of a host, and one of the jobs is to remove it. -/
theorem HostReachable.held (hsignals : env.signals = true) (henv : env.LeavesSignals) (hs : HostReachable env s)
    {x : Value} (hx : s.world.interrupt = some x) : x = .text stopReason ∧ ∃ j, s.Holds j := by
  obtain ⟨w, hfresh, hnone, hsteps⟩ := hs
  induction hsteps generalizing x with
  | refl =>
    have hx : w.interrupt = some x := hx
    rw [hnone] at hx
    cases hx
  | @tail a b hbefore hstep ih =>
    have hhosted : a.Hosted := HostReachable.hosted henv ⟨w, hfresh, hnone, hbefore⟩
    cases hstep.handles hsignals henv hhosted with
    | registers _ hinterrupt hholds =>
      rw [hinterrupt] at hx
      cases hx
      exact ⟨rfl, _, (hholds _).2 (.inr rfl)⟩
    | removes _ hinterrupt =>
      rw [hinterrupt] at hx
      cases hx
    | neither hinterrupt hholds =>
      obtain ⟨hreason, j, hj⟩ := ih (hinterrupt ▸ hx)
      exact ⟨hreason, j, (hholds j).2 hj⟩

/-- A job is about to register the handler. -/
def Registers (s : Scene) : Prop :=
  ∃ (id : JobId) (job : Job) (reason : Value) (k : Except FaultId Unit → Routine (Except FaultId Value)),
    s.activity = .turn ⟨id, job, .op (.hookInterrupt reason) k⟩

/-- The world after a step of hosts follows from the world before. -/
theorem HostStep.follows (henv : env.LeavesSignals) (hs : s.Hosted) (h : HostStep env s t) :
    s.world.Follows t.world := by
  obtain ⟨w, id, job, o, k, rfl, rfl⟩ | hsilent := h.op_or_silent henv hs
  · exact (grows_perform env o w hs.intact.sound).2.follows
  · exact hsilent.follows

/-- What is left of a turn stands in some way with the handler. -/
theorem Hosted.turn {r : Routine (Except FaultId Value)} (hs : s.Hosted) (hturn : s.activity = .turn ⟨id, job, r⟩) :
    ∃ before σ, s.world.jobs[id]? = some before ∧ before.begun = true ∧ s.world.isDone before.future = false ∧
      r.Hosts σ ∧ s.Suits before σ := by
  obtain ⟨w, activity⟩ := s
  cases hturn
  obtain ⟨before, -, hbefore, -, hbegun, hopen, -⟩ := self_op (hs.intact.turn _ rfl) (Extends.refl w)
  obtain ⟨σ, hhosts, hsuits⟩ := hs.code id before hbefore hopen
  rw [left_self] at hhosts
  exact ⟨before, σ, hbefore, hbegun, hopen, hhosts, hsuits⟩

/-- A run that is started is a new one. -/
theorem size_of_start {source : String} (hstart : w.perform env (.start source) = (.ok task, v)) :
    v.session.runs.size = w.session.runs.size + 1 := by
  change w.start (env.program source) source = (.ok task, v) at hstart
  obtain ⟨-, heq⟩ | ⟨-, number, nextNumber, message, heq⟩ := start_cases (env.program source) source w
  · rw [heq] at hstart
    cases hstart
  · rw [heq] at hstart
    cases hstart
    exact Array.size_push _

/-- A job that is about to register the handler has just started the run of a task. -/
theorem exists_started {r : Routine (Except FaultId Value)} {σ : Stand} {reason : Value}
    {k : Except FaultId Unit → Routine (Except FaultId Value)} (hhosts : r.Hosts σ)
    (hr : r = .op (.hookInterrupt reason) k) : ∃ task, σ = .started task := by
  rw [hr] at hhosts
  obtain ⟨task, hσ, -⟩ := hhosts.hook_cases
  exact ⟨task, hσ⟩

/-- The operation right before a registration is a start that is not refused. -/
theorem size_lt_op {reason : Value} {k' : Except FaultId Unit → Routine (Except FaultId Value)}
    (hs : ({ world := w, activity := .turn ⟨id, job, .op o k⟩ } : Scene).Hosted)
    (hrest : k (w.perform env o).1 = .op (.hookInterrupt reason) k') :
    w.session.runs.size < (w.perform env o).2.session.runs.size := by
  obtain ⟨-, σ, -, -, -, hhosts, -⟩ := hs.turn rfl
  cases hhosts with
  | op hσ _ hk =>
    obtain ⟨task, rfl⟩ := exists_started (hk _) hrest
    cases hσ
  | start source herror hok =>
    cases hstart : w.perform env (.start source) with
    | mk reply v =>
      rw [hstart] at hrest
      cases reply with
      | error fault =>
        obtain ⟨task, hσ⟩ := exists_started (herror fault) hrest
        cases hσ
      | ok task => exact Nat.lt_of_lt_of_eq (Nat.lt_succ_self _) (size_of_start hstart).symm
  | hook hok herror =>
    generalize (w.perform env (.hookInterrupt (.text stopReason))).1 = reply at hrest
    cases reply with
    | error fault =>
      obtain ⟨task, hσ⟩ := exists_started (herror fault) hrest
      cases hσ
    | ok =>
      obtain ⟨task, hσ⟩ := exists_started hok hrest
      cases hσ
  | unhook hk =>
    obtain ⟨task, hσ⟩ := exists_started hk hrest
    cases hσ

/-- A job is about to register the handler only when it has just begun another run. -/
theorem HostStep.size_lt (henv : env.LeavesSignals) (hs : s.Hosted) (h : HostStep env s t) (ht : t.Registers) :
    s.world.session.runs.size < t.world.session.runs.size := by
  obtain ⟨id, job, reason, k, hturn⟩ := ht
  obtain ⟨w, id', job', o, k', rfl, rfl⟩ | hsilent := h.op_or_silent henv hs
  · exact size_lt_op hs (congrArg Turn.rest (Activity.turn.inj hturn))
  obtain ⟨now, -, hnow, -, hopen, -⟩ := (h.hosted henv hs).turn hturn
  have hleft : t.left id now = .op (.hookInterrupt reason) k := by simp [left, hturn, Activity.turn?]
  obtain ⟨-, hfree⟩ | ⟨old, hold, hfuture, -, honward⟩ := hsilent.left id now hnow hopen
  · obtain ⟨task, hσ⟩ := exists_started hfree hleft
    cases hσ
  · have holdOpen : s.world.isDone old.future = false := hsilent.follows.futures.open_before (hfuture ▸ hopen)
    obtain ⟨σ, hhosts, -⟩ := hs.code id old hold holdOpen
    obtain ⟨-, hsame⟩ | ⟨hσ, hafter⟩ | ⟨task, -, hafter, -⟩ := honward.hosts hhosts
    · obtain ⟨taken, hbefore⟩ := turn_of_left (hsame.symm.trans hleft)
      exact absurd hbefore (hsilent.still _ _ _ _)
    · obtain ⟨task, rfl⟩ := exists_started hafter hleft
      cases hσ
    · obtain ⟨task', hσ⟩ := exists_started hafter hleft
      cases hσ

/-- While no other run begins, nobody comes by a handler. What is registered stays until somebody removes it, and
then nothing is registered. -/
structure Retains (s t : Scene) : Prop where
  silent : ¬ t.Registers
  holds : ∀ j, t.Holds j → s.Holds j
  handler : (t.world.interrupt = s.world.interrupt ∧ ∀ j, s.Holds j → t.Holds j) ∨
    (t.world.interrupt = none ∧ ∃ j, s.Holds j ∧ ¬ t.Holds j)

/-- While no run begins, a handler that is registered is retained over any steps of hosts, until its job lets it go. -/
theorem HostSteps.retains (hsignals : env.signals = true) (henv : env.LeavesSignals) (hs : s.Hosted)
    (hsilent : ¬ s.Registers) (h : HostSteps env s t) :
    t.Hosted ∧ s.world.session.runs.size ≤ t.world.session.runs.size ∧
      (t.world.session.runs.size = s.world.session.runs.size → s.Retains t) := by
  induction h with
  | refl => exact ⟨hs, Nat.le_refl _, fun _ => ⟨hsilent, fun _ h => h, .inl ⟨rfl, fun _ h => h⟩⟩⟩
  | @tail a b _ hstep ih =>
    obtain ⟨hhosted, hle, hretains⟩ := ih
    have hmore := (hstep.follows henv hhosted).runs
    refine ⟨hstep.hosted henv hhosted, Nat.le_trans hle hmore, fun hsize => ?_⟩
    have hsame : b.world.session.runs.size = a.world.session.runs.size := by omega
    obtain ⟨hquiet, hheld, hhandler⟩ := hretains (by omega)
    have hnone : ¬ b.Registers := fun hb => absurd (hstep.size_lt henv hhosted hb) (by omega)
    cases hstep.handles hsignals henv hhosted with
    | registers hturn => exact absurd ⟨_, _, _, _, hturn⟩ hquiet
    | @removes id _ _ _ hinterrupt hid hholds =>
      refine ⟨hnone, fun j hj => hheld j ((hholds j).1 hj).1, .inr ⟨hinterrupt, id, hheld id hid, fun hj => ?_⟩⟩
      exact ((hholds id).1 hj).2 rfl
    | neither hinterrupt hholds =>
      refine ⟨hnone, fun j hj => hheld j ((hholds j).1 hj), ?_⟩
      obtain ⟨hkept, hstays⟩ | ⟨hgone, j, hj, hleft⟩ := hhandler
      · exact .inl ⟨hinterrupt.trans hkept, fun j hj => (hholds j).2 (hstays j hj)⟩
      · exact .inr ⟨hinterrupt.trans hgone, j, hj, fun hb => hleft ((hholds j).1 hb)⟩

/-- A job waits for a task, and has a handler to remove then. -/
def Waits (s : Scene) (j : JobId) (task : FutureId) : Prop :=
  ∃ job : Job, s.world.jobs[j]? = some job ∧ s.world.isDone job.future = false ∧ (s.left j job).Hosts (.waits task)

/-- A job that waits for a task goes on to wait until the task is done. -/
theorem HostStep.waits (henv : env.LeavesSignals) (hs : s.Hosted) (h : HostStep env s t) (hwaits : s.Waits j task) :
    t.Waits j task ∨ t.world.isDone task = true := by
  obtain ⟨old, hold, holdOpen, hhosts⟩ := hwaits
  obtain ⟨w, id, job, o, k, rfl, rfl⟩ | hsilent := h.op_or_silent henv hs
  · have hne : id ≠ j := by
      rintro rfl
      obtain ⟨k', hk', -⟩ := hhosts.of_waits
      rw [left_self] at hk'
      cases hk'
    obtain ⟨now, hnow, hdone, hleft⟩ :=
      other_kept henv hs.intact.sound hne job hold (.op o k) (k (w.perform env o).1)
    exact .inl ⟨now, hnow, hdone.trans holdOpen, hleft ▸ hhosts⟩
  · obtain ⟨now, hnow, hopen, honward⟩ := hsilent.goes_on hs hold holdOpen (hhosts.holds_iff.2 trivial)
    obtain ⟨hafter, -⟩ | ⟨hσ, -⟩ | ⟨task', hσ, -, hdone⟩ := honward.hosts hhosts
    · exact .inl ⟨now, hnow, hopen, hafter⟩
    · cases hσ
    · cases hσ
      exact .inr (hsilent.follows.futures.isDone hdone)

/-- A host that waits for a task does so until the task is done. -/
theorem HostSteps.waits (henv : env.LeavesSignals) (hs : s.Hosted) (h : HostSteps env s t) (hwaits : s.Waits j task) :
    t.Hosted ∧ (t.Waits j task ∨ t.world.isDone task = true) := by
  induction h with
  | refl => exact ⟨hs, .inl hwaits⟩
  | tail _ hstep ih =>
    obtain ⟨hhosted, hwaits | hdone⟩ := ih
    · exact ⟨hstep.hosted henv hhosted, hstep.waits henv hhosted hwaits⟩
    · exact ⟨hstep.hosted henv hhosted, .inr ((hstep.follows henv hhosted).futures.isDone hdone)⟩

/-- Hosts forget no run over any steps. -/
theorem HostSteps.grows (henv : env.LeavesSignals) (hs : s.Hosted) (h : HostSteps env s t) :
    t.Hosted ∧ s.world.session.runs.size ≤ t.world.session.runs.size := by
  induction h with
  | refl => exact ⟨hs, Nat.le_refl _⟩
  | tail _ hstep ih =>
    obtain ⟨hhosted, hle⟩ := ih
    exact ⟨hstep.hosted henv hhosted, Nat.le_trans hle (hstep.follows henv hhosted).runs⟩

/-- While a run is active no other one begins. -/
theorem size_of_active (hs : s.Hosted) (hu : u.Hosted) (hle : s.world.session.runs.size ≤ u.world.session.runs.size)
    (hactive : (u.world.runOf s.world.session.current).status.isActive = true) :
    u.world.session.runs.size = s.world.session.runs.size := by
  have hbefore : 0 < s.world.session.runs.size := hs.intact.sound.nonempty
  have hafter : 0 < u.world.session.runs.size := hu.intact.sound.nonempty
  cases hrun : u.world.session.runs[s.world.session.current]? with
  | none =>
    rw [runOf, hrun] at hactive
    cases hactive
  | some run =>
    rw [runOf_of_get hrun] at hactive
    have hcurrent : s.world.session.runs.size - 1 = u.world.session.runs.size - 1 :=
      hu.intact.sound.active_current _ run hrun hactive
    omega

/-- A handler is registered by a host that has just started the current run, and waits for it then. -/
theorem HostStep.registered (hsignals : env.signals = true) (hs : s.Hosted) {reason : Value}
    {k : Except FaultId Unit → Routine (Except FaultId Value)}
    (hturn : s.activity = .turn ⟨j, job, .op (.hookInterrupt reason) k⟩) (h : HostStep env s t) :
    ∃ task, s.CurrentTask task ∧ t.Waits j task ∧ t.world.interrupt = some (.text stopReason) := by
  obtain ⟨before, σ, hbefore, -, hopen, hhosts, hsuits⟩ := hs.turn hturn
  obtain ⟨task, rfl, rfl, hwaits⟩ := hhosts.hook_cases
  obtain ⟨w, activity⟩ := s
  cases hturn
  cases h with
  | step h =>
    cases h with
    | next hnext =>
      have hreached : t = Turn.advance env ⟨j, job, .op (.hookInterrupt (.text stopReason)) k⟩ w :=
        (Option.some.inj hnext).symm
      simp only [Turn.advance, perform_hookInterrupt hsignals] at hreached
      subst hreached
      refine ⟨task, hsuits, ⟨before, hbefore, hopen, ?_⟩, rfl⟩
      rw [left_self]
      exact hwaits

/-- What is registered for a run stays while the run is active, until somebody who was to remove a handler by then
has done so. -/
theorem registered_iff_held (hsignals : env.signals = true) (henv : env.LeavesSignals) (hs : s.Hosted) {reason : Value}
    {k : Except FaultId Unit → Routine (Except FaultId Value)}
    (hturn : s.activity = .turn ⟨j, job, .op (.hookInterrupt reason) k⟩) (ht : HostStep env s t)
    (hu : HostSteps env t u) (hactive : (u.world.runOf s.world.session.current).status.isActive = true) :
    u.world.interrupt = some (.text stopReason) ↔ ∀ i, t.Holds i → u.Holds i := by
  have hhosted := ht.hosted henv hs
  obtain ⟨task, -, -, hinterrupt⟩ := ht.registered hsignals hs hturn
  have hfirst := (ht.follows henv hs).runs
  obtain ⟨hafter, hmore⟩ := HostSteps.grows henv hhosted hu
  have hsize := size_of_active hs hafter (Nat.le_trans hfirst hmore) hactive
  have hquiet : ¬ t.Registers := fun hregisters => absurd (ht.size_lt henv hs hregisters) (by omega)
  obtain ⟨-, -, hretains⟩ := HostSteps.retains hsignals henv hhosted hquiet hu
  obtain ⟨-, -, ⟨hkept, hstays⟩ | ⟨hgone, i, hheld, hleft⟩⟩ := hretains (by omega)
  · exact ⟨fun _ => hstays, fun _ => hkept.trans hinterrupt⟩
  · refine ⟨fun hregistered => ?_, fun hstays => absurd (hstays i hheld) hleft⟩
    rw [hgone] at hregistered
    cases hregistered

/-- What comes about in a number of steps in which the handler stays as it is. -/
def LeadsTo (env : Env) (n : Nat) (s : Scene) (a : Activity) : Prop :=
  (s.after env n).activity = a ∧ ∀ m ≤ n, (s.after env m).world.interrupt = s.world.interrupt

theorem leadsTo_zero (s : Scene) : LeadsTo env 0 s s.activity :=
  ⟨rfl, fun m hm => by
    cases hm
    rfl⟩

/-- A turn leads on over an operation that leaves the handler as it is. -/
theorem leadsTo_op (henv : env.LeavesSignals) (ho : o.LeavesSignals) {n : Nat} {a : Activity}
    (h : LeadsTo env n
      { world := (w.perform env o).2, activity := .turn ⟨id, job, k (w.perform env o).1⟩ } a) :
    LeadsTo env (n + 1) { world := w, activity := .turn ⟨id, job, .op o k⟩ } a := by
  refine ⟨h.1, fun m hm => ?_⟩
  cases m with
  | zero => rfl
  | succ m => exact (h.2 m (Nat.le_of_succ_le_succ hm)).trans (perform_interrupt henv ho w)

/-- A start is refused while a run is active. -/
theorem start_refused (env : Env) (source : String) (hactive : w.session.isActive = true) :
    ∃ id v, w.perform env (.start source) = (.error id, v) := by
  obtain ⟨-, heq⟩ | ⟨hidle, -⟩ := start_cases (env.program source) source w
  · exact ⟨_, _, heq⟩
  · rw [hactive] at hidle
    cases hidle

theorem print_session (w : World) (category text : String) : (w.print category text).session = w.session := by
  simp only [World.print]
  split <;> rfl

/-- A call that is made while a run is active is refused, and leaves the handler alone. -/
theorem refused (henv : env.LeavesSignals) {source : String} {k : Except FaultId Exit → Routine (Except FaultId Value)}
    (hturn : s.activity = .turn ⟨j, job, (Host.runProgram source).run.bind k⟩)
    (hactive : s.world.session.isActive = true) :
    LeadsTo env 4 s (.turn ⟨j, job, k (.ok .error)⟩) := by
  obtain ⟨w, activity⟩ := s
  rw [Host.runProgram_eq] at hturn
  cases hturn
  have hprinted : (w.perform env (.print "input" source)).2.session = w.session := print_session w _ _
  obtain ⟨id, v, hstart⟩ := start_refused env source ((congrArg Session.isActive hprinted).trans hactive)
  refine leadsTo_op henv (o := .print "input" source) trivial (leadsTo_op henv (o := .start source) trivial ?_)
  rw [hstart]
  -- the fault is looked up, and its message printed
  exact leadsTo_op henv (o := .describe id) trivial (leadsTo_op henv (o := .print "error" _) trivial (leadsTo_zero _))

/-- No handler is registered where no call is under way. -/
theorem none_of_calls (hsignals : env.signals = true) (henv : env.LeavesSignals) (hs : HostReachable env s)
    (hcalls : ∀ (j : JobId) (job : Job), s.world.jobs[j]? = some job → s.world.isDone job.future = false →
      (s.left j job).Calls) : s.world.interrupt = none := by
  cases hinterrupt : s.world.interrupt with
  | none => rfl
  | some x =>
    obtain ⟨-, j, job, hj, hopen, hholds⟩ := hs.held hsignals henv hinterrupt
    exact ((hcalls j job hj hopen).hosts.holds_iff.1 hholds).elim

/-- Assume that interrupts can be handled (`env.signals`), that programs and listeners leave the handler to the hosts, and
a scene that hosts reach. `hookInterrupt` is performed by a host for the run that it started last, and registers the
handler; from then on, while that run is active, the handler is registered exactly if each job that held one still does. A
call of `runProgram` refused by `start` leaves it alone, and where no call is under way none is registered. -/
theorem handler_stays_while_held (hsignals : env.signals = true) (henv : env.LeavesSignals)
    (hs : HostReachable env s) :
    (∀ (j : JobId) (job : Job) (reason : Value) (k : Except FaultId Unit → Routine (Except FaultId Value)) (t : Scene),
      s.activity = .turn ⟨j, job, .op (.hookInterrupt reason) k⟩ → HostStep env s t →
      ∃ task, s.CurrentTask task ∧ t.Waits j task ∧ t.world.interrupt = some (.text stopReason) ∧
        ∀ u, HostSteps env t u → (u.Waits j task ∨ u.world.isDone task = true) ∧
          ((u.world.runOf s.world.session.current).status.isActive = true →
            (u.world.interrupt = some (.text stopReason) ↔ ∀ i, t.Holds i → u.Holds i))) ∧
    (∀ (j : JobId) (job : Job) (source : String) (k : Except FaultId Exit → Routine (Except FaultId Value)),
      s.activity = .turn ⟨j, job, (Host.runProgram source).run.bind k⟩ → s.world.session.isActive = true →
      (s.after env 4).activity = .turn ⟨j, job, k (.ok .error)⟩ ∧
        ∀ n ≤ 4, (s.after env n).world.interrupt = s.world.interrupt) ∧
    ((∀ (j : JobId) (job : Job), s.world.jobs[j]? = some job → s.world.isDone job.future = false →
      (s.left j job).Calls) → s.world.interrupt = none) := by
  have hhosted := hs.hosted henv
  refine ⟨fun j job reason k t hturn ht => ?_, fun j job source k => refused henv, none_of_calls hsignals henv hs⟩
  obtain ⟨task, hcurrent, hwaits, hinterrupt⟩ := ht.registered hsignals hhosted hturn
  refine ⟨task, hcurrent, hwaits, hinterrupt, fun u hu => ⟨?_, ?_⟩⟩
  · exact (HostSteps.waits henv (ht.hosted henv hhosted) hu hwaits).2
  · exact registered_iff_held hsignals henv hhosted hturn ht hu

/-- Any number of turns of the loop are steps of hosts. -/
theorem hostSteps_after (n : Nat) (s : Scene) : HostSteps env s (s.after env n) :=
  Relation.ReflTransGen.mono (fun _ _ => HostStep.step) s (s.after env n) (steps_after n s)

theorem turtleEnv_leavesSignals : turtleEnv.LeavesSignals :=
  ⟨Words.all_execute (fun _ => trivial) (fun _ => trivial) (fun _ => trivial) (fun _ _ => trivial) (fun _ _ => trivial)
    turtleWords, fun _ _ => trivial⟩

/-- A host has registered the handler and waits for its run, that of an empty program. -/
def hostWaits : Scene := ({ world := (({} : World).addJob (Launch.runProgram "")).2 } : Scene).after turtleEnv 5

/-- Another one has started its run since, before the first has come back. -/
def nextStarts : Scene := ({ world := (hostWaits.world.addJob (Launch.runProgram "pd")).2 } : Scene).after turtleEnv 6

/-- The state in which a second program is about to hook interrupts is reached. -/
theorem nextStarts_reachable : HostReachable turtleEnv nextStarts := by
  have hfirst : HostSteps turtleEnv { world := {} } hostWaits :=
    .head (.spawn _ (calls_runProgram "")) (hostSteps_after 5 _)
  have hnext : HostSteps turtleEnv { world := hostWaits.world } nextStarts :=
    .head (.spawn _ (calls_runProgram "pd")) (hostSteps_after 6 _)
  exact ⟨{}, World.fresh_empty, rfl, hfirst.trans hnext⟩

/-- The second program is about to hook interrupts. -/
theorem nextStarts_registers : ∃ (job : Job) (k : Except FaultId Unit → Routine (Except FaultId Value)),
    nextStarts.activity = .turn ⟨2, job, .op (.hookInterrupt (.text stopReason)) k⟩ := ⟨_, _, rfl⟩

/-- The second host has registered the handler. -/
def nextWaits : Scene := nextStarts.after turtleEnv 1

/-- The first host has come back and removed it. -/
def lateRemoves : Scene := nextWaits.after turtleEnv 3

/-- The run of the second host is active, and the first host has removed the handler of both. -/
theorem lateRemoves_unheld : HostSteps turtleEnv nextWaits lateRemoves ∧
    nextWaits.world.interrupt = some (.text stopReason) ∧
    (lateRemoves.world.runOf nextStarts.world.session.current).status = .running ∧
    ∃ i, nextWaits.Holds i ∧ ¬ lateRemoves.Holds i := by
  obtain ⟨job, k, hturn⟩ := nextStarts_registers
  obtain ⟨hregistered, -⟩ := handler_stays_while_held rfl turtleEnv_leavesSignals nextStarts_reachable
  obtain ⟨task, -, -, hinterrupt, hlater⟩ := hregistered 2 job _ k nextWaits hturn (.step (.next rfl))
  have hsteps : HostSteps turtleEnv nextWaits lateRemoves := hostSteps_after 3 _
  have hrunning : (lateRemoves.world.runOf nextStarts.world.session.current).status = .running := rfl
  have hnone : lateRemoves.world.interrupt = none := rfl
  refine ⟨hsteps, hinterrupt, hrunning, ?_⟩
  by_contra hall
  have hstays := ((hlater lateRemoves hsteps).2 rfl).2 fun i hi => by_contra fun hnot => hall ⟨i, hi, hnot⟩
  rw [hnone] at hstays
  cases hstays

/-- A run may be active with no handler registered, though its host has registered one: another host has removed it. -/
theorem not_registered_while_active : ¬ ∀ (env : Env) (s t u : Scene) (j : JobId) (job : Job) (reason : Value)
    (k : Except FaultId Unit → Routine (Except FaultId Value)), env.signals = true → env.LeavesSignals →
    HostReachable env s → s.activity = .turn ⟨j, job, .op (.hookInterrupt reason) k⟩ → HostStep env s t →
    HostSteps env t u → (u.world.runOf s.world.session.current).status.isActive = true →
    u.world.interrupt = some (.text stopReason) := by
  intro hregistered
  obtain ⟨job, k, hturn⟩ := nextStarts_registers
  have hlate := hregistered turtleEnv nextStarts nextWaits lateRemoves 2 job _ k rfl turtleEnv_leavesSignals
    nextStarts_reachable hturn (.step (.next rfl)) (hostSteps_after 3 _) rfl
  have hnone : lateRemoves.world.interrupt = none := rfl
  rw [hnone] at hlate
  cases hlate

end Scene

end SteppedLogo
